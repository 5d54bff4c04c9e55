import Mathlib.Tactic.Common
import Mathlib.Tactic.IntervalCases

/-!
# Hexadecimal text of byte strings

The codec of the `hex` crate over lists of characters: lowercase on encoding,
either case on decoding, and the crate's two errors with the byte position of
the offending character.
-/

namespace AquaTimestamp.Support.Hex

/-- The number of bytes of a text in UTF-8. -/
def byteLength (cs : List Char) : Nat :=
  (cs.map Char.utf8Size).sum

/-- Why a text is not hexadecimal. -/
inductive FromHexError where
  | oddLength
  | invalidHexCharacter (c : Char) (index : Nat)
  deriving DecidableEq, Repr

/-- The text of an error, as it is displayed. -/
def FromHexError.display : FromHexError → String
  | .oddLength => "Odd number of digits"
  | .invalidHexCharacter c index =>
      "Invalid character '" ++ String.singleton c ++ "' at position " ++
        toString index

/-- The lowercase digit of a value below 16. -/
def digit (n : Nat) : Char :=
  if n < 10 then Char.ofNat (48 + n) else Char.ofNat (87 + n)

/-- The value of a hexadecimal digit, in either case. -/
def digitValue (c : Char) : Option Nat :=
  if 48 ≤ c.toNat ∧ c.toNat ≤ 57 then some (c.toNat - 48)
  else if 97 ≤ c.toNat ∧ c.toNat ≤ 102 then some (c.toNat - 87)
  else if 65 ≤ c.toNat ∧ c.toNat ≤ 70 then some (c.toNat - 55)
  else none

@[simp]
theorem byteLength_cons (c : Char) (cs : List Char) :
    byteLength (c :: cs) = c.utf8Size + byteLength cs :=
  List.sum_cons

theorem byteLength_append (a b : List Char) :
    byteLength (a ++ b) = byteLength a + byteLength b := by
  rw [byteLength, List.map_append, List.sum_append]
  rfl

theorem eq_nil_of_byteLength {cs : List Char} (h : byteLength cs = 0) : cs = [] := by
  cases cs with
  | nil => rfl
  | cons c cs =>
      have hpos := Char.utf8Size_pos c
      rw [byteLength_cons] at h
      omega

/-- Two digits for each byte, high half first. -/
def encode : List UInt8 → List Char
  | [] => []
  | b :: bs => digit (b.toNat / 16) :: digit (b.toNat % 16) :: encode bs

/-- The first byte of a character's UTF-8 form, shown as a character. -/
def leadByte (c : Char) : Char :=
  Char.ofNat ((String.utf8EncodeChar c).headD 0).toNat

/-- Decode digit pairs; `index` is the byte position of the first character.
Everything before it was a digit, so characters and bytes still agree; a
character left over at the end of an even number of bytes is a wide one. -/
def decodePairs (index : Nat) : List Char → Except FromHexError (List UInt8)
  | [] => .ok []
  | [c] => .error (.invalidHexCharacter (leadByte c) index)
  | hi :: lo :: cs =>
      match digitValue hi, digitValue lo with
      | some h, some l =>
          (decodePairs (index + 2) cs).map (UInt8.ofNat (16 * h + l) :: ·)
      | none, _ => .error (.invalidHexCharacter (leadByte hi) index)
      | some _, none =>
          .error (.invalidHexCharacter (leadByte lo) (index + 1))

/-- `hex::decode`: the length in bytes is checked before any digit. -/
def decode (cs : List Char) : Except FromHexError (List UInt8) :=
  if byteLength cs % 2 ≠ 0 then .error .oddLength else decodePairs 0 cs

@[simp]
theorem digitValue_digit {n : Nat} (hn : n < 16) :
    digitValue (digit n) = some n := by
  interval_cases n <;> decide

theorem utf8Size_digit {n : Nat} (hn : n < 16) :
    (digit n).utf8Size = 1 := by
  interval_cases n <;> decide

theorem byteLength_encode (bs : List UInt8) :
    byteLength (encode bs) = 2 * bs.length := by
  induction bs with
  | nil => rfl
  | cons b bs ih =>
      have hhi := utf8Size_digit (n := b.toNat / 16) (by have := b.toNat_lt; omega)
      have hlo := utf8Size_digit (n := b.toNat % 16) (by omega)
      rw [encode, byteLength_cons, byteLength_cons, hhi, hlo, ih,
        List.length_cons]
      omega

theorem length_encode (bs : List UInt8) :
    (encode bs).length = 2 * bs.length := by
  induction bs with
  | nil => rfl
  | cons b bs ih =>
      simp only [encode, List.length_cons, ih]
      omega

theorem decodePairs_encode (index : Nat) (bs : List UInt8) :
    decodePairs index (encode bs) = .ok bs := by
  induction bs generalizing index with
  | nil => rfl
  | cons b bs ih =>
      have hb := b.toNat_lt
      have hhi : digitValue (digit (b.toNat / 16)) = some (b.toNat / 16) :=
        digitValue_digit (by omega)
      have hlo : digitValue (digit (b.toNat % 16)) = some (b.toNat % 16) :=
        digitValue_digit (by omega)
      have hbyte : UInt8.ofNat (16 * (b.toNat / 16) + b.toNat % 16) = b := by
        rw [Nat.div_add_mod]
        exact UInt8.ofNat_toNat
      simp only [encode, decodePairs, hhi, hlo, ih, hbyte]
      rfl

/-- Decoding what was encoded gives the bytes back. -/
theorem decode_encode (bs : List UInt8) :
    decode (encode bs) = .ok bs := by
  have heven : ¬ byteLength (encode bs) % 2 ≠ 0 := by
    rw [byteLength_encode]
    omega
  rw [decode, if_neg heven, decodePairs_encode]

/-! ## Either case -/

theorem toNat_toLower (c : Char) :
    c.toLower.toNat =
      if 65 ≤ c.toNat ∧ c.toNat ≤ 90 then c.toNat + 32 else c.toNat := by
  unfold Char.toLower
  split
  · rename_i h
    obtain ⟨hlow, hhigh⟩ := h
    have hlow' : 65 ≤ c.val.toNat := UInt32.le_iff_toNat_le.mp hlow
    have hhigh' : c.val.toNat ≤ 90 := UInt32.le_iff_toNat_le.mp hhigh
    rw [if_pos ⟨hlow', hhigh'⟩]
    change (c.val + 32).toNat = c.val.toNat + 32
    have hwidth : (32 : UInt32).toNat = 32 := rfl
    rw [UInt32.toNat_add]
    omega
  · rename_i h
    rw [if_neg]
    rintro ⟨hlow, hhigh⟩
    exact h ⟨UInt32.le_iff_toNat_le.mpr hlow, UInt32.le_iff_toNat_le.mpr hhigh⟩

theorem toNat_digit {n : Nat} (hn : n < 16) :
    (digit n).toNat = if n < 10 then 48 + n else 87 + n := by
  interval_cases n <;> rfl

/-- A character has the value `n` when it is the digit of `n` in some case. -/
theorem digitValue_eq_some_iff {c : Char} {n : Nat} :
    digitValue c = some n ↔ n < 16 ∧ c.toLower = digit n := by
  have hchar : c.toLower = digit n ↔ c.toLower.toNat = (digit n).toNat :=
    Char.toNat_inj.symm
  constructor
  · intro h
    have hn : n < 16 := by
      unfold digitValue at h
      grind
    refine ⟨hn, hchar.mpr ?_⟩
    rw [toNat_toLower, toNat_digit hn]
    unfold digitValue at h
    grind
  · rintro ⟨hn, h⟩
    have hnat := hchar.mp h
    rw [toNat_toLower, toNat_digit hn] at hnat
    unfold digitValue
    grind

theorem utf8Size_of_digitValue {c : Char} (h : (digitValue c).isSome) :
    c.utf8Size = 1 := by
  rw [Char.utf8Size_eq_one_iff, UInt32.le_iff_toNat_le]
  change c.toNat ≤ 127
  unfold digitValue at h
  grind

/-- A text of digits: what decodes, whatever the case of its letters. -/
def AllDigits (cs : List Char) : Prop :=
  ∀ c ∈ cs, (digitValue c).isSome = true

instance decidableAllDigits (cs : List Char) : Decidable (AllDigits cs) :=
  inferInstanceAs (Decidable (∀ c ∈ cs, _))

theorem allDigits_encode (bs : List UInt8) : AllDigits (encode bs) := by
  induction bs with
  | nil =>
      intro c hc
      cases hc
  | cons b bs ih =>
      have hhi : b.toNat / 16 < 16 := by
        have hlt := b.toNat_lt
        omega
      have hlo : b.toNat % 16 < 16 := Nat.mod_lt _ (by decide)
      refine List.forall_mem_cons.mpr ⟨?_, List.forall_mem_cons.mpr ⟨?_, ih⟩⟩
      · rw [digitValue_digit hhi]
        rfl
      · rw [digitValue_digit hlo]
        rfl

theorem AllDigits.byteLength {cs : List Char} (h : AllDigits cs) :
    byteLength cs = cs.length := by
  induction cs with
  | nil => rfl
  | cons c cs ih =>
      have hc := utf8Size_of_digitValue (h c (List.mem_cons_self ..))
      have hcs := ih fun c' hc' => h c' (List.mem_cons_of_mem _ hc')
      rw [byteLength_cons, hc, hcs, List.length_cons]
      omega

theorem decodePairs_cons_cons {index : Nat} {hi lo : Char} {cs : List Char}
    {bs : List UInt8} :
    decodePairs index (hi :: lo :: cs) = .ok bs ↔
      ∃ h l bs', digitValue hi = some h ∧ digitValue lo = some l ∧
        decodePairs (index + 2) cs = .ok bs' ∧
        bs = UInt8.ofNat (16 * h + l) :: bs' := by
  rw [decodePairs]
  constructor
  · intro heq
    split at heq
    · rename_i h l hhi hlo
      cases hrest : decodePairs (index + 2) cs with
      | error e =>
          rw [hrest] at heq
          cases heq
      | ok bs' =>
          rw [hrest] at heq
          cases heq
          exact ⟨h, l, bs', hhi, hlo, rfl, rfl⟩
    · cases heq
    · cases heq
  · rintro ⟨h, l, bs', hhi, hlo, hrest, rfl⟩
    rw [hhi, hlo, hrest]
    rfl

/-- Two digits spell a byte when they are those of its halves in some case. -/
theorem digits_eq_iff {hi lo : Char} {b : UInt8} :
    (∃ h l, digitValue hi = some h ∧ digitValue lo = some l ∧
      b = UInt8.ofNat (16 * h + l)) ↔
      hi.toLower = digit (b.toNat / 16) ∧ lo.toLower = digit (b.toNat % 16) := by
  have hb := b.toNat_lt
  constructor
  · rintro ⟨h, l, hhi, hlo, rfl⟩
    obtain ⟨hh, hhigh⟩ := digitValue_eq_some_iff.mp hhi
    obtain ⟨hl, hlow⟩ := digitValue_eq_some_iff.mp hlo
    have hbyte : (UInt8.ofNat (16 * h + l)).toNat = 16 * h + l := by
      rw [UInt8.toNat_ofNat']
      omega
    rw [hbyte, show (16 * h + l) / 16 = h by omega,
      show (16 * h + l) % 16 = l by omega]
    exact ⟨hhigh, hlow⟩
  · rintro ⟨hhigh, hlow⟩
    refine ⟨b.toNat / 16, b.toNat % 16,
      digitValue_eq_some_iff.mpr ⟨by omega, hhigh⟩,
      digitValue_eq_some_iff.mpr ⟨by omega, hlow⟩, ?_⟩
    rw [Nat.div_add_mod]
    exact UInt8.ofNat_toNat.symm

/-- Decoding succeeds with the bytes whose lowercase text this is. -/
theorem decodePairs_eq_ok_iff : ∀ (index : Nat) (cs : List Char) (bs : List UInt8),
    decodePairs index cs = .ok bs ↔ cs.map Char.toLower = encode bs
  | index, [], bs => by cases bs <;> simp [decodePairs, encode]
  | index, [c], bs => by cases bs <;> simp [decodePairs, encode]
  | index, hi :: lo :: cs, bs => by
      rw [decodePairs_cons_cons]
      constructor
      · rintro ⟨h, l, bs', hhi, hlo, hrest, rfl⟩
        obtain ⟨hhigh, hlow⟩ := digits_eq_iff.mp ⟨h, l, hhi, hlo, rfl⟩
        rw [List.map_cons, List.map_cons, encode, hhigh, hlow,
          (decodePairs_eq_ok_iff (index + 2) cs bs').mp hrest]
      · intro htext
        cases bs with
        | nil => cases htext
        | cons b bs' =>
            rw [List.map_cons, List.map_cons, encode] at htext
            obtain ⟨hhigh, htext⟩ := List.cons.inj htext
            obtain ⟨hlow, hrest⟩ := List.cons.inj htext
            obtain ⟨h, l, hhi, hlo, rfl⟩ := digits_eq_iff.mpr ⟨hhigh, hlow⟩
            exact ⟨h, l, bs', hhi, hlo,
              (decodePairs_eq_ok_iff (index + 2) cs bs').mpr hrest, rfl⟩

theorem allDigits_of_lower {cs : List Char} {bs : List UInt8}
    (h : cs.map Char.toLower = encode bs) : AllDigits cs := by
  induction bs generalizing cs with
  | nil =>
      rw [encode, List.map_eq_nil_iff] at h
      subst h
      exact nofun
  | cons b bs ih =>
      obtain ⟨hi, cs, rfl, hhigh, h⟩ := List.map_eq_cons_iff.mp h
      obtain ⟨lo, cs, rfl, hlow, h⟩ := List.map_eq_cons_iff.mp h
      obtain ⟨x, y, hhi, hlo, -⟩ := digits_eq_iff.mpr ⟨hhigh, hlow⟩
      intro c hc
      rcases List.mem_cons.mp hc with rfl | hc
      · rw [hhi]
        rfl
      · rcases List.mem_cons.mp hc with rfl | hc
        · rw [hlo]
          rfl
        · exact ih h c hc

/-- Decoding undoes encoding, in either case, and decodes nothing else. -/
theorem decode_eq_ok_iff {cs : List Char} {bs : List UInt8} :
    decode cs = .ok bs ↔ cs.map Char.toLower = encode bs := by
  rw [decode]
  constructor
  · intro h
    split at h
    · cases h
    · exact (decodePairs_eq_ok_iff 0 cs bs).mp h
  · intro h
    have hlength : cs.length = 2 * bs.length := by
      rw [← length_encode, ← h, List.length_map]
    rw [if_neg, (decodePairs_eq_ok_iff 0 cs bs).mpr h]
    rw [(allDigits_of_lower h).byteLength, hlength]
    omega

/-- An even number of digits decodes. -/
theorem exists_decode : ∀ (n : Nat) (cs : List Char), cs.length = 2 * n →
    AllDigits cs → ∃ bs, cs.map Char.toLower = encode bs ∧ bs.length = n
  | 0, [], _, _ => ⟨[], rfl, rfl⟩
  | n + 1, hi :: lo :: cs, hlength, hdigits => by
      obtain ⟨h, hhi⟩ := Option.isSome_iff_exists.mp
        (hdigits hi (List.mem_cons_self ..))
      obtain ⟨l, hlo⟩ := Option.isSome_iff_exists.mp
        (hdigits lo (List.mem_cons_of_mem _ (List.mem_cons_self ..)))
      obtain ⟨hhigh, hlow⟩ := digits_eq_iff.mp ⟨h, l, hhi, hlo, rfl⟩
      obtain ⟨bs, hbs, hn⟩ := exists_decode n cs
        (by simp only [List.length_cons] at hlength; omega)
        fun c hc => hdigits c (List.mem_cons_of_mem _ (List.mem_cons_of_mem _ hc))
      refine ⟨UInt8.ofNat (16 * h + l) :: bs, ?_, by rw [List.length_cons, hn]⟩
      rw [List.map_cons, List.map_cons, encode, hhigh, hlow, hbs]

end AquaTimestamp.Support.Hex
