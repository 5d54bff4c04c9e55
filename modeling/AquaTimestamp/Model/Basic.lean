import AquaTimestamp.Support.Hex
import AquaTimestamp.Support.Partition

/-!
# Hashes, anchor methods and leaf text

The values every part of the aggregator shares: 32-byte hashes, the two anchor
methods with their storage bytes, and the leaf decoding rules of `merkle.rs`.
Unsigned 64-bit counters and times are natural numbers; the one place where
the width shows is the saturating addition.
-/

namespace AquaTimestamp

open Support

/-- `u64::MAX`. -/
def u64Max : Nat := 2 ^ 64 - 1

/-- `u128::MAX`. -/
def u128Max : Nat := 2 ^ 128 - 1

/-- `u64::saturating_add`. -/
def saturatingAdd (a b : Nat) : Nat :=
  min (a + b) u64Max

/-- A 32-byte SHA3-256 leaf, revision digest or root. -/
abbrev Hash32 := Vector UInt8 32

instance hash32TransOrd : Std.TransOrd Hash32 :=
  inferInstance

/-! ## Anchor methods -/

/-- Anchor methods advertised by the aggregator. -/
inductive AnchorMethod where
  | evm
  | qtsa
  deriving DecidableEq, Repr

namespace AnchorMethod

def asStr : AnchorMethod → String
  | .evm => "evm"
  | .qtsa => "qtsa"

/-- The byte of a method inside composite storage keys. -/
def methodByte : AnchorMethod → UInt8
  | .evm => 0x01
  | .qtsa => 0x02

/-- Inverse of `methodByte`; `none` for an unknown byte. -/
def fromMethodByte (byte : UInt8) : Option AnchorMethod :=
  if byte = 0x01 then some .evm
  else if byte = 0x02 then some .qtsa
  else none

def parse (input : String) : Option AnchorMethod :=
  if input = "evm" then some .evm
  else if input = "qtsa" then some .qtsa
  else none

theorem methodByte_injective {m m' : AnchorMethod}
    (h : m.methodByte = m'.methodByte) : m = m' := by
  cases m <;> cases m' <;> first | rfl | exact absurd h (by decide)

theorem methodByte_inj {m m' : AnchorMethod} :
    m.methodByte = m'.methodByte ↔ m = m' :=
  ⟨methodByte_injective, fun h => h ▸ rfl⟩

/-- A property of both methods is checked method by method. -/
instance decidableForall {P : AnchorMethod → Prop} [DecidablePred P] :
    Decidable (∀ m, P m) :=
  decidable_of_iff (P .evm ∧ P .qtsa)
    ⟨fun h m => by cases m; exacts [h.1, h.2], fun h => ⟨h .evm, h .qtsa⟩⟩

theorem parse_asStr (m : AnchorMethod) : parse m.asStr = some m := by
  cases m <;> decide

end AnchorMethod

/-! ## Leaf text -/

/-- Errors of parsing a submitted leaf. -/
inductive LeafParseError where
  | badLength (len : Nat)
  | badHex (e : Hex.FromHexError)
  deriving DecidableEq, Repr

/-- `str::strip_prefix`, giving the text itself when the start differs. -/
def stripStart (start text : List Char) : List Char :=
  if start.isPrefixOf text then text.drop start.length else text

/-- `str::get(..n)` with the rest: `none` when byte `n` is inside a character
or past the end. -/
def splitAtByte : Nat → List Char → Option (List Char × List Char)
  | 0, cs => some ([], cs)
  | _ + 1, [] => none
  | n + 1, c :: cs =>
      if c.utf8Size ≤ n + 1 then
        (splitAtByte (n + 1 - c.utf8Size) cs).map fun p => (c :: p.1, p.2)
      else none

/-- The 32 bytes of a slice, when it has that length (`<[u8; 32]>::try_from`). -/
def toHash32 (bytes : List UInt8) : Option Hash32 :=
  if h : bytes.length = 32 then some ⟨bytes.toArray, by simpa using h⟩ else none

/-- `parse_leaf_hex`: the bare digest, or `1620` and the digest, each with an
optional `0x`. -/
def parseLeafHex (input : String) : Except LeafParseError Hash32 :=
  let trimmed := stripStart ['0', 'x'] input.toList
  let digestHex :=
    match splitAtByte 4 trimmed with
    | some (start, rest) =>
        if Hex.byteLength trimmed = 4 + 64 ∧ start = ['1', '6', '2', '0'] then
          rest
        else trimmed
    | none => trimmed
  if Hex.byteLength digestHex ≠ 64 then
    .error (.badLength (Hex.byteLength trimmed))
  else
    match Hex.decode digestHex with
    | .error e => .error (.badHex e)
    | .ok bytes =>
        match toHash32 bytes with
        | some h => .ok h
        | none => .error (.badLength (Hex.byteLength trimmed))

/-- `hex_lower`: `0x` and the lowercase digits. -/
def hexLower (h : Hash32) : String :=
  String.ofList ('0' :: 'x' :: Hex.encode h.toList)

@[simp]
theorem toHash32_toList (h : Hash32) : toHash32 h.toList = some h := by
  have hlen : h.toList.length = 32 := by simp
  rw [toHash32, dif_pos hlen]
  congr 1

theorem toHash32_eq_some {bytes : List UInt8} {h : Hash32}
    (hbytes : toHash32 bytes = some h) : bytes = h.toList := by
  unfold toHash32 at hbytes
  split at hbytes
  · cases hbytes
    simp
  · cases hbytes

/-- Splitting at a byte cuts the text between two characters. -/
theorem splitAtByte_eq_some_iff : ∀ {n : Nat} {cs a b : List Char},
    splitAtByte n cs = some (a, b) ↔ cs = a ++ b ∧ Hex.byteLength a = n
  | 0, cs, a, b => by
      rw [splitAtByte, Option.some.injEq, Prod.mk.injEq]
      constructor
      · rintro ⟨rfl, rfl⟩
        exact ⟨rfl, rfl⟩
      · rintro ⟨rfl, hzero⟩
        obtain rfl := Hex.eq_nil_of_byteLength hzero
        exact ⟨rfl, rfl⟩
  | n + 1, [], a, b => by
      rw [splitAtByte]
      constructor
      · rintro ⟨⟩
      · rintro ⟨hnil, hlength⟩
        obtain ⟨rfl, rfl⟩ := List.nil_eq_append_iff.mp hnil
        cases hlength
  | n + 1, c :: cs, a, b => by
      have hpos := Char.utf8Size_pos c
      rw [splitAtByte]
      constructor
      · intro h
        split at h
        · rename_i hfits
          obtain ⟨⟨a', b'⟩, hsplit, heq⟩ := Option.map_eq_some_iff.mp h
          obtain ⟨rfl, rfl⟩ := Prod.mk.inj heq
          obtain ⟨rfl, hlength⟩ := splitAtByte_eq_some_iff.mp hsplit
          rw [Hex.byteLength_cons, hlength]
          exact ⟨rfl, by omega⟩
        · cases h
      · rintro ⟨hcs, hlength⟩
        cases a with
        | nil => cases hlength
        | cons c' a =>
            rw [List.cons_append] at hcs
            obtain ⟨rfl, rfl⟩ := List.cons.inj hcs
            rw [Hex.byteLength_cons] at hlength
            have hrest : splitAtByte (n + 1 - c.utf8Size) (a ++ b) = some (a, b) :=
              splitAtByte_eq_some_iff.mpr ⟨rfl, by omega⟩
            rw [if_pos (by omega), hrest]
            rfl

/-- The code of SHA3-256 with the digest's length, in digits. -/
theorem byteLength_multihash : Hex.byteLength ['1', '6', '2', '0'] = 4 := by
  simp [Hex.byteLength, Char.utf8Size]

/-- A text parses to a hash when it is the hash's digits, bare or after `1620`,
once a leading `0x` is gone. -/
theorem parseLeafHex_eq_ok_iff {input : String} {h : Hash32} :
    parseLeafHex input = .ok h ↔ ∃ digits : List Char,
      digits.map Char.toLower = Hex.encode h.toList ∧
        (stripStart ['0', 'x'] input.toList = digits ∨
          stripStart ['0', 'x'] input.toList =
            ['1', '6', '2', '0'] ++ digits) := by
  unfold parseLeafHex
  generalize stripStart ['0', 'x'] input.toList = trimmed
  constructor
  · intro hparse
    -- Whatever was taken for the digits, it decodes to the hash.
    have hdecoded : ∀ digits : List Char,
        (if Hex.byteLength digits ≠ 64 then
            .error (.badLength (Hex.byteLength trimmed))
          else
            match Hex.decode digits with
            | .error e => .error (.badHex e)
            | .ok bytes =>
                match toHash32 bytes with
                | some h => .ok h
                | none => .error (.badLength (Hex.byteLength trimmed)) :
          Except LeafParseError Hash32) = .ok h →
        digits.map Char.toLower = Hex.encode h.toList := by
      intro digits hdigits
      split at hdigits
      · cases hdigits
      · split at hdigits
        · cases hdigits
        · rename_i bytes hbytes
          split at hdigits
          · rename_i h' hhash
            cases hdigits
            rw [← toHash32_eq_some hhash]
            exact Hex.decode_eq_ok_iff.mp hbytes
          · cases hdigits
    dsimp only at hparse
    split at hparse
    · rename_i start rest hsplit
      split at hparse
      · rename_i hmultihash
        obtain ⟨rfl, -⟩ := splitAtByte_eq_some_iff.mp hsplit
        obtain ⟨-, rfl⟩ := hmultihash
        exact ⟨rest, hdecoded rest hparse, Or.inr rfl⟩
      · exact ⟨trimmed, hdecoded trimmed hparse, Or.inl rfl⟩
    · exact ⟨trimmed, hdecoded trimmed hparse, Or.inl rfl⟩
  · rintro ⟨digits, hlower, hform⟩
    have hdecode := Hex.decode_eq_ok_iff.mpr hlower
    have hlength : Hex.byteLength digits = 64 := by
      rw [(Hex.allDigits_of_lower hlower).byteLength, ← List.length_map,
        hlower, Hex.length_encode]
      simp
    rcases hform with rfl | rfl
    · have hbare : (match splitAtByte 4 trimmed with
          | some (start, rest) =>
              if Hex.byteLength trimmed = 4 + 64 ∧
                  start = ['1', '6', '2', '0'] then rest
              else trimmed
          | none => trimmed) = trimmed := by
        split
        · rw [if_neg (by omega)]
        · rfl
      simp only [hbare]
      simp only [hlength, hdecode, toHash32_toList, ne_eq, not_true_eq_false,
        if_false]
    · have hsplit : splitAtByte 4 (['1', '6', '2', '0'] ++ digits) =
          some (['1', '6', '2', '0'], digits) :=
        splitAtByte_eq_some_iff.mpr ⟨rfl, byteLength_multihash⟩
      have hwhole : Hex.byteLength (['1', '6', '2', '0'] ++ digits) = 4 + 64 := by
        rw [Hex.byteLength_append, byteLength_multihash, hlength]
      simp only [hsplit, hwhole, and_self, if_true, hlength, hdecode,
        toHash32_toList, ne_eq, not_true_eq_false, if_false]

/-- Encoded digits are their own lowercase. -/
theorem lower_encode (bytes : List UInt8) :
    (Hex.encode bytes).map Char.toLower = Hex.encode bytes :=
  Hex.decode_eq_ok_iff.mp (Hex.decode_encode bytes)

/-- The digits of a hash parse to the hash, once a leading `0x` is gone. -/
theorem parseLeafHex_of_digits {h : Hash32} {input : String}
    (htrim : stripStart ['0', 'x'] input.toList = Hex.encode h.toList) :
    parseLeafHex input = .ok h :=
  parseLeafHex_eq_ok_iff.mpr ⟨_, lower_encode h.toList, Or.inl htrim⟩

/-- The multihash of a hash parses to the hash, once a leading `0x` is gone. -/
theorem parseLeafHex_of_multihash {h : Hash32} {input : String}
    (htrim : stripStart ['0', 'x'] input.toList =
      '1' :: '6' :: '2' :: '0' :: Hex.encode h.toList) :
    parseLeafHex input = .ok h :=
  parseLeafHex_eq_ok_iff.mpr ⟨_, lower_encode h.toList, Or.inr htrim⟩

/-- `0x` is no start of a text of digits. -/
theorem stripStart_of_allDigits {cs : List Char} (h : Hex.AllDigits cs) :
    stripStart ['0', 'x'] cs = cs := by
  unfold stripStart
  split
  · rename_i hprefix
    obtain ⟨rest, rfl⟩ := List.isPrefixOf_iff_prefix.mp hprefix
    have hdigit := h 'x' (by simp)
    cases hdigit
  · rfl

/-- The bare digits of a hash parse to the hash. -/
theorem parseLeafHex_encode (h : Hash32) :
    parseLeafHex (String.ofList (Hex.encode h.toList)) = .ok h := by
  refine parseLeafHex_of_digits ?_
  rw [String.toList_ofList]
  exact stripStart_of_allDigits (Hex.allDigits_of_lower (lower_encode h.toList))

/-- The displayed form of a hash parses to the hash. -/
theorem parseLeafHex_hexLower (h : Hash32) : parseLeafHex (hexLower h) = .ok h := by
  refine parseLeafHex_of_digits ?_
  rw [hexLower, String.toList_ofList]
  rfl

/-- The wire form of a digest: `0x`, the code of SHA3-256 with the digest's
length, and the digest. -/
def wireForm (h : Hash32) : String :=
  String.ofList ("0x1620".toList ++ Hex.encode h.toList)

theorem parseLeafHex_wireForm (h : Hash32) : parseLeafHex (wireForm h) = .ok h := by
  refine parseLeafHex_of_multihash ?_
  have hchars : (wireForm h).toList = "0x1620".toList ++ Hex.encode h.toList :=
    String.toList_ofList
  rw [hchars]
  rfl

end AquaTimestamp
