import AquaTimestamp.Support.Hex
import AquaTimestamp.Support.JsonCodec

/-!
# JSON texts of flat objects

A text form prints values and parses texts.  It keeps flat objects when every object
of strings and `u64` numbers is read back from its text, and the text has no control
character: these are escaped inside strings.

The compact form of such objects is defined and shown to keep them.
-/

namespace AquaTimestamp.Support

open JsonValue

/-- A text form of JSON values. -/
structure JsonText where
  print : JsonValue → List Char
  parse : List Char → Except String JsonValue

/-- Every member is a string or a number that fits `u64`. -/
def Flat (members : List (String × JsonValue)) : Prop :=
  ∀ x ∈ members, (∃ s, x.2 = .str s) ∨ ∃ n < 2 ^ 64, x.2 = .num n

/-- Flat objects are read back, and are printed between braces without control
characters. -/
structure JsonText.KeepsFlat (t : JsonText) : Prop where
  parses : ∀ members, Flat members → t.parse (t.print (.obj members)) = .ok (.obj members)
  escapes : ∀ members, Flat members → ∀ c ∈ t.print (.obj members), 32 ≤ c.toNat
  opens : ∀ members, Flat members → (t.print (.obj members)).head? = some '{'

namespace CompactJson

/-! ## Strings -/

/-- A character inside a string. -/
def escapeChar (c : Char) : List Char :=
  if c = '"' then ['\\', '"']
  else if c = '\\' then ['\\', '\\']
  else if c.toNat = 8 then ['\\', 'b']
  else if c.toNat = 9 then ['\\', 't']
  else if c.toNat = 10 then ['\\', 'n']
  else if c.toNat = 12 then ['\\', 'f']
  else if c.toNat = 13 then ['\\', 'r']
  else if c.toNat < 32 then
    ['\\', 'u', '0', '0', Hex.digit (c.toNat / 16), Hex.digit (c.toNat % 16)]
  else [c]

/-- A string between quotes. -/
def printString (s : String) : List Char :=
  '"' :: (s.toList.flatMap escapeChar ++ ['"'])

/-- The character an escape stands for. -/
def unescape (c : Char) : Option Char :=
  if c = '"' ∨ c = '\\' ∨ c = '/' then some c
  else if c = 'b' then some (Char.ofNat 8)
  else if c = 't' then some (Char.ofNat 9)
  else if c = 'n' then some (Char.ofNat 10)
  else if c = 'f' then some (Char.ofNat 12)
  else if c = 'r' then some (Char.ofNat 13)
  else none

/-- Where a reader is inside a string: between characters, after a backslash, or in a
code with `left` more digits after the next one. -/
inductive Reading where
  | plain
  | escape
  | code (left value : Nat)

/-- The rest of a string up to its quote, and what follows it. -/
def readString : Reading → List Char → Option (List Char × List Char)
  | _, [] => none
  | .plain, c :: rest =>
      if c = '"' then some ([], rest)
      else if c = '\\' then readString .escape rest
      else (readString .plain rest).map fun x => (c :: x.1, x.2)
  | .escape, c :: rest =>
      if c = 'u' then readString (.code 3 0) rest
      else (unescape c).bind fun d =>
        (readString .plain rest).map fun x => (d :: x.1, x.2)
  | .code left value, c :: rest =>
      (Hex.digitValue c).bind fun d =>
        match left with
        | 0 => (readString .plain rest).map fun x =>
            (Char.ofNat (16 * value + d) :: x.1, x.2)
        | left + 1 => readString (.code left (16 * value + d)) rest

/-- A control character is read back from its escape. -/
theorem readString_control {n : Nat} (hn : n < 32) (rest : List Char) :
    readString .plain (escapeChar (Char.ofNat n) ++ rest) =
      (readString .plain rest).map fun x => (Char.ofNat n :: x.1, x.2) := by
  interval_cases n <;> rfl

theorem escapeChar_of_plain {c : Char} (hcontrol : ¬ c.toNat < 32) (hquote : c ≠ '"')
    (hbackslash : c ≠ '\\') : escapeChar c = [c] := by
  have hne : ∀ n < 32, c.toNat ≠ n := fun n hn heq => hcontrol (heq ▸ hn)
  unfold escapeChar
  rw [if_neg hquote, if_neg hbackslash, if_neg (hne 8 (by decide)),
    if_neg (hne 9 (by decide)), if_neg (hne 10 (by decide)), if_neg (hne 12 (by decide)),
    if_neg (hne 13 (by decide)), if_neg hcontrol]

theorem readString_escapeChar (c : Char) (rest : List Char) :
    readString .plain (escapeChar c ++ rest) =
      (readString .plain rest).map fun x => (c :: x.1, x.2) := by
  by_cases hcontrol : c.toNat < 32
  · have hread := readString_control hcontrol rest
    rwa [c.ofNat_toNat] at hread
  · by_cases hquote : c = '"'
    · subst hquote
      rfl
    · by_cases hbackslash : c = '\\'
      · subst hbackslash
        rfl
      · rw [escapeChar_of_plain hcontrol hquote hbackslash, List.singleton_append, readString,
          if_neg hquote, if_neg hbackslash]

/-- A printed string is read back, up to its quote. -/
theorem readString_flatMap (cs rest : List Char) :
    readString .plain (cs.flatMap escapeChar ++ '"' :: rest) = some (cs, rest) := by
  induction cs with
  | nil => rfl
  | cons c cs ih =>
      rw [List.flatMap_cons, List.append_assoc, readString_escapeChar, ih]
      rfl

/-- An escaped character has no control characters. -/
theorem escapeChar_escapes (c : Char) : ∀ d ∈ escapeChar c, 32 ≤ d.toNat := by
  by_cases hcontrol : c.toNat < 32
  · have hall : ∀ n < 32, (escapeChar (Char.ofNat n)).all (fun d => 32 ≤ d.toNat) := by
      intro n hn
      interval_cases n <;> rfl
    have hc := hall c.toNat hcontrol
    rw [c.ofNat_toNat] at hc
    exact fun d hd => of_decide_eq_true (List.all_eq_true.mp hc d hd)
  · by_cases hescaped : c = '"' ∨ c = '\\'
    · rcases hescaped with rfl | rfl
      · simp [escapeChar]
      · simp [escapeChar]
    · obtain ⟨hquote, hbackslash⟩ := not_or.mp hescaped
      rw [escapeChar_of_plain hcontrol hquote hbackslash]
      intro d hd
      rw [List.mem_singleton.mp hd]
      exact Nat.le_of_not_lt hcontrol

theorem escapeChar_of_digit {c : Char} (h : (Hex.digitValue c).isSome = true) :
    escapeChar c = [c] := by
  have hcode : 48 ≤ c.toNat := by
    unfold Hex.digitValue at h
    grind
  refine escapeChar_of_plain (by omega) ?_ ?_
  · rintro rfl
    cases h
  · rintro rfl
    cases h

/-- Without escapes only the quotes are added. -/
theorem byteLength_printString {s : String} (h : ∀ c ∈ s.toList, escapeChar c = [c]) :
    Hex.byteLength (printString s) = Hex.byteLength s.toList + 2 := by
  have hplain : s.toList.flatMap escapeChar = s.toList :=
    (List.flatMap_congr h).trans (List.flatMap_singleton' _)
  rw [printString, hplain, Hex.byteLength_cons, Hex.byteLength_append]
  exact Nat.add_comm 1 _

/-! ## Lists of strings -/

/-- The strings from the first one on, and the closing bracket. -/
def printElements : String → List String → List Char
  | s, [] => printString s ++ [']']
  | s, t :: rest => printString s ++ ',' :: printElements t rest

def printStrings : List String → List Char
  | [] => ['[', ']']
  | s :: rest => '[' :: printElements s rest

/-- Strings of one length, each with the comma or the bracket after it. -/
theorem byteLength_printStrings {n : Nat} {ss : List String} (hne : ss ≠ [])
    (h : ∀ s ∈ ss, Hex.byteLength (printString s) = n) :
    Hex.byteLength (printStrings ss) = (n + 1) * ss.length + 1 := by
  have helements : ∀ (rest : List String) (s : String),
      (∀ x ∈ s :: rest, Hex.byteLength (printString x) = n) →
        Hex.byteLength (printElements s rest) = (n + 1) * (s :: rest).length := by
    intro rest
    induction rest with
    | nil =>
        intro s hall
        rw [printElements, Hex.byteLength_append, hall s (List.mem_cons_self ..)]
        exact (Nat.mul_one _).symm
    | cons t rest ih =>
        intro s hall
        obtain ⟨hs, hrest⟩ := List.forall_mem_cons.mp hall
        rw [printElements, Hex.byteLength_append, Hex.byteLength_cons, hs, ih t hrest,
          List.length_cons (a := s), Nat.mul_succ, Nat.add_comm ((n + 1) * _), ← Nat.add_assoc]
        rfl
  cases ss with
  | nil => exact absurd rfl hne
  | cons s rest =>
      rw [printStrings, Hex.byteLength_cons, helements rest s h, Nat.add_comm]
      rfl

/-! ## Members -/

/-- A string or a number; nothing else is printed. -/
def printScalar : JsonValue → List Char
  | .str s => printString s
  | .num n => Nat.toDigits 10 n
  | _ => []

def readScalar : List Char → Option (JsonValue × List Char)
  | [] => none
  | c :: rest =>
      if c = '"' then
        (readString .plain rest).map fun x => (.str (String.ofList x.1), x.2)
      else if c.isDigit then
        some (.num (Nat.ofDigitChars 10 ((c :: rest).takeWhile Char.isDigit) 0),
          (c :: rest).dropWhile Char.isDigit)
      else none

/-- A key with the colon after it. -/
def readKey : List Char → Option (String × List Char)
  | [] => none
  | c :: rest =>
      if c = '"' then
        (readString .plain rest).bind fun x =>
          match x.2 with
          | ':' :: rest => some (String.ofList x.1, rest)
          | _ => none
      else none

def printMember (x : String × JsonValue) : List Char :=
  printString x.1 ++ ':' :: printScalar x.2

/-- The members from the first one on, and the closing brace. -/
def printMembers : String × JsonValue → List (String × JsonValue) → List Char
  | x, [] => printMember x ++ ['}']
  | x, y :: rest => printMember x ++ ',' :: printMembers y rest

/-- At most so many members, and the closing brace. -/
def readMembers : Nat → List Char → Option (List (String × JsonValue))
  | 0, _ => none
  | limit + 1, text =>
      (readKey text).bind fun key =>
        (readScalar key.2).bind fun value =>
          match value.2 with
          | ',' :: rest => (readMembers limit rest).map ((key.1, value.1) :: ·)
          | ['}'] => some [(key.1, value.1)]
          | _ => none

theorem readKey_printString (s : String) (rest : List Char) :
    readKey (printString s ++ ':' :: rest) = some (s, rest) := by
  rw [printString, List.cons_append, List.append_assoc, List.singleton_append, readKey,
    if_pos rfl, readString_flatMap]
  simp

/-- A number is read up to a character that is no digit. -/
theorem readScalar_num (n : Nat) {d : Char} (hd : d.isDigit = false) (rest : List Char) :
    readScalar (Nat.toDigits 10 n ++ d :: rest) = some (.num n, d :: rest) := by
  have hdigits : ∀ c ∈ Nat.toDigits 10 n, c.isDigit = true := fun c hc =>
    Nat.isDigit_of_mem_toDigits (by decide) (by decide) hc
  have htake : (Nat.toDigits 10 n ++ d :: rest).takeWhile Char.isDigit =
      Nat.toDigits 10 n := by
    rw [List.takeWhile_append_of_pos hdigits, List.takeWhile_cons_of_neg (by simp [hd]),
      List.append_nil]
  have hdrop : (Nat.toDigits 10 n ++ d :: rest).dropWhile Char.isDigit = d :: rest := by
    rw [List.dropWhile_append_of_pos hdigits, List.dropWhile_cons_of_neg (by simp [hd])]
  have hvalue : Nat.ofDigitChars 10 (Nat.toDigits 10 n) 0 = n :=
    Nat.ofDigitChars_toDigits (by decide) (by decide)
  cases htext : Nat.toDigits 10 n with
  | nil => exact absurd htext Nat.toDigits_ne_nil
  | cons c cs =>
      have hc : c.isDigit = true := hdigits c (htext ▸ List.mem_cons_self ..)
      have hquote : c ≠ '"' := by
        rintro rfl
        cases hc
      rw [htext] at htake hdrop hvalue
      rw [List.cons_append] at htake hdrop ⊢
      rw [readScalar, if_neg hquote, if_pos hc, htake, hdrop, hvalue]

theorem readScalar_printScalar {v : JsonValue} (hv : (∃ s, v = .str s) ∨ ∃ n < 2 ^ 64, v = .num n)
    {d : Char} (hd : d.isDigit = false) (rest : List Char) :
    readScalar (printScalar v ++ d :: rest) = some (v, d :: rest) := by
  rcases hv with ⟨s, rfl⟩ | ⟨n, -, rfl⟩
  · rw [printScalar, printString, List.cons_append, List.append_assoc, List.singleton_append,
      readScalar, if_pos rfl, readString_flatMap]
    simp
  · exact readScalar_num n hd rest

theorem readMembers_printMembers {x : String × JsonValue} {members : List (String × JsonValue)}
    (hflat : Flat (x :: members)) {limit : Nat} (hlimit : members.length < limit) :
    readMembers limit (printMembers x members) = some (x :: members) := by
  induction members generalizing x limit with
  | nil =>
      obtain ⟨limit, rfl⟩ := Nat.exists_eq_succ_of_ne_zero (Nat.ne_of_gt hlimit)
      have hvalue := readScalar_printScalar (hflat x (List.mem_cons_self ..))
        (show Char.isDigit '}' = false by decide) []
      rw [printMembers, printMember, List.append_assoc, List.cons_append, readMembers,
        readKey_printString]
      simp [hvalue]
  | cons y members ih =>
      obtain ⟨limit, rfl⟩ := Nat.exists_eq_succ_of_ne_zero (Nat.ne_of_gt
        (Nat.lt_of_le_of_lt (Nat.zero_le _) hlimit))
      have hvalue := readScalar_printScalar (hflat x (List.mem_cons_self ..))
        (show Char.isDigit ',' = false by decide) (printMembers y members)
      have hrest := ih (fun z hz => hflat z (List.mem_cons_of_mem _ hz))
        (Nat.lt_of_succ_lt_succ hlimit)
      rw [printMembers, printMember, List.append_assoc, List.cons_append, readMembers,
        readKey_printString]
      simp [hvalue, hrest]

theorem length_lt_printMembers (x : String × JsonValue) (members : List (String × JsonValue)) :
    members.length < (printMembers x members).length := by
  induction members generalizing x with
  | nil => simp [printMembers]
  | cons y members ih =>
      have hrest := ih y
      rw [printMembers, List.length_append, List.length_cons, List.length_cons]
      omega

/-! ## Control characters -/

/-- No control character is in the text. -/
def Printable (text : List Char) : Prop :=
  ∀ c ∈ text, 32 ≤ c.toNat

theorem Printable.append {a b : List Char} (ha : Printable a) (hb : Printable b) :
    Printable (a ++ b) :=
  List.forall_mem_append.mpr ⟨ha, hb⟩

theorem Printable.cons {c : Char} {text : List Char} (hc : 32 ≤ c.toNat)
    (h : Printable text) : Printable (c :: text) :=
  List.forall_mem_cons.mpr ⟨hc, h⟩

theorem printable_printString (s : String) : Printable (printString s) := by
  refine .cons (by decide) (.append ?_ (.cons (by decide) nofun))
  intro d hd
  obtain ⟨c, -, hc⟩ := List.mem_flatMap.mp hd
  exact escapeChar_escapes c d hc

theorem printable_digits (n : Nat) : Printable (Nat.toDigits 10 n) := by
  intro c hc
  have hdigit : c.isDigit = true :=
    Nat.isDigit_of_mem_toDigits (by decide) (by decide) hc
  simp only [Char.isDigit, Bool.and_eq_true, decide_eq_true_eq] at hdigit
  exact Nat.le_trans (by decide) hdigit.1

theorem printable_printScalar (v : JsonValue) : Printable (printScalar v) := by
  cases v with
  | str s => exact printable_printString s
  | num n => exact printable_digits n
  | null | bool | number | arr | obj => nofun

theorem printable_printMember (x : String × JsonValue) : Printable (printMember x) :=
  (printable_printString x.1).append (.cons (by decide) (printable_printScalar x.2))

theorem printable_printMembers (x : String × JsonValue)
    (members : List (String × JsonValue)) : Printable (printMembers x members) := by
  induction members generalizing x with
  | nil => exact (printable_printMember x).append (.cons (by decide) nofun)
  | cons y members ih => exact (printable_printMember x).append (.cons (by decide) (ih y))

end CompactJson

open CompactJson

/-- The compact form of flat objects, without blanks; nothing else is printed. -/
def JsonText.compact : JsonText where
  print
    | .obj [] => ['{', '}']
    | .obj (x :: members) => '{' :: printMembers x members
    | _ => []
  parse
    | '{' :: text =>
        match readMembers text.length text with
        | some members => .ok (.obj members)
        | none => if text = ['}'] then .ok (.obj []) else .error "expected an object"
    | _ => .error "expected an object"

/-- The compact form keeps flat objects. -/
theorem JsonText.keepsFlat_compact : JsonText.compact.KeepsFlat where
  parses members hflat := by
    cases members with
    | nil => rfl
    | cons x members =>
        have hread := readMembers_printMembers hflat (length_lt_printMembers x members)
        simp only [JsonText.compact, hread]
  escapes members hflat := by
    cases members with
    | nil => exact Printable.cons (by decide) (.cons (by decide) nofun)
    | cons x members =>
        exact Printable.cons (by decide) (printable_printMembers x members)
  opens members hflat := by
    cases members with
    | nil => rfl
    | cons x members => rfl

end AquaTimestamp.Support
