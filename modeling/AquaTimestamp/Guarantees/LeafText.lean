import AquaTimestamp.Guarantees.Views
import AquaTimestamp.Model.Client

/-!
# The spellings of a leaf

Submitted leaves, tip paths and by-leaf lookups are read by one parser.  It
accepts a grammar of two forms, whatever the text, and the overlap of the forms
is harmless: their lengths differ.
-/

namespace AquaTimestamp

open Support

variable {sdk : Sdk}

/-! ## The parser with its panics -/

/-- `&text[n..]`; `none` is the panic at a byte inside a character or past the
end. -/
def sliceFrom (n : Nat) (text : List Char) : Option (List Char) :=
  (splitAtByte n text).map Prod.snd

/-- The end of `parse_leaf_hex`, for a text of `length` bytes with these digits:
`copy_from_slice` panics at another number of bytes. -/
def decodeDigestOrPanic (length : Nat) (digestHex : List Char) :
    Option (Except LeafParseError Hash32) :=
  if Hex.byteLength digestHex ≠ 64 then some (.error (.badLength length))
  else
    match Hex.decode digestHex with
    | .error e => some (.error (.badHex e))
    | .ok bytes => (toHash32 bytes).map .ok

/-- `parse_leaf_hex` with its panics. -/
def parseLeafHexOrPanic (input : String) : Option (Except LeafParseError Hash32) :=
  let trimmed := stripStart ['0', 'x'] input.toList
  let digestHex :=
    match splitAtByte 4 trimmed with
    | some (start, _) =>
        if Hex.byteLength trimmed = 4 + 64 ∧ start = ['1', '6', '2', '0'] then
          sliceFrom 4 trimmed
        else some trimmed
    | none => some trimmed
  digestHex.bind (decodeDigestOrPanic (Hex.byteLength trimmed))

/-- Text of 64 bytes decodes to a hash or not at all. -/
theorem exists_toHash32 {digits : List Char} {bytes : List UInt8}
    (hlength : Hex.byteLength digits = 64) (hdecode : Hex.decode digits = .ok bytes) :
    ∃ h, toHash32 bytes = some h := by
  have hlower := Hex.decode_eq_ok_iff.mp hdecode
  have hbytes : bytes.length = 32 := by
    have hdigits := (Hex.allDigits_of_lower hlower).byteLength
    have hencoded : digits.length = 2 * bytes.length := by
      rw [← Hex.length_encode, ← hlower, List.length_map]
    omega
  exact ⟨_, dif_pos hbytes⟩

/-- Copying the decoded digest never panics. -/
theorem decodeDigestOrPanic_eq (length : Nat) (digits : List Char) :
    decodeDigestOrPanic length digits =
      some (if Hex.byteLength digits ≠ 64 then .error (.badLength length)
        else
          match Hex.decode digits with
          | .error e => .error (.badHex e)
          | .ok bytes =>
              match toHash32 bytes with
              | some h => .ok h
              | none => .error (.badLength length)) := by
  unfold decodeDigestOrPanic
  by_cases hlength : Hex.byteLength digits = 64
  · rw [if_neg (not_not.mpr hlength), if_neg (not_not.mpr hlength)]
    cases hdecode : Hex.decode digits with
    | error e => rfl
    | ok bytes =>
        obtain ⟨h, hhash⟩ := exists_toHash32 hlength hdecode
        simp only [hhash, Option.map_some]
  · rw [if_pos hlength, if_pos hlength]

/-- Nothing panics: the slice starts where the prefix ended. -/
theorem parseLeafHexOrPanic_eq (input : String) :
    parseLeafHexOrPanic input = some (parseLeafHex input) := by
  unfold parseLeafHexOrPanic parseLeafHex
  generalize stripStart ['0', 'x'] input.toList = trimmed
  dsimp only
  cases hsplit : splitAtByte 4 trimmed with
  | none => exact decodeDigestOrPanic_eq _ trimmed
  | some p =>
      obtain ⟨start, rest⟩ := p
      have hslice : sliceFrom 4 trimmed = some rest := by
        rw [sliceFrom, hsplit, Option.map_some]
      dsimp only
      by_cases hmultihash :
          Hex.byteLength trimmed = 4 + 64 ∧ start = ['1', '6', '2', '0']
      · simp only [if_pos hmultihash, hslice]
        exact decodeDigestOrPanic_eq _ rest
      · simp only [if_neg hmultihash]
        exact decodeDigestOrPanic_eq _ trimmed

/-! ## The grammar -/

/-- An optional `0x`, an optional `1620`, and 64 digits in either case. -/
def IsLeafText (input : String) : Prop :=
  ∃ start ∈ [[], ['0', 'x']], ∃ code ∈ [[], ['1', '6', '2', '0']],
    ∃ digits : List Char, Hex.AllDigits digits ∧ digits.length = 64 ∧
      input.toList = start ++ code ++ digits

/-- The last 64 characters. -/
def lastDigits (input : String) : List Char :=
  input.toList.drop (input.toList.length - 64)

theorem length_digits {digits : List Char} {h : Hash32}
    (hlower : digits.map Char.toLower = Hex.encode h.toList) : digits.length = 64 := by
  rw [← List.length_map, hlower, Hex.length_encode]
  simp

/-- Stripping `0x` leaves a text of digits when it was there or not needed. -/
theorem stripStart_eq_iff {text body : List Char} (hbody : Hex.AllDigits body) :
    stripStart ['0', 'x'] text = body ↔
      ∃ start ∈ [[], ['0', 'x']], text = start ++ body := by
  constructor
  · intro hstrip
    unfold stripStart at hstrip
    split at hstrip
    · rename_i hprefix
      obtain ⟨rest, rfl⟩ := List.isPrefixOf_iff_prefix.mp hprefix
      rw [List.drop_left] at hstrip
      subst hstrip
      exact ⟨['0', 'x'], by simp, rfl⟩
    · exact ⟨[], by simp, hstrip⟩
  · rintro ⟨start, hstart, rfl⟩
    rcases List.mem_pair.mp hstart with rfl | rfl
    · exact stripStart_of_allDigits hbody
    · rfl

theorem allDigits_code {code digits : List Char}
    (hcode : code ∈ [[], ['1', '6', '2', '0']]) (hdigits : Hex.AllDigits digits) :
    Hex.AllDigits (code ++ digits) := by
  have hcodeDigits : Hex.AllDigits code := by
    rcases List.mem_pair.mp hcode with rfl | rfl
    · exact nofun
    · simp [Hex.AllDigits, Hex.digitValue]
  intro c hc
  rcases List.mem_append.mp hc with hc | hc
  · exact hcodeDigits c hc
  · exact hdigits c hc

/-- A text parses to a hash when it spells the hash in the grammar. -/
theorem parseLeafHex_eq_ok_iff_spells {input : String} {h : Hash32} :
    parseLeafHex input = .ok h ↔
      ∃ start ∈ [[], ['0', 'x']], ∃ code ∈ [[], ['1', '6', '2', '0']],
        ∃ digits : List Char, digits.map Char.toLower = Hex.encode h.toList ∧
          input.toList = start ++ code ++ digits := by
  rw [parseLeafHex_eq_ok_iff]
  constructor
  · rintro ⟨digits, hlower, hform⟩
    have hdigits := Hex.allDigits_of_lower hlower
    have hcode : ∃ code ∈ [[], ['1', '6', '2', '0']],
        stripStart ['0', 'x'] input.toList = code ++ digits := by
      rcases hform with hform | hform
      · exact ⟨[], by simp, hform⟩
      · exact ⟨_, by simp, hform⟩
    obtain ⟨code, hcode, hform⟩ := hcode
    obtain ⟨start, hstart, htext⟩ :=
      (stripStart_eq_iff (allDigits_code hcode hdigits)).mp hform
    exact ⟨start, hstart, code, hcode, digits, hlower,
      by rw [htext, List.append_assoc]⟩
  · rintro ⟨start, hstart, code, hcode, digits, hlower, htext⟩
    have hdigits := Hex.allDigits_of_lower hlower
    have hform : stripStart ['0', 'x'] input.toList = code ++ digits :=
      (stripStart_eq_iff (allDigits_code hcode hdigits)).mpr
        ⟨start, hstart, by rw [htext, List.append_assoc]⟩
    refine ⟨digits, hlower, ?_⟩
    rcases List.mem_pair.mp hcode with rfl | rfl
    · exact Or.inl hform
    · exact Or.inr hform

/-- The digits of an accepted text are its last 64 characters. -/
theorem lower_lastDigits {input : String} {h : Hash32}
    (hparse : parseLeafHex input = .ok h) :
    (lastDigits input).map Char.toLower = Hex.encode h.toList := by
  obtain ⟨start, -, code, -, digits, hlower, htext⟩ :=
    parseLeafHex_eq_ok_iff_spells.mp hparse
  have hlast : lastDigits input = digits := by
    have hlength : (start ++ code ++ digits).length =
        (start ++ code).length + 64 := by
      rw [List.length_append, length_digits hlower]
    rw [lastDigits, htext, hlength, Nat.add_sub_cancel]
    exact List.drop_left
  rw [hlast, hlower]

theorem exists_parseLeafHex_iff {input : String} :
    (∃ h, parseLeafHex input = .ok h) ↔ IsLeafText input := by
  constructor
  · rintro ⟨h, hparse⟩
    obtain ⟨start, hstart, code, hcode, digits, hlower, htext⟩ :=
      parseLeafHex_eq_ok_iff_spells.mp hparse
    exact ⟨start, hstart, code, hcode, digits, Hex.allDigits_of_lower hlower,
      length_digits hlower, htext⟩
  · rintro ⟨start, hstart, code, hcode, digits, hdigits, hlength, htext⟩
    obtain ⟨bytes, hlower, hbytes⟩ := Hex.exists_decode 32 digits hlength hdigits
    refine ⟨⟨bytes.toArray, by simpa using hbytes⟩,
      parseLeafHex_eq_ok_iff_spells.mpr
        ⟨start, hstart, code, hcode, digits, ?_, htext⟩⟩
    exact hlower

/-- The parser accepts its grammar and nothing else, never panics, and gives
the bytes of the last 64 digits; every spelling the code prints is read back,
and two texts of one hash have the same digits. -/
theorem parseLeafHex_accepts_grammar (hspells : SpellsLinks sdk) :
    (∀ input, parseLeafHexOrPanic input = some (parseLeafHex input)) ∧
    (∀ input, (∃ h, parseLeafHex input = .ok h) ↔ IsLeafText input) ∧
    (∀ input h, parseLeafHex input = .ok h →
      Hex.decode (lastDigits input) = .ok h.toList) ∧
    (∀ (h : Hash32) (digits : List Char),
      digits.map Char.toLower = Hex.encode h.toList →
      parseLeafHex (String.ofList digits) = .ok h ∧
      parseLeafHex (String.ofList (['0', 'x'] ++ digits)) = .ok h) ∧
    (∀ h, parseLeafHex (hexLower h) = .ok h ∧
      parseLeafHex (TimestampClient.formatHash32Bare h) = .ok h ∧
      parseLeafHex (revisionWireHex sdk h) = .ok h) ∧
    ∀ a b h, parseLeafHex a = .ok h → parseLeafHex b = .ok h →
      (lastDigits a).map Char.toLower = (lastDigits b).map Char.toLower := by
  refine ⟨parseLeafHexOrPanic_eq, fun _ => exists_parseLeafHex_iff, ?_, ?_, ?_, ?_⟩
  · intro input h hparse
    exact Hex.decode_eq_ok_iff.mpr (lower_lastDigits hparse)
  · intro h digits hlower
    constructor
    · exact parseLeafHex_eq_ok_iff_spells.mpr
        ⟨[], by simp, [], by simp, digits, hlower, String.toList_ofList⟩
    · exact parseLeafHex_eq_ok_iff_spells.mpr
        ⟨['0', 'x'], by simp, [], by simp, digits, hlower, String.toList_ofList⟩
  · intro h
    refine ⟨parseLeafHex_hexLower h, parseLeafHex_encode h, ?_⟩
    rw [hspells h]
    exact parseLeafHex_wireForm h
  · intro a b h ha hb
    rw [lower_lastDigits ha, lower_lastDigits hb]

/-- Links of the sample SDK are printed as the parser expects them. -/
theorem parseLeafHex_accepts_grammar_sample :
    parseLeafHex (revisionWireHex Sample.sdk (Sample.leaf 1)) = .ok (Sample.leaf 1) :=
  ((parseLeafHex_accepts_grammar Sample.spellsLinks).2.2.2.2.1 (Sample.leaf 1)).2.2

-- A digest that starts with the multihash code keeps its start.
example : (∃ h, parseLeafHex
      (String.ofList (['1', '6', '2', '0'] ++ List.replicate 60 'A')) = .ok h) ∧
    ¬ ∃ h, parseLeafHex
      (String.ofList (['1', '6', '2', '0'] ++ List.replicate 56 'A')) = .ok h := by
  constructor
  · exact ⟨_, rfl⟩
  · rintro ⟨h, hparse⟩
    cases hparse

end AquaTimestamp
