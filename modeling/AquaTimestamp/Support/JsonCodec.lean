import AquaTimestamp.Support.Traverse

/-!
# JSON values and what is derived for records

A record is written as an object with one member for each field, and read back
member by member: a member that occurs twice is refused, one that is unknown
is skipped, and one that is missing is an error unless the field has a default.
A record may also be read from an array, by position.  The text form is not
treated: a value and its text determine each other.
-/

namespace AquaTimestamp.Support

/-- A JSON value.  Numbers other than naturals are kept by their text. -/
inductive JsonValue where
  | null
  | bool (b : Bool)
  | num (n : Nat)
  | number (text : String)
  | str (s : String)
  | arr (items : List JsonValue)
  | obj (members : List (String × JsonValue))

/-- How a type is written and read. -/
structure JsonCodec (α : Type) where
  encode : α → JsonValue
  decode : JsonValue → Except String α

namespace JsonCodec

variable {α β : Type}

/-- The value is read back as it was written. -/
def Survives (c : JsonCodec α) (a : α) : Prop :=
  c.decode (c.encode a) = .ok a

/-- Every value with `P` survives. -/
def KeepsOn (c : JsonCodec α) (P : α → Prop) : Prop :=
  ∀ a, P a → c.Survives a

/-- Every value survives. -/
def Keeps (c : JsonCodec α) : Prop :=
  ∀ a, c.Survives a

/-! ## Scalars, options and lists -/

def string : JsonCodec String where
  encode := .str
  decode
    | .str s => .ok s
    | _ => .error "invalid type, expected a string"

/-- Natural numbers up to a bound. -/
def natUpTo (bound : Nat) : JsonCodec Nat where
  encode := .num
  decode
    | .num n => if n ≤ bound then .ok n else .error "number out of range"
    | _ => .error "invalid type, expected an unsigned integer"

/-- A `u64`. -/
def u64 : JsonCodec Nat :=
  natUpTo (UInt64.size - 1)

/-- A type with an embedding into another one. -/
def via (c : JsonCodec β) (into : α → β) (back : β → Except String α) :
    JsonCodec α where
  encode a := c.encode (into a)
  decode j := c.decode j >>= back

def option (c : JsonCodec α) : JsonCodec (Option α) where
  encode
    | none => .null
    | some a => c.encode a
  decode
    | .null => .ok none
    | j => (c.decode j).map some

def list (c : JsonCodec α) : JsonCodec (List α) where
  encode as := .arr (as.map c.encode)
  decode
    | .arr items => items.mapM c.decode
    | _ => .error "invalid type, expected a sequence"

theorem string_keeps : string.Keeps :=
  fun _ => rfl

theorem natUpTo_keeps (bound : Nat) : (natUpTo bound).KeepsOn (· ≤ bound) :=
  fun _ hle => if_pos hle

theorem KeepsOn.via {c : JsonCodec β} {P : β → Prop} (hc : c.KeepsOn P)
    {into : α → β} {back : β → Except String α} (hinto : ∀ a, P (into a))
    (hback : ∀ a, back (into a) = .ok a) : (c.via into back).Keeps := by
  intro a
  have hread : c.decode (c.encode (into a)) = .ok (into a) := hc (into a) (hinto a)
  simp only [Survives, JsonCodec.via, hread]
  exact hback a

/-- What a codec writes is never `null`, so absence is told apart. -/
theorem option_keepsOn {c : JsonCodec α} {P : α → Prop} (hc : c.KeepsOn P)
    (hnull : ∀ a, c.encode a ≠ .null) :
    (option c).KeepsOn fun a? => ∀ a ∈ a?, P a := by
  intro a? ha
  cases a? with
  | none => rfl
  | some a =>
      have hread : c.decode (c.encode a) = .ok a := hc a (ha a rfl)
      simp only [Survives, option]
      split
      · rename_i heq
        exact absurd heq (hnull a)
      · rw [hread]
        rfl

theorem list_keepsOn {c : JsonCodec α} {P : α → Prop} (hc : c.KeepsOn P) :
    (list c).KeepsOn fun as => ∀ a ∈ as, P a := by
  intro as has
  simp only [Survives, list]
  induction as with
  | nil => rfl
  | cons a as ih =>
      have hhead : c.decode (c.encode a) = .ok a := hc a (has a (List.mem_cons_self ..))
      have htail := ih fun a' ha' => has a' (List.mem_cons_of_mem _ ha')
      rw [List.map_cons, List.mapM_cons, hhead, htail]
      rfl

theorem Keeps.list {c : JsonCodec α} (hc : c.Keeps) : (JsonCodec.list c).Keeps :=
  fun as => list_keepsOn (P := fun _ => True) (fun a _ => hc a) as fun _ _ => trivial

end JsonCodec

/-! ## Fields of a record -/

namespace JsonValue

/-- The value of a field of a record with these fields, if there is one. -/
def field? (names : List String) (name : String) :
    JsonValue → Except String (Option JsonValue)
  | .obj members =>
      match members.filter fun x => x.1 = name with
      | [] => .ok none
      | [x] => .ok (some x.2)
      | _ => .error ("duplicate field " ++ name)
  | .arr items =>
      if items.length ≤ names.length then .ok items[names.idxOf name]?
      else .error "invalid length"
  | _ => .error "invalid type, expected a struct"

variable {α : Type}

/-- Read a field that has to be there. -/
def required (names : List String) (name : String) (c : JsonCodec α)
    (j : JsonValue) : Except String α := do
  match ← j.field? names name with
  | some v => c.decode v
  | none => .error ("missing field " ++ name)

/-- Read a field with a default. -/
def defaulted (names : List String) (name : String) (c : JsonCodec α) (fallback : α)
    (j : JsonValue) : Except String α := do
  match ← j.field? names name with
  | some v => c.decode v
  | none => .ok fallback

/-- The one member of an object with a name. -/
def HasField (members : List (String × JsonValue)) (name : String) (v : JsonValue) :
    Prop :=
  members.filter (fun x => x.1 = name) = [(name, v)]

variable {members : List (String × JsonValue)} {names : List String} {name : String}
variable {c : JsonCodec α} {a : α}

theorem required_eq_ok (h : HasField members name (c.encode a))
    (hc : c.Survives a) :
    required names name c (.obj members) = .ok a := by
  unfold HasField at h
  simp only [required, field?, h]
  exact hc

theorem defaulted_eq_ok {fallback : α} (h : HasField members name (c.encode a))
    (hc : c.Survives a) :
    defaulted names name c fallback (.obj members) = .ok a := by
  unfold HasField at h
  simp only [defaulted, field?, h]
  exact hc

end JsonValue

end AquaTimestamp.Support
