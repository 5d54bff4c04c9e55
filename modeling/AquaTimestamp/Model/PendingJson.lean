import AquaTimestamp.Model.Pending
import AquaTimestamp.Support.JsonCodec

/-!
# Pending records in storage

The store keeps a pending record as JSON, with the implementations `serde`
derives for the types of `witness.rs`.  How the SDK writes and reads its own
types is a parameter.  Fields that older records lack have defaults.
-/

namespace AquaTimestamp

open Support JsonCodec JsonValue

variable {sdk : Sdk}

/-! ## Derived implementations -/

/-- A `u32`. -/
def u32Json : JsonCodec UInt32 :=
  (natUpTo (2 ^ 32 - 1)).via UInt32.toNat fun n => .ok (UInt32.ofNat n)

/-- The variants by their lowercase names, also in the externally tagged form. -/
def AnchorMethod.json : JsonCodec AnchorMethod where
  encode m := .str m.asStr
  decode
    | .str s => named s
    | .obj [(s, .null)] => named s
    | _ => .error "invalid type, expected a variant"
where
  named (s : String) : Except String AnchorMethod :=
    match AnchorMethod.parse s with
    | some m => .ok m
    | none => .error ("unknown variant " ++ s)

/-- `PendingLeaf`. -/
def PendingLeaf.json : JsonCodec PendingLeaf where
  encode l := .obj [("leaf", string.encode l.leaf),
    ("submitter_did", string.encode l.submitterDid)]
  decode j := do
    let names := ["leaf", "submitter_did"]
    let leaf ← j.required names "leaf" string
    let submitterDid ← j.required names "submitter_did" string
    .ok ⟨leaf, submitterDid⟩

/-- `AnchorFaults`. -/
def AnchorFaults.json : JsonCodec AnchorFaults where
  encode f := .obj [("method", AnchorMethod.json.encode f.method),
    ("count", u32Json.encode f.count)]
  decode j := do
    let names := ["method", "count"]
    let method ← j.required names "method" AnchorMethod.json
    let count ← j.required names "count" u32Json
    .ok ⟨method, count⟩

/-- `StoredAnchor`, with the SDK's codec of the anchor itself. -/
def StoredAnchor.json (value : JsonCodec TimestampValue) : JsonCodec StoredAnchor where
  encode a := .obj [("method", AnchorMethod.json.encode a.method),
    ("value", value.encode a.value),
    ("first_seen", (option u64).encode a.firstSeen)]
  decode j := do
    let names := ["method", "value", "first_seen"]
    let method ← j.required names "method" AnchorMethod.json
    let v ← j.required names "value" value
    let firstSeen ← j.defaulted names "first_seen" (option u64) none
    .ok ⟨method, v, firstSeen⟩

/-- `PendingEpoch`, with the SDK's codecs of the prepared batch and of an
anchor. -/
def PendingEpoch.json (batch : JsonCodec sdk.PreparedBatch)
    (value : JsonCodec TimestampValue) : JsonCodec (PendingEpoch sdk) where
  encode p := .obj [("epoch_id", u64.encode p.epochId),
    ("opened_at", u64.encode p.openedAt),
    ("closed_at", u64.encode p.closedAt),
    ("methods", (list AnchorMethod.json).encode p.methods),
    ("leaves", (list PendingLeaf.json).encode p.leaves),
    ("batch", batch.encode p.batch),
    ("anchors", (list (StoredAnchor.json value)).encode p.anchors),
    ("anchor_faults", (list AnchorFaults.json).encode p.anchorFaults)]
  decode j := do
    let names := ["epoch_id", "opened_at", "closed_at", "methods", "leaves", "batch",
      "anchors", "anchor_faults"]
    let epochId ← j.required names "epoch_id" u64
    let openedAt ← j.required names "opened_at" u64
    let closedAt ← j.required names "closed_at" u64
    let methods ← j.required names "methods" (list AnchorMethod.json)
    let leaves ← j.required names "leaves" (list PendingLeaf.json)
    let batch ← j.required names "batch" batch
    let anchors ← j.defaulted names "anchors" (list (StoredAnchor.json value)) []
    let anchorFaults ← j.defaulted names "anchor_faults" (list AnchorFaults.json) []
    .ok ⟨epochId, openedAt, closedAt, methods, leaves, batch, anchors, anchorFaults⟩

/-! ## Round trips -/

theorem u64_keepsOn : u64.KeepsOn (· ≤ u64Max) :=
  natUpTo_keeps _

theorem u32Json_keeps : u32Json.Keeps :=
  (natUpTo_keeps _).via (fun a => Nat.le_sub_one_of_lt (UInt32.toNat_lt a))
    fun a => by rw [UInt32.ofNat_toNat]

theorem AnchorMethod.json_keeps : AnchorMethod.json.Keeps := by
  intro m
  cases m <;> rfl

theorem PendingLeaf.json_keeps : PendingLeaf.json.Keeps := by
  intro l
  simp only [Survives, PendingLeaf.json]
  rw [required_eq_ok ?_ (string_keeps l.leaf),
    required_eq_ok ?_ (string_keeps l.submitterDid)]
  · rfl
  all_goals simp [HasField]

theorem AnchorFaults.json_keeps : AnchorFaults.json.Keeps := by
  intro f
  simp only [Survives, AnchorFaults.json]
  rw [required_eq_ok ?_ (AnchorMethod.json_keeps f.method),
    required_eq_ok ?_ (u32Json_keeps f.count)]
  · rfl
  all_goals simp [HasField]

/-- A stored anchor fits its types: the time is a `u64` and the SDK keeps the
value. -/
structure StoredAnchor.Storable (value : JsonCodec TimestampValue)
    (a : StoredAnchor) : Prop where
  value : value.Survives a.value
  firstSeen : ∀ t ∈ a.firstSeen, t ≤ u64Max

theorem StoredAnchor.json_keepsOn (value : JsonCodec TimestampValue) :
    (StoredAnchor.json value).KeepsOn (StoredAnchor.Storable value) := by
  intro a ha
  have htime := option_keepsOn u64_keepsOn (fun _ => nofun) a.firstSeen ha.firstSeen
  simp only [Survives, StoredAnchor.json]
  rw [required_eq_ok ?_ (AnchorMethod.json_keeps a.method),
    required_eq_ok ?_ ha.value, defaulted_eq_ok ?_ htime]
  · rfl
  all_goals simp [HasField]

/-- A record fits its types: ids and times are `u64`s and the SDK keeps the
prepared batch and the anchors. -/
structure PendingEpoch.Storable (batch : JsonCodec sdk.PreparedBatch)
    (value : JsonCodec TimestampValue) (p : PendingEpoch sdk) : Prop where
  epochId : p.epochId ≤ u64Max
  openedAt : p.openedAt ≤ u64Max
  closedAt : p.closedAt ≤ u64Max
  batch : batch.Survives p.batch
  anchors : ∀ a ∈ p.anchors, a.Storable value

/-- What the store writes of a record is read back as the record. -/
theorem PendingEpoch.json_keepsOn (batch : JsonCodec sdk.PreparedBatch)
    (value : JsonCodec TimestampValue) :
    (PendingEpoch.json batch value).KeepsOn (PendingEpoch.Storable batch value) := by
  intro p hp
  have hanchors := list_keepsOn (StoredAnchor.json_keepsOn value) p.anchors hp.anchors
  simp only [Survives, PendingEpoch.json]
  rw [required_eq_ok ?_ (u64_keepsOn p.epochId hp.epochId),
    required_eq_ok ?_ (u64_keepsOn p.openedAt hp.openedAt),
    required_eq_ok ?_ (u64_keepsOn p.closedAt hp.closedAt),
    required_eq_ok ?_ (AnchorMethod.json_keeps.list p.methods),
    required_eq_ok ?_ (PendingLeaf.json_keeps.list p.leaves),
    required_eq_ok ?_ hp.batch, defaulted_eq_ok ?_ hanchors,
    defaulted_eq_ok ?_ (AnchorFaults.json_keeps.list p.anchorFaults)]
  · rfl
  all_goals simp [HasField]

end AquaTimestamp
