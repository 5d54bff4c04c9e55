import AquaTimestamp.Model.Accumulator
import AquaTimestamp.Model.Sdk
import AquaTimestamp.Support.Keyed
import AquaTimestamp.Support.Traverse
import AquaTimestamp.Support.Trim
import Mathlib.Tactic.IntervalCases

/-!
# Batches, witnesses and pending epochs

The data of `witness.rs`: the anchor facts of a method, the minted witness
pair, the prepared batch of an epoch, and the record of an epoch whose anchors
are outstanding with the operations the sealer performs on it.
-/

namespace AquaTimestamp

open Support

variable {sdk : Sdk}

/-! ## Errors -/

/-- `WitnessError`. -/
inductive WitnessError where
  | object (msg : String)
  | batch (msg : String)
  | sign (msg : String)
  | serialise (msg : String)
  | badHash (len : Nat)
  deriving DecidableEq, Repr

/-! ## Anchor facts -/

/-- The `network` value of every qTSA payload. -/
def qtsaNetworkLabel : String := "tsa"

/-- The anchor-derived part of a witness payload. -/
structure MethodAnchorOutcome where
  transactionHash : String
  senderAccountAddress : String
  smartContractAddress : String
  network : String
  tsaProvider : String
  timestamp : Nat
  deriving DecidableEq, Repr

namespace MethodAnchorOutcome

def fromEvmTimestampValue (value : TimestampValue) : MethodAnchorOutcome where
  transactionHash := value.transactionHash
  senderAccountAddress := value.senderAccountAddress
  smartContractAddress := value.smartContractAddress
  network := value.network
  tsaProvider := ""
  timestamp := value.timestamp

def fromTsaTimestampValue (value : TimestampValue) : MethodAnchorOutcome where
  transactionHash := value.transactionHash
  senderAccountAddress :=
    if value.senderAccountAddress = "" then value.tsaProvider
    else value.senderAccountAddress
  smartContractAddress := value.smartContractAddress
  network := qtsaNetworkLabel
  tsaProvider := value.tsaProvider
  timestamp := value.timestamp

/-- The outcome of a method from a provider's value. -/
def fromValue : AnchorMethod → TimestampValue → MethodAnchorOutcome
  | .evm, value => fromEvmTimestampValue value
  | .qtsa, value => fromTsaTimestampValue value

/-- `ensure_0x`. -/
def ensure0x (addr : String) : String :=
  if ['0', 'x'].isPrefixOf addr.toList ∨ ['0', 'X'].isPrefixOf addr.toList then
    addr
  else "0x" ++ addr

/-- The facts `finish_batch_timestamp` takes for a method; the batch fields
stay empty, the SDK writes the prepared batch's own. -/
def facts (outcome : MethodAnchorOutcome) (method : AnchorMethod)
    (merkleRoot : String) : TimestampValue where
  merkleProof := []
  senderAccountAddress :=
    match method with
    | .evm => ensure0x outcome.senderAccountAddress
    | .qtsa => outcome.senderAccountAddress
  tsaProvider := outcome.tsaProvider
  transactionHash := outcome.transactionHash
  smartContractAddress := outcome.smartContractAddress
  network :=
    match method with
    | .evm => outcome.network
    | .qtsa => qtsaNetworkLabel
  merkleRoot := merkleRoot
  timestamp := outcome.timestamp
  batchTreeSize := 0
  batchLeafIndex := 0
  shieldingNonce := ""

end MethodAnchorOutcome

/-! ## Witnesses and batches -/

/-- One timestamp object with the service signature over it. -/
structure MintedWitness (sdk : Sdk) where
  objectHash : Hash32
  signatureHash : Hash32
  leaf : Hash32
  method : AnchorMethod
  epochId : Nat
  submitterDid : String
  objectFileName : String
  signatureFileName : String
  objectRevision : AnyRevision sdk
  signatureRevision : AnyRevision sdk

/-- `EpochBatch`.  Its carriers are the link-only trees of its leaves, so the
leaves stand for them; `targets` are their links. -/
structure EpochBatch (sdk : Sdk) where
  prepared : sdk.PreparedBatch
  leaves : List Hash32

namespace EpochBatch

def anchorRoot (batch : EpochBatch sdk) : String :=
  sdk.merkleRoot batch.prepared

def rootDigest (batch : EpochBatch sdk) : Except WitnessError Hash32 :=
  match sdk.parseBatchRoot batch.anchorRoot with
  | .ok root => .ok root
  | .error e => .error (.batch ("batch root: " ++ e))

/-- The links the carriers aim at, in batch order. -/
def targets (batch : EpochBatch sdk) : List sdk.RevisionLink :=
  batch.leaves.map sdk.linkFromBytes

end EpochBatch

/-! ## Pending epochs -/

/-- One method's count of anchors found at fault; a `u32`. -/
structure AnchorFaults where
  method : AnchorMethod
  count : UInt32
  deriving DecidableEq

/-- One method's successful anchor, with the tick time it was stored at
(missing in records written before that time was kept). -/
structure StoredAnchor where
  method : AnchorMethod
  value : TimestampValue
  firstSeen : Option Nat
  deriving DecidableEq

/-- A leaf of a pending epoch: `0x` and 64 hex digits, and its submitter. -/
structure PendingLeaf where
  leaf : String
  submitterDid : String
  deriving DecidableEq

/-- A sealed epoch whose anchor is outstanding for `methods`. -/
structure PendingEpoch (sdk : Sdk) where
  epochId : Nat
  openedAt : Nat
  closedAt : Nat
  methods : List AnchorMethod
  leaves : List PendingLeaf
  batch : sdk.PreparedBatch
  anchors : List StoredAnchor
  anchorFaults : List AnchorFaults

namespace PendingEpoch

/-- `PendingEpoch::new`: every method pending on the batch, nothing anchored. -/
def new (snapshot : SealedSnapshot) (batch : EpochBatch sdk)
    (methods : List AnchorMethod) : PendingEpoch sdk where
  epochId := snapshot.epochId
  openedAt := snapshot.openedAt
  closedAt := snapshot.closedAt
  methods := methods
  leaves := snapshot.leaves.map fun e => ⟨hexLower e.leaf, e.submitterDid⟩
  batch := batch.prepared
  anchors := []
  anchorFaults := []

/-- The stored anchor entry of a method. -/
def anchorEntry (p : PendingEpoch sdk) (method : AnchorMethod) :
    Option StoredAnchor :=
  Keyed.lookup StoredAnchor.method method p.anchors

/-- The stored anchor of a method, if one succeeded and is kept. -/
def anchor (p : PendingEpoch sdk) (method : AnchorMethod) :
    Option TimestampValue :=
  (p.anchorEntry method).map StoredAnchor.value

/-- Discard a method's stored anchor. -/
def dropAnchor (p : PendingEpoch sdk) (method : AnchorMethod) :
    PendingEpoch sdk :=
  { p with anchors := Keyed.discard StoredAnchor.method method p.anchors }

/-- Store (or replace) a method's anchor, first seen at `now`. -/
def setAnchor (p : PendingEpoch sdk) (method : AnchorMethod)
    (value : TimestampValue) (now : Nat) : PendingEpoch sdk :=
  { p.dropAnchor method with
    anchors := (p.dropAnchor method).anchors ++ [⟨method, value, some now⟩] }

/-- The write `anchor_first_seen` makes: an entry without a time gets `now`. -/
def touchAnchor (p : PendingEpoch sdk) (method : AnchorMethod) (now : Nat) :
    PendingEpoch sdk :=
  { p with
    anchors := Keyed.revise StoredAnchor.method method
      (fun a => { a with firstSeen := a.firstSeen.or (some now) }) p.anchors }

/-- When a method's anchor was first seen, whether that was written just now,
and the record afterwards; `none` without an anchor. -/
def anchorFirstSeen (p : PendingEpoch sdk) (method : AnchorMethod)
    (now : Nat) : Option ((Nat × Bool) × PendingEpoch sdk) :=
  (p.anchorEntry method).map fun a =>
    match a.firstSeen with
    | some t => ((t, false), p)
    | none => ((now, true), p.touchAnchor method now)

/-- How many of a method's anchors were found at fault. -/
def anchorFaultCount (p : PendingEpoch sdk) (method : AnchorMethod) : UInt32 :=
  ((Keyed.lookup AnchorFaults.method method p.anchorFaults).map
    AnchorFaults.count).getD 0

/-- Count one more anchor at fault: the record and the new count.  The `u32`
addition wraps, as the release build's does. -/
def countAnchorFault (p : PendingEpoch sdk) (method : AnchorMethod) :
    PendingEpoch sdk × UInt32 :=
  match Keyed.lookup AnchorFaults.method method p.anchorFaults with
  | some f =>
      ({ p with
        anchorFaults := Keyed.revise AnchorFaults.method method
          (fun f => { f with count := f.count + 1 }) p.anchorFaults },
        f.count + 1)
  | none =>
      ({ p with anchorFaults := p.anchorFaults ++ [⟨method, 1⟩] }, 1)

/-- The record without a method and its anchor, as serving leaves it. -/
def without (p : PendingEpoch sdk) (method : AnchorMethod) :
    PendingEpoch sdk :=
  { p with methods := p.methods.filter (· ≠ method) }.dropAnchor method

/-- The anchored root every method of this epoch carries. -/
def anchorRoot (p : PendingEpoch sdk) : String :=
  sdk.merkleRoot p.batch

/-- Decode one stored leaf. -/
def leafHash (l : PendingLeaf) : Except WitnessError Hash32 :=
  match Hex.decode (trimStart0x l.leaf.toList) with
  | .error e => .error (.batch ("pending leaf hex: " ++ e.display))
  | .ok bytes =>
      match toHash32 bytes with
      | some h => .ok h
      | none => .error (.badHash bytes.length)

/-- The 32-byte leaves, in batch order. -/
def leafHashes (p : PendingEpoch sdk) : Except WitnessError (List Hash32) :=
  p.leaves.mapM leafHash

/-- The sealed snapshot and the batch, rebuilt for minting. -/
def restore (p : PendingEpoch sdk) :
    Except WitnessError (SealedSnapshot × EpochBatch sdk) :=
  p.leafHashes.map fun leaves =>
    (⟨p.epochId, p.openedAt, p.closedAt,
        (leaves.zip p.leaves).map fun x => ⟨x.1, x.2.submitterDid⟩⟩,
      ⟨p.batch, leaves⟩)

/-! ## What the operations leave in the record -/

/-- The part of a record no settlement changes, apart from its methods. -/
def SameEpoch (p q : PendingEpoch sdk) : Prop :=
  p.epochId = q.epochId ∧ p.openedAt = q.openedAt ∧ p.closedAt = q.closedAt ∧
    p.leaves = q.leaves ∧ p.batch = q.batch

theorem SameEpoch.trans {p q r : PendingEpoch sdk}
    (hpq : SameEpoch p q) (hqr : SameEpoch q r) : SameEpoch p r :=
  ⟨hpq.1.trans hqr.1, hpq.2.1.trans hqr.2.1, hpq.2.2.1.trans hqr.2.2.1,
    hpq.2.2.2.1.trans hqr.2.2.2.1, hpq.2.2.2.2.trans hqr.2.2.2.2⟩

theorem SameEpoch.restore_eq {p q : PendingEpoch sdk} (h : SameEpoch p q) :
    p.restore = q.restore := by
  obtain ⟨hid, hopen, hclose, hleaves, hbatch⟩ := h
  simp [restore, leafHashes, hid, hopen, hclose, hleaves, hbatch]

variable (p : PendingEpoch sdk) (m m' : AnchorMethod)

theorem sameEpoch_setAnchor (v : TimestampValue) (now : Nat) :
    SameEpoch (p.setAnchor m v now) p :=
  ⟨rfl, rfl, rfl, rfl, rfl⟩

theorem sameEpoch_dropAnchor : SameEpoch (p.dropAnchor m) p :=
  ⟨rfl, rfl, rfl, rfl, rfl⟩

theorem sameEpoch_touchAnchor (now : Nat) : SameEpoch (p.touchAnchor m now) p :=
  ⟨rfl, rfl, rfl, rfl, rfl⟩

theorem sameEpoch_without : SameEpoch (p.without m) p :=
  ⟨rfl, rfl, rfl, rfl, rfl⟩

theorem sameEpoch_countAnchorFault :
    SameEpoch (p.countAnchorFault m).1 p := by
  unfold countAnchorFault
  split <;> exact ⟨rfl, rfl, rfl, rfl, rfl⟩

@[simp]
theorem methods_setAnchor (v : TimestampValue) (now : Nat) :
    (p.setAnchor m v now).methods = p.methods :=
  rfl

@[simp]
theorem methods_dropAnchor : (p.dropAnchor m).methods = p.methods :=
  rfl

@[simp]
theorem methods_touchAnchor (now : Nat) :
    (p.touchAnchor m now).methods = p.methods :=
  rfl

@[simp]
theorem methods_countAnchorFault :
    (p.countAnchorFault m).1.methods = p.methods := by
  unfold countAnchorFault
  split <;> rfl

theorem mem_methods_without :
    m' ∈ (p.without m).methods ↔ m' ∈ p.methods ∧ m' ≠ m := by
  simp [without, dropAnchor]

theorem anchorEntry_setAnchor (v : TimestampValue) (now : Nat) :
    (p.setAnchor m v now).anchorEntry m' =
      if m = m' then some ⟨m, v, some now⟩ else p.anchorEntry m' := by
  simp only [anchorEntry, setAnchor, dropAnchor, Keyed.lookup_append,
    Keyed.lookup_discard, Keyed.lookup_singleton]
  by_cases h : m = m' <;> simp [h]

theorem anchorEntry_dropAnchor :
    (p.dropAnchor m).anchorEntry m' =
      if m = m' then none else p.anchorEntry m' := by
  simp [anchorEntry, dropAnchor, Keyed.lookup_discard]

theorem anchorEntry_without :
    (p.without m).anchorEntry m' =
      if m = m' then none else p.anchorEntry m' := by
  simp [anchorEntry, without, dropAnchor, Keyed.lookup_discard]

theorem anchorEntry_touchAnchor (now : Nat) :
    (p.touchAnchor m now).anchorEntry m' =
      if m = m' then
        (p.anchorEntry m).map fun a =>
          { a with firstSeen := a.firstSeen.or (some now) }
      else p.anchorEntry m' := by
  unfold anchorEntry touchAnchor
  exact Keyed.lookup_revise (by intro a; rfl) m m' p.anchors

@[simp]
theorem anchorEntry_countAnchorFault :
    (p.countAnchorFault m).1.anchorEntry m' = p.anchorEntry m' := by
  unfold countAnchorFault
  split <;> rfl

@[simp]
theorem anchorFaultCount_setAnchor (v : TimestampValue) (now : Nat) :
    (p.setAnchor m v now).anchorFaultCount m' = p.anchorFaultCount m' :=
  rfl

@[simp]
theorem anchorFaultCount_dropAnchor :
    (p.dropAnchor m).anchorFaultCount m' = p.anchorFaultCount m' :=
  rfl

@[simp]
theorem anchorFaultCount_without :
    (p.without m).anchorFaultCount m' = p.anchorFaultCount m' :=
  rfl

@[simp]
theorem anchorFaultCount_touchAnchor (now : Nat) :
    (p.touchAnchor m now).anchorFaultCount m' = p.anchorFaultCount m' :=
  rfl

theorem anchorFaultCount_countAnchorFault :
    (p.countAnchorFault m).1.anchorFaultCount m' =
      if m = m' then p.anchorFaultCount m + 1 else p.anchorFaultCount m' := by
  unfold countAnchorFault anchorFaultCount
  split
  case h_1 f hf =>
    dsimp only
    rw [Keyed.lookup_revise (by intro a; rfl)]
    by_cases h : m = m'
    · subst h
      simp [hf]
    · simp [h]
  case h_2 hf =>
    dsimp only
    rw [Keyed.lookup_append, Keyed.lookup_singleton]
    by_cases h : m = m'
    · subst h
      simp [hf]
    · simp [h]

/-! ## Restoring a record -/

/-- What a restored record consists of. -/
theorem restore_eq_ok {p : PendingEpoch sdk} {snapshot : SealedSnapshot}
    {batch : EpochBatch sdk} (h : p.restore = .ok (snapshot, batch)) :
    ∃ leaves, p.leafHashes = .ok leaves ∧
      snapshot = ⟨p.epochId, p.openedAt, p.closedAt,
        (leaves.zip p.leaves).map fun x => ⟨x.1, x.2.submitterDid⟩⟩ ∧
      batch = ⟨p.batch, leaves⟩ := by
  obtain ⟨leaves, hleaves, heq⟩ := map_eq_ok_iff.mp h
  cases heq
  exact ⟨leaves, hleaves, rfl, rfl⟩

theorem restore_epochId {p : PendingEpoch sdk} {snapshot : SealedSnapshot}
    {batch : EpochBatch sdk} (h : p.restore = .ok (snapshot, batch)) :
    snapshot.epochId = p.epochId := by
  obtain ⟨leaves, -, rfl, -⟩ := restore_eq_ok h
  rfl

/-- The leaves and the batch of a restored record are its own. -/
theorem restore_leaves {p : PendingEpoch sdk} {snapshot : SealedSnapshot}
    {batch : EpochBatch sdk} (h : p.restore = .ok (snapshot, batch)) :
    p.leafHashes = .ok (snapshot.leaves.map LeafEntry.leaf) ∧
      batch = ⟨p.batch, snapshot.leaves.map LeafEntry.leaf⟩ := by
  obtain ⟨leaves, hleaves, rfl, rfl⟩ := restore_eq_ok h
  have hlength := (mapM_eq_ok_iff.mp hleaves).length_eq
  have hmap : ((leaves.zip p.leaves).map fun x =>
      (⟨x.1, x.2.submitterDid⟩ : LeafEntry)).map LeafEntry.leaf = leaves := by
    rw [List.map_map]
    exact List.map_fst_zip (le_of_eq hlength.symm)
  rw [hmap]
  exact ⟨hleaves, rfl⟩

theorem leafHash_hexLower (h : Hash32) (did : String) :
    leafHash ⟨hexLower h, did⟩ = .ok h := by
  have htext : trimStart0x (hexLower h).toList = Hex.encode h.toList := by
    rw [hexLower, String.toList_ofList]
    exact trimStart0x_encode h.toList
  simp [leafHash, htext, Hex.decode_encode]

theorem leafHashes_new (snapshot : SealedSnapshot) (batch : EpochBatch sdk)
    (methods : List AnchorMethod) :
    (new snapshot batch methods).leafHashes =
      .ok (snapshot.leaves.map LeafEntry.leaf) := by
  simp only [leafHashes, new]
  induction snapshot.leaves with
  | nil => rfl
  | cons e leaves ih =>
      rw [List.map_cons, List.mapM_cons, leafHash_hexLower, ih]
      rfl

/-- A fresh record restores to the snapshot it was made of. -/
theorem restore_new (snapshot : SealedSnapshot) (batch : EpochBatch sdk)
    (methods : List AnchorMethod) :
    (new snapshot batch methods).restore =
      .ok (snapshot, ⟨batch.prepared, snapshot.leaves.map LeafEntry.leaf⟩) := by
  have hzip : ∀ leaves : List LeafEntry,
      (((leaves.map LeafEntry.leaf).zip (leaves.map fun e =>
          (⟨hexLower e.leaf, e.submitterDid⟩ : PendingLeaf))).map
        fun x => (⟨x.1, x.2.submitterDid⟩ : LeafEntry)) = leaves := by
    intro leaves
    induction leaves with
    | nil => rfl
    | cons e leaves ih => simpa using ih
  rw [restore, leafHashes_new]
  simp only [Except.map, new, hzip]

end PendingEpoch

end AquaTimestamp
