import AquaTimestamp.Model.Pending
import AquaTimestamp.Support.BigEndian

/-!
# The store

`storage.rs`: the partitions of the keyspace and the write batches over them.
Values are kept as the records they encode.  A write function gives the store
after its batch, or the error it meets while building the batch; whether the
batch is committed, and whether the caller learns of it, is decided by the
surroundings (see the server model).
-/

namespace AquaTimestamp

open Support

variable {sdk : Sdk}

/-- `EpochRecord`: the persisted summary of a sealed epoch. -/
structure EpochRecord where
  id : Nat
  openedAt : Nat
  closedAt : Nat
  merkleRoot : Hash32
  leafCount : Nat
  hashType : String
  deriving DecidableEq

/-- `HASH_TYPE_LABEL`. -/
def hashTypeLabel : String := "FIPS_202-SHA3-256"

/-- The value stored at `tip_to_pair[signature_hash]`. -/
structure TipPairIndex where
  objectHash : Hash32
  signatureHash : Hash32
  leaf : Hash32
  methodByte : UInt8
  epochId : Nat
  submitterDid : String
  objectFileName : String
  signatureFileName : String
  deriving DecidableEq

/-- `u64::to_be_bytes`. -/
def toBeBytes (n : Nat) : List UInt8 :=
  BigEndian.bytes 8 n

/-- `EPOCH_LEAVES_KEY_LEN`. -/
def epochLeavesKeyLen : Nat := 8 + 32

/-- `compose_leaves_key`: the epoch id and the leaf, one after the other. -/
def composeLeavesKey (epochId : Nat) (leaf : Hash32) : List UInt8 :=
  toBeBytes epochId ++ leaf.toList

/-- `StoreError::BadLeavesKey`: the key length a scan met. -/
structure BadLeavesKey where
  len : Nat
  deriving DecidableEq, Repr

/-- `StoreError`: a failure of the keyspace, or of building a batch. -/
inductive StoreError where
  | fjall (msg : String)
  | pending (msg : String)
  deriving DecidableEq, Repr

/-- The displayed form of a witness error. -/
def WitnessError.display : WitnessError → String
  | .object msg => "witness object build failed: " ++ msg
  | .batch msg => "witness batch failed: " ++ msg
  | .sign msg => "witness signature failed: " ++ msg
  | .serialise msg => "witness payload serialise failed: " ++ msg
  | .badHash len => "hash conversion: expected 32 bytes, got " ++ toString len

/-- The keys of `epoch_leaves`: an epoch and a leaf. -/
instance epochLeafTransOrd : Std.TransOrd (Nat × Hash32) :=
  inferInstance

/-- The keys of the per-leaf lookups: a leaf and a method byte. -/
instance leafMethodTransOrd : Std.TransOrd (Hash32 × UInt8) :=
  inferInstance

/-- The partitions the sealer and the fetch routes use.  Composite keys are
the pairs of their parts. -/
structure Store (sdk : Sdk) where
  epochs : Partition Nat EpochRecord
  epochLeaves : Partition (Nat × Hash32) String
  witnessRevisions : Partition Hash32 (AnyRevision sdk)
  leafToTips : Partition (Hash32 × UInt8) Hash32
  leafOwner : Partition Hash32 String
  tipToPair : Partition Hash32 TipPairIndex
  pendingAnchors : Partition Nat (PendingEpoch sdk)
  pendingLeaves : Partition (Hash32 × UInt8) Nat
  selfCheckedTips : Partition Hash32 Unit

namespace Store

/-- A fresh keyspace. -/
def empty : Store sdk :=
  ⟨∅, ∅, ∅, ∅, ∅, ∅, ∅, ∅, ∅⟩

/-! ## Writes -/

/-- The index entry of a witness. -/
def pairIndex (w : MintedWitness sdk) : TipPairIndex where
  objectHash := w.objectHash
  signatureHash := w.signatureHash
  leaf := w.leaf
  methodByte := w.method.methodByte
  epochId := w.epochId
  submitterDid := w.submitterDid
  objectFileName := w.objectFileName
  signatureFileName := w.signatureFileName

/-- `write_witnesses`: both revisions, the leaf's tip and the tip's index. -/
def writeWitnesses (st : Store sdk) (witnesses : List (MintedWitness sdk)) :
    Store sdk :=
  { st with
    witnessRevisions := st.witnessRevisions.insertMany
      (witnesses.flatMap fun w =>
        [(w.objectHash, w.objectRevision),
          (w.signatureHash, w.signatureRevision)])
    leafToTips := st.leafToTips.insertMany
      (witnesses.map fun w => ((w.leaf, w.method.methodByte), w.signatureHash))
    tipToPair := st.tipToPair.insertMany
      (witnesses.map fun w => (w.signatureHash, pairIndex w)) }

/-- The pending record of a sealed epoch with its per-leaf lookups. -/
def writePending (st : Store sdk) (p : PendingEpoch sdk)
    (leaves : List Hash32) : Store sdk :=
  { st with
    pendingAnchors := st.pendingAnchors.insert p.epochId p
    pendingLeaves := st.pendingLeaves.insertMany
      (leaves.flatMap fun leaf =>
        p.methods.map fun m => ((leaf, m.methodByte), p.epochId)) }

/-- The epoch record, its leaf set and the owner of each leaf. -/
def writeEpoch (st : Store sdk) (record : EpochRecord)
    (leaves : List LeafEntry) : Store sdk :=
  { st with
    epochs := st.epochs.insert record.id record
    epochLeaves := st.epochLeaves.insertMany
      (leaves.map fun e => ((record.id, e.leaf), e.submitterDid))
    leafOwner := st.leafOwner.insertMany
      (leaves.map fun e => (e.leaf, e.submitterDid)) }

/-- `persist_sealed_epoch_with_pending`. -/
def persistSealedEpochWithPending (st : Store sdk) (record : EpochRecord)
    (leaves : List LeafEntry) (witnesses : List (MintedWitness sdk))
    (pending : Option (PendingEpoch sdk)) : Except StoreError (Store sdk) :=
  match pending with
  | none => .ok ((st.writeEpoch record leaves).writeWitnesses witnesses)
  | some p =>
      match p.leafHashes with
      | .error e => .error (.pending e.display)
      | .ok hashes =>
          .ok (((st.writePending p hashes).writeEpoch record
            leaves).writeWitnesses witnesses)

/-- Drop the lookups of `done` that belong to the epoch: a leaf resubmitted in
a later pending epoch points there and keeps its lookup. -/
def dropPendingLeaves (st : Store sdk) (epochId : Nat) (done : AnchorMethod)
    (leaves : List Hash32) : Store sdk :=
  { st with
    pendingLeaves := st.pendingLeaves.removeAll
      ((leaves.map fun leaf => (leaf, done.methodByte)).filter
        fun key => st.pendingLeaves[key]? = some epochId) }

/-- Overwrite the pending record, or remove it when no method remains. -/
def replacePending (st : Store sdk) (remaining : PendingEpoch sdk) :
    Store sdk :=
  { st with
    pendingAnchors :=
      if remaining.methods.isEmpty then
        st.pendingAnchors.erase remaining.epochId
      else st.pendingAnchors.insert remaining.epochId remaining }

/-- `persist_pending_minted`: the witnesses of `done`, their self-check
markers, and the pending record without `done`, in one batch. -/
def persistPendingMinted (st : Store sdk) (remaining : PendingEpoch sdk)
    (done : AnchorMethod) (witnesses : List (MintedWitness sdk)) :
    Except StoreError (Store sdk) :=
  match remaining.leafHashes with
  | .error e => .error (.pending e.display)
  | .ok hashes =>
      let written := st.writeWitnesses witnesses
      .ok <| replacePending
        (dropPendingLeaves
          { written with
            selfCheckedTips := written.selfCheckedTips.insertMany
              (witnesses.map fun w => (w.signatureHash, ())) }
          remaining.epochId done hashes)
        remaining

/-- `save_pending`: overwrite a pending record. -/
def savePending (st : Store sdk) (p : PendingEpoch sdk) : Store sdk :=
  { st with pendingAnchors := st.pendingAnchors.insert p.epochId p }

/-! ## Reads -/

/-- Every epoch with an outstanding anchor, oldest first. -/
def listPendingEpochs (st : Store sdk) : List (PendingEpoch sdk) :=
  st.pendingAnchors.inOrder

def getPendingEpochForLeaf (st : Store sdk) (leaf : Hash32)
    (method : AnchorMethod) : Option Nat :=
  st.pendingLeaves[(leaf, method.methodByte)]?

def isEpochPending (st : Store sdk) (epochId : Nat) (method : AnchorMethod) :
    Bool :=
  match st.pendingAnchors[epochId]? with
  | some p => p.methods.contains method
  | none => false

theorem isEpochPending_eq_true {st : Store sdk} {e : Nat} {m : AnchorMethod} :
    st.isEpochPending e m = true ↔
      ∃ q, st.pendingAnchors[e]? = some q ∧ m ∈ q.methods := by
  unfold isEpochPending
  split <;> simp_all

def getEpoch (st : Store sdk) (id : Nat) : Option EpochRecord :=
  st.epochs[id]?

/-- Highest persisted epoch id: the last key of the partition. -/
def lastSealedEpochId (st : Store sdk) : Option Nat :=
  st.epochs.keys.getLast?

/-- The `epoch_leaves` partition under its byte keys. -/
def epochLeavesBytes (st : Store sdk) : Partition (List UInt8) String :=
  (∅ : Partition (List UInt8) String).insertMany
    (st.epochLeaves.toList.map fun x => (composeLeavesKey x.1.1 x.1.2, x.2))

/-- `list_epoch_leaves`: the keys that start with the epoch id, in byte order,
with the leaf read off behind it. -/
def listEpochLeaves (st : Store sdk) (id : Nat) :
    Except BadLeavesKey (List (List UInt8 × String)) :=
  (st.epochLeavesBytes.toList.filter fun kv =>
    (toBeBytes id).isPrefixOf kv.1).mapM fun kv =>
      if kv.1.length ≠ epochLeavesKeyLen then .error ⟨kv.1.length⟩
      else .ok (kv.1.drop 8, kv.2)

def getRevision (st : Store sdk) (hash : Hash32) : Option (AnyRevision sdk) :=
  st.witnessRevisions[hash]?

def getTipPair (st : Store sdk) (signatureHash : Hash32) :
    Option TipPairIndex :=
  st.tipToPair[signatureHash]?

def isSelfChecked (st : Store sdk) (signatureHash : Hash32) : Bool :=
  st.selfCheckedTips.contains signatureHash

def getTipForLeaf (st : Store sdk) (leaf : Hash32) (method : AnchorMethod) :
    Option Hash32 :=
  st.leafToTips[(leaf, method.methodByte)]?

def getLeafOwner (st : Store sdk) (leaf : Hash32) : Option String :=
  st.leafOwner[leaf]?

end Store

end AquaTimestamp
