import AquaTimestamp.Model.SelfCheck
import AquaTimestamp.Model.Storage
import AquaTimestamp.Support.Trace

/-!
# The sealer

`sealer.rs` and the minter of `witness.rs` as programs.  Everything a seal
cycle asks of the store, the accumulator, the anchor providers, the SDK's
signing and batch producer, and the self-check hosts is a call; what it does
with the answers is written out as in the source.  The in-memory pending
record and the set of methods that are down for the tick are passed along and
returned.
-/

namespace AquaTimestamp

open Support

/-! ## Context and errors -/

/-- Which self-check hosts are wired. -/
structure HostWiring where
  blockchain : Bool
  tsa : Bool
  deriving DecidableEq

/-- `WitnessContext`: the sealer's configuration.  Of providers and hosts it
records whether they are wired; what they answer is asked at each call. -/
structure WitnessContext where
  methods : List AnchorMethod
  evmAnchor : Bool
  qtsaAnchor : Bool
  selfCheck : HostWiring
  evmNotFoundTimeoutSecs : Nat
  maxAnchorFaults : UInt32
  serviceDid : String
  deriving DecidableEq

/-- `SealError`. -/
inductive SealError where
  | store (e : StoreError)
  | witness (e : WitnessError)
  | missingProvider (method : AnchorMethod)
  | missingSelfCheckHost (method : AnchorMethod)
  | noServiceDid
  deriving DecidableEq

namespace WitnessContext

/-- Whether a provider is wired for a method. -/
def provider (ctx : WitnessContext) : AnchorMethod → Bool
  | .evm => ctx.evmAnchor
  | .qtsa => ctx.qtsaAnchor

/-- Whether a method's self-check host is missing. -/
def hostMissing (ctx : WitnessContext) : AnchorMethod → Bool
  | .evm => !ctx.selfCheck.blockchain
  | .qtsa => !ctx.selfCheck.tsa

/-- `validate`: every enabled method has a provider and a self-check host, and
the service DID is known. -/
def validate (ctx : WitnessContext) : Except SealError Unit :=
  match ctx.methods.find? fun m => !ctx.provider m with
  | some m => .error (.missingProvider m)
  | none =>
      match ctx.methods.find? ctx.hostMissing with
      | some m => .error (.missingSelfCheckHost m)
      | none => if ctx.serviceDid = "" then .error .noServiceDid else .ok ()

end WitnessContext

/-! ## Calls and answers -/

/-- How a store write ended.  An error may come before the batch is committed
or from the final fsync after it; the caller sees an error either way. -/
inductive WriteOutcome where
  | ok
  | failed (e : StoreError)
  | unsynced (e : StoreError)
  deriving DecidableEq

namespace WriteOutcome

/-- Whether the batch took effect. -/
def committed : WriteOutcome → Bool
  | .ok => true
  | .failed _ => false
  | .unsynced _ => true

/-- What the caller sees. -/
def result : WriteOutcome → Except StoreError Unit
  | .ok => .ok ()
  | .failed e => .error e
  | .unsynced e => .error e

def isOk : WriteOutcome → Bool
  | .ok => true
  | _ => false

end WriteOutcome

/-- The behaviour of both hosts at one self-check. -/
structure HostAnswers (sdk : Sdk) where
  blockchain : BlockchainHost sdk
  tsa : WebHost

/-- The hosts the self-check sees: the wired ones. -/
def HostWiring.hosts {sdk : Sdk} (wiring : HostWiring)
    (answers : HostAnswers sdk) : SelfCheckHosts sdk where
  blockchain := if wiring.blockchain then some answers.blockchain else none
  tsa := if wiring.tsa then some answers.tsa else none

/-- A call of the sealer.  Provider and self-check calls carry the epoch and
method they are made for, and a self-check the anchor the witnesses were
minted from, as the source's log lines do. -/
inductive Call (sdk : Sdk) where
  | listPendingEpochs
  | swapAndOpenNext (closedAt nextOpenedAt durationSecs : Nat)
  | prepareBatchTimestamp (targets : List sdk.RevisionLink)
  | createTimestamp (epochId : Nat) (method : AnchorMethod) (root : String)
  | finishBatchTimestamp (prepared : sdk.PreparedBatch)
      (targets : List sdk.RevisionLink) (facts : TimestampValue)
  | signRevision (link : sdk.RevisionLink)
  | selfCheck (epochId : Nat) (method : AnchorMethod) (value : TimestampValue)
      (minted : List (MintedWitness sdk)) (serviceDid : String)
      (wiring : HostWiring)
  | persistSealedEpoch (record : EpochRecord) (leaves : List LeafEntry)
      (witnesses : List (MintedWitness sdk))
      (pending : Option (PendingEpoch sdk))
  | persistPendingMinted (remaining : PendingEpoch sdk) (done : AnchorMethod)
      (witnesses : List (MintedWitness sdk))
  | savePending (pending : PendingEpoch sdk)
  | panicked

/-- The answers of each call.  A panicked self-check answers with the join
error's text; a panic of the sealer itself is never answered. -/
@[reducible]
def Answer {sdk : Sdk} : Call sdk → Type
  | .listPendingEpochs => Except StoreError (List (PendingEpoch sdk))
  | .swapAndOpenNext .. => SealedSnapshot
  | .prepareBatchTimestamp _ => Except String sdk.PreparedBatch
  | .createTimestamp .. => Except String TimestampValue
  | .finishBatchTimestamp .. =>
      Except String (List (List (sdk.RevisionLink × AnyRevision sdk)))
  | .signRevision _ => Except String sdk.Signature
  | .selfCheck .. => Except String (HostAnswers sdk)
  | .persistSealedEpoch .. => WriteOutcome
  | .persistPendingMinted .. => WriteOutcome
  | .savePending _ => WriteOutcome
  | .panicked => Empty

/-- Programs of the sealer. -/
abbrev SealM (sdk : Sdk) (α : Type) : Type :=
  Prog (Call sdk) Answer α

/-- Calls of the sealer with their answers. -/
abbrev SealTrace (sdk : Sdk) : Type :=
  Trace (Call sdk) (@Answer sdk)

variable {sdk : Sdk}

namespace SealM

def listPendingEpochs :
    SealM sdk (Except StoreError (List (PendingEpoch sdk))) :=
  Prog.ask Call.listPendingEpochs

def swapAndOpenNext (closedAt nextOpenedAt durationSecs : Nat) :
    SealM sdk SealedSnapshot :=
  Prog.ask (Call.swapAndOpenNext closedAt nextOpenedAt durationSecs)

def prepareBatchTimestamp (targets : List sdk.RevisionLink) :
    SealM sdk (Except String sdk.PreparedBatch) :=
  Prog.ask (Call.prepareBatchTimestamp targets)

def createTimestamp (epochId : Nat) (method : AnchorMethod) (root : String) :
    SealM sdk (Except String TimestampValue) :=
  Prog.ask (Call.createTimestamp epochId method root)

def finishBatchTimestamp (prepared : sdk.PreparedBatch)
    (targets : List sdk.RevisionLink) (facts : TimestampValue) :
    SealM sdk
      (Except String (List (List (sdk.RevisionLink × AnyRevision sdk)))) :=
  Prog.ask (Call.finishBatchTimestamp prepared targets facts)

def signRevision (link : sdk.RevisionLink) :
    SealM sdk (Except String sdk.Signature) :=
  Prog.ask (Call.signRevision link)

def selfCheck (epochId : Nat) (method : AnchorMethod) (value : TimestampValue)
    (minted : List (MintedWitness sdk)) (serviceDid : String)
    (wiring : HostWiring) : SealM sdk (Except String (HostAnswers sdk)) :=
  Prog.ask (Call.selfCheck epochId method value minted serviceDid wiring)

def persistSealedEpoch (record : EpochRecord) (leaves : List LeafEntry)
    (witnesses : List (MintedWitness sdk))
    (pending : Option (PendingEpoch sdk)) : SealM sdk WriteOutcome :=
  Prog.ask (Call.persistSealedEpoch record leaves witnesses pending)

def persistPendingMinted (remaining : PendingEpoch sdk) (done : AnchorMethod)
    (witnesses : List (MintedWitness sdk)) : SealM sdk WriteOutcome :=
  Prog.ask (Call.persistPendingMinted remaining done witnesses)

def savePending (pending : PendingEpoch sdk) : SealM sdk WriteOutcome :=
  Prog.ask (Call.savePending pending)

/-- A panic: the sealer's task ends here. -/
def panicHere {α : Type} : SealM sdk α :=
  .call .panicked fun e => nomatch e

end SealM

/-! ## Minting -/

/-- `revision_link_to_hash`: the digest of a SHA3-256 link. -/
def revisionLinkToHash (link : sdk.RevisionLink) :
    Except WitnessError Hash32 :=
  match sdk.multihashDecode link with
  | some (.sha3_256, digest) =>
      match toHash32 digest with
      | some h => .ok h
      | none => .error (.badHash (sdk.linkLength link))
  | _ => .error (.badHash (sdk.linkLength link))

/-- `added_timestamp`: the one revision the producer added to a carrier, a
typed object on the leaf. -/
def addedTimestamp (tree : List (sdk.RevisionLink × AnyRevision sdk))
    (leaf : Hash32) :
    Except WitnessError (sdk.RevisionLink × AnyRevision sdk) :=
  match tree.filter fun x => x.1 ≠ sdk.linkFromBytes leaf with
  | [] => .error (.object "batch producer added no revision")
  | [(link, .typed object)] =>
      if sdk.objectPrevious object = some (sdk.linkFromBytes leaf) then
        .ok (link, .typed object)
      else
        .error (.object
          "batch producer's revision is not a timestamp object on the leaf")
  | [_] =>
      .error (.object
        "batch producer's revision is not a timestamp object on the leaf")
  | _ => .error (.object "batch producer added more than one revision")

/-- `sign_witness`: sign one timestamp object with the service key. -/
def signWitness (entry : LeafEntry) (epochId : Nat) (method : AnchorMethod)
    (objectLink : sdk.RevisionLink) (objectRevision : AnyRevision sdk) :
    SealM sdk (Except WitnessError (MintedWitness sdk)) :=
  match revisionLinkToHash objectLink with
  | .error e => pure (.error e)
  | .ok objectHash => do
      match ← SealM.signRevision objectLink with
      | .error e => pure (.error (.sign e))
      | .ok sig =>
          match sdk.signatureCalculateLink sig with
          | .error e => pure (.error (.sign ("calculate_link: " ++ e)))
          | .ok signatureLink =>
              match revisionLinkToHash signatureLink with
              | .error e => pure (.error e)
              | .ok signatureHash =>
                  let leafShort :=
                    String.ofList ((Hex.encode entry.leaf.toList).take 8)
                  pure (.ok {
                    objectHash := objectHash
                    signatureHash := signatureHash
                    leaf := entry.leaf
                    method := method
                    epochId := epochId
                    submitterDid := entry.submitterDid
                    objectFileName :=
                      "witness_" ++ method.asStr ++ "_" ++ leafShort
                    signatureFileName :=
                      "witness_sig_" ++ method.asStr ++ "_" ++ leafShort
                    objectRevision := objectRevision
                    signatureRevision := .signature sig })

/-- One `finish_batch_timestamp` per method: per method, one timestamp object
per leaf. -/
def finishMethods (batch : EpochBatch sdk) :
    List (AnchorMethod × MethodAnchorOutcome) →
      SealM sdk (Except WitnessError
        (List (AnchorMethod × List (sdk.RevisionLink × AnyRevision sdk))))
  | [] => pure (.ok [])
  | (method, outcome) :: rest => do
      match ← SealM.finishBatchTimestamp batch.prepared batch.targets
          (outcome.facts method batch.anchorRoot) with
      | .error e => pure (.error (.batch ("finish_batch_timestamp: " ++ e)))
      | .ok results =>
          match (results.zip batch.leaves).mapM
              (fun x => addedTimestamp x.1 x.2) with
          | .error e => pure (.error e)
          | .ok perLeaf => do
              match ← finishMethods batch rest with
              | .error e => pure (.error e)
              | .ok more => pure (.ok ((method, perLeaf) :: more))

/-- The witnesses of the leaf at position `i`, in method order.  The object is
taken by index, so too few results of the producer are a panic. -/
def signLeaf (epochId : Nat) (entry : LeafEntry) (i : Nat) :
    List (AnchorMethod × List (sdk.RevisionLink × AnyRevision sdk)) →
      SealM sdk (Except WitnessError (List (MintedWitness sdk)))
  | [] => pure (.ok [])
  | (method, objects) :: rest =>
      match objects[i]? with
      | none => SealM.panicHere
      | some (link, revision) => do
          match ← signWitness entry epochId method link revision with
          | .error e => pure (.error e)
          | .ok w => do
              match ← signLeaf epochId entry i rest with
              | .error e => pure (.error e)
              | .ok ws => pure (.ok (w :: ws))

/-- The witnesses of the leaves from position `i` on, in leaf order. -/
def signLeaves (epochId : Nat)
    (objects : List (AnchorMethod × List (sdk.RevisionLink × AnyRevision sdk))) :
    List LeafEntry → Nat →
      SealM sdk (Except WitnessError (List (MintedWitness sdk)))
  | [], _ => pure (.ok [])
  | entry :: entries, i => do
      match ← signLeaf epochId entry i objects with
      | .error e => pure (.error e)
      | .ok ws => do
          match ← signLeaves epochId objects entries (i + 1) with
          | .error e => pure (.error e)
          | .ok more => pure (.ok (ws ++ more))

/-- `mint_witnesses_for_epoch`. -/
def mintWitnessesForEpoch (snapshot : SealedSnapshot) (batch : EpochBatch sdk)
    (outcomes : List (AnchorMethod × MethodAnchorOutcome)) :
    SealM sdk (Except WitnessError (List (MintedWitness sdk))) :=
  if snapshot.leaves.map LeafEntry.leaf ≠ batch.leaves then
    pure (.error (.batch
      "prepared batch does not hold the snapshot's leaves in order"))
  else do
    match ← finishMethods batch outcomes with
    | .error e => pure (.error e)
    | .ok objects => signLeaves snapshot.epochId objects snapshot.leaves 0

/-! ## Settling one method of one pending epoch -/

/-- `anchor_root`: one provider call; `none` when it failed. -/
def anchorRoot (ctx : WitnessContext) (method : AnchorMethod) (epochId : Nat)
    (root : String) : SealM sdk (Option TimestampValue) :=
  if ctx.provider method then do
    match ← SealM.createTimestamp epochId method root with
    | .ok value => pure (some value)
    | .error _ => pure none
  else pure none

/-- `store_anchor`: save the record, once more on failure. -/
def storeAnchor (pending : PendingEpoch sdk) : SealM sdk Bool := do
  let first ← SealM.savePending pending
  if first.isOk then pure true
  else do
    let second ← SealM.savePending pending
    pure second.isOk

/-- Step 1 of `settle_method`: the stored anchor, or one provider call whose
anchor is stored before anything is minted from it. -/
def obtainAnchor (ctx : WitnessContext) (pending : PendingEpoch sdk)
    (method : AnchorMethod) (down : List AnchorMethod) (now : Nat) :
    SealM sdk
      (PendingEpoch sdk × List AnchorMethod × Option TimestampValue) :=
  match pending.anchor method with
  | some value => pure (pending, down, some value)
  | none =>
      if method ∈ down then pure (pending, down, none)
      else if ctx.maxAnchorFaults ≤ pending.anchorFaultCount method then
        pure (pending, down, none)
      else do
        match ← anchorRoot ctx method pending.epochId pending.anchorRoot with
        | none => pure (pending, method :: down, none)
        | some value => do
            let held := pending.setAnchor method value now
            let stored ← storeAnchor held
            if stored then pure (held, down, some value)
            else pure (held, method :: down, none)

/-- Step 2: mint from the anchor. -/
def mintFrom (pending : PendingEpoch sdk) (method : AnchorMethod)
    (value : TimestampValue) :
    SealM sdk (Except WitnessError (List (MintedWitness sdk))) :=
  match pending.restore with
  | .error e => pure (.error e)
  | .ok (snapshot, batch) =>
      mintWitnessesForEpoch snapshot batch
        [(method, MethodAnchorOutcome.fromValue method value)]

/-- The verdicts of `self_check`: the batch check, or one failure per witness
when the checking task panicked. -/
def selfCheckVerdicts (wiring : HostWiring) (serviceDid : String)
    (minted : List (MintedWitness sdk)) :
    Except String (HostAnswers sdk) → List SelfCheckVerdict
  | .ok answers =>
      SelfCheck.verifyMintedBatch minted serviceDid (wiring.hosts answers)
  | .error e =>
      List.replicate minted.length (.failed ("self-check task: " ++ e) false)

/-- The verdict that decides the loop over witnesses and verdicts: the first
that is not verified. -/
def firstUnverified (minted : List (MintedWitness sdk))
    (verdicts : List SelfCheckVerdict) : Option SelfCheckVerdict :=
  ((minted.zip verdicts).find? fun x => x.2 ≠ .verified).map Prod.snd

/-- The in-memory discard of an anchor at fault or abandoned. -/
def discardAnchor (pending : PendingEpoch sdk) (method : AnchorMethod) :
    PendingEpoch sdk :=
  (pending.countAnchorFault method).1.dropAnchor method

/-- `settle_missing`: keep the anchor while it is younger than the not-found
timeout, else discard it.  The save's error is only logged. -/
def settleMissing (ctx : WitnessContext) (pending : PendingEpoch sdk)
    (method : AnchorMethod) (now : Nat) : SealM sdk (PendingEpoch sdk) :=
  match pending.anchorFirstSeen method now with
  | none => pure pending
  | some ((firstSeen, changed), seen) =>
      if now - firstSeen < ctx.evmNotFoundTimeoutSecs then
        if changed then do
          let _ ← SealM.savePending seen
          pure seen
        else pure seen
      else do
        let _ ← SealM.savePending (discardAnchor seen method)
        pure (discardAnchor seen method)

/-- Steps 3 and 4: act on the deciding verdict, or serve when every witness is
verified.  A failed serve keeps the record as it was in memory. -/
def settleVerdict (ctx : WitnessContext) (pending : PendingEpoch sdk)
    (method : AnchorMethod) (down : List AnchorMethod) (now : Nat)
    (minted : List (MintedWitness sdk)) :
    Option SelfCheckVerdict →
      SealM sdk
        (PendingEpoch sdk × List AnchorMethod ×
          Option (List (MintedWitness sdk)))
  | some (.missing _) => do
      let settled ← settleMissing ctx pending method now
      pure (settled, down, none)
  | some (.failed _ true) => do
      let _ ← SealM.savePending (discardAnchor pending method)
      pure (discardAnchor pending method, method :: down, none)
  | some _ => pure (pending, down, none)
  | none => do
      let outcome ← SealM.persistPendingMinted (pending.without method) method
        minted
      if outcome.isOk then
        pure (pending.without method, down, some minted)
      else pure (pending, down, none)

/-- `settle_method`: take one pending (epoch, method) as far as it goes. -/
def settleMethod (ctx : WitnessContext) (pending : PendingEpoch sdk)
    (method : AnchorMethod) (down : List AnchorMethod) (now : Nat) :
    SealM sdk
      (PendingEpoch sdk × List AnchorMethod ×
        Option (List (MintedWitness sdk))) :=
  if method ∉ ctx.methods then pure (pending, down, none)
  else do
    let (pending, down, value?) ← obtainAnchor ctx pending method down now
    match value? with
    | none => pure (pending, down, none)
    | some value => do
        match ← mintFrom pending method value with
        | .error _ => pure (pending, down, none)
        | .ok minted => do
            let answer ← SealM.selfCheck pending.epochId method value minted
              ctx.serviceDid ctx.selfCheck
            settleVerdict ctx pending method down now minted
              (firstUnverified minted
                (selfCheckVerdicts ctx.selfCheck ctx.serviceDid minted answer))

/-! ## The seal cycle -/

/-- The loop over a record's methods. -/
def settleMethods (ctx : WitnessContext) (now : Nat) :
    List AnchorMethod → PendingEpoch sdk → List AnchorMethod →
      SealM sdk (PendingEpoch sdk × List AnchorMethod ×
        List (MintedWitness sdk))
  | [], pending, down => pure (pending, down, [])
  | method :: methods, pending, down => do
      let (pending, down, served) ← settleMethod ctx pending method down now
      let (pending, down, more) ← settleMethods ctx now methods pending down
      pure (pending, down, served.getD [] ++ more)

/-- The loop of `retry_pending` over the listed records. -/
def retryEach (ctx : WitnessContext) (now : Nat) :
    List (PendingEpoch sdk) → List AnchorMethod →
      SealM sdk (List (MintedWitness sdk) × List AnchorMethod)
  | [], down => pure ([], down)
  | pending :: rest, down => do
      let (_, down, out) ← settleMethods ctx now pending.methods pending down
      let (more, down) ← retryEach ctx now rest down
      pure (out ++ more, down)

/-- `retry_pending`: settle every outstanding epoch, oldest first. -/
def retryPending (ctx : WitnessContext) (now : Nat) :
    SealM sdk (List (MintedWitness sdk) × List AnchorMethod) := do
  match ← SealM.listPendingEpochs with
  | .error _ => pure ([], [])
  | .ok pendings => retryEach ctx now pendings []

/-- `EpochBatch::prepare`. -/
def prepare (leaves : List Hash32) :
    SealM sdk (Except WitnessError (Option (EpochBatch sdk))) :=
  if leaves.isEmpty then pure (.ok none)
  else do
    match ← SealM.prepareBatchTimestamp (leaves.map sdk.linkFromBytes) with
    | .error e => pure (.error (.batch ("prepare_batch_timestamp: " ++ e)))
    | .ok prepared => pure (.ok (some ⟨prepared, leaves⟩))

/-- `build_record`. -/
def buildRecord (snapshot : SealedSnapshot) (batch : Option (EpochBatch sdk)) :
    Except WitnessError EpochRecord :=
  let record (root : Hash32) : EpochRecord :=
    ⟨snapshot.epochId, snapshot.openedAt, snapshot.closedAt, root,
      snapshot.leaves.length, hashTypeLabel⟩
  match batch with
  | some batch => batch.rootDigest.map record
  | none => .ok (record sdk.sha3Empty)

/-- The pending record of a closed epoch: every enabled method, when there is
a batch and a method at all. -/
def pendingFor (witnessCtx : Option WitnessContext) (snapshot : SealedSnapshot)
    (batch : Option (EpochBatch sdk)) : Option (PendingEpoch sdk) :=
  match witnessCtx, batch with
  | some ctx, some batch =>
      if ctx.methods.isEmpty then none
      else some (PendingEpoch.new snapshot batch ctx.methods)
  | _, _ => none

/-- What `seal_once` does with the closed epoch's snapshot. -/
def sealSnapshot (witnessCtx : Option WitnessContext) (closedAt : Nat)
    (witnesses : List (MintedWitness sdk)) (down : List AnchorMethod)
    (snapshot : SealedSnapshot) :
    SealM sdk (Except SealError (EpochRecord × List (MintedWitness sdk))) := do
  match ← prepare (snapshot.leaves.map LeafEntry.leaf) with
  | .error e => pure (.error (.witness e))
  | .ok batch =>
      match buildRecord snapshot batch with
      | .error e => pure (.error (.witness e))
      | .ok record => do
          let pending := pendingFor witnessCtx snapshot batch
          let outcome ← SealM.persistSealedEpoch record snapshot.leaves [] pending
          match outcome.result with
          | .error e => pure (.error (.store e))
          | .ok _ =>
              match witnessCtx, pending with
              | some ctx, some pending => do
                  let (_, _, minted) ←
                    settleMethods ctx closedAt pending.methods pending down
                  pure (.ok (record, witnesses ++ minted))
              | _, _ => pure (.ok (record, witnesses))

/-- `seal_once`: one seal cycle.  An invalid context is refused before the
epoch is closed. -/
def sealOnce (closedAt durationSecs : Nat)
    (witnessCtx : Option WitnessContext) :
    SealM sdk (Except SealError (EpochRecord × List (MintedWitness sdk))) :=
  match witnessCtx with
  | none => do
      let snapshot ← SealM.swapAndOpenNext closedAt closedAt durationSecs
      sealSnapshot none closedAt [] [] snapshot
  | some ctx =>
      match ctx.validate with
      | .error e => pure (.error e)
      | .ok _ => do
          let (witnesses, down) ← retryPending ctx closedAt
          let snapshot ← SealM.swapAndOpenNext closedAt closedAt durationSecs
          sealSnapshot (some ctx) closedAt witnesses down snapshot

end AquaTimestamp
