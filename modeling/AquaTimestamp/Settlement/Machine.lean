import AquaTimestamp.Model.Server

/-!
# The settlement machine

What the sealer is for, as a state machine: a pending (epoch, method) is taken
from no anchor, over an anchor in memory and an anchor in the store, to
self-checked witnesses, or it stays pending.  The machine keeps the sealer's
memory explicit as a `Job`: the record it works on, the methods it has not
come to yet, and how far the current method is.

`Reach` are the worlds of the server together with the job in progress.  The
refinement module shows that every world the sealer's programs visit is one of
these; the properties of the server are proved by induction over `Reach`.
-/

namespace AquaTimestamp

open Support

variable {sdk : Sdk}

/-- The witnesses of one method of an epoch: one for each leaf, in order, with
the leaf's submitter. -/
def MintedFor (snapshot : SealedSnapshot) (method : AnchorMethod)
    (minted : List (MintedWitness sdk)) : Prop :=
  (minted.map fun w => (w.epochId, w.method, LeafEntry.mk w.leaf w.submitterDid)) =
    snapshot.leaves.map fun e => (snapshot.epochId, method, e)

theorem MintedFor.of_mem {snapshot : SealedSnapshot} {method : AnchorMethod}
    {minted : List (MintedWitness sdk)} (h : MintedFor snapshot method minted)
    {w : MintedWitness sdk} (hw : w ∈ minted) :
    w.epochId = snapshot.epochId ∧ w.method = method ∧
      LeafEntry.mk w.leaf w.submitterDid ∈ snapshot.leaves := by
  have hmem := List.mem_map_of_mem
    (f := fun w => (w.epochId, w.method, LeafEntry.mk w.leaf w.submitterDid)) hw
  rw [h] at hmem
  obtain ⟨entry, hentry, heq⟩ := List.mem_map.mp hmem
  simp only [Prod.mk.injEq] at heq
  obtain ⟨hid, hmethod, rfl⟩ := heq
  exact ⟨hid.symm, hmethod.symm, hentry⟩

/-- In the tick in progress the batch was finished with the facts of the
anchor `v`, and the producer returned `results`. -/
def Finished (log : List (Event sdk)) (batch : EpochBatch sdk)
    (method : AnchorMethod) (v : TimestampValue)
    (results : List (List (sdk.RevisionLink × AnyRevision sdk))) : Prop :=
  .call (.finishBatchTimestamp batch.prepared batch.targets
    ((MethodAnchorOutcome.fromValue method v).facts method batch.anchorRoot))
      (.ok results) ∈ thisCycle log

/-- The witnesses were minted in the tick in progress from the batch and the
anchor `v`: each carries the object that the producer put on its leaf. -/
def MintedFrom (log : List (Event sdk)) (batch : EpochBatch sdk)
    (method : AnchorMethod) (v : TimestampValue)
    (minted : List (MintedWitness sdk)) : Prop :=
  ∃ results, Finished log batch method v results ∧
    ∀ (i : Nat) wit, minted[i]? = some wit → ∃ tree link,
      results[i]? = some tree ∧ batch.leaves[i]? = some wit.leaf ∧
        addedTimestamp tree wit.leaf = .ok (link, wit.objectRevision) ∧
        revisionLinkToHash link = .ok wit.objectHash

theorem MintedFrom.cons {log : List (Event sdk)} {batch : EpochBatch sdk}
    {method : AnchorMethod} {v : TimestampValue}
    {minted : List (MintedWitness sdk)} {ev : Event sdk}
    (h : MintedFrom log batch method v minted) (hev : ev.isBoundary = false) :
    MintedFrom (ev :: log) batch method v minted := by
  obtain ⟨results, hfinished, hobjects⟩ := h
  exact ⟨results, mem_thisCycle_cons hev hfinished, hobjects⟩

/-- The calls minting makes. -/
def Call.isMinting : Call sdk → Bool
  | .finishBatchTimestamp .. => true
  | .signRevision _ => true
  | _ => false

/-! ## Jobs -/

/-- How far the current method of a record is. -/
inductive Phase (sdk : Sdk) where
  /-- Between two methods. -/
  | ready
  /-- The provider answered; the anchor is in the record in memory only, as
  far as the sealer knows. -/
  | unsaved (method : AnchorMethod) (value : TimestampValue)
  /-- The record's anchor is stored; its witnesses are being minted. -/
  | anchored (method : AnchorMethod) (value : TimestampValue)
  /-- The witnesses were checked, with the deciding verdict. -/
  | judged (method : AnchorMethod) (value : TimestampValue)
      (minted : List (MintedWitness sdk)) (verdict : Option SelfCheckVerdict)
  /-- The anchor's entry changed in memory and is about to be saved. -/
  | resaving (method : AnchorMethod)

/-- The settlement of one pending record. -/
structure Settling (sdk : Sdk) where
  ctx : WitnessContext
  now : Nat
  durationSecs : Nat
  /-- Methods that are down for the tick. -/
  down : List AnchorMethod
  /-- The listed records that come after this one; `none` when this is the
  closed epoch's own record. -/
  later : Option (List (PendingEpoch sdk))
  /-- The record in memory. -/
  record : PendingEpoch sdk
  /-- The methods the sealer has not come to. -/
  todo : List AnchorMethod
  phase : Phase sdk

/-- What the sealer's task is doing. -/
inductive Job (sdk : Sdk) where
  | idle
  /-- `seal_once` was entered and has not read the pending records. -/
  | entered (ctx : Option WitnessContext) (now durationSecs : Nat)
  /-- In `retry_pending`, with the records still to come. -/
  | retrying (ctx : Option WitnessContext) (now durationSecs : Nat)
      (down : List AnchorMethod) (queue : List (PendingEpoch sdk))
  /-- The epoch is closed and not stored yet; with the answer to its batch
  preparation, once there is one. -/
  | closing (ctx : Option WitnessContext) (now durationSecs : Nat)
      (down : List AnchorMethod) (snapshot : SealedSnapshot)
      (prepared : Option (Except String sdk.PreparedBatch))
  | settling (s : Settling sdk)

/-- The batch of a closed epoch: none for an empty one, else the prepared. -/
def Batched (snapshot : SealedSnapshot)
    (prepared : Option (Except String sdk.PreparedBatch))
    (batch : Option (EpochBatch sdk)) : Prop :=
  (snapshot.leaves = [] ∧ batch = none) ∨
    (snapshot.leaves ≠ [] ∧ ∃ p, prepared = some (.ok p) ∧
      batch = some ⟨p, snapshot.leaves.map LeafEntry.leaf⟩)

/-- The job after the seal write: settle the closed epoch's record, when it is
stored and there is one. -/
def Job.persisted (ctx : Option WitnessContext) (now durationSecs : Nat)
    (down : List AnchorMethod) (pending : Option (PendingEpoch sdk))
    (o : WriteOutcome) : Job sdk :=
  match o, ctx, pending with
  | .ok, some ctx, some p =>
      .settling ⟨ctx, now, durationSecs, down, none, p, p.methods, .ready⟩
  | _, _, _ => .idle

namespace Settling

/-- The next method to settle, when the sealer is between two methods. -/
def AtMethod (s : Settling sdk) (m : AnchorMethod)
    (rest : List AnchorMethod) : Prop :=
  s.phase = .ready ∧ s.todo = m :: rest

/-- The conditions under which the provider of a method is called. -/
structure MayCall (s : Settling sdk) (m : AnchorMethod) : Prop where
  enabled : m ∈ s.ctx.methods
  noAnchor : s.record.anchorEntry m = none
  notDown : m ∉ s.down
  belowCap : s.record.anchorFaultCount m < s.ctx.maxAnchorFaults

end Settling

/-! ## One step of settling a record -/

/-- One step of `settle_method` on the record of `s`. -/
inductive Settles : World sdk → Settling sdk → World sdk → Settling sdk → Prop where
  /-- A disabled method, a method down for the tick, or one at the fault cap
  is left pending. -/
  | skip {w : World sdk} {s : Settling sdk} {m : AnchorMethod}
      {rest : List AnchorMethod} :
      s.AtMethod m rest → ¬ s.MayCall m →
      (m ∈ s.ctx.methods → s.record.anchorEntry m = none) →
        Settles w s w { s with todo := rest }
  /-- No provider is wired for the method. -/
  | unwired {w : World sdk} {s : Settling sdk} {m : AnchorMethod}
      {rest : List AnchorMethod} :
      s.AtMethod m rest → s.ctx.provider m = false →
        Settles w s w { s with todo := rest, down := m :: s.down }
  /-- The provider call failed. -/
  | refused {w : World sdk} {s : Settling sdk} {m : AnchorMethod}
      {rest : List AnchorMethod} {e : String} :
      s.AtMethod m rest → s.MayCall m →
        Settles w s
          (w.after (.createTimestamp s.record.epochId m s.record.anchorRoot)
            (.error e))
          { s with todo := rest, down := m :: s.down }
  /-- The provider call succeeded; the anchor enters the record in memory. -/
  | obtained {w : World sdk} {s : Settling sdk} {m : AnchorMethod}
      {rest : List AnchorMethod} {v : TimestampValue} :
      s.AtMethod m rest → s.MayCall m →
        Settles w s
          (w.after (.createTimestamp s.record.epochId m s.record.anchorRoot)
            (.ok v))
          { s with
            todo := rest
            record := s.record.setAnchor m v s.now
            phase := .unsaved m v }
  /-- The record with the fresh anchor is saved; an error leaves it unsaved. -/
  | store {w : World sdk} {s : Settling sdk} {m : AnchorMethod}
      {v : TimestampValue} {o : WriteOutcome} :
      s.phase = .unsaved m v →
        Settles w s (w.after (.savePending s.record) o)
          { s with phase := if o.isOk then .anchored m v else .unsaved m v }
  /-- Both saves failed: not minted, the method is down for the tick. -/
  | giveUp {w : World sdk} {s : Settling sdk} {m : AnchorMethod}
      {v : TimestampValue} :
      s.phase = .unsaved m v →
        Settles w s w { s with phase := .ready, down := m :: s.down }
  /-- The record already holds the method's anchor. -/
  | hold {w : World sdk} {s : Settling sdk} {m : AnchorMethod}
      {rest : List AnchorMethod} {a : StoredAnchor} :
      s.AtMethod m rest → m ∈ s.ctx.methods →
      s.record.anchorEntry m = some a →
        Settles w s w { s with todo := rest, phase := .anchored m a.value }
  /-- A call of the minter. -/
  | mint {w : World sdk} {s : Settling sdk} {m : AnchorMethod}
      {v : TimestampValue} {c : Call sdk} {answer : Answer c} :
      s.phase = .anchored m v → c.isMinting = true →
        Settles w s (w.after c answer) s
  /-- Minting failed; the anchor is kept. -/
  | mintFailed {w : World sdk} {s : Settling sdk} {m : AnchorMethod}
      {v : TimestampValue} :
      s.phase = .anchored m v → Settles w s w { s with phase := .ready }
  /-- The minted witnesses are checked. -/
  | judge {w : World sdk} {s : Settling sdk} {m : AnchorMethod}
      {v : TimestampValue} {minted : List (MintedWitness sdk)}
      {snapshot : SealedSnapshot} {batch : EpochBatch sdk}
      {answer : Except String (HostAnswers sdk)} :
      s.phase = .anchored m v → s.record.restore = .ok (snapshot, batch) →
      MintedFor snapshot m minted → MintedFrom w.log batch m v minted →
        Settles w s
          (w.after (.selfCheck s.record.epochId m v minted s.ctx.serviceDid
            s.ctx.selfCheck) answer)
          { s with
            phase := .judged m v minted (firstUnverified minted
              (selfCheckVerdicts s.ctx.selfCheck s.ctx.serviceDid minted
                answer)) }
  /-- Not verifiable yet, or failed without the anchor being at fault. -/
  | keep {w : World sdk} {s : Settling sdk} {m : AnchorMethod}
      {v : TimestampValue} {minted : List (MintedWitness sdk)}
      {verdict : SelfCheckVerdict} :
      s.phase = .judged m v minted (some verdict) →
      (∀ reason, verdict = .missing reason → s.record.anchorEntry m = none) →
      (∀ reason, verdict ≠ .failed reason true) →
        Settles w s w { s with phase := .ready }
  /-- The anchor is at fault: counted and discarded in memory. -/
  | blame {w : World sdk} {s : Settling sdk} {m : AnchorMethod}
      {v : TimestampValue} {minted : List (MintedWitness sdk)}
      {reason : String} :
      s.phase = .judged m v minted (some (.failed reason true)) →
        Settles w s w
          { s with
            record := discardAnchor s.record m
            down := m :: s.down
            phase := .resaving m }
  /-- The transaction is unknown and the anchor younger than the timeout; an
  entry without a time gets one. -/
  | wait {w : World sdk} {s : Settling sdk} {m : AnchorMethod}
      {v : TimestampValue} {minted : List (MintedWitness sdk)}
      {reason : String} {a : StoredAnchor} :
      s.phase = .judged m v minted (some (.missing reason)) →
      s.record.anchorEntry m = some a →
      s.now - a.firstSeen.getD s.now < s.ctx.evmNotFoundTimeoutSecs →
        Settles w s w
          { s with
            record :=
              if a.firstSeen.isSome then s.record
              else s.record.touchAnchor m s.now
            phase := if a.firstSeen.isSome then .ready else .resaving m }
  /-- The transaction is unknown past the timeout: counted and discarded in
  memory. -/
  | abandon {w : World sdk} {s : Settling sdk} {m : AnchorMethod}
      {v : TimestampValue} {minted : List (MintedWitness sdk)}
      {reason : String} {a : StoredAnchor} :
      s.phase = .judged m v minted (some (.missing reason)) →
      s.record.anchorEntry m = some a →
      s.ctx.evmNotFoundTimeoutSecs ≤ s.now - a.firstSeen.getD s.now →
        Settles w s w
          { s with
            record :=
              if a.firstSeen.isSome then discardAnchor s.record m
              else discardAnchor (s.record.touchAnchor m s.now) m
            phase := .resaving m }
  /-- The changed record is saved; an error is only logged. -/
  | resave {w : World sdk} {s : Settling sdk} {m : AnchorMethod}
      {o : WriteOutcome} :
      s.phase = .resaving m →
        Settles w s (w.after (.savePending s.record) o)
          { s with phase := .ready }
  /-- Every witness is verified: they are written and the method leaves the
  record; an error keeps the record in memory as it was. -/
  | serve {w : World sdk} {s : Settling sdk} {m : AnchorMethod}
      {v : TimestampValue} {minted : List (MintedWitness sdk)}
      {o : WriteOutcome} :
      s.phase = .judged m v minted none →
      Permitted w (.persistPendingMinted (s.record.without m) m minted) o →
        Settles w s
          (w.after (.persistPendingMinted (s.record.without m) m minted) o)
          { s with
            record := if o.isOk then s.record.without m else s.record
            phase := .ready }

/-! ## The whole machine -/

/-- The worlds of a server started on `st`, with the job in progress. -/
inductive Reach (st : Store sdk) : World sdk → Job sdk → Prop where
  | boot (now durationSecs : Nat) :
      Reach st (World.boot st [] now durationSecs) .idle
  | append {w : World sdk} {j : Job sdk} (batch : List Hash32) (did : String) :
      Reach st w j → Reach st (w.append batch did) j
  /-- The process ends at any point and starts again. -/
  | restart {w : World sdk} {j : Job sdk} (now durationSecs : Nat) :
      Reach st w j → Reach st (w.restart now durationSecs) .idle
  | tick {w : World sdk} {ctx : Option WitnessContext} (now durationSecs : Nat) :
      Reach st w .idle → DistinctMethods ctx →
        Reach st (w.tick ctx now durationSecs) (.entered ctx now durationSecs)
  /-- The cycle ends at once, on an invalid context. -/
  | refuse {w : World sdk} {ctx : Option WitnessContext}
      {now durationSecs : Nat} :
      Reach st w (.entered ctx now durationSecs) → Reach st w .idle
  /-- Without a context there is nothing to retry. -/
  | plain {w : World sdk} {ctx : Option WitnessContext}
      {now durationSecs : Nat} :
      Reach st w (.entered ctx now durationSecs) →
        Reach st w (.retrying ctx now durationSecs [] [])
  /-- The pending records are read; a failed read retries nothing. -/
  | list {w : World sdk} {ctx : Option WitnessContext}
      {now durationSecs : Nat}
      {answer : Except StoreError (List (PendingEpoch sdk))} :
      Reach st w (.entered ctx now durationSecs) →
      Permitted w .listPendingEpochs answer →
        Reach st (w.after .listPendingEpochs answer)
          (.retrying ctx now durationSecs [] (answer.toOption.getD []))
  /-- The next listed record is taken up. -/
  | visit {w : World sdk} {ctx : WitnessContext} {now durationSecs : Nat}
      {down : List AnchorMethod} {p : PendingEpoch sdk}
      {queue : List (PendingEpoch sdk)} :
      Reach st w (.retrying (some ctx) now durationSecs down (p :: queue)) →
        Reach st w (.settling
          ⟨ctx, now, durationSecs, down, some queue, p, p.methods, .ready⟩)
  | settle {w w' : World sdk} {s s' : Settling sdk} :
      Reach st w (.settling s) → Settles w s w' s' →
        Reach st w' (.settling s')
  /-- The record is done with. -/
  | leave {w : World sdk} {s : Settling sdk}
      {queue : List (PendingEpoch sdk)} :
      Reach st w (.settling s) → s.phase = .ready → s.todo = [] →
      s.later = some queue →
        Reach st w (.retrying (some s.ctx) s.now s.durationSecs s.down queue)
  /-- The open epoch is closed. -/
  | swap {w : World sdk} {ctx : Option WitnessContext}
      {now durationSecs : Nat} {down : List AnchorMethod} :
      Reach st w (.retrying ctx now durationSecs down []) →
        Reach st
          (w.after (.swapAndOpenNext now now durationSecs)
            (w.accumulator.swapAndOpenNext now now durationSecs).1)
          (.closing ctx now durationSecs down
            (w.accumulator.swapAndOpenNext now now durationSecs).1 none)
  /-- The batch of a non-empty epoch is prepared. -/
  | prepare {w : World sdk} {ctx : Option WitnessContext}
      {now durationSecs : Nat} {down : List AnchorMethod}
      {snapshot : SealedSnapshot} {targets : List sdk.RevisionLink}
      {answer : Except String sdk.PreparedBatch} :
      Reach st w (.closing ctx now durationSecs down snapshot none) →
      snapshot.leaves ≠ [] →
        Reach st (w.after (.prepareBatchTimestamp targets) answer)
          (.closing ctx now durationSecs down snapshot (some answer))
  /-- The cycle ends with an error after it closed the epoch: the batch could
  not be prepared, or its root is no digest. -/
  | fail {w : World sdk} {ctx : Option WitnessContext}
      {now durationSecs : Nat} {down : List AnchorMethod}
      {snapshot : SealedSnapshot} {answer : Except String sdk.PreparedBatch} :
      Reach st w (.closing ctx now durationSecs down snapshot (some answer)) →
      (∀ p, answer = .ok p → ∃ e,
        buildRecord snapshot (some ⟨p, snapshot.leaves.map LeafEntry.leaf⟩) =
          .error e) →
        Reach st w .idle
  /-- The closed epoch is written with its pending record. -/
  | persist {w : World sdk} {ctx : Option WitnessContext}
      {now durationSecs : Nat} {down : List AnchorMethod}
      {snapshot : SealedSnapshot}
      {prepared : Option (Except String sdk.PreparedBatch)}
      {batch : Option (EpochBatch sdk)} {record : EpochRecord}
      {o : WriteOutcome} :
      Reach st w (.closing ctx now durationSecs down snapshot prepared) →
      Batched snapshot prepared batch →
      buildRecord snapshot batch = .ok record →
      Permitted w (.persistSealedEpoch record snapshot.leaves []
        (pendingFor ctx snapshot batch)) o →
        Reach st
          (w.after (.persistSealedEpoch record snapshot.leaves []
            (pendingFor ctx snapshot batch)) o)
          (.persisted ctx now durationSecs down (pendingFor ctx snapshot batch) o)
  /-- The cycle ends. -/
  | finish {w : World sdk} {s : Settling sdk} :
      Reach st w (.settling s) → s.phase = .ready → s.todo = [] →
      s.later = none → Reach st w .idle

end AquaTimestamp
