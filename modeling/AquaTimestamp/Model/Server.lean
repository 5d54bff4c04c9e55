import AquaTimestamp.Model.Sealer

/-!
# Runs of the server

The world is the accumulator in memory, the store on disk, and the history of
everything that happened so far, newest first.  The sealer's calls act on it;
submissions may arrive between any two of them; a crash keeps the store and
the history only.  A store write that reports an error has changed nothing, or
has committed its whole batch before the final fsync failed.

`Reachable` are the worlds between two seal cycles, `Visited` the worlds at
any moment, also inside a cycle.
-/

namespace AquaTimestamp

open Support

variable {sdk : Sdk}

/-- One entry of the history. -/
inductive Event (sdk : Sdk) where
  /-- The process started on the store. -/
  | boot (now durationSecs : Nat)
  /-- `append_batch` with its outcome and the entries it added. -/
  | append (batch : List Hash32) (did : String)
      (outcome : Except EpochFull AcceptOutcome) (added : List LeafEntry)
  /-- `seal_once` was called. -/
  | tick (witnessCtx : Option WitnessContext) (now durationSecs : Nat)
  /-- The sealer made a call and got this answer. -/
  | call (c : Call sdk) (answer : Answer c)

/-- The state of the server with its history. -/
structure World (sdk : Sdk) where
  accumulator : Accumulator
  store : Store sdk
  log : List (Event sdk)

/-! ## What a call does -/

/-- A committed batch replaces the store. -/
def Store.commit (st : Store sdk) (outcome : WriteOutcome)
    (written : Except StoreError (Store sdk)) : Store sdk :=
  match written with
  | .ok st' => if outcome.committed then st' else st
  | .error _ => st

/-- The store after a call. -/
def Store.after (st : Store sdk) : (c : Call sdk) → Answer c → Store sdk
  | .persistSealedEpoch record leaves witnesses pending, outcome =>
      st.commit outcome
        (st.persistSealedEpochWithPending record leaves witnesses pending)
  | .persistPendingMinted remaining done witnesses, outcome =>
      st.commit outcome (st.persistPendingMinted remaining done witnesses)
  | .savePending pending, outcome =>
      st.commit outcome (.ok (st.savePending pending))
  | _, _ => st

/-- The accumulator after a call: only the swap touches it. -/
def Accumulator.after (acc : Accumulator) : Call sdk → Accumulator
  | .swapAndOpenNext closedAt nextOpenedAt durationSecs =>
      (acc.swapAndOpenNext closedAt nextOpenedAt durationSecs).2
  | _ => acc

/-- The answers a call may get: reads answer what is there (or fail), the swap
hands out the open epoch, and a batch that could not be built is not
committed.  Everything asked of the outside may answer anything. -/
def Permitted (w : World sdk) : (c : Call sdk) → Answer c → Prop
  | .listPendingEpochs, answer =>
      ∀ pendings, answer = .ok pendings → pendings = w.store.listPendingEpochs
  | .swapAndOpenNext closedAt nextOpenedAt durationSecs, snapshot =>
      snapshot =
        (w.accumulator.swapAndOpenNext closedAt nextOpenedAt durationSecs).1
  | .persistSealedEpoch record leaves witnesses pending, outcome =>
      outcome.committed = true → ∃ st', w.store.persistSealedEpochWithPending
        record leaves witnesses pending = .ok st'
  | .persistPendingMinted remaining done witnesses, outcome =>
      outcome.committed = true →
        ∃ st', w.store.persistPendingMinted remaining done witnesses = .ok st'
  | _, _ => True

namespace World

/-- The world after a call of the sealer. -/
def after (w : World sdk) (c : Call sdk) (answer : Answer c) : World sdk where
  accumulator := w.accumulator.after c
  store := w.store.after c answer
  log := .call c answer :: w.log

/-- The world after a submission. -/
def append (w : World sdk) (batch : List Hash32) (did : String) : World sdk :=
  let (outcome, acc) := w.accumulator.appendBatch batch did
  { w with
    accumulator := acc
    log := .append batch did outcome
      (acc.leaves.drop w.accumulator.leaves.length) :: w.log }

/-- The world when `seal_once` is entered. -/
def tick (w : World sdk) (witnessCtx : Option WitnessContext)
    (now durationSecs : Nat) : World sdk :=
  { w with log := .tick witnessCtx now durationSecs :: w.log }

/-- The id `build_app` opens with: the one after the last sealed epoch. -/
def nextEpochId (st : Store sdk) : Nat :=
  match st.lastSealedEpochId with
  | some id => saturatingAdd id 1
  | none => 1

/-- A process that starts on a store. -/
def boot (st : Store sdk) (log : List (Event sdk)) (now durationSecs : Nat) :
    World sdk where
  accumulator := Accumulator.new (nextEpochId st) now durationSecs
  store := st
  log := .boot now durationSecs :: log

/-- The process ends, at whatever point, and starts again. -/
def restart (w : World sdk) (now durationSecs : Nat) : World sdk :=
  boot w.store w.log now durationSecs

end World

/-- The sealer's calls on the world, with submissions in between. -/
def serverSemantics (sdk : Sdk) :
    Semantics (Call sdk) (@Answer sdk) (World sdk) where
  step c answer w w' := Permitted w c answer ∧ w' = w.after c answer
  interferes w w' := ∃ batch did, w' = w.append batch did

/-- The contexts the server builds: no method is enabled twice. -/
def DistinctMethods (witnessCtx : Option WitnessContext) : Prop :=
  ∀ ctx ∈ witnessCtx, ctx.methods.Nodup

/-- One seal cycle from `w`, at `w'` with the given result. -/
def SealCycle (w : World sdk) (witnessCtx : Option WitnessContext)
    (now durationSecs : Nat) (w' : World sdk)
    (result : Option
      (Except SealError (EpochRecord × List (MintedWitness sdk)))) : Prop :=
  (serverSemantics sdk).Run (sealOnce now durationSecs witnessCtx)
    (w.tick witnessCtx now durationSecs) w' result

/-- The worlds between two seal cycles, of a server started on `st`. -/
inductive Reachable (st : Store sdk) : World sdk → Prop where
  | boot (now durationSecs : Nat) :
      Reachable st (World.boot st [] now durationSecs)
  | append {w : World sdk} (batch : List Hash32) (did : String) :
      Reachable st w → Reachable st (w.append batch did)
  | cycle {w w' : World sdk} {witnessCtx : Option WitnessContext}
      {now durationSecs : Nat}
      {result : Except SealError (EpochRecord × List (MintedWitness sdk))} :
      Reachable st w → DistinctMethods witnessCtx →
        SealCycle w witnessCtx now durationSecs w' (some result) →
          Reachable st w'
  | restart {w : World sdk} (now durationSecs : Nat) :
      Reachable st w → Reachable st (w.restart now durationSecs)
  | crash {w w' : World sdk} {witnessCtx : Option WitnessContext}
      {now durationSecs : Nat} (now' durationSecs' : Nat) :
      Reachable st w → DistinctMethods witnessCtx →
        SealCycle w witnessCtx now durationSecs w' none →
          Reachable st (w'.restart now' durationSecs')

/-- The worlds at any moment of a run. -/
inductive Visited (st : Store sdk) (w : World sdk) : Prop where
  | between : Reachable st w → Visited st w
  | during {w₀ : World sdk} {witnessCtx : Option WitnessContext}
      {now durationSecs : Nat} :
      Reachable st w₀ → DistinctMethods witnessCtx →
        SealCycle w₀ witnessCtx now durationSecs w none → Visited st w

/-! ## The store as the history's outcome -/

/-- The store after an event. -/
def Store.replayed (st : Store sdk) : Event sdk → Store sdk
  | .call c answer => st.after c answer
  | _ => st

/-- The store a history leaves behind. -/
def storeOf (st : Store sdk) (log : List (Event sdk)) : Store sdk :=
  log.foldr (fun ev st => st.replayed ev) st

@[simp]
theorem storeOf_nil (st : Store sdk) : storeOf st [] = st :=
  rfl

@[simp]
theorem storeOf_cons (st : Store sdk) (ev : Event sdk)
    (log : List (Event sdk)) :
    storeOf st (ev :: log) = (storeOf st log).replayed ev :=
  rfl

/-! ## Readings of the history -/

/-- Events that end whatever cycle was going on. -/
def Event.isBoundary : Event sdk → Bool
  | .boot .. => true
  | .tick .. => true
  | _ => false

/-- The part of the history since the cycle in progress began. -/
def thisCycle (log : List (Event sdk)) : List (Event sdk) :=
  log.takeWhile fun ev => !ev.isBoundary

theorem mem_thisCycle_cons {log : List (Event sdk)} {ev new : Event sdk}
    (hnew : new.isBoundary = false) (h : ev ∈ thisCycle log) :
    ev ∈ thisCycle (new :: log) := by
  simp only [thisCycle, List.takeWhile_cons, hnew, Bool.not_false, if_true]
  exact List.mem_cons_of_mem _ h

theorem mem_thisCycle_self {log : List (Event sdk)} {new : Event sdk}
    (hnew : new.isBoundary = false) : new ∈ thisCycle (new :: log) := by
  simp [thisCycle, hnew]

theorem mem_thisCycle_cons_iff {log : List (Event sdk)} {ev new : Event sdk}
    (hnew : new.isBoundary = false) :
    ev ∈ thisCycle (new :: log) ↔ ev = new ∨ ev ∈ thisCycle log := by
  simp [thisCycle, hnew]

theorem mem_of_mem_thisCycle {log : List (Event sdk)} {ev : Event sdk}
    (h : ev ∈ thisCycle log) : ev ∈ log :=
  (List.takeWhile_prefix _).subset h

/-- The process started. -/
def Event.isBoot : Event sdk → Bool
  | .boot .. => true
  | _ => false

/-- The part of the history of the process that is running. -/
def sinceBoot (log : List (Event sdk)) : List (Event sdk) :=
  log.takeWhile fun ev => !ev.isBoot

theorem mem_sinceBoot_cons {ev new : Event sdk} {log : List (Event sdk)}
    (h : ev ∈ sinceBoot (new :: log)) :
    ev = new ∨ ev ∈ sinceBoot log := by
  unfold sinceBoot at h
  rw [List.takeWhile_cons] at h
  split at h
  · exact List.mem_cons.mp h
  · cases h

theorem mem_sinceBoot_of_cons {ev new : Event sdk} {log : List (Event sdk)}
    (hnew : new.isBoot = false) (h : ev ∈ sinceBoot log) :
    ev ∈ sinceBoot (new :: log) := by
  unfold sinceBoot
  rw [List.takeWhile_cons, hnew]
  exact List.mem_cons_of_mem _ h

theorem mem_sinceBoot_of_mem_thisCycle {log : List (Event sdk)} {ev : Event sdk}
    (h : ev ∈ thisCycle log) : ev ∈ sinceBoot log := by
  induction log with
  | nil => cases h
  | cons new log ih =>
      by_cases hnew : new.isBoundary = true
      · simp [thisCycle, hnew] at h
      · rw [Bool.not_eq_true] at hnew
        have hboot : new.isBoot = false := by
          cases new with
          | boot => cases hnew
          | append | tick | call => rfl
        rcases (mem_thisCycle_cons_iff hnew).mp h with rfl | hold
        · simp [sinceBoot, hboot]
        · exact mem_sinceBoot_of_cons hboot (ih hold)

/-- The context and time of the cycle in progress. -/
def currentTick :
    List (Event sdk) → Option (Option WitnessContext × Nat)
  | [] => none
  | .tick ctx now _ :: _ => some (ctx, now)
  | .boot .. :: _ => none
  | _ :: log => currentTick log

/-- A store write that reported an error has changed nothing. -/
def Event.errorsChangeNothing : Event sdk → Bool
  | .call (.persistSealedEpoch ..) (.unsynced _) => false
  | .call (.persistPendingMinted ..) (.unsynced _) => false
  | .call (.savePending _) (.unsynced _) => false
  | _ => true

/-- In the whole history, a write that reported an error changed nothing. -/
def ErrorsChangeNothing (log : List (Event sdk)) : Prop :=
  ∀ ev ∈ log, ev.errorsChangeNothing = true

/-- A store write whose batch was committed. -/
def Event.commits : Event sdk → Bool
  | .call (.persistSealedEpoch ..) outcome => outcome.committed
  | .call (.persistPendingMinted ..) outcome => outcome.committed
  | .call (.savePending _) outcome => outcome.committed
  | _ => false

/-- A keyspace is poisoned by a final fsync that fails: in the process that opened it,
nothing more is committed. -/
def PoisonedByFsync (log : List (Event sdk)) : Prop :=
  ∀ ev l, ev :: l <:+ log → ev.commits = true →
    ∀ earlier ∈ sinceBoot l, earlier.errorsChangeNothing = true

theorem ErrorsChangeNothing.poisonedByFsync {log : List (Event sdk)}
    (h : ErrorsChangeNothing log) : PoisonedByFsync log := by
  intro ev l hl _ earlier hearlier
  exact h earlier (hl.subset
    (List.mem_cons_of_mem _ ((List.takeWhile_prefix _).subset hearlier)))

end AquaTimestamp
