import AquaTimestamp.Model.Server
import AquaTimestamp.Support.Broadcast
import AquaTimestamp.Support.Overflow

/-!
# The event stream and the schedule

`events.rs`, the seal loops around `seal_once`, the health tick, and the routes
`/events` and `/v1/schedule`.

A seal loop and the health task each send one event at a time; between what an event
tells and its sending, requests are served and the other task runs.  The bus is tokio's
broadcast channel, whose rule for receivers that have fallen behind is given.
-/

namespace AquaTimestamp

open Support

variable {sdk : Sdk}

/-! ## Events -/

/-- `SseEvent`. -/
inductive SseEvent where
  | epochSealed (epochId leafCount : Nat) (merkleRoot : String) (timestamp : Nat)
  | anchorEvm (epochId : Nat) (txHash : String) (block : Nat) (network : String)
  | anchorQtsa (epochId : Nat) (tsaProvider genTime : String)
  | healthTick (uptimeSecs epochsTotal leavesTotal : Nat)
  deriving DecidableEq

/-- `merkle_root_hex`. -/
def EpochRecord.merkleRootHex (record : EpochRecord) : String :=
  hexLower record.merkleRoot

/-- What a seal loop sends after a cycle: nothing when the cycle failed. -/
def announcement (now : Nat) :
    Except SealError (EpochRecord × List (MintedWitness sdk)) → Option SseEvent
  | .ok (record, _) =>
      some (.epochSealed record.id record.leafCount record.merkleRootHex now)
  | .error _ => none

/-! ## Totals and the schedule -/

/-- One record more; `none` is a panic on overflow. -/
def countRecord (checks : OverflowChecks) (total : U64 × U64) (record : EpochRecord) :
    Option (U64 × U64) := do
  let epochCount ← checks.settle 64 (total.1.val + 1)
  let totalLeaves ← checks.settle 64 (total.2.val + record.leafCount)
  return (epochCount, totalLeaves)

/-- `totals`: the sealed epochs, and the leaves their records count, added up in `u64`s. -/
def Store.totals (checks : OverflowChecks) (st : Store sdk) : Option (U64 × U64) :=
  st.epochs.inOrder.foldlM (countRecord checks) (0, 0)

/-- `ScheduleResponse`. -/
structure ScheduleResponse where
  currentEpochId : Nat
  currentEpochOpenedAt : Nat
  currentEpochClosesAt : Nat
  epochDurationSecs : Nat
  lastSealedEpochId : Option Nat
  lastSealedAt : Option Nat
  anchorMethods : List String
  epochsTotal : Nat
  leavesTotal : Nat
  uptimeSecs : Nat
  deriving DecidableEq

/-- `GET /v1/schedule`; `none` is a panic in `totals`.  The reads of the store succeed: the
branches that answer 500 are not modelled. -/
def schedule (checks : OverflowChecks) (w : World sdk) (durationSecs uptimeSecs : Nat) :
    Option ScheduleResponse :=
  (w.store.totals checks).map fun total => {
    currentEpochId := w.accumulator.epochId
    currentEpochOpenedAt := w.accumulator.openedAt
    currentEpochClosesAt := w.accumulator.closesAt
    epochDurationSecs := durationSecs
    lastSealedEpochId := w.store.lastSealedEpochId
    lastSealedAt := w.store.lastSealedEpochId.bind fun id =>
      (w.store.getEpoch id).map EpochRecord.closedAt
    anchorMethods := ["evm", "qtsa"]
    epochsTotal := total.1.val
    leavesTotal := total.2.val
    uptimeSecs := uptimeSecs }

/-! ## The feed -/

/-- The server with its event bus: the event of the last cycle that is not sent yet,
and the event of the health task that is not sent yet. -/
structure Feed (sdk : Sdk) where
  world : World sdk
  bus : Broadcast SseEvent
  owed : Option SseEvent
  due : Option SseEvent

/-- What happens beside the sealer. -/
inductive FeedAct where
  | append (batch : List Hash32) (did : String)
  | readTotals (checks : OverflowChecks) (uptimeSecs : Nat)
  | sendHealth
  | subscribe
  | recv (i : Nat)
  | leave (i : Nat)

namespace Feed

/-- `bus.send`, of an event that a task has ready. -/
def send (s : Feed sdk) (event : Option SseEvent) : Broadcast SseEvent :=
  match event with
  | some event => (s.bus.send event).2
  | none => s.bus

/-- One step beside the sealer.  The health task reads the totals when its last event
is sent; a read that panics sends nothing. -/
def act (s : Feed sdk) : FeedAct → Feed sdk
  | .append batch did => { s with world := s.world.append batch did }
  | .readTotals checks uptimeSecs =>
      match s.due, s.world.store.totals checks with
      | none, some total =>
          { s with due := some (.healthTick uptimeSecs total.1.val total.2.val) }
      | _, _ => s
  | .sendHealth => { s with bus := s.send s.due, due := none }
  | .subscribe => { s with bus := s.bus.subscribe }
  | .recv i => { s with bus := s.bus.recv i }
  | .leave i => { s with bus := s.bus.leave i }

/-- The seal loop sends what it owes. -/
def announce (s : Feed sdk) : Feed sdk :=
  { s with bus := s.send s.owed, owed := none }

/-- A process that starts on a world, with the bus of `EventBus::new`. -/
def start (rule : LagRule) (w : World sdk) : Feed sdk :=
  ⟨w, .create rule 256, none, none⟩

end Feed

/-! ## Runs -/

/-- The sealer's calls, with the other steps in between. -/
def feedSemantics (sdk : Sdk) : Semantics (Call sdk) (@Answer sdk) (Feed sdk) where
  step c answer s s' :=
    Permitted s.world c answer ∧ s' = { s with world := s.world.after c answer }
  interferes s s' := ∃ step, s' = s.act step

namespace Feed

/-- A seal cycle from `s`. -/
def SealCycle (s : Feed sdk) (ctx : Option WitnessContext) (now durationSecs : Nat)
    (s' : Feed sdk)
    (result : Option (Except SealError (EpochRecord × List (MintedWitness sdk)))) :
    Prop :=
  (feedSemantics sdk).Run (sealOnce now durationSecs ctx)
    { s with world := s.world.tick ctx now durationSecs } s' result

/-- The states between two cycles of the seal loop, of processes that start on `st`
first and then on what is left. -/
inductive Reachable (st : Store sdk) : Feed sdk → Prop where
  | boot (rule : LagRule) (now durationSecs : Nat) :
      Reachable st (start rule (World.boot st [] now durationSecs))
  | act {s : Feed sdk} (step : FeedAct) : Reachable st s → Reachable st (s.act step)
  | cycle {s s' : Feed sdk} {ctx : Option WitnessContext} {now durationSecs : Nat}
      {result : Except SealError (EpochRecord × List (MintedWitness sdk))} :
      Reachable st s → s.owed = none → DistinctMethods ctx →
        SealCycle s ctx now durationSecs s' (some result) →
          Reachable st { s' with owed := announcement now result }
  | announce {s : Feed sdk} : Reachable st s → Reachable st s.announce
  | restart {s : Feed sdk} (rule : LagRule) (now durationSecs : Nat) : Reachable st s →
      Reachable st (start rule (s.world.restart now durationSecs))
  | crash {s s' : Feed sdk} {ctx : Option WitnessContext}
      {now durationSecs : Nat} (rule : LagRule) (now' durationSecs' : Nat) :
      Reachable st s → s.owed = none → DistinctMethods ctx →
        SealCycle s ctx now durationSecs s' none →
          Reachable st (start rule (s'.world.restart now' durationSecs'))

/-- The states at any moment. -/
inductive Visited (st : Store sdk) (s : Feed sdk) : Prop where
  | between : Reachable st s → Visited st s
  | during {s₀ : Feed sdk} {ctx : Option WitnessContext} {now durationSecs : Nat} :
      Reachable st s₀ → s₀.owed = none → DistinctMethods ctx →
        SealCycle s₀ ctx now durationSecs s none → Visited st s

end Feed

end AquaTimestamp
