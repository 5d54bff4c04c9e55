import AquaTimestamp.Guarantees.Retention
import AquaTimestamp.Guarantees.SafetyMargin
import AquaTimestamp.Settlement.SideBySide

/-!
# What one seal cycle does

A cycle that begins closes one epoch, whatever fails in it, and stores one record or
none: it returns the record when the store has acknowledged it, and an error when the
store has not.
-/

namespace AquaTimestamp

open Support

variable {sdk : Sdk}

/-! ## Settling leaves the epochs alone -/

/-- The call neither opens nor seals an epoch. -/
def Call.keepsEpochs : Call sdk → Bool
  | .swapAndOpenNext .. => false
  | .persistSealedEpoch .. => false
  | _ => true

/-- `keepsEpochs` with the answer, as programs ask for it. -/
abbrev KeepsEpochs (c : Call sdk) (_ : Answer c) : Prop :=
  c.keepsEpochs = true

/-- The call leaves the open epoch open. -/
def Call.leavesOpen : Call sdk → Bool
  | .swapAndOpenNext .. => false
  | _ => true

/-- `leavesOpen` with the answer. -/
abbrev LeavesOpen (c : Call sdk) (_ : Answer c) : Prop :=
  c.leavesOpen = true

theorem leavesOpen_of_keepsEpochs (c : Call sdk) (r : Answer c) (h : KeepsEpochs c r) :
    LeavesOpen c r := by
  cases c with
  | swapAndOpenNext => cases h
  | _ => rfl

/-- The cycle was refused before it began. -/
def SealError.isRefusal : SealError → Bool
  | .missingProvider _ => true
  | .missingSelfCheckHost _ => true
  | .noServiceDid => true
  | _ => false

section Cycle

variable {ctx : WitnessContext} {now : Nat} {p : PendingEpoch sdk} {m : AnchorMethod}
variable {down : List AnchorMethod}

theorem keepsEpochs_storeAnchor :
    (storeAnchor p).Within KeepsEpochs fun _ => True := by
  refine Prog.within_ask fun first => ⟨rfl, ?_⟩
  split
  · trivial
  · exact Prog.within_ask fun _ => ⟨rfl, trivial⟩

theorem keepsEpochs_obtainAnchor :
    (obtainAnchor ctx p m down now).Within KeepsEpochs fun _ => True := by
  unfold obtainAnchor
  split
  · trivial
  · split
    · trivial
    · split
      · trivial
      · refine Prog.within_bind (R := fun _ => True) ?_ fun value? _ => ?_
        · unfold anchorRoot
          split
          · refine Prog.within_ask fun answer => ⟨rfl, ?_⟩
            split <;> trivial
          · trivial
        · cases value? with
          | none => trivial
          | some value =>
              refine Prog.within_bind keepsEpochs_storeAnchor fun stored _ => ?_
              split <;> trivial

theorem keepsEpochs_settleMissing :
    (settleMissing ctx p m now).Within KeepsEpochs fun _ => True := by
  unfold settleMissing
  split
  · trivial
  · split
    · split
      · exact Prog.within_ask fun _ => ⟨rfl, trivial⟩
      · trivial
    · exact Prog.within_ask fun _ => ⟨rfl, trivial⟩

theorem keepsEpochs_settleVerdict {minted : List (MintedWitness sdk)}
    (verdict : Option SelfCheckVerdict) :
    (settleVerdict ctx p m down now minted verdict).Within KeepsEpochs fun _ => True := by
  unfold settleVerdict
  split
  · exact Prog.within_bind keepsEpochs_settleMissing fun _ _ => trivial
  · exact Prog.within_ask fun _ => ⟨rfl, trivial⟩
  · trivial
  · refine Prog.within_ask fun outcome => ⟨rfl, ?_⟩
    split <;> trivial

theorem keepsEpochs_mintFrom {value : TimestampValue} :
    (mintFrom p m value).Within KeepsEpochs fun _ => True := by
  refine Prog.within_mono (within_mintFrom_methods p m value) ?_ fun _ _ => trivial
  intro c r hc
  cases c with
  | swapAndOpenNext => cases hc
  | persistSealedEpoch => cases hc
  | _ => rfl

theorem keepsEpochs_settleMethod :
    (settleMethod ctx p m down now).Within KeepsEpochs fun _ => True := by
  unfold settleMethod
  split
  · trivial
  · refine Prog.within_bind keepsEpochs_obtainAnchor fun out _ => ?_
    obtain ⟨q, down', value?⟩ := out
    cases value? with
    | none => trivial
    | some value =>
        refine Prog.within_bind keepsEpochs_mintFrom fun minted _ => ?_
        cases minted with
        | error e => trivial
        | ok minted =>
            exact Prog.within_ask fun answer => ⟨rfl, keepsEpochs_settleVerdict _⟩

theorem keepsEpochs_settleMethods (methods : List AnchorMethod) (p : PendingEpoch sdk)
    (down : List AnchorMethod) :
    (settleMethods ctx now methods p down).Within KeepsEpochs fun _ => True := by
  induction methods generalizing p down with
  | nil => trivial
  | cons m methods ih =>
      refine Prog.within_bind keepsEpochs_settleMethod fun out _ => ?_
      exact Prog.within_bind (ih out.1 out.2.1) fun _ _ => trivial

theorem keepsEpochs_retryEach (pendings : List (PendingEpoch sdk))
    (down : List AnchorMethod) :
    (retryEach ctx now pendings down).Within KeepsEpochs fun _ => True := by
  induction pendings generalizing down with
  | nil => trivial
  | cons p pendings ih =>
      refine Prog.within_bind (keepsEpochs_settleMethods _ _ _) fun out _ => ?_
      exact Prog.within_bind (ih out.2.1) fun _ _ => trivial

theorem keepsEpochs_retryPending :
    (retryPending ctx now : SealM sdk _).Within KeepsEpochs fun _ => True := by
  refine Prog.within_ask fun answer => ⟨rfl, ?_⟩
  cases answer with
  | error e => trivial
  | ok pendings => exact keepsEpochs_retryEach pendings []

theorem keepsEpochs_prepare (leaves : List Hash32) :
    (prepare leaves : SealM sdk _).Within KeepsEpochs fun _ => True := by
  unfold prepare
  split
  · trivial
  · refine Prog.within_ask fun answer => ⟨rfl, ?_⟩
    split <;> trivial

/-- What follows the swap leaves the next epoch open, and fails only in the store or
in the batch. -/
theorem leavesOpen_sealSnapshot {witnessCtx : Option WitnessContext}
    {witnesses : List (MintedWitness sdk)} (snapshot : SealedSnapshot) :
    (sealSnapshot witnessCtx now witnesses down snapshot).Within LeavesOpen
      fun result => ∀ e, result = .error e → e.isRefusal = false := by
  have hfails : ∀ e : SealError, e.isRefusal = false →
      ∀ e', (.error e : Except SealError (EpochRecord × List (MintedWitness sdk))) =
        .error e' → e'.isRefusal = false := by
    rintro e he _ ⟨⟩
    exact he
  have hok : ∀ (x : EpochRecord × List (MintedWitness sdk)) (e' : SealError),
      Except.ok x = .error e' → e'.isRefusal = false := by
    rintro x e' ⟨⟩
  unfold sealSnapshot
  refine Prog.within_bind (Prog.within_mono (keepsEpochs_prepare _)
    leavesOpen_of_keepsEpochs fun _ h => h) fun prepared _ => ?_
  cases prepared with
  | error e => exact hfails _ rfl
  | ok batch =>
      dsimp only
      split
      · exact hfails _ rfl
      · refine Prog.within_ask fun outcome => ⟨rfl, ?_⟩
        split
        · exact hfails _ rfl
        · split
          · exact Prog.within_bind (Prog.within_mono (keepsEpochs_settleMethods _ _ _)
            leavesOpen_of_keepsEpochs fun _ h => h) fun _ _ => hok _
          · exact hok _

end Cycle

/-- The id of the open epoch, and the ticks so far. -/
structure Counts (id n : Nat) (w : World sdk) : Prop where
  epochId : w.accumulator.epochId = id
  ticks : ticks w.log = n

theorem stable_counts (id n : Nat) : (serverSemantics sdk).Stable (Counts id n) := by
  rintro w w' hw ⟨batch, did, rfl⟩
  exact ⟨(w.accumulator.appendBatch_frame batch did).1.trans hw.epochId, hw.ticks⟩

theorem counts_after {id n : Nat} (c : Call sdk) (r : Answer c) (w w' : World sdk)
    (hc : LeavesOpen c r) (hw : Counts id n w)
    (hstep : (serverSemantics sdk).step c r w w') : Counts id n w' := by
  obtain ⟨-, rfl⟩ := hstep
  refine ⟨?_, hw.ticks⟩
  cases c with
  | swapAndOpenNext => cases hc
  | _ => exact hw.epochId

variable {ctx : WitnessContext} {now durationSecs : Nat} {w w' : World sdk}
variable {result : Except SealError (EpochRecord × List (MintedWitness sdk))}

/-- A cycle with a valid context that returns has closed one epoch and was not
refused. -/
theorem SealCycle.closes (hvalid : ctx.validate = .ok ())
    (h : SealCycle w (some ctx) now durationSecs w' (some result)) :
    Counts (saturatingAdd w.accumulator.epochId 1) (ticks w.log + 1) w' ∧
      ∀ e, result = .error e → e.isRefusal = false := by
  have hcycle : (serverSemantics sdk).Triple (fun _ => True)
      (Counts w.accumulator.epochId (ticks w.log + 1))
      (sealOnce now durationSecs (some ctx))
      fun result w' => (∀ e, result = .error e → e.isRefusal = false) ∧
        Counts (saturatingAdd w.accumulator.epochId 1) (ticks w.log + 1) w' := by
    simp only [sealOnce, hvalid]
    refine Semantics.triple_bind
      (fun _ => Counts w.accumulator.epochId (ticks w.log + 1)) ?_ fun out => ?_
    · exact Semantics.triple_weaken (Semantics.triple_within (stable_counts _ _)
        (fun _ _ => trivial) counts_after
        (Prog.within_mono keepsEpochs_retryPending leavesOpen_of_keepsEpochs fun _ h => h)) (fun _ h => h)
        fun _ _ h => h.2
    · refine Semantics.triple_call
        (fun _ => Counts (saturatingAdd w.accumulator.epochId 1) (ticks w.log + 1))
        (stable_counts _ _) (fun _ _ => trivial) ?_ fun snapshot => ?_
      · rintro r w₁ w₂ hw₁ ⟨-, rfl⟩
        exact ⟨congrArg (saturatingAdd · 1) hw₁.epochId, hw₁.ticks⟩
      · exact Semantics.triple_within (stable_counts _ _) (fun _ _ => trivial) counts_after
          (leavesOpen_sealSnapshot snapshot)
  have hstart : Counts w.accumulator.epochId (ticks w.log + 1)
      (w.tick (some ctx) now durationSecs) :=
    ⟨rfl, List.countP_cons_of_pos rfl⟩
  obtain ⟨hresult, hcounts⟩ := (hcycle _ _ _ hstart h).2 result rfl
  exact ⟨hcounts, hresult⟩

/-! ## The record of a cycle -/

/-- The record of a seal that the store acknowledged. -/
def Event.acknowledged : Event sdk → Option EpochRecord
  | .call (.persistSealedEpoch record _ _ _) o =>
      match o with
      | .ok => some record
      | _ => none
  | _ => none

/-- The history before the running process, with its start. -/
def beforeBoot (log : List (Event sdk)) : List (Event sdk) :=
  log.dropWhile fun ev => !ev.isBoot

/-- The records the running process has sealed, newest first. -/
def acknowledged (log : List (Event sdk)) : List EpochRecord :=
  (sinceBoot log).filterMap Event.acknowledged

/-- The record that a cycle returns. -/
def sealedRecord :
    Except SealError (EpochRecord × List (MintedWitness sdk)) → List EpochRecord
  | .ok (record, _) => [record]
  | .error _ => []

/-- The acknowledged records are `records`. -/
def Acknowledges (records : List EpochRecord) (w : World sdk) : Prop :=
  acknowledged w.log = records

/-- One record at most was acknowledged beside `records`. -/
def AcknowledgesOne (records : List EpochRecord) (w : World sdk) : Prop :=
  Acknowledges records w ∨ ∃ record, Acknowledges (record :: records) w

theorem stable_acknowledges (records : List EpochRecord) :
    (serverSemantics sdk).Stable (Acknowledges records) := by
  rintro w w' hw ⟨batch, did, rfl⟩
  exact hw

theorem acknowledges_after {records : List EpochRecord} (c : Call sdk) (r : Answer c)
    (w w' : World sdk) (hc : KeepsEpochs c r) (hw : Acknowledges records w)
    (hstep : (serverSemantics sdk).step c r w w') : Acknowledges records w' := by
  obtain ⟨-, rfl⟩ := hstep
  cases c with
  | persistSealedEpoch => cases hc
  | _ => exact hw

/-- A program of the settlement acknowledges nothing. -/
theorem triple_keepsEpochs {α : Type} {p : SealM sdk α} {records before : List EpochRecord}
    (hbefore : ∀ w : World sdk, Acknowledges records w → AcknowledgesOne before w)
    (hp : p.Within KeepsEpochs fun _ => True) :
    (serverSemantics sdk).Triple (AcknowledgesOne before) (Acknowledges records) p
      fun _ => Acknowledges records :=
  Semantics.triple_weaken (Semantics.triple_within (stable_acknowledges _) hbefore
    acknowledges_after hp) (fun _ h => h) fun _ _ h => h.2

/-- A result that follows what was acknowledged. -/
theorem triple_result {records before : List EpochRecord}
    {result : Except SealError (EpochRecord × List (MintedWitness sdk))}
    (hrecords : records = sealedRecord result ++ before)
    (hbefore : ∀ w : World sdk, Acknowledges records w → AcknowledgesOne before w) :
    (serverSemantics sdk).Triple (AcknowledgesOne before) (Acknowledges records)
      (.pure result) fun result => Acknowledges (sealedRecord result ++ before) :=
  Semantics.triple_pure (stable_acknowledges _) hbefore fun _ hw => hrecords ▸ hw

/-- The record of a write that the store acknowledged. -/
def WriteOutcome.kept (record : EpochRecord) : WriteOutcome → List EpochRecord
  | .ok => [record]
  | .failed _ => []
  | .unsynced _ => []

theorem triple_sealSnapshot {witnessCtx : Option WitnessContext}
    {witnesses : List (MintedWitness sdk)} {down : List AnchorMethod} {now : Nat}
    (before : List EpochRecord) (snapshot : SealedSnapshot) :
    (serverSemantics sdk).Triple (AcknowledgesOne before) (Acknowledges before)
      (sealSnapshot witnessCtx now witnesses down snapshot)
      fun result => Acknowledges (sealedRecord result ++ before) := by
  have hnone : ∀ w : World sdk, Acknowledges before w → AcknowledgesOne before w :=
    fun _ => Or.inl
  have hone : ∀ record, ∀ w : World sdk, Acknowledges (record :: before) w →
      AcknowledgesOne before w :=
    fun record _ h => Or.inr ⟨record, h⟩
  unfold sealSnapshot
  refine Semantics.triple_bind _ (triple_keepsEpochs hnone (keepsEpochs_prepare _))
    fun prepared => ?_
  cases prepared with
  | error e => exact triple_result rfl hnone
  | ok batch =>
      dsimp only
      split
      · exact triple_result rfl hnone
      · rename_i record hrecord
        simp only [SealM.persistSealedEpoch, Prog.ask_bind]
        refine Semantics.triple_call (fun outcome =>
          Acknowledges (outcome.kept record ++ before))
          (stable_acknowledges _) hnone ?_ fun outcome => ?_
        · rintro outcome w w' hw ⟨-, rfl⟩
          cases outcome with
          | ok => exact congrArg (record :: ·) hw
          | failed e => exact hw
          | unsynced e => exact hw
        · cases outcome with
          | failed e => exact triple_result rfl hnone
          | unsynced e => exact triple_result rfl hnone
          | ok =>
              dsimp only [WriteOutcome.result]
              split
              · refine Semantics.triple_bind _ (triple_keepsEpochs (hone record)
                  (keepsEpochs_settleMethods _ _ _)) fun _ => ?_
                exact triple_result rfl (hone record)
              · exact triple_result rfl (hone record)

/-- A cycle stores the record that it returns and no other; one that ends early has
stored one record at most. -/
theorem SealCycle.acknowledges {witnessCtx : Option WitnessContext}
    {o : Option (Except SealError (EpochRecord × List (MintedWitness sdk)))}
    (h : SealCycle w witnessCtx now durationSecs w' o) :
    (o = none → AcknowledgesOne (acknowledged w.log) w') ∧
      ∀ result, o = some result →
        Acknowledges (sealedRecord result ++ acknowledged w.log) w' := by
  have hnone : ∀ w₁ : World sdk, Acknowledges (acknowledged w.log) w₁ →
      AcknowledgesOne (acknowledged w.log) w₁ :=
    fun _ => Or.inl
  have hswap : ∀ (witnesses : List (MintedWitness sdk)) (down : List AnchorMethod),
      (serverSemantics sdk).Triple (AcknowledgesOne (acknowledged w.log))
        (Acknowledges (acknowledged w.log))
        (SealM.swapAndOpenNext now now durationSecs >>= fun snapshot =>
          sealSnapshot witnessCtx now witnesses down snapshot)
        fun result => Acknowledges
          (sealedRecord result ++ acknowledged w.log) := by
    intro witnesses down
    refine Semantics.triple_call
      (fun _ => Acknowledges (acknowledged w.log))
      (stable_acknowledges _) hnone ?_ fun snapshot => triple_sealSnapshot _ snapshot
    rintro snapshot w₁ w₂ hw₁ ⟨-, rfl⟩
    exact hw₁
  have hcycle : (serverSemantics sdk).Triple
      (AcknowledgesOne (acknowledged w.log))
      (Acknowledges (acknowledged w.log))
      (sealOnce now durationSecs witnessCtx)
      fun result => Acknowledges
        (sealedRecord result ++ acknowledged w.log) := by
    unfold sealOnce
    split
    · exact hswap [] []
    · split
      · exact triple_result rfl hnone
      · exact Semantics.triple_bind _ (triple_keepsEpochs hnone keepsEpochs_retryPending)
          fun out => hswap out.1 out.2
  exact hcycle (w.tick witnessCtx now durationSecs) w' o rfl h

end AquaTimestamp
