import AquaTimestamp.Model.Replay
import AquaTimestamp.Settlement.Refinement

/-!
# The machine's history

Every step of the machine either emits one event or changes nothing but the
job.  `Emits` says which job emits which event; it is what later modules
invert, so a property of the events of a run is proved from the state of the
machine just before each of them.
-/

namespace AquaTimestamp

open Support

variable {sdk : Sdk}

/-- The world after an event. -/
def World.emit (w : World sdk) : Event sdk → World sdk
  | .boot now durationSecs => w.restart now durationSecs
  | .append batch did _ _ => w.append batch did
  | .tick ctx now durationSecs => w.tick ctx now durationSecs
  | .call c answer => w.after c answer

/-- The event of a submission. -/
def World.submission (w : World sdk) (batch : List Hash32) (did : String) :
    Event sdk :=
  .append batch did (w.accumulator.appendBatch batch did).1
    ((w.accumulator.appendBatch batch did).2.leaves.drop
      w.accumulator.leaves.length)

/-- The phases in which the record in memory is saved as it is. -/
def Phase.Saves (phase : Phase sdk) : Prop :=
  (∃ m v, phase = .unsaved m v) ∨ ∃ m, phase = .resaving m

/-- `Emits w j ev`: in world `w` the job `j` may emit the event `ev`. -/
inductive Emits (w : World sdk) : Job sdk → Event sdk → Prop where
  | boot (j : Job sdk) (now durationSecs : Nat) :
      Emits w j (.boot now durationSecs)
  | append (j : Job sdk) (batch : List Hash32) (did : String) :
      Emits w j (w.submission batch did)
  | tick {ctx : Option WitnessContext} (now durationSecs : Nat) :
      DistinctMethods ctx → Emits w .idle (.tick ctx now durationSecs)
  | list {ctx : Option WitnessContext} {now durationSecs : Nat}
      {answer : Except StoreError (List (PendingEpoch sdk))} :
      Permitted w .listPendingEpochs answer →
        Emits w (.entered ctx now durationSecs)
          (.call .listPendingEpochs answer)
  | swap {ctx : Option WitnessContext} {now durationSecs : Nat}
      {down : List AnchorMethod} :
      Emits w (.retrying ctx now durationSecs down [])
        (.call (.swapAndOpenNext now now durationSecs)
          (w.accumulator.swapAndOpenNext now now durationSecs).1)
  | prepare {ctx : Option WitnessContext} {now durationSecs : Nat}
      {down : List AnchorMethod} {snapshot : SealedSnapshot}
      {targets : List sdk.RevisionLink}
      {answer : Except String sdk.PreparedBatch} :
      Emits w (.closing ctx now durationSecs down snapshot none)
        (.call (.prepareBatchTimestamp targets) answer)
  | persist {ctx : Option WitnessContext} {now durationSecs : Nat}
      {down : List AnchorMethod} {snapshot : SealedSnapshot}
      {prepared : Option (Except String sdk.PreparedBatch)}
      {batch : Option (EpochBatch sdk)} {record : EpochRecord}
      {o : WriteOutcome} :
      Batched snapshot prepared batch →
      buildRecord snapshot batch = .ok record →
      Permitted w (.persistSealedEpoch record snapshot.leaves []
        (pendingFor ctx snapshot batch)) o →
        Emits w (.closing ctx now durationSecs down snapshot prepared)
          (.call (.persistSealedEpoch record snapshot.leaves []
            (pendingFor ctx snapshot batch)) o)
  | provider {s : Settling sdk} {m : AnchorMethod} {rest : List AnchorMethod}
      {answer : Except String TimestampValue} :
      s.AtMethod m rest → s.MayCall m →
        Emits w (.settling s)
          (.call (.createTimestamp s.record.epochId m s.record.anchorRoot)
            answer)
  | save {s : Settling sdk} {o : WriteOutcome} :
      s.phase.Saves → Emits w (.settling s) (.call (.savePending s.record) o)
  | mint {s : Settling sdk} {m : AnchorMethod} {v : TimestampValue}
      {c : Call sdk} {answer : Answer c} :
      s.phase = .anchored m v → c.isMinting = true →
        Emits w (.settling s) (.call c answer)
  | judge {s : Settling sdk} {m : AnchorMethod} {v : TimestampValue}
      {minted : List (MintedWitness sdk)} {snapshot : SealedSnapshot}
      {batch : EpochBatch sdk} {answer : Except String (HostAnswers sdk)} :
      s.phase = .anchored m v → s.record.restore = .ok (snapshot, batch) →
      MintedFor snapshot m minted →
        Emits w (.settling s)
          (.call (.selfCheck s.record.epochId m v minted s.ctx.serviceDid
            s.ctx.selfCheck) answer)
  | serve {s : Settling sdk} {m : AnchorMethod} {v : TimestampValue}
      {minted : List (MintedWitness sdk)} {o : WriteOutcome} :
      s.phase = .judged m v minted none →
      Permitted w (.persistPendingMinted (s.record.without m) m minted) o →
        Emits w (.settling s)
          (.call (.persistPendingMinted (s.record.without m) m minted) o)

/-- A step of settling emits one event or changes only what is in memory. -/
theorem Settles.emits {w w' : World sdk} {s s' : Settling sdk}
    (h : Settles w s w' s') :
    w' = w ∨ ∃ ev, Emits w (.settling s) ev ∧ w' = w.emit ev := by
  cases h with
  | skip | unwired | giveUp | hold | mintFailed | keep | blame | wait
  | abandon => exact Or.inl rfl
  | refused hat hcall => exact Or.inr ⟨_, .provider hat hcall, rfl⟩
  | obtained hat hcall => exact Or.inr ⟨_, .provider hat hcall, rfl⟩
  | store hphase =>
      exact Or.inr ⟨_, .save (Or.inl ⟨_, _, hphase⟩), rfl⟩
  | mint hphase hminting => exact Or.inr ⟨_, .mint hphase hminting, rfl⟩
  | judge hphase hrestore hfor _ =>
      exact Or.inr ⟨_, .judge hphase hrestore hfor, rfl⟩
  | resave hphase => exact Or.inr ⟨_, .save (Or.inr ⟨_, hphase⟩), rfl⟩
  | serve hphase hperm => exact Or.inr ⟨_, .serve hphase hperm, rfl⟩

/-- A step of settling logs at most one call. -/
theorem Settles.log_cases {w w' : World sdk} {s s' : Settling sdk}
    (h : Settles w s w' s') :
    w'.log = w.log ∨ ∃ c answer, w'.log = .call c answer :: w.log := by
  cases h with
  | skip | unwired | giveUp | hold | mintFailed | keep | blame | wait
  | abandon => exact Or.inl rfl
  | refused | obtained | store | mint | judge | resave | serve =>
      exact Or.inr ⟨_, _, rfl⟩

section Run

variable {st : Store sdk} {w : World sdk} {j : Job sdk}

/-- What holds at the first boot and is kept by every event, between two worlds
of the machine, holds of every world of the machine. -/
theorem Reach.induct_between {P : World sdk → Prop}
    (hboot : ∀ now durationSecs, P (World.boot st [] now durationSecs))
    (hemit : ∀ w j ev j', Reach st w j → Emits w j ev →
      Reach st (w.emit ev) j' → P w → P (w.emit ev))
    (h : Reach st w j) : P w := by
  induction h with
  | boot now durationSecs => exact hboot now durationSecs
  | append batch did hw ih =>
      exact hemit _ _ _ _ hw (.append _ batch did) (.append batch did hw) ih
  | restart now durationSecs hw ih =>
      exact hemit _ _ _ _ hw (.boot _ now durationSecs)
        (.restart now durationSecs hw) ih
  | tick now durationSecs hw hdistinct ih =>
      exact hemit _ _ _ _ hw (.tick now durationSecs hdistinct)
        (.tick now durationSecs hw hdistinct) ih
  | refuse _ ih => exact ih
  | plain _ ih => exact ih
  | list hw hperm ih => exact hemit _ _ _ _ hw (.list hperm) (.list hw hperm) ih
  | visit _ ih => exact ih
  | settle hw hstep ih =>
      have hnext := Reach.settle hw hstep
      rcases hstep.emits with rfl | ⟨ev, hev, rfl⟩
      · exact ih
      · exact hemit _ _ _ _ hw hev hnext ih
  | leave _ _ _ _ ih => exact ih
  | swap hw ih => exact hemit _ _ _ _ hw .swap (.swap hw) ih
  | prepare hw hne ih => exact hemit _ _ _ _ hw .prepare (.prepare hw hne) ih
  | fail _ _ ih => exact ih
  | persist hw hbatch hrecord hperm ih =>
      exact hemit _ _ _ _ hw (.persist hbatch hrecord hperm)
        (.persist hw hbatch hrecord hperm) ih
  | finish _ _ _ _ ih => exact ih

/-- The same for what every event keeps by itself. -/
theorem Reach.induct {P : World sdk → Prop}
    (hboot : ∀ now durationSecs, P (World.boot st [] now durationSecs))
    (hemit : ∀ w j ev, Reach st w j → Emits w j ev → P w → P (w.emit ev))
    (h : Reach st w j) : P w :=
  h.induct_between hboot fun w j ev _ hw hev _ => hemit w j ev hw hev

theorem Emits.log_eq {ev : Event sdk} (h : Emits w j ev) :
    (w.emit ev).log = ev :: w.log := by
  cases h <;> rfl

theorem Emits.store_eq {ev : Event sdk} (h : Emits w j ev) :
    (w.emit ev).store = w.store.replayed ev := by
  cases h <;> rfl

/-- The store is what the history makes of the first store. -/
theorem Reach.store_eq (h : Reach st w j) : w.store = storeOf st w.log := by
  refine h.induct (P := fun w => w.store = storeOf st w.log)
    (fun _ _ => rfl) ?_
  intro w j ev _ hev ih
  rw [hev.store_eq, hev.log_eq, storeOf_cons, ih]

/-- Every event after the first boot was emitted by a job of the machine, in
the world its history describes. -/
theorem Reach.emitted (h : Reach st w j) {ev : Event sdk}
    {l : List (Event sdk)} (hl : ev :: l <:+ w.log) :
    (l = [] ∧ ∃ now durationSecs, ev = .boot now durationSecs) ∨
      ∃ w₀ j₀, Reach st w₀ j₀ ∧ w₀.log = l ∧ Emits w₀ j₀ ev := by
  revert hl
  refine h.induct (P := fun w => ev :: l <:+ w.log → _) ?_ ?_
  · intro now durationSecs hl
    have heq := List.suffix_cons_iff.mp hl
    simp only [List.suffix_nil, reduceCtorEq, or_false, List.cons.injEq] at heq
    exact Or.inl ⟨heq.2, now, durationSecs, heq.1⟩
  · intro w j ev' hw hev ih hl
    rw [hev.log_eq] at hl
    rcases List.suffix_cons_iff.mp hl with heq | hold
    · obtain ⟨rfl, rfl⟩ := List.cons.inj heq
      exact Or.inr ⟨w, j, hw, rfl, hev⟩
    · exact ih hold

/-- The same for a call of the sealer, with the store just before it. -/
theorem Reach.called (h : Reach st w j) {c : Call sdk} {answer : Answer c}
    {l : List (Event sdk)} (hl : .call c answer :: l <:+ w.log) :
    ∃ w₀ j₀, Reach st w₀ j₀ ∧ w₀.log = l ∧ w₀.store = storeOf st l ∧
      Emits w₀ j₀ (.call c answer) := by
  rcases h.emitted hl with ⟨-, now, durationSecs, hboot⟩ | ⟨w₀, j₀, hw, rfl, hev⟩
  · cases hboot
  · exact ⟨w₀, j₀, hw, rfl, hw.store_eq, hev⟩

/-- Every part of the history is that of an earlier world. -/
theorem Reach.earlier (h : Reach st w j) {l : List (Event sdk)}
    (hl : l <:+ w.log) : l = [] ∨ ∃ w₀ j₀, Reach st w₀ j₀ ∧ w₀.log = l := by
  revert hl
  refine h.induct_between (P := fun w => l <:+ w.log → _) ?_ ?_
  · intro now durationSecs hl
    rcases List.suffix_cons_iff.mp hl with rfl | hnil
    · exact Or.inr ⟨_, _, .boot now durationSecs, rfl⟩
    · exact Or.inl (List.suffix_nil.mp hnil)
  · intro w j ev j' hw hev hnext ih hl
    rw [hev.log_eq] at hl
    rcases List.suffix_cons_iff.mp hl with rfl | hold
    · exact Or.inr ⟨_, j', hnext, hev.log_eq⟩
    · exact ih hold

/-- What a store of the history has and every later event keeps, the store has
now. -/
theorem Reach.induct_since {P : Store sdk → Prop} {l : List (Event sdk)}
    (hstart : P (storeOf st l))
    (hemit : ∀ w j ev, Reach st w j → Emits w j ev → P w.store →
      P (w.emit ev).store)
    (h : Reach st w j) : l <:+ w.log → P w.store := by
  refine h.induct (P := fun w => l <:+ w.log → P w.store) ?_ ?_
  · intro now durationSecs hl
    have hstore : storeOf st l = st := by
      rcases List.suffix_cons_iff.mp hl with rfl | hnil
      · rfl
      · rw [List.suffix_nil.mp hnil]
        rfl
    rw [hstore] at hstart
    exact hstart
  · intro w j ev hw hev ih hl
    rw [hev.log_eq] at hl
    rcases List.suffix_cons_iff.mp hl with rfl | hold
    · rw [hev.store_eq, hw.store_eq, ← storeOf_cons]
      exact hstart
    · exact hemit w j ev hw hev (ih hold)

/-- Every event of the history meets `C` in the store it found. -/
def EachStep (st : Store sdk) (C : Store sdk → Event sdk → Prop)
    (log : List (Event sdk)) : Prop :=
  ∀ ev l, ev :: l <:+ log → C (storeOf st l) ev

/-- What the first store has and every event that meets `C` keeps, the store
has in every run whose events all meet `C`. -/
theorem Reach.induct_steps {C : Store sdk → Event sdk → Prop}
    {P : World sdk → Prop}
    (hboot : ∀ now durationSecs, P (World.boot st [] now durationSecs))
    (hemit : ∀ w j ev j', Reach st w j → Emits w j ev →
      Reach st (w.emit ev) j' → C w.store ev → P w → P (w.emit ev))
    (h : Reach st w j) : EachStep st C w.log → P w := by
  refine h.induct_between (P := fun w => EachStep st C w.log → P w)
    (fun now durationSecs _ => hboot now durationSecs) ?_
  intro w j ev j' hw hev hnext ih hsteps
  rw [hev.log_eq] at hsteps
  have hstep := hsteps ev w.log (List.suffix_refl _)
  rw [← hw.store_eq] at hstep
  exact hemit w j ev j' hw hev hnext hstep (ih fun ev' l hl =>
    hsteps ev' l (hl.trans (List.suffix_cons _ _)))

end Run

/-- The past in which the last id was opened left nothing but epochs. -/
theorem Twin.storeOf_past {past : List (Event sdk)} {w : World sdk}
    (htwin : Twin past (lastEpoch sdk) w) (hreach : Reachable Store.empty w) :
    ∃ epochs, storeOf Store.empty past =
      { (Store.empty : Store sdk) with epochs := epochs } := by
  obtain ⟨epochs, hstore⟩ := htwin.store
  refine ⟨epochs, ?_⟩
  rw [← show w.log = past from htwin.log, ← (reach_of_reachable hreach).store_eq, hstore]
  rfl

/-! ## The tick in progress -/

/-- The context and time of a job in progress. -/
def Job.tick : Job sdk → Option (Option WitnessContext × Nat)
  | .idle => none
  | .entered ctx now _ => some (ctx, now)
  | .retrying ctx now _ _ _ => some (ctx, now)
  | .closing ctx now _ _ _ _ => some (ctx, now)
  | .settling s => some (some s.ctx, s.now)

theorem Settles.tick_eq {w w' : World sdk} {s s' : Settling sdk}
    (h : Settles w s w' s') : s'.ctx = s.ctx ∧ s'.now = s.now := by
  cases h <;> exact ⟨rfl, rfl⟩

theorem Settles.currentTick_eq {w w' : World sdk} {s s' : Settling sdk}
    (h : Settles w s w' s') : currentTick w'.log = currentTick w.log := by
  cases h <;> rfl

/-- The job in progress works for the tick the history shows. -/
theorem Reach.currentTick_eq {st : Store sdk} {w : World sdk} {j : Job sdk}
    (h : Reach st w j) : ∀ t, j.tick = some t → currentTick w.log = some t := by
  induction h with
  | boot | restart | refuse | fail | finish =>
      rintro t ⟨⟩
  | append batch did _ ih => exact ih
  | tick now durationSecs _ _ _ => exact fun t ht => ht
  | plain _ ih => exact ih
  | list _ _ ih => exact ih
  | visit _ ih => exact ih
  | settle _ hstep ih =>
      intro t ht
      rw [hstep.currentTick_eq]
      refine ih t ?_
      rw [← ht]
      simp only [Job.tick, hstep.tick_eq.1, hstep.tick_eq.2]
  | leave _ _ _ _ ih => exact ih
  | swap _ ih => exact ih
  | prepare _ _ ih => exact ih
  | @persist w ctx now durationSecs down snapshot prepared batch record o _ _ _ _ ih =>
      intro t ht
      refine ih t ?_
      unfold Job.persisted at ht
      split at ht
      · exact ht
      · cases ht

/-- No job in progress enables a method twice. -/
theorem Reach.distinct {st : Store sdk} {w : World sdk} {j : Job sdk}
    (h : Reach st w j) :
    ∀ ctx now, j.tick = some (ctx, now) → DistinctMethods ctx := by
  induction h with
  | boot | restart | refuse | fail | finish =>
      rintro ctx now ⟨⟩
  | append batch did _ ih => exact ih
  | tick now durationSecs _ hdistinct _ =>
      rintro _ _ ⟨⟩
      exact hdistinct
  | plain _ ih => exact ih
  | list _ _ ih => exact ih
  | visit _ ih => exact ih
  | settle _ hstep ih =>
      rintro _ _ ⟨⟩
      rw [hstep.tick_eq.1]
      exact ih _ _ rfl
  | leave _ _ _ _ ih => exact ih
  | swap _ ih => exact ih
  | prepare _ _ ih => exact ih
  | persist _ _ _ _ ih =>
      intro ctx now ht
      unfold Job.persisted at ht
      split at ht
      · cases ht
        exact ih _ _ rfl
      · cases ht

/-! ## The check behind a judgement -/

/-- The last call of the sealer, with its answer. -/
def lastCall : List (Event sdk) → Option ((c : Call sdk) × Answer c)
  | .append .. :: log => lastCall log
  | .call c answer :: _ => some ⟨c, answer⟩
  | _ => none

/-- The last call was the check of the witnesses `minted` from the anchor `v`
of (`e`, `m`) in the context `ctx`, and `verdict` decided it. -/
def JustJudged (log : List (Event sdk)) (ctx : WitnessContext) (e : Nat)
    (m : AnchorMethod) (v : TimestampValue)
    (minted : List (MintedWitness sdk)) (verdict : Option SelfCheckVerdict) :
    Prop :=
  ∃ answer : Except String (HostAnswers sdk),
    lastCall log =
      some ⟨.selfCheck e m v minted ctx.serviceDid ctx.selfCheck, answer⟩ ∧
    verdict = firstUnverified minted
      (selfCheckVerdicts ctx.selfCheck ctx.serviceDid minted answer)

/-- What is known of the judgement in a `judged` phase. -/
structure Settling.Judged (s : Settling sdk) (log : List (Event sdk))
    (m : AnchorMethod) (v : TimestampValue)
    (minted : List (MintedWitness sdk)) (verdict : Option SelfCheckVerdict) :
    Prop where
  just : JustJudged log s.ctx s.record.epochId m v minted verdict
  mintedFor : ∃ snapshot batch, s.record.restore = .ok (snapshot, batch) ∧
    MintedFor snapshot m minted
  mintedFrom : ∃ snapshot batch, s.record.restore = .ok (snapshot, batch) ∧
    MintedFrom log batch m v minted

theorem Settles.judged {w w' : World sdk} {s s' : Settling sdk}
    (h : Settles w s w' s') {m : AnchorMethod} {v : TimestampValue}
    {minted : List (MintedWitness sdk)} {verdict : Option SelfCheckVerdict}
    (hphase : s'.phase = .judged m v minted verdict) :
    s'.Judged w'.log m v minted verdict := by
  cases h with
  | skip hat | unwired hat | refused hat =>
      rw [show s.phase = .ready from hat.1] at hphase
      cases hphase
  | obtained | giveUp | hold | mintFailed | keep | blame | abandon
  | resave | serve => cases hphase
  | store =>
      dsimp only at hphase
      split at hphase <;> cases hphase
  | wait =>
      dsimp only at hphase
      split at hphase <;> cases hphase
  | mint hanchored =>
      rw [hanchored] at hphase
      cases hphase
  | judge _ hrestore hfor hfrom =>
      cases hphase
      exact ⟨⟨_, rfl, rfl⟩, ⟨_, _, hrestore, hfor⟩, _, _, hrestore,
        hfrom.cons rfl⟩

/-- Behind every judgement stands a check of witnesses minted for it. -/
theorem Reach.judged {st : Store sdk} {w : World sdk} {j : Job sdk}
    (h : Reach st w j) :
    ∀ s m v minted verdict, j = .settling s →
      s.phase = .judged m v minted verdict →
        s.Judged w.log m v minted verdict := by
  induction h with
  | boot | restart | tick | refuse | plain | list | leave | swap | prepare
  | fail | finish =>
      rintro s m v minted verdict ⟨⟩
  | append batch did _ ih =>
      intro s m v minted verdict hj hphase
      have hold := ih s m v minted verdict hj hphase
      obtain ⟨snapshot, batch, hrestore, hfrom⟩ := hold.mintedFrom
      exact ⟨hold.just, hold.mintedFor, snapshot, batch, hrestore,
        hfrom.cons rfl⟩
  | visit =>
      rintro s m v minted verdict ⟨⟩ ⟨⟩
  | settle _ hstep _ =>
      rintro s m v minted verdict ⟨⟩ hphase
      exact hstep.judged hphase
  | persist =>
      intro s m v minted verdict hj hphase
      unfold Job.persisted at hj
      split at hj
      · cases hj
        cases hphase
      · cases hj

end AquaTimestamp
