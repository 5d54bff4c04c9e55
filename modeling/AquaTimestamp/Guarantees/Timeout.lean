import AquaTimestamp.Guarantees.Lifetime

/-!
# The not-found timeout

An EVM anchor whose transaction the node does not know is abandoned once it is
as old as the timeout.  Its age is counted from the time it was stored, not
from the last time the node knew it, so one not-found answer can abandon an
anchor that was known a moment before.  The abandonments that follow a whole
timeout of not-found answers are exactly those the age is right for.
-/

namespace AquaTimestamp

open Support Partition

variable {sdk : Sdk}

/-- The sealer abandons the anchor `v` of (`e`, `m`): right after a check that
found its transaction unknown it saves the record without an anchor. -/
def Abandons (log : List (Event sdk)) (ctx : WitnessContext) (e : Nat)
    (m : AnchorMethod) (v : TimestampValue) (ev : Event sdk) : Prop :=
  ∃ (p : PendingEpoch sdk) (o : WriteOutcome)
    (minted : List (MintedWitness sdk)) (reason : String),
    ev = .call (.savePending p) o ∧ p.epochId = e ∧ p.anchorEntry m = none ∧
      JustJudged log ctx e m v minted (some (.missing reason))

/-- Every check of the anchor `v` of (`e`, `m`) at a tick time later than
`now - timeout` found its transaction unknown. -/
def MissingThroughout (log : List (Event sdk)) (e : Nat) (m : AnchorMethod)
    (v : TimestampValue) (now timeout : Nat) : Prop :=
  ∀ minted did wiring answer l ctx t,
    .call (.selfCheck e m v minted did wiring) answer :: l <:+ log →
    currentTick l = some (ctx, t) → now < t + timeout →
      ∃ reason, firstUnverified minted
        (selfCheckVerdicts wiring did minted answer) = some (.missing reason)

/-- No check finds the transaction of a stored EVM anchor unknown, when the
anchor is already as old as the timeout, while a check inside the last timeout
answered otherwise. -/
def NeverKnownThenMissing (st : Store sdk) (log : List (Event sdk)) : Prop :=
  ∀ e v minted did wiring answer l ctx now reason q a,
    .call (.selfCheck e .evm v minted did wiring) answer :: l <:+ log →
    currentTick l = some (some ctx, now) →
    firstUnverified minted (selfCheckVerdicts wiring did minted answer) =
      some (.missing reason) →
    (storeOf st l).pendingAnchors[e]? = some q →
    q.anchorEntry .evm = some a → a.value = v →
    ctx.evmNotFoundTimeoutSecs ≤ now - a.firstSeen.getD now →
      MissingThroughout l e .evm v now ctx.evmNotFoundTimeoutSecs

/-- A node that never forgets a known transaction: no check finds unknown what
an earlier check of the same anchor did not find unknown. -/
def NeverForgets (log : List (Event sdk)) : Prop :=
  ∀ e v minted did wiring answer l minted' did' wiring' answer' l' reason,
    .call (.selfCheck e .evm v minted did wiring) answer :: l <:+ log →
    .call (.selfCheck e .evm v minted' did' wiring') answer' :: l' <:+ l →
    firstUnverified minted (selfCheckVerdicts wiring did minted answer) =
      some (.missing reason) →
      ∃ reason', firstUnverified minted'
        (selfCheckVerdicts wiring' did' minted' answer') = some (.missing reason')

theorem NeverForgets.neverKnownThenMissing {log : List (Event sdk)}
    (h : NeverForgets log) (st : Store sdk) : NeverKnownThenMissing st log := by
  intro e v minted did wiring answer l ctx now reason q a hl _ hmissing _ _ _ _
    minted' did' wiring' answer' l' ctx' t hl' _ _
  exact h e v minted did wiring answer l minted' did' wiring' answer' l' reason
    hl hl' hmissing

/-! ## The call before an event -/

/-- The last call of a history, with what came before it: only submissions
came after it. -/
theorem lastCall_split {log : List (Event sdk)} {c : Call sdk}
    {answer : Answer c} (h : lastCall log = some ⟨c, answer⟩) :
    ∃ l, .call c answer :: l <:+ log ∧ currentTick log = currentTick l ∧
      (∀ st, storeOf st log = (storeOf st l).after c answer) ∧
      ∀ (c' : Call sdk) (answer' : Answer c') l',
        .call c' answer' :: l' <:+ log →
          Event.call c' answer' = .call c answer ∨
            .call c' answer' :: l' <:+ l := by
  induction log with
  | nil => cases h
  | cons ev log ih =>
      cases ev with
      | boot | tick => cases h
      | append batch did outcome added =>
          obtain ⟨l, hl, htick, hstore, hrest⟩ := ih h
          refine ⟨l, hl.trans (List.suffix_cons _ _), htick, hstore, ?_⟩
          intro c' answer' l' hl'
          rcases List.suffix_cons_iff.mp hl' with heq | hold
          · cases (List.cons.inj heq).1
          · exact hrest c' answer' l' hold
      | call c₀ answer₀ =>
          cases h
          refine ⟨log, List.suffix_refl _, rfl, fun _ => rfl, ?_⟩
          intro c' answer' l' hl'
          rcases List.suffix_cons_iff.mp hl' with heq | hold
          · exact Or.inl (List.cons.inj heq).1
          · exact Or.inr hold

/-- While a fresh anchor is unsaved the last call was no check. -/
theorem Reach.unsaved {st : Store sdk} {w : World sdk} {j : Job sdk}
    (h : Reach st w j) : ∀ s m v, j = .settling s → s.phase = .unsaved m v →
      ∀ e m' v' minted did wiring answer,
        lastCall w.log ≠ some ⟨.selfCheck e m' v' minted did wiring, answer⟩ := by
  induction h with
  | boot | restart | tick | refuse | plain | list | leave | swap | prepare
  | fail | finish => rintro s m v ⟨⟩
  | append batch did _ ih => exact ih
  | visit => rintro s m v ⟨⟩ ⟨⟩
  | persist =>
      intro s m v hj hphase
      unfold Job.persisted at hj
      split at hj
      · cases hj
        cases hphase
      · cases hj
  | settle _ hstep ih =>
      rintro s m v ⟨⟩ hphase e m' v' minted did wiring answer hlast
      cases hstep with
      | skip hat | unwired hat | refused hat =>
          rw [hat.1] at hphase
          cases hphase
      | giveUp | hold | mintFailed | judge | keep | blame | abandon | resave
      | serve => cases hphase
      | mint hanchored =>
          rw [hanchored] at hphase
          cases hphase
      | wait =>
          dsimp only at hphase
          split at hphase <;> cases hphase
      | obtained => cases hlast
      | store => cases hlast

/-! ## What an abandonment rests on -/

/-- An abandonment rests on the age of the stored anchor. -/
theorem Reach.abandons {st : Store sdk} {w : World sdk} {j : Job sdk}
    {ev : Event sdk} {ctx : WitnessContext} {now e : Nat} {m : AnchorMethod}
    {v : TimestampValue} (hst : st.Indexed) (hmethods : st.MethodsNodup)
    (h : Reach st w j) (hev : Emits w j ev)
    (htick : currentTick w.log = some (some ctx, now))
    (habandons : Abandons w.log ctx e m v ev) :
    ∃ q a, w.store.pendingAnchors[e]? = some q ∧ q.anchorEntry m = some a ∧
      a.value = v ∧
      ctx.evmNotFoundTimeoutSecs ≤ now - a.firstSeen.getD now := by
  obtain ⟨p, o, minted, reason, rfl, rfl, hentry, answer, hlast, hverdict⟩ :=
    habandons
  cases hev with
  | mint _ hminting => cases hminting
  | @save s _ hsaves =>
      have hsynced := (h.followed hst hmethods).2.1
      obtain ⟨rfl, rfl⟩ : s.ctx = ctx ∧ s.now = now := by
        simpa using (h.currentTick_eq _ rfl).symm.trans htick
      rcases hsaves with ⟨m', v', hphase⟩ | ⟨m', hphase⟩
      · exact absurd hlast (h.unsaved _ _ _ rfl hphase _ _ _ _ _ _ _)
      · cases hq : w.store.pendingAnchors[s.record.epochId]? with
        | none =>
            have habsent := (hsynced.absent hq).2
            rw [hphase] at habsent
            cases habsent
        | some q =>
            have hfits := (hsynced.stored q hq).fits
            simp only [Settling.Fits, hphase] at hfits
            obtain ⟨-, -, a, minted', verdict', ha, ⟨answer', hlast', hverdict'⟩,
              hdiscards⟩ := hfits
            rw [hlast] at hlast'
            cases hlast'
            refine ⟨q, a, rfl, ha, rfl, ?_⟩
            rcases hdiscards hentry with ⟨reason', hfailed⟩ | ⟨-, hage⟩
            · rw [hverdict', ← hverdict] at hfailed
              cases hfailed
            · exact hage

/-- An abandonment after checks that all met the condition. -/
theorem Reach.missing_throughout {st : Store sdk} {w : World sdk} {j : Job sdk}
    (hst : st.Indexed) (hmethods : st.MethodsNodup) (hj : Reach st w j)
    (hcond : NeverKnownThenMissing st w.log)
    {ev : Event sdk} {l : List (Event sdk)} (hl : ev :: l <:+ w.log)
    {ctx : WitnessContext} {now e : Nat} {v : TimestampValue}
    (htick : currentTick l = some (some ctx, now))
    (habandons : Abandons l ctx e .evm v ev) :
    MissingThroughout l e .evm v now ctx.evmNotFoundTimeoutSecs := by
  rcases hj.emitted hl with ⟨rfl, -⟩ | ⟨w₀, j₀, hw₀, rfl, hev⟩
  · cases htick
  · obtain ⟨q, a, hq, ha, hv, hage⟩ :=
      hw₀.abandons hst hmethods hev htick habandons
    obtain ⟨p, o, minted, reason, rfl, -, -, answer, hlast, hverdict⟩ :=
      habandons
    obtain ⟨l, hcall, htick', hstore, hrest⟩ := lastCall_split hlast
    have hq' : (storeOf st l).pendingAnchors[e]? = some q := by
      rw [← hq, hw₀.store_eq, hstore]
      rfl
    have hbefore := hcond e v minted _ _ answer l ctx now reason q a
      (hcall.trans ((List.suffix_cons _ _).trans hl)) (htick' ▸ htick)
      hverdict.symm hq' ha hv hage
    intro minted' did' wiring' answer' l' ctx' t hl' ht' hlt
    rcases hrest _ _ _ hl' with hsame | hold
    · cases hsame
      exact ⟨reason, hverdict.symm⟩
    · exact hbefore minted' did' wiring' answer' l' ctx' t hold ht' hlt

/-- In a run in which no check finds unknown what was known inside the last
timeout, an EVM anchor is abandoned only after a whole timeout in which every
check found its transaction unknown. -/
theorem abandoned_only_after_missing_throughout {st : Store sdk}
    (hst : st.Indexed) (hmethods : st.MethodsNodup) {w : World sdk}
    (hw : Visited st w) (hcond : NeverKnownThenMissing st w.log)
    {ev : Event sdk} {l : List (Event sdk)} (hl : ev :: l <:+ w.log)
    {ctx : WitnessContext} {now e : Nat} {v : TimestampValue}
    (htick : currentTick l = some (some ctx, now))
    (habandons : Abandons l ctx e .evm v ev) :
    MissingThroughout l e .evm v now ctx.evmNotFoundTimeoutSecs := by
  obtain ⟨j, hj⟩ := reach_of_visited hw
  exact hj.missing_throughout hst hmethods hcond hl htick habandons

/-- With a node that never forgets, every anchor that is abandoned was unknown
for a whole timeout. -/
theorem missing_throughout_of_neverForgets {st : Store sdk}
    (hst : st.Indexed) (hmethods : st.MethodsNodup) {w : World sdk}
    (hw : Visited st w) (hnode : NeverForgets w.log)
    {ev : Event sdk} {l : List (Event sdk)} (hl : ev :: l <:+ w.log)
    {ctx : WitnessContext} {now e : Nat} {v : TimestampValue}
    (htick : currentTick l = some (some ctx, now))
    (habandons : Abandons l ctx e .evm v ev) :
    MissingThroughout l e .evm v now ctx.evmNotFoundTimeoutSecs := by
  obtain ⟨j, hj⟩ := reach_of_visited hw
  exact hj.missing_throughout hst hmethods (hnode.neverKnownThenMissing st) hl
    htick habandons

/-! ## Abandonments, by evaluation -/

/-- The deciding verdict is that the transaction is unknown. -/
def isMissing : Option SelfCheckVerdict → Bool
  | some (.missing _) => true
  | _ => false

theorem isMissing_iff {verdict : Option SelfCheckVerdict} :
    isMissing verdict = true ↔ ∃ reason, verdict = some (.missing reason) := by
  unfold isMissing
  split <;> simp_all

/-- An unknown transaction is judged missing. -/
example : isMissing (some (@SelfCheck.checkEvm Sample.sdk
    (.payload (Sample.anchored "" .evm "root"))
    ⟨some Sample.unknown.blockchain, none⟩)) = true := by
  decide +kernel

/-- Whether the event is a check that does not find the transaction unknown. -/
def Event.findsOther : Event sdk → Bool
  | .call (.selfCheck _ _ _ minted did wiring) answer =>
      !isMissing (firstUnverified minted
        (selfCheckVerdicts wiring did minted answer))
  | _ => false

theorem NeverKnownThenMissing.of_missing {st : Store sdk}
    {log : List (Event sdk)} (h : ∀ ev ∈ log, ev.findsOther = false) :
    NeverKnownThenMissing st log := by
  intro e v minted did wiring answer l ctx now reason q a hl _ _ _ _ _ _
    minted' did' wiring' answer' l' ctx' t hl' _ _
  have hin := hl.subset (List.mem_cons_of_mem _
    (hl'.subset (List.mem_cons_self ..)))
  refine isMissing_iff.mp ?_
  simpa [Event.findsOther] using h _ hin

/-- Whether an event abandons the anchor `v` of (`e`, `m`) in the tick in
progress. -/
def abandonsNow (e : Nat) (m : AnchorMethod) (v : TimestampValue)
    (ev : Event sdk) (l : List (Event sdk)) : Bool :=
  match ev, currentTick l, lastCall l with
  | .call (.savePending p) _, some (some ctx, _),
      some ⟨.selfCheck e' m' v' minted did wiring, answer⟩ =>
      decide (p.epochId = e ∧ p.anchorEntry m = none ∧ e' = e ∧ m' = m ∧
        v' = v ∧ did = ctx.serviceDid ∧ wiring = ctx.selfCheck) &&
        isMissing (firstUnverified minted
          (selfCheckVerdicts wiring did minted answer))
  | _, _, _ => false

theorem abandons_of_now {e : Nat} {m : AnchorMethod} {v : TimestampValue}
    {ev : Event sdk} {l : List (Event sdk)}
    (h : abandonsNow e m v ev l = true) :
    ∃ ctx now, currentTick l = some (some ctx, now) ∧
      Abandons l ctx e m v ev := by
  unfold abandonsNow at h
  split at h
  · rename_i p o ctx now e' m' v' minted did wiring answer htick hlast
    simp only [Bool.and_eq_true, decide_eq_true_eq] at h
    obtain ⟨⟨hid, hnone, rfl, rfl, rfl, rfl, rfl⟩, hmissing⟩ := h
    obtain ⟨reason, hreason⟩ := isMissing_iff.mp hmissing
    exact ⟨ctx, now, htick, p, o, minted, reason, rfl, hid, hnone, answer,
      hlast, hreason.symm⟩
  · cases h

/-- The first anchor of the first epoch with one leaf. -/
def Sample.firstAnchor : TimestampValue :=
  Sample.anchored "1" .evm (Sample.rootText [Sample.leaf 1])

theorem abandoned_only_after_missing_throughout_missingRun :
    ∃ ev l ctx now, ev :: l <:+ Sample.missingRun.log ∧
      currentTick l = some (some ctx, now) ∧
      Abandons l ctx 1 .evm Sample.firstAnchor ev ∧
      MissingThroughout l 1 .evm Sample.firstAnchor now
        ctx.evmNotFoundTimeoutSecs := by
  have hrun : (∀ ev ∈ Sample.missingRun.log, ev.findsOther = false) ∧
      someSplit (abandonsNow 1 .evm Sample.firstAnchor) Sample.missingRun.log =
        true := by
    decide +kernel
  obtain ⟨ev, l, hl, hnow⟩ := someSplit_iff.mp hrun.2
  obtain ⟨ctx, now, htick, habandons⟩ := abandons_of_now hnow
  exact ⟨ev, l, ctx, now, hl, htick, habandons,
    abandoned_only_after_missing_throughout indexed_empty methodsNodup_empty
      (.between (reachable_replay _)) (.of_missing hrun.1) hl htick habandons⟩

/-- The node knows the transaction at 10 and at 60, and misses it at 115. -/
def Sample.missedOnceRun : World Sample.sdk :=
  .replay [.append [Sample.leaf 1] "did:a",
    Sample.cycle [.evm] 10
      { Sample.honest "1" with check := fun _ _ _ => .ok Sample.notFinal },
    Sample.cycle [.evm] 60
      { Sample.honest "2" with check := fun _ _ _ => .ok Sample.notFinal },
    Sample.cycle [.evm] 115
      { Sample.honest "3" with check := fun _ _ _ => .ok Sample.unknown }]

/-- Whether an event is a check of the anchor `v` of (`e`, `m`) inside the
timeout of the cycle in progress after `log` that does not find its
transaction unknown. -/
def knownWithin (log : List (Event sdk)) (e : Nat) (m : AnchorMethod)
    (v : TimestampValue) (ev : Event sdk) (l : List (Event sdk)) : Bool :=
  match ev, currentTick l, currentTick log with
  | .call (.selfCheck e' m' v' _ _ _) _, some (_, t), some (some ctx, now) =>
      decide (e' = e ∧ m' = m ∧ v' = v ∧ now < t + ctx.evmNotFoundTimeoutSecs) &&
        ev.findsOther
  | _, _, _ => false

theorem not_missingThroughout {log : List (Event sdk)} {e : Nat}
    {m : AnchorMethod} {v : TimestampValue}
    (h : someSplit (knownWithin log e m v) log = true) {ctx : WitnessContext}
    {now : Nat} (htick : currentTick log = some (some ctx, now)) :
    ¬ MissingThroughout log e m v now ctx.evmNotFoundTimeoutSecs := by
  intro hmissing
  obtain ⟨ev, l, hl, hknown⟩ := someSplit_iff.mp h
  unfold knownWithin at hknown
  split at hknown
  · rename_i e' m' v' minted did wiring answer ctx' t ctx'' now' ht hnow
    simp only [Bool.and_eq_true, decide_eq_true_eq] at hknown
    obtain ⟨⟨rfl, rfl, rfl, hlt⟩, hother⟩ := hknown
    rw [htick] at hnow
    obtain ⟨rfl, rfl⟩ : ctx = ctx'' ∧ now = now' := by simpa using hnow
    have hfound := isMissing_iff.mpr
      (hmissing minted did wiring answer l ctx' t hl ht hlt)
    simp [Event.findsOther, hfound] at hother
  · cases hknown

theorem exists_known_transaction_abandoned :
    ∃ (w : World Sample.sdk) (ev : Event Sample.sdk)
      (l : List (Event Sample.sdk)) (ctx : WitnessContext) (now : Nat),
      Visited Store.empty w ∧ ev :: l <:+ w.log ∧
      currentTick l = some (some ctx, now) ∧
      Abandons l ctx 1 .evm Sample.firstAnchor ev ∧
      ¬ MissingThroughout l 1 .evm Sample.firstAnchor now
        ctx.evmNotFoundTimeoutSecs := by
  have hrun : someSplit (fun ev l =>
      abandonsNow 1 .evm Sample.firstAnchor ev l &&
        someSplit (knownWithin l 1 .evm Sample.firstAnchor) l)
      Sample.missedOnceRun.log = true := by
    decide +kernel
  obtain ⟨ev, l, hl, hboth⟩ := someSplit_iff.mp hrun
  simp only [Bool.and_eq_true] at hboth
  obtain ⟨ctx, now, htick, habandons⟩ := abandons_of_now hboth.1
  exact ⟨_, ev, l, ctx, now, .between (reachable_replay _), hl, htick, habandons,
    not_missingThroughout hboth.2 htick⟩

end AquaTimestamp
