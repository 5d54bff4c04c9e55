import AquaTimestamp.Model.Sample
import AquaTimestamp.Settlement.Tracking

/-!
# The life of a stored anchor

Once the pending record of an epoch holds an anchor for a method, it holds
that anchor until the witnesses minted from it are served, or until a
self-check of them puts the anchor at fault or finds its transaction unknown
past the timeout.  A discard counts exactly one fault.
-/

namespace AquaTimestamp

open Support Partition

variable {sdk : Sdk}

/-- The stored record of `e` lists `m`, with the anchor `a` and `faults`
faults. -/
def Holds (st : Store sdk) (e : Nat) (m : AnchorMethod) (a : StoredAnchor)
    (faults : UInt32) : Prop :=
  ∃ q, st.pendingAnchors[e]? = some q ∧ m ∈ q.methods ∧
    q.anchorEntry m = some a ∧ q.anchorFaultCount m = faults

/-- Some check of (`e`, `m`, `v`) at tick time `t` found the transaction
unknown. -/
def SeenMissing (log : List (Event sdk)) (e : Nat) (m : AnchorMethod)
    (v : TimestampValue) (t : Nat) : Prop :=
  ∃ l ctx minted reason, l <:+ log ∧ currentTick l = some (some ctx, t) ∧
    JudgedInTick l ctx e m v minted (some (.missing reason))

/-- `b` is the anchor `a`; a legacy one may have got the time of a judgement
that found its transaction unknown. -/
def SameAnchor (log : List (Event sdk)) (e : Nat) (m : AnchorMethod)
    (a b : StoredAnchor) : Prop :=
  b = a ∨ a.firstSeen = none ∧
    ∃ t, b = { a with firstSeen := some t } ∧ SeenMissing log e m a.value t

/-- The events that end the life of the stored anchor `a`, after the history
`log`. -/
inductive Ends (st : Store sdk) (log : List (Event sdk)) (e : Nat)
    (m : AnchorMethod) (a : StoredAnchor) (faults : UInt32) :
    Event sdk → Prop where
  /-- The witnesses minted from it are served. -/
  | served {remaining : PendingEpoch sdk} {minted : List (MintedWitness sdk)}
      {ctx : WitnessContext} {now : Nat} :
      remaining.epochId = e → m ∉ remaining.methods →
      currentTick log = some (some ctx, now) →
      JudgedInTick log ctx e m a.value minted none →
        Ends st log e m a faults
          (.call (.persistPendingMinted remaining m minted) .ok)
  /-- The record is stored without it, with one more fault, after a check of
  witnesses minted from it that costs the anchor. -/
  | discarded {ev : Event sdk} {q : PendingEpoch sdk} {ctx : WitnessContext}
      {now : Nat} {minted : List (MintedWitness sdk)}
      {verdict : Option SelfCheckVerdict} :
      (storeOf st (ev :: log)).pendingAnchors[e]? = some q → m ∈ q.methods →
      q.anchorEntry m = none → q.anchorFaultCount m = faults + 1 →
      currentTick log = some (some ctx, now) →
      JudgedInTick log ctx e m a.value minted verdict →
      Discards ctx now a verdict →
        Ends st log e m a faults ev

section Step

variable {st : Store sdk} {log : List (Event sdk)} {ctx : WitnessContext}
variable {now e : Nat} {m : AnchorMethod} {a : StoredAnchor}
variable {q p : PendingEpoch sdk}

/-- What the record in memory says of a method whose anchor is stored. -/
theorem Drift.of_stored (h : Drift log ctx now q p m)
    (herr : ErrorsChangeNothing log) (ha : q.anchorEntry m = some a) :
    (m ∈ q.methods ↔ m ∈ p.methods) ∧
      (p.anchorEntry m = some a ∧
          p.anchorFaultCount m = q.anchorFaultCount m ∨
        (a.firstSeen = none ∧
          p.anchorEntry m = some { a with firstSeen := some now } ∧
          p.anchorFaultCount m = q.anchorFaultCount m ∧
          ∃ minted reason, JudgedInTick log ctx p.epochId m a.value minted
            (some (.missing reason))) ∨
        (p.anchorEntry m = none ∧
          p.anchorFaultCount m = q.anchorFaultCount m + 1 ∧
          ∃ minted verdict,
            JudgedInTick log ctx p.epochId m a.value minted verdict ∧
              Discards ctx now a verdict)) := by
  cases h with
  | agrees h =>
      exact ⟨h.listed, Or.inl ⟨h.entry ▸ ha, h.faults.symm⟩⟩
  | gained _ _ hq =>
      rw [hq] at ha
      cases ha
  | touched hlisted hq hfirst hp hfaults hjudged =>
      rw [hq] at ha
      cases ha
      exact ⟨hlisted, Or.inr (Or.inl ⟨hfirst, hp, hfaults.symm, _, _, hjudged⟩)⟩
  | dropped hlisted hq hp hfaults hjudged hdiscards =>
      rw [hq] at ha
      cases ha
      exact ⟨hlisted, Or.inr (Or.inr ⟨hp, hfaults, _, _, hjudged, hdiscards⟩)⟩
  | unsynced _ _ _ _ _ hserved => exact absurd hserved (herr.not_unsynced _ _)

/-- The possible fates of a stored anchor at one event. -/
theorem Reach.anchor_step {w : World sdk} {j : Job sdk} {ev : Event sdk}
    {faults : UInt32} (hst : st.Indexed) (hmethods : st.MethodsNodup)
    (h : Reach st w j) (hev : Emits w j ev)
    (herr : ErrorsChangeNothing (ev :: w.log)) (he : e < u64Max)
    (hholds : Holds w.store e m a faults) :
    Holds (w.emit ev).store e m a faults ∨
      (a.firstSeen = none ∧ ∃ t,
        Holds (w.emit ev).store e m { a with firstSeen := some t } faults ∧
          SeenMissing w.log e m a.value t) ∨
      Ends st w.log e m a faults ev := by
  obtain ⟨q, hq, hlisted, ha, rfl⟩ := hholds
  have hstore : (w.emit ev).store = storeOf st (ev :: w.log) := by
    rw [hev.store_eq, storeOf_cons, h.store_eq]
  have hrecord := h.record_step hst hmethods hev he hq
  have hid := ((h.grounded hst).store.pending e q hq).2
  -- The record `p` is written in place of `q`, still listing the method.
  have hwrite : ∀ (s : Settling sdk) (p : PendingEpoch sdk),
      j = .settling s → Tracks w.log s q →
      (w.emit ev).store.pendingAnchors[e]? = some p → Agrees s.record p m →
      Holds (w.emit ev).store e m a (q.anchorFaultCount m) ∨
        (a.firstSeen = none ∧ ∃ t,
          Holds (w.emit ev).store e m { a with firstSeen := some t }
            (q.anchorFaultCount m) ∧ SeenMissing w.log e m a.value t) ∨
        Ends st w.log e m a (q.anchorFaultCount m) ev := by
    rintro s p rfl ht hp hagrees
    have htick := h.currentTick_eq _ rfl
    have hs : s.record.epochId = e := by rw [← ht.same.1, hid]
    obtain ⟨hiff, hfate⟩ := (ht.drift m).of_stored herr.tail ha
    have hmem : m ∈ p.methods := hagrees.listed.mp (hiff.mp hlisted)
    rcases hfate with ⟨hentry, hfaults⟩ | ⟨hfirst, hentry, hfaults, minted,
      reason, hjudged⟩ | ⟨hentry, hfaults, minted, verdict, hjudged, hdiscards⟩
    · exact Or.inl ⟨p, hp, hmem, hagrees.entry ▸ hentry,
        hagrees.faults ▸ hfaults⟩
    · refine Or.inr (Or.inl ⟨hfirst, s.now, ⟨p, hp, hmem,
        hagrees.entry ▸ hentry, hagrees.faults ▸ hfaults⟩, ?_⟩)
      exact ⟨w.log, s.ctx, minted, reason, List.suffix_refl _, htick,
        hs ▸ hjudged⟩
    · rw [hstore] at hp
      exact Or.inr (Or.inr (.discarded hp hmem (hagrees.entry ▸ hentry)
        (hagrees.faults ▸ hfaults) htick (hs ▸ hjudged) hdiscards))
  generalize hafter : (w.emit ev).store.pendingAnchors[e]? = after at hrecord
  cases hrecord with
  | kept => exact Or.inl ⟨q, hafter, hlisted, ha, rfl⟩
  | saved hj _ _ _ ht => exact hwrite _ _ hj ht hafter (Agrees.refl _ m)
  | @served s done v minted o hj hphase ho hjudged hsynced ht =>
      by_cases hdone : done = m
      · subst hdone
        have hfits := ht.fits
        simp only [Settling.Fits, hphase] at hfits
        obtain ⟨-, -, -, b, hb, rfl⟩ := hfits
        obtain rfl : b = a := by
          rw [hb] at ha
          exact Option.some.inj ha
        have hs : s.record.epochId = e := by rw [← ht.same.1, hid]
        have hok : o = .ok := by
          cases o with
          | ok => rfl
          | failed e => cases ho
          | unsynced e => cases herr _ (List.mem_cons_self ..)
        subst hok hj
        refine Or.inr (Or.inr (.served hs ?_ (h.currentTick_eq _ rfl)
          (hs ▸ hjudged.just.inTick)))
        simp [PendingEpoch.mem_methods_without]
      · have hagrees := agrees_without (p := s.record) hdone
        have hsome : ¬ (s.record.without done).methods = [] := by
          intro hnil
          obtain ⟨hiff, -⟩ := (ht.drift m).of_stored herr.tail ha
          have hin := hagrees.listed.mp (hiff.mp hlisted)
          rw [hnil] at hin
          cases hin
        rw [if_neg hsome] at hafter
        exact hwrite s _ hj ht hafter hagrees

end Step

/-! ## Over whole runs -/

theorem SeenMissing.mono {log log' : List (Event sdk)} {e : Nat}
    {m : AnchorMethod} {v : TimestampValue} {t : Nat} (hlog : log <:+ log')
    (h : SeenMissing log e m v t) : SeenMissing log' e m v t := by
  obtain ⟨l, ctx, minted, reason, hl, htick, hjudged⟩ := h
  exact ⟨l, ctx, minted, reason, hl.trans hlog, htick, hjudged⟩

theorem SameAnchor.mono {log log' : List (Event sdk)} {e : Nat}
    {m : AnchorMethod} {a b : StoredAnchor} (hlog : log <:+ log')
    (h : SameAnchor log e m a b) : SameAnchor log' e m a b := by
  rcases h with rfl | ⟨hfirst, t, hb, hseen⟩
  · exact Or.inl rfl
  · exact Or.inr ⟨hfirst, t, hb, hseen.mono hlog⟩

/-- Only a legacy anchor gets a time, and only once. -/
theorem SameAnchor.touch {log : List (Event sdk)} {e : Nat} {m : AnchorMethod}
    {a b : StoredAnchor} {t : Nat} (h : SameAnchor log e m a b)
    (hfirst : b.firstSeen = none) (hseen : SeenMissing log e m b.value t) :
    SameAnchor log e m a { b with firstSeen := some t } := by
  rcases h with rfl | ⟨-, t', rfl, -⟩
  · exact Or.inr ⟨hfirst, t, rfl, hseen⟩
  · cases hfirst

/-- The anchor `a` that the record of `e` held for `m` after the history `l`
is still held after `log`, or its life ended in between. -/
def LivesOrEnds (st : Store sdk) (log l : List (Event sdk)) (e : Nat)
    (m : AnchorMethod) (a : StoredAnchor) (faults : UInt32) : Prop :=
  (∃ b, SameAnchor log e m a b ∧ Holds (storeOf st log) e m b faults) ∨
    ∃ ev l' b, ev :: l' <:+ log ∧ l <:+ l' ∧ SameAnchor l' e m a b ∧
      Holds (storeOf st l') e m b faults ∧ Ends st l' e m b faults ev

theorem Reach.anchor_run {st : Store sdk} {w : World sdk} {j : Job sdk}
    (hst : st.Indexed) (hmethods : st.MethodsNodup) (h : Reach st w j)
    {e : Nat} {m : AnchorMethod} {a : StoredAnchor} {faults : UInt32}
    (he : e < u64Max) {l : List (Event sdk)}
    (hholds : Holds (storeOf st l) e m a faults) :
    ErrorsChangeNothing w.log → l <:+ w.log →
      LivesOrEnds st w.log l e m a faults := by
  refine h.induct (P := fun w => ErrorsChangeNothing w.log → l <:+ w.log →
    LivesOrEnds st w.log l e m a faults) ?_ ?_
  · intro now durationSecs _ hl
    have hstore : storeOf st l = st := by
      rcases List.suffix_cons_iff.mp hl with rfl | hnil
      · rfl
      · rw [List.suffix_nil.mp hnil]
        rfl
    rw [hstore] at hholds
    exact Or.inl ⟨a, Or.inl rfl, hholds⟩
  · intro w j ev hw hev ih herr hl
    rw [hev.log_eq] at herr hl ⊢
    rcases List.suffix_cons_iff.mp hl with rfl | hold
    · exact Or.inl ⟨a, Or.inl rfl, hholds⟩
    · have hgrow := List.suffix_cons ev w.log
      rcases ih herr.tail hold with ⟨b, hsame, hb⟩ | ⟨ev', l', b, hev', hends⟩
      · rw [← hw.store_eq] at hb
        have hstore : (w.emit ev).store = storeOf st (ev :: w.log) := by
          rw [hev.store_eq, storeOf_cons, hw.store_eq]
        rcases hw.anchor_step hst hmethods hev herr he hb with
          hb' | ⟨hfirst, t, hb', hseen⟩ | hends
        · rw [hstore] at hb'
          exact Or.inl ⟨b, hsame.mono hgrow, hb'⟩
        · rw [hstore] at hb'
          exact Or.inl ⟨_, (hsame.touch hfirst hseen).mono hgrow, hb'⟩
        · rw [hw.store_eq] at hb
          exact Or.inr ⟨ev, w.log, b, List.suffix_refl _, hold, hsame, hb, hends⟩
      · exact Or.inr ⟨ev', l', b, hev'.trans hgrow, hends⟩

/-- In any run of the server in which writes that report an error change
nothing, a stored anchor lives until it is served, found at fault, or unknown
past the timeout. -/
theorem anchor_lifetime {st : Store sdk} (hst : st.Indexed)
    (hmethods : st.MethodsNodup) {w : World sdk} (hw : Visited st w)
    (herr : ErrorsChangeNothing w.log) {e : Nat} {m : AnchorMethod}
    {a : StoredAnchor} {faults : UInt32} (he : e < u64Max)
    {l : List (Event sdk)} (hl : l <:+ w.log)
    (hholds : Holds (storeOf st l) e m a faults) :
    LivesOrEnds st w.log l e m a faults := by
  obtain ⟨j, hj⟩ := reach_of_visited hw
  exact hj.anchor_run hst hmethods he hholds herr hl

/-- Whether the stored record of `e` lists `m` with an anchor and that many
faults. -/
def holdsSome (st : Store sdk) (e : Nat) (m : AnchorMethod) (faults : UInt32) :
    Bool :=
  st.pendingAnchors[e]?.any fun q =>
    decide (m ∈ q.methods) && (q.anchorEntry m).isSome &&
      decide (q.anchorFaultCount m = faults)

theorem exists_holds {st : Store sdk} {e : Nat} {m : AnchorMethod}
    {faults : UInt32} (h : holdsSome st e m faults = true) :
    ∃ a, Holds st e m a faults := by
  obtain ⟨q, hq, h⟩ := (Option.any_eq_true _ _).mp h
  simp only [Bool.and_eq_true, decide_eq_true_eq] at h
  obtain ⟨a, ha⟩ := Option.isSome_iff_exists.mp h.1.2
  exact ⟨a, q, hq, h.1.1, ha, h.2⟩

/-- An anchor whose transaction is never found; it is given up at the third
check. -/
def Sample.missingRun : World Sample.sdk :=
  .replay [.append [Sample.leaf 1] "did:a",
    Sample.cycle [.evm] 10
      { Sample.honest "1" with check := fun _ _ _ => .ok Sample.unknown },
    Sample.cycle [.evm] 60
      { Sample.honest "2" with check := fun _ _ _ => .ok Sample.unknown },
    Sample.cycle [.evm] 110
      { Sample.honest "3" with check := fun _ _ _ => .ok Sample.unknown }]

theorem anchor_lifetime_missingRun :
    ∃ l a, Holds (storeOf Store.empty l) 1 .evm a 0 ∧
      LivesOrEnds Store.empty Sample.missingRun.log l 1 .evm a 0 := by
  have hrun : ErrorsChangeNothing Sample.missingRun.log ∧
      someSplit (fun ev l => holdsSome (storeOf Store.empty (ev :: l)) 1 .evm 0)
        Sample.missingRun.log = true := by
    decide +kernel
  obtain ⟨ev, l, hl, hholds⟩ := someSplit_iff.mp hrun.2
  obtain ⟨a, ha⟩ := exists_holds hholds
  exact ⟨ev :: l, a, ha, anchor_lifetime indexed_empty methodsNodup_empty
    (.between (reachable_replay _)) hrun.1 (by decide) hl ha⟩

/-- An anchor is stored for the last epoch id, and another leaf comes in. -/
def Sample.heldMoves : List (Move Sample.sdk) :=
  [.append [Sample.leaf 1] "did:a",
    Sample.cycle [.evm] 10
      { Sample.honest "1" with check := fun _ _ _ => .ok Sample.notFinal },
    .append [Sample.leaf 2] "did:a"]

/-- The cycle is stopped before a provider is called. -/
def Sample.beforeProvider : Surroundings Sample.sdk :=
  { Sample.honest "2" with
    check := fun _ _ _ => .ok Sample.notFinal
    stops := fun
      | .createTimestamp .. => true
      | _ => false }

/-- A life does not end with a seal that leaves a record without the anchor and
without a new fault. -/
theorem not_livesOrEnds_of_reseal {st : Store sdk} {record : EpochRecord}
    {leaves : List LeafEntry} {witnesses : List (MintedWitness sdk)}
    {pending : Option (PendingEpoch sdk)} {o : WriteOutcome}
    {l : List (Event sdk)} {e : Nat} {m : AnchorMethod} {a : StoredAnchor}
    {faults : UInt32} {q : PendingEpoch sdk}
    (hq : (storeOf st (.call (.persistSealedEpoch record leaves witnesses
      pending) o :: l)).pendingAnchors[e]? = some q)
    (hnone : q.anchorEntry m = none)
    (hcount : q.anchorFaultCount m ≠ faults + 1) :
    ¬ LivesOrEnds st (.call (.persistSealedEpoch record leaves witnesses
      pending) o :: l) l e m a faults := by
  rintro (⟨b, -, q', hq', -, hb, -⟩ | ⟨ev, l', b, hev, hl', -, -, hends⟩)
  · rw [hq] at hq'
    cases hq'
    rw [hnone] at hb
    cases hb
  · rcases List.suffix_cons_iff.mp hev with heq | hold
    · obtain ⟨rfl, rfl⟩ := List.cons.inj heq
      cases hends with
      | discarded hq' _ _ hcount' =>
          rw [hq] at hq'
          cases hq'
          exact hcount hcount'
    · have hlength := hold.length_le
      have hlength' := hl'.length_le
      simp only [List.length_cons] at hlength
      omega

/-- Whether the last event sealed (`e`, `m`) anew over an anchor without
faults. -/
def resealsHeld (e : Nat) (m : AnchorMethod) : List (Event sdk) → Bool
  | .call (.persistSealedEpoch record leaves witnesses pending) o :: l =>
      holdsSome (storeOf Store.empty l) e m 0 &&
        (storeOf Store.empty (.call (.persistSealedEpoch record leaves witnesses
          pending) o :: l)).pendingAnchors[e]?.any fun q =>
            (q.anchorEntry m).isNone && decide (q.anchorFaultCount m ≠ 0 + 1)
  | _ => false

theorem exists_anchor_overwritten :
    ∃ (w : World Sample.sdk) (l : List (Event Sample.sdk)) (a : StoredAnchor),
      Visited Store.empty w ∧ ErrorsChangeNothing w.log ∧ l <:+ w.log ∧
      Holds (storeOf Store.empty l) u64Max .evm a 0 ∧
      ¬ LivesOrEnds Store.empty w.log l u64Max .evm a 0 := by
  obtain ⟨w, past, hreach, hidle, htwin⟩ := exists_lastEpoch Sample.sdk
  obtain ⟨epochs, hpast⟩ := htwin.storeOf_past hreach
  have hmoves : ∀ move ∈ Sample.heldMoves, move.keepsProcess = true := by
    decide
  obtain ⟨hend, -⟩ := (htwin.playAll hmoves).enter (some (Sample.ctx [.evm])) 20
    60 Sample.beforeProvider
  have hrun : ErrorsChangeNothing (((lastEpoch Sample.sdk).playAll
        Sample.heldMoves).enter (some (Sample.ctx [.evm])) 20 60
          Sample.beforeProvider).1.log ∧
      resealsHeld u64Max .evm (((lastEpoch Sample.sdk).playAll
        Sample.heldMoves).enter (some (Sample.ctx [.evm])) 20 60
          Sample.beforeProvider).1.log = true := by
    decide +kernel
  have hdistinct : DistinctMethods (some (Sample.ctx [.evm])) := by decide
  have hvisited := (hreach.playAll Sample.heldMoves).visited_enter hdistinct 20
    60 Sample.beforeProvider
  have hlog := hend.log
  revert hlog hrun
  generalize (((lastEpoch Sample.sdk).playAll Sample.heldMoves).enter
    (some (Sample.ctx [.evm])) 20 60 Sample.beforeProvider).1.log = log
  rintro ⟨herr, hreseals⟩ hlog
  unfold resealsHeld at hreseals
  split at hreseals
  · rename_i record leaves witnesses pending o l
    simp only [Bool.and_eq_true] at hreseals
    obtain ⟨a, q, hq, hlisted, ha, hcount⟩ := exists_holds hreseals.1
    obtain ⟨q', hq', hnew⟩ := (Option.any_eq_true _ _).mp hreseals.2
    simp only [Bool.and_eq_true, Option.isNone_iff_eq_none,
      decide_eq_true_eq] at hnew
    rw [← pendingAnchors_append_past hpast] at hq hq'
    refine ⟨_, l ++ past, a, hvisited, ?_, ?_, ⟨q, hq, hlisted, ha, hcount⟩, ?_⟩
    · exact hlog ▸ herr.append_idle hidle
    · exact hlog ▸ List.suffix_cons _ _
    · rw [hlog]
      exact not_livesOrEnds_of_reseal hq' hnew.1 hnew.2
  · cases hreseals

end AquaTimestamp
