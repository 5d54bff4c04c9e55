import AquaTimestamp.Guarantees.Downtime
import AquaTimestamp.Guarantees.Spend
import AquaTimestamp.Model.Routes
import AquaTimestamp.Settlement.Serving

/-!
# Stalled anchors

A pending (epoch, method) is stalled when its record holds no anchor and has
reached the fault cap.  The routes read this off the stored record; the sealer
decides on its own whether there is anything to do.  The two agree on every
record a run stores, and what is stalled stays so, while ids last.
-/

namespace AquaTimestamp

open Support Partition
open Prog (Leads)

variable {sdk : Sdk}

/-! ## Records the sealer leaves alone -/

/-- Started with no method down, `settle_method` returns without asking the
provider and without minting. -/
def LeftAlone (ctx : WitnessContext) (q : PendingEpoch sdk) (m : AnchorMethod)
    (now : Nat) : Prop :=
  ∀ t p, Leads (settleMethod ctx q m [] now) t p →
    ∀ x ∈ t, x.1.asks = none ∧ x.1.isMinting = false

/-- No anchor is held and the fault cap is reached. -/
def Capped (max : UInt32) (q : PendingEpoch sdk) (m : AnchorMethod) : Prop :=
  q.anchor m = none ∧ max ≤ q.anchorFaultCount m

section Record

variable {ctx : WitnessContext} {q : PendingEpoch sdk} {m : AnchorMethod} {now : Nat}

theorem provider_of_validate (hvalid : ctx.validate = .ok ()) (hm : m ∈ ctx.methods) :
    ctx.provider m = true := by
  unfold WitnessContext.validate at hvalid
  split at hvalid
  · cases hvalid
  · rename_i hnone
    simpa using List.find?_eq_none.mp hnone m hm

theorem Capped.leftAlone (h : Capped ctx.maxAnchorFaults q m) :
    LeftAlone ctx q m now := by
  intro t p hleads
  have hreturns : settleMethod ctx q m [] now = .pure (q, [], none) := by
    unfold settleMethod obtainAnchor
    simp only [h.1, h.2, List.not_mem_nil, if_true, if_false]
    split <;> rfl
  rw [hreturns] at hleads
  obtain ⟨rfl, -⟩ := Prog.leads_pure hleads
  exact nofun

/-- A program that starts with a provider call or a call of the minter does not
leave the record alone. -/
theorem not_leftAlone {c : Call sdk} (answer : Answer c)
    (hcall : ∃ next, settleMethod ctx q m [] now = .call c next)
    (hc : c.asks ≠ none ∨ c.isMinting = true) : ¬ LeftAlone ctx q m now := by
  intro halone
  obtain ⟨next, hcall⟩ := hcall
  rw [LeftAlone, hcall] at halone
  obtain ⟨hasks, hminting⟩ := halone [⟨c, answer⟩] _ (.call (.refl _)) ⟨c, answer⟩
    (List.mem_cons_self ..)
  rcases hc with hc | hc
  · exact hc hasks
  · rw [hminting] at hc
    cases hc

/-- The sealer leaves a record alone exactly when it is capped: else the first
thing it does is to mint from the anchor, or to ask for one. -/
theorem leftAlone_iff (hm : m ∈ ctx.methods) (hwired : ctx.provider m = true)
    {snapshot : SealedSnapshot} {batch : EpochBatch sdk}
    (hrestore : q.restore = .ok (snapshot, batch)) :
    LeftAlone ctx q m now ↔ Capped ctx.maxAnchorFaults q m := by
  refine ⟨fun halone => ?_, Capped.leftAlone⟩
  cases hanchor : q.anchor m with
  | some v =>
      have hleaves : snapshot.leaves.map LeafEntry.leaf = batch.leaves := by
        rw [(PendingEpoch.restore_leaves hrestore).2]
      refine absurd halone (not_leftAlone (c := .finishBatchTimestamp batch.prepared
        batch.targets ((MethodAnchorOutcome.fromValue m v).facts m batch.anchorRoot))
        (.error "") ?_ (Or.inr rfl))
      unfold settleMethod obtainAnchor mintFrom mintWitnessesForEpoch
      simp only [hm, hanchor, hrestore, hleaves, not_true_eq_false, ne_eq, if_false,
        Prog.pure_bind]
      exact ⟨_, rfl⟩
  | none =>
      by_contra hbelow
      have hlt : ¬ ctx.maxAnchorFaults ≤ q.anchorFaultCount m :=
        fun hle => hbelow ⟨hanchor, hle⟩
      refine absurd halone (not_leftAlone
        (c := .createTimestamp q.epochId m q.anchorRoot) (.error "") ?_ (Or.inl nofun))
      unfold settleMethod obtainAnchor anchorRoot
      simp only [hm, hanchor, hlt, hwired, not_true_eq_false, List.not_mem_nil, if_true,
        if_false]
      exact ⟨_, rfl⟩

end Record

/-! ## What the routes say of a record -/

section Routes

variable {st : Store sdk} {max : UInt32} {e : Nat} {q : PendingEpoch sdk}
variable {m : AnchorMethod}

theorem anchorStalled_iff (hst : st.Indexed) (hq : st.pendingAnchors[e]? = some q) :
    anchorStalled st max m e = true ↔ Capped max q m := by
  unfold anchorStalled
  rw [List.any_eq_true]
  constructor
  · rintro ⟨p, hp, hstalled⟩
    obtain ⟨hid, hnone, hfaults⟩ := of_decide_eq_true hstalled
    obtain ⟨k, hk⟩ := mem_inOrder.mp hp
    obtain rfl : k = e := (hst.pending k p hk).2.symm.trans hid
    rw [hq] at hk
    cases hk
    exact ⟨Option.isNone_iff_eq_none.mp hnone, hfaults⟩
  · rintro ⟨hnone, hfaults⟩
    refine ⟨q, mem_inOrder.mpr ⟨e, hq⟩, decide_eq_true ?_⟩
    exact ⟨(hst.pending e q hq).2, Option.isNone_iff_eq_none.mpr hnone, hfaults⟩

/-- A fresh record is stalled under a cap of 0 and under no other. -/
example : [0, 1, 3].map (fun max =>
    anchorStalled { (Store.empty : Store Sample.sdk) with
      pendingAnchors := Std.ExtTreeMap.insert ∅ 1
        (PendingEpoch.new ⟨1, 0, 10, [⟨Sample.leaf 1, "did:a"⟩]⟩
          ⟨[Sample.leaf 1], [Sample.leaf 1]⟩ [.evm]) } max .evm 1) =
      [true, false, false] := by
  decide +kernel

theorem pendingAnchorResponse_stalled (hst : st.Indexed)
    (hq : st.pendingAnchors[e]? = some q) (max : UInt32) (m : AnchorMethod)
    (leaf : Option Hash32) :
    (pendingAnchorResponse st max m e leaf = anchorStalledResponse m e leaf ↔
        Capped max q m) ∧
      ((pendingAnchorResponse st max m e leaf).status = .accepted ↔
        ¬ Capped max q m) := by
  rw [← anchorStalled_iff hst hq]
  unfold pendingAnchorResponse
  by_cases hstalled : anchorStalled st max m e = true
  · simp [hstalled, anchorStalledResponse]
  · rw [if_neg hstalled]
    refine ⟨⟨?_, fun h => absurd h hstalled⟩, fun _ => hstalled, fun _ => rfl⟩
    intro heq
    cases congrArg Response.status heq

/-- A pending (epoch, method) is answered by its record. -/
theorem union_of_pending (hst : st.Indexed) (hq : st.pendingAnchors[e]? = some q)
    (hlisted : m ∈ q.methods) {methodStr : String}
    (hmethod : AnchorMethod.parse methodStr = some m) (did : String) :
    listOrQueryTrees st max did (some e) (some methodStr) =
      .ok (pendingAnchorResponse st max m e none) := by
  obtain ⟨record, hrecord⟩ := Option.isSome_iff_exists.mp
    (Std.ExtTreeMap.mem_iff_isSome_getElem?.mp (hst.pending e q hq).1)
  have hget : st.getEpoch e = some record := hrecord
  have hpending : st.isEpochPending e m = true :=
    Store.isEpochPending_eq_true.mpr ⟨q, hq, hlisted⟩
  simp [listOrQueryTrees, unionForEpoch, parseMethod_of_some hmethod, hget, hpending,
    bind, Except.bind]

/-- The by-leaf route answers neither with a witness nor with an error only by
`pending_anchor_response`, for the epoch it names. -/
theorem by_leaf_of_pending {did leafHex methodStr : String} {r : Response sdk}
    (hmethod : AnchorMethod.parse methodStr = some m)
    (h : getTreeByLeaf st max did leafHex (some methodStr) = .ok r)
    (hr : r.status = .accepted ∨ r.status = .serviceUnavailable) :
    ∃ e leaf, r = pendingAnchorResponse st max m e (some leaf) := by
  have hother : ∀ {r' : Response sdk}, r' = r → r'.status ≠ .accepted →
      r'.status ≠ .serviceUnavailable → False := by
    rintro _ rfl hacc hun
    exact hr.elim hacc hun
  unfold getTreeByLeaf at h
  dsimp only at h
  obtain ⟨m', hm', h⟩ := bind_eq_ok_iff.mp h
  obtain ⟨leaf, -, h⟩ := bind_eq_ok_iff.mp h
  rw [parseMethod_of_some hmethod] at hm'
  cases hm'
  split at h
  · cases h
    exact (hother rfl (by rintro ⟨⟩) (by rintro ⟨⟩)).elim
  split at h
  · cases h
  split at h
  · split at h
    · cases h
      exact ⟨_, leaf, rfl⟩
    · cases h
      exact (hother rfl (by rintro ⟨⟩) (by rintro ⟨⟩)).elim
  split at h
  · cases h
  split at h
  · have hok := pairResponse_status h
    refine (hother rfl ?_ ?_).elim <;> rw [hok] <;> rintro ⟨⟩
  split at h
  · split at h
    · cases h
      exact ⟨_, leaf, rfl⟩
    · cases h
      exact (hother rfl (by rintro ⟨⟩) (by rintro ⟨⟩)).elim
  · cases h
    exact (hother rfl (by rintro ⟨⟩) (by rintro ⟨⟩)).elim

end Routes

/-! ## Stored records of a run -/

/-- The (epoch, method) is pending without an anchor and with `n` faults. -/
def StalledAt (st : Store sdk) (e : Nat) (m : AnchorMethod) (n : UInt32) : Prop :=
  ∃ q, st.pendingAnchors[e]? = some q ∧ m ∈ q.methods ∧ q.anchor m = none ∧
    q.anchorFaultCount m = n

section Runs

variable {st : Store sdk} {w : World sdk} {j : Job sdk} {e : Nat} {m : AnchorMethod}

/-- Every stored record restores, whatever its id. -/
theorem Reach.restorable (h : Reach Store.empty w j) :
    ∀ (e : Nat) q, w.store.pendingAnchors[e]? = some q →
      ∃ snapshot batch, q.restore = .ok (snapshot, batch) := by
  have hst : (Store.empty : Store sdk).Indexed := indexed_empty
  have hmethods : (Store.empty : Store sdk).MethodsNodup := methodsNodup_empty
  refine h.induct (P := fun w => ∀ (e : Nat) q, w.store.pendingAnchors[e]? = some q →
    ∃ snapshot batch, q.restore = .ok (snapshot, batch)) ?_ ?_
  · intro now durationSecs e q hq
    simp [World.boot, Store.empty] at hq
  · intro w j ev hw hev ih e q hq
    -- What the settlement writes is the stored record, apart from its methods.
    have hwritten : ∀ s, j = .settling s → s.phase ≠ .ready →
        ∃ snapshot batch, s.record.restore = .ok (snapshot, batch) := by
      rintro s rfl hphase
      have hsynced := (hw.followed hst hmethods).2.1
      cases hold : w.store.pendingAnchors[s.record.epochId]? with
      | none => exact absurd (hsynced.absent hold).2 hphase
      | some p =>
          rw [← (hsynced.stored p hold).same.restore_eq]
          exact ih _ p hold
    have hcases := hev.written
    generalize (w.emit ev).store = st' at hcases hq
    cases hcases with
    | unchanged => exact ih e q hq
    | @saved s o hphase _ =>
        by_cases hid : s.record.epochId = e
        · subst hid
          rw [savePending_self] at hq
          cases hq
          exact hwritten s rfl hphase.ne_ready
        · rw [savePending_of_ne _ _ hid] at hq
          exact ih e q hq
    | @served s done v minted o st' hphase _ hserved =>
        by_cases hid : (s.record.without done).epochId = e
        · subst hid
          rw [hserved.pending_self] at hq
          split at hq
          · cases hq
          · cases hq
            exact hwritten s rfl (by rw [hphase]; rintro ⟨⟩)
        · rw [hserved.pending_of_ne hid] at hq
          exact ih e q hq
    | sealed _ _ _ hsealed =>
        rw [hsealed.pendingAnchors] at hq
        split at hq
        · exact ih e q hq
        · rename_i p hp
          obtain ⟨c, b, -, -, -, rfl⟩ := pendingFor_eq_some hp
          rw [getElem?_put] at hq
          split at hq
          · cases hq
            exact ⟨_, _, PendingEpoch.restore_new _ b c.methods⟩
          · exact ih e q hq

theorem anchorEntry_eq_none {q : PendingEpoch sdk} :
    q.anchorEntry m = none ↔ q.anchor m = none :=
  Option.map_eq_none_iff.symm

/-- The record in memory agrees with a stalled one. -/
theorem Drift.agrees_of_capped {log : List (Event sdk)} {ctx : WitnessContext}
    {now : Nat} {q p : PendingEpoch sdk} (h : Drift log ctx now q p m)
    (hlisted : m ∈ q.methods) (hcapped : Capped ctx.maxAnchorFaults q m) :
    Agrees q p m := by
  have hnone := anchorEntry_eq_none.mpr hcapped.1
  cases h with
  | agrees hagrees => exact hagrees
  | gained _ _ _ _ hfaults hbelow _ =>
      rw [← hfaults] at hbelow
      exact absurd hcapped.2 (UInt32.not_le.mpr hbelow)
  | touched _ hheld | dropped _ hheld =>
      rw [hnone] at hheld
      cases hheld
  | unsynced hgone => exact absurd hlisted hgone

/-- One event keeps a stalled (epoch, method) as it is. -/
theorem Reach.stalled_step (hst : st.Indexed) (hmethods : st.MethodsNodup)
    (h : Reach st w j) {ev : Event sdk} (hev : Emits w j ev) (he : e < u64Max)
    {max n : UInt32} (hcap : FixedCap max w.log) (hmax : max ≤ n)
    (hstalled : StalledAt w.store e m n) : StalledAt (w.emit ev).store e m n := by
  obtain ⟨q, hq, hlisted, hnone, hcount⟩ := hstalled
  have hagrees : ∀ s, j = .settling s → Tracks w.log s q → Agrees q s.record m := by
    rintro s rfl htracks
    obtain ⟨durationSecs, hin⟩ := tick_mem_of_currentTick (h.currentTick_eq _ rfl)
    refine (htracks.drift m).agrees_of_capped hlisted ⟨hnone, ?_⟩
    rw [hcap _ _ _ hin, hcount]
    exact hmax
  have hstep := h.record_step hst hmethods hev he hq
  generalize hafter : (w.emit ev).store.pendingAnchors[e]? = after at hstep
  cases hstep with
  | kept => exact ⟨q, hafter, hlisted, hnone, hcount⟩
  | @saved s o hjob _ _ _ htracks =>
      have hsame := hagrees s hjob htracks
      refine ⟨s.record, hafter, hsame.listed.mp hlisted, ?_, hsame.faults ▸ hcount⟩
      rw [← anchorEntry_eq_none, ← hsame.entry]
      exact anchorEntry_eq_none.mpr hnone
  | @served s done v minted o hjob hphase _ _ _ htracks =>
      have hsame := hagrees s hjob htracks
      have hfits := htracks.fits
      simp only [Settling.Fits, hphase] at hfits
      obtain ⟨-, -, -, a, ha, -⟩ := hfits
      -- The served method holds an anchor, so it is another one.
      have hne : done ≠ m := by
        rintro rfl
        rw [anchorEntry_eq_none.mpr hnone] at ha
        cases ha
      have hmem : m ∈ (s.record.without done).methods := by
        simp [PendingEpoch.without, hsame.listed.mp hlisted, hne.symm]
      rw [if_neg (List.ne_nil_of_mem hmem)] at hafter
      refine ⟨_, hafter, hmem, ?_, ?_⟩
      · rw [← anchorEntry_eq_none, PendingEpoch.anchorEntry_without, if_neg hne,
          ← hsame.entry]
        exact anchorEntry_eq_none.mpr hnone
      · rw [PendingEpoch.anchorFaultCount_without, ← hsame.faults]
        exact hcount

/-- A stalled (epoch, method) stays as it is, over every run. -/
theorem Reach.stalled_run (hst : st.Indexed) (hmethods : st.MethodsNodup)
    (h : Reach st w j) (he : e < u64Max) {max n : UInt32} (hmax : max ≤ n)
    {l : List (Event sdk)} (hstalled : StalledAt (storeOf st l) e m n) :
    FixedCap max w.log → l <:+ w.log → StalledAt w.store e m n := by
  refine h.induct (P := fun w => FixedCap max w.log → l <:+ w.log →
    StalledAt w.store e m n) ?_ ?_
  · intro now durationSecs _ hl
    rcases List.suffix_cons_iff.mp hl with rfl | hnil
    · exact hstalled
    · rw [List.suffix_nil.mp hnil] at hstalled
      exact hstalled
  · intro w j ev hw hev ih hcap hl
    rw [hev.log_eq] at hcap hl
    rcases List.suffix_cons_iff.mp hl with rfl | hold
    · rw [hev.store_eq, hw.store_eq, ← storeOf_cons]
      exact hstalled
    · exact hw.stalled_step hst hmethods hev he hcap.tail hmax (ih hcap.tail hold)

end Runs

/-! ## Stalled means stalled -/

/-- In every state of a run from an empty store and for every pending (epoch,
method) with the method enabled: the union route answers that the anchor is
stalled, instead of pending, exactly when the sealer leaves the stored record
alone, and so does the by-leaf route for the epoch it names.  With a fixed cap
and below `u64::MAX`, what is left alone at some moment holds no anchor and has
the same faults ever after, without a provider call and without a serve. -/
theorem stalled_means_stalled {w : World sdk} (hw : Visited Store.empty w)
    {ctx : WitnessContext} (hvalid : ctx.validate = .ok ()) {m : AnchorMethod}
    (hm : m ∈ ctx.methods) (hcap : FixedCap ctx.maxAnchorFaults w.log) :
    (∀ (e : Nat) q now, w.store.pendingAnchors[e]? = some q → m ∈ q.methods →
      (∀ did methodStr, AnchorMethod.parse methodStr = some m →
        ∃ r, listOrQueryTrees w.store ctx.maxAnchorFaults did (some e)
            (some methodStr) = .ok r ∧
          (r = anchorStalledResponse m e none ↔ LeftAlone ctx q m now) ∧
          (r.status = .accepted ↔ ¬ LeftAlone ctx q m now)) ∧
      ∀ did leafHex methodStr r body, AnchorMethod.parse methodStr = some m →
        getTreeByLeaf w.store ctx.maxAnchorFaults did leafHex (some methodStr) =
          .ok r →
        (r.status = .accepted ∨ r.status = .serviceUnavailable) →
        r.body = .status body → body.epoch = e →
          ((∃ leaf, r = anchorStalledResponse m e (some leaf)) ↔
              LeftAlone ctx q m now) ∧
            (r.status = .accepted ↔ ¬ LeftAlone ctx q m now)) ∧
    ∀ e < u64Max, ∀ l, l <:+ w.log → ∀ q now,
      (storeOf Store.empty l).pendingAnchors[e]? = some q → m ∈ q.methods →
      LeftAlone ctx q m now →
        StalledAt w.store e m (q.anchorFaultCount m) ∧
        (∀ root answer l', l <:+ l' →
          ¬ .call (.createTimestamp e m root) answer :: l' <:+ w.log) ∧
        ∀ l' minted, l <:+ l' → ¬ ServedBy w.log l' e m minted := by
  obtain ⟨j, hj⟩ := reach_of_visited hw
  have hst : (Store.empty : Store sdk).Indexed := indexed_empty
  have hmethods : (Store.empty : Store sdk).MethodsNodup := methodsNodup_empty
  have hwired := provider_of_validate hvalid hm
  constructor
  · intro e q now hq hlisted
    have hindexed := (hj.grounded hst).store
    obtain ⟨snapshot, batch, hrestore⟩ := hj.restorable e q hq
    rw [leftAlone_iff hm hwired hrestore]
    constructor
    · intro did methodStr hmethod
      refine ⟨_, union_of_pending hindexed hq hlisted hmethod did, ?_⟩
      exact pendingAnchorResponse_stalled hindexed hq _ m none
    · intro did leafHex methodStr r body hmethod hanswer hstatus hbody hepoch
      obtain ⟨e', leaf, rfl⟩ := by_leaf_of_pending hmethod hanswer hstatus
      obtain ⟨-, body', hbody', hid⟩ := pendingAnchorResponse_cases w.store
        ctx.maxAnchorFaults m e' (some leaf)
      rw [hbody] at hbody'
      cases hbody'
      obtain rfl : e' = e := hid.symm.trans hepoch
      obtain ⟨hstalled, haccepted⟩ := pendingAnchorResponse_stalled hindexed hq
        ctx.maxAnchorFaults m (some leaf)
      refine ⟨⟨?_, fun hcapped => ⟨leaf, hstalled.mpr hcapped⟩⟩, haccepted⟩
      rintro ⟨leaf', heq⟩
      by_contra hnot
      have hacc := haccepted.mpr hnot
      rw [heq] at hacc
      cases hacc
  · intro e he l hl q now hq hlisted halone
    -- The stalled record, at every later moment.
    have hlater : ∀ {w' : World sdk} {j' : Job sdk}, Reach Store.empty w' j' →
        w'.log <:+ w.log → l <:+ w'.log →
          StalledAt w'.store e m (q.anchorFaultCount m) ∧
            ctx.maxAnchorFaults ≤ q.anchorFaultCount m := by
      intro w' j' hw' hsub hl'
      have hrestores : ∃ snapshot batch, q.restore = .ok (snapshot, batch) := by
        rcases hj.earlier hl with rfl | ⟨w₀, j₀, hw₀, rfl⟩
        · simp [Store.empty] at hq
        · rw [← hw₀.store_eq] at hq
          exact hw₀.restorable e q hq
      obtain ⟨snapshot, batch, hrestore⟩ := hrestores
      obtain ⟨hnone, hmax⟩ := (leftAlone_iff hm hwired hrestore).mp halone
      have hcap' : FixedCap ctx.maxAnchorFaults w'.log :=
        fun c n d hin => hcap c n d (hsub.subset hin)
      exact ⟨hw'.stalled_run hst hmethods he hmax ⟨q, hq, hlisted, hnone, rfl⟩ hcap' hl',
        hmax⟩
    refine ⟨(hlater hj (List.suffix_refl _) hl).1, ?_, ?_⟩
    · intro root answer l' hl' hcall
      obtain ⟨w₀, j₀, hw₀, rfl, -, hev⟩ := hj.called hcall
      have hsub := (List.suffix_cons _ _).trans hcall
      obtain ⟨⟨q', hq', -, -, hcount⟩, hmax⟩ := hlater hw₀ hsub hl'
      obtain ⟨c, now', p, htick, hp, -, -, hlt⟩ := hw₀.provider_finds hst hmethods hev
      obtain ⟨durationSecs, hin⟩ := tick_mem_of_currentTick htick
      rw [hq'] at hp
      cases hp
      rw [hcap _ _ _ (hsub.subset hin), hcount] at hlt
      exact absurd hmax (UInt32.not_le.mpr hlt)
    · intro l' minted hl' hserved
      obtain ⟨w₀, s, v, hw₀, rfl, rfl, hphase, -⟩ := hj.servedBy hserved
      obtain ⟨⟨q', hq', -, hnone, -⟩, -⟩ := hlater hw₀ hserved.suffix hl'
      obtain ⟨p, hp, hfound⟩ := hw₀.serve_found hst hmethods hphase
      rw [hq'] at hp
      cases hp
      rw [hfound.anchor] at hnone
      cases hnone

/-! ## A stalled run, and the last id -/

/-- A cap of one fault. -/
def Sample.cappedCtx : WitnessContext :=
  { Sample.ctx [.evm] with maxAnchorFaults := 1 }

/-- Every anchor is found at fault. -/
def Sample.atFault : Surroundings Sample.sdk :=
  { Sample.honest "1" with
    check := fun _ _ _ => .ok (Sample.chainAnswers (.invalid .reverted "reverted")) }

/-- One anchor is found at fault. -/
def Sample.stalledMoves : List (Move Sample.sdk) :=
  [.append [Sample.leaf 1] "did:a", .cycle (some Sample.cappedCtx) 10 60 Sample.atFault]

/-- Another epoch is sealed and served. -/
def Sample.laterMoves : List (Move Sample.sdk) :=
  [.append [Sample.leaf 2] "did:a",
    .cycle (some Sample.cappedCtx) 20 60 (Sample.honest "2")]

def Sample.laterRun : World Sample.sdk :=
  .replay (Sample.stalledMoves ++ Sample.laterMoves)

/-- `StalledAt` is checked by evaluation. -/
instance decidableStalledAt (st : Store sdk) (e : Nat) (m : AnchorMethod)
    (n : UInt32) : Decidable (StalledAt st e m n) :=
  match hget : st.pendingAnchors[e]? with
  | none => isFalse fun ⟨_, hq, _⟩ => nomatch hget.symm.trans hq
  | some q =>
      decidable_of_iff (m ∈ q.methods ∧ q.anchor m = none ∧ q.anchorFaultCount m = n)
        ⟨fun h => ⟨q, hget, h⟩, fun ⟨_, hq, h⟩ =>
          Option.some.inj (hget.symm.trans hq) ▸ h⟩

theorem Sample.cappedCtx_valid : Sample.cappedCtx.validate = .ok () := by
  decide

theorem stalled_means_stalled_laterRun :
    listOrQueryTrees Sample.laterRun.store 1 "did:a" (some 1) (some "evm") =
        .ok (anchorStalledResponse .evm 1 none) ∧
      StalledAt Sample.laterRun.store 1 .evm 1 ∧
      ∀ l' minted, Sample.laterRun.log.drop 12 <:+ l' →
        ¬ ServedBy Sample.laterRun.log l' 1 .evm minted := by
  have hrun : StalledAt (storeOf Store.empty (Sample.laterRun.log.drop 12)) 1 .evm 1 ∧
      StalledAt Sample.laterRun.store 1 .evm 1 ∧
      ∀ ev ∈ Sample.laterRun.log, ev.runsWithCap 1 = true := by
    decide +kernel
  obtain ⟨⟨q, hq, hlisted, hnone, hcount⟩, ⟨q', hq', hlisted', hnone', hcount'⟩, hcap⟩ :=
    hrun
  obtain ⟨hroutes, hlater⟩ := stalled_means_stalled (.between (reachable_replay _))
    Sample.cappedCtx_valid (List.mem_singleton_self AnchorMethod.evm) (.of_events hcap)
  have halone : ∀ p : PendingEpoch Sample.sdk, p.anchor .evm = none →
      p.anchorFaultCount .evm = 1 → LeftAlone Sample.cappedCtx p .evm 30 :=
    fun p hnone hcount => Capped.leftAlone ⟨hnone, by rw [hcount]; decide⟩
  obtain ⟨r, hr, hstalled, -⟩ := (hroutes 1 q' 30 hq' hlisted').1 "did:a" "evm" (by decide)
  obtain ⟨hkept, -, hserved⟩ := hlater 1 (by decide) _ (List.drop_suffix 12 _) q 30 hq
    hlisted (halone q hnone hcount)
  rw [hcount] at hkept
  refine ⟨?_, hkept, hserved⟩
  rw [← hstalled.mpr (halone q' hnone' hcount')]
  exact hr

/-- The last id stalls; it is sealed again, anchored and served. -/
theorem exists_stalled_resealed :
    ∃ (w : World Sample.sdk) (l : List (Event Sample.sdk)) (q : PendingEpoch Sample.sdk),
      Visited Store.empty w ∧ Sample.cappedCtx.validate = .ok () ∧
      AnchorMethod.evm ∈ Sample.cappedCtx.methods ∧
      FixedCap Sample.cappedCtx.maxAnchorFaults w.log ∧
      l <:+ w.log ∧ (storeOf Store.empty l).pendingAnchors[u64Max]? = some q ∧
      AnchorMethod.evm ∈ q.methods ∧ LeftAlone Sample.cappedCtx q .evm 20 ∧
      ¬ StalledAt w.store u64Max .evm (q.anchorFaultCount .evm) := by
  let moves := Sample.stalledMoves ++ Sample.laterMoves
  obtain ⟨w, past, hreach, hidle, htwin⟩ := exists_lastEpoch Sample.sdk
  have hmoves : ∀ move ∈ moves, move.keepsProcess = true := by
    decide
  have hend := htwin.playAll hmoves
  have hrun : StalledAt (storeOf Store.empty (((lastEpoch Sample.sdk).playAll
        moves).log.drop 12)) u64Max .evm 1 ∧
      ((lastEpoch Sample.sdk).playAll moves).store.pendingAnchors[u64Max]?.isNone =
        true ∧
      ∀ ev ∈ ((lastEpoch Sample.sdk).playAll moves).log, ev.runsWithCap 1 = true := by
    decide +kernel
  obtain ⟨⟨q, hq, hlisted, hnone, hcount⟩, hgone, hcap⟩ := hrun
  obtain ⟨epochs, hpast⟩ := htwin.storeOf_past hreach
  refine ⟨w.playAll moves, ((lastEpoch Sample.sdk).playAll moves).log.drop 12 ++ past, q,
    .between (hreach.playAll _), Sample.cappedCtx_valid,
    List.mem_singleton_self AnchorMethod.evm, ?_, ?_, ?_, hlisted,
    Capped.leftAlone ⟨hnone, by rw [hcount]; decide⟩, ?_⟩
  · exact hend.log ▸ (FixedCap.of_events hcap).append_idle hidle
  · obtain ⟨before, hbefore⟩ := List.drop_suffix 12 ((lastEpoch Sample.sdk).playAll moves).log
    exact ⟨before, by rw [← List.append_assoc, hbefore, hend.log]⟩
  · rw [pendingAnchors_append_past hpast]
    exact hq
  · rintro ⟨q', hq', -⟩
    obtain ⟨epochs', hstore⟩ := hend.store
    rw [hstore] at hq'
    rw [Option.isNone_iff_eq_none.mp hgone] at hq'
    cases hq'

end AquaTimestamp
