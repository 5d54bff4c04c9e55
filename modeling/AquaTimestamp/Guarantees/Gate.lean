import AquaTimestamp.Model.Routes
import AquaTimestamp.Model.Sample
import AquaTimestamp.Settlement.Serving

/-!
# The self-check gate

A witness is written for serving only after a check of the whole list it was
minted with, in the same tick, answered one verdict for each witness and every
one of them was verified.  Since the serve writes one witness for each leaf of
the epoch in one batch, an (epoch, method) is served as a whole or not at all.
-/

namespace AquaTimestamp

open Support Partition

variable {sdk : Sdk}

/-! ## Verdicts -/

/-- The check answered one verdict for each witness, all of them verified. -/
def AllVerified (ctx : WitnessContext) (minted : List (MintedWitness sdk))
    (answer : Except String (HostAnswers sdk)) : Prop :=
  (selfCheckVerdicts ctx.selfCheck ctx.serviceDid minted answer).length =
      minted.length ∧
    ∀ verdict ∈ selfCheckVerdicts ctx.selfCheck ctx.serviceDid minted answer,
      verdict = .verified

theorem length_selfCheckVerdicts (wiring : HostWiring) (serviceDid : String)
    (minted : List (MintedWitness sdk))
    (answer : Except String (HostAnswers sdk)) :
    (selfCheckVerdicts wiring serviceDid minted answer).length =
      minted.length := by
  cases answer with
  | ok answers => exact SelfCheck.length_verifyMintedBatch _ _ _
  | error e => exact List.length_replicate

/-- The loop over witnesses and verdicts passes when the lists have the same
length and no verdict is other than verified. -/
theorem firstUnverified_eq_none {minted : List (MintedWitness sdk)}
    {verdicts : List SelfCheckVerdict}
    (hlength : verdicts.length = minted.length) :
    firstUnverified minted verdicts = none ↔
      ∀ verdict ∈ verdicts, verdict = .verified := by
  have hsnd : (minted.zip verdicts).map Prod.snd = verdicts :=
    List.map_snd_zip (le_of_eq hlength)
  simp only [firstUnverified, Option.map_eq_none_iff, List.find?_eq_none,
    ne_eq, decide_not, Bool.not_eq_eq_eq_not, Bool.not_true,
    decide_eq_false_iff_not, not_not]
  constructor
  · intro h verdict hverdict
    rw [← hsnd] at hverdict
    obtain ⟨x, hx, rfl⟩ := List.mem_map.mp hverdict
    exact h x hx
  · intro h x hx
    refine h x.2 ?_
    rw [← hsnd]
    exact List.mem_map_of_mem hx

/-! ## Gated serves -/

/-- The serve of `minted` for (`e`, `m`) after the history `l` came after a
check of `minted`, in the same tick, that verified all of them against the
context's service DID. -/
structure Gated (l : List (Event sdk)) (e : Nat) (m : AnchorMethod)
    (minted : List (MintedWitness sdk)) : Prop where
  key : ∀ wit ∈ minted, wit.epochId = e ∧ wit.method = m
  checked : ∃ ctx now v answer, currentTick l = some (some ctx, now) ∧
    .call (.selfCheck e m v minted ctx.serviceDid ctx.selfCheck) answer ∈
      thisCycle l ∧
    AllVerified ctx minted answer

/-- The index entry `idx` under `tip` was written by a gated serve of its own
epoch and method. -/
def Vetted (log : List (Event sdk)) (tip : Hash32) (idx : TipPairIndex) :
    Prop :=
  ∃ l e m minted wit, Origin log tip idx l e m minted wit ∧
    idx.epochId = e ∧ idx.methodByte = m.methodByte ∧ Gated l e m minted

theorem Reach.gated {st : Store sdk} {w : World sdk} {j : Job sdk}
    (h : Reach st w j) {l : List (Event sdk)} {e : Nat} {m : AnchorMethod}
    {minted : List (MintedWitness sdk)}
    (hserved : ServedBy w.log l e m minted) : Gated l e m minted := by
  obtain ⟨w₀, s, v, hw₀, rfl, rfl, -, hjudged⟩ := h.servedBy hserved
  refine ⟨fun wit hwit => hjudged.of_mem hwit, ?_⟩
  obtain ⟨answer, hcheck, hverdict⟩ := hjudged.just.inTick
  have hlength := length_selfCheckVerdicts s.ctx.selfCheck s.ctx.serviceDid
    minted answer
  exact ⟨s.ctx, s.now, v, answer, hw₀.currentTick_eq _ rfl, hcheck, hlength,
    (firstUnverified_eq_none hlength).mp hverdict.symm⟩

theorem Reach.vetted {w : World sdk} {j : Job sdk}
    (h : Reach Store.empty w j) {tip : Hash32} {idx : TipPairIndex}
    (hidx : w.store.tipToPair[tip]? = some idx) : Vetted w.log tip idx := by
  obtain ⟨l, e, m, minted, wit, horigin⟩ := h.origin tip idx hidx
  obtain ⟨hid, hmethod, -⟩ := h.origin_key horigin
  exact ⟨l, e, m, minted, wit, horigin, hid, hmethod, h.gated horigin.served⟩

/-! ## A check that does not pass -/

/-- A check of (`e`, `m`) that answers something other than verified for some
witness, or whose task panicked. -/
def Event.failsCheck (e : Nat) (m : AnchorMethod) : Event sdk → Bool
  | .call (.selfCheck e' m' _ minted did wiring) answer =>
      decide (e' = e ∧ m' = m) &&
        (!answer.isOk || (selfCheckVerdicts wiring did minted answer).any
          fun verdict => verdict ≠ .verified)
  | _ => false

/-- A committed serve that writes a witness of (`e`, `m`). -/
def Event.writesWitness (e : Nat) (m : AnchorMethod) : Event sdk → Bool
  | .call (.persistPendingMinted _ _ minted) o =>
      o.committed && minted.any fun wit => wit.epochId = e ∧ wit.method = m
  | _ => false

/-- In the tick of `l`, a check of (`e`, `m`) did not pass. -/
def CheckFailed (l : List (Event sdk)) (e : Nat) (m : AnchorMethod) : Prop :=
  ∃ ev ∈ thisCycle l, ev.failsCheck e m = true

/-- In the tick of `l`, a witness of (`e`, `m`) was written. -/
def WritesWitness (l : List (Event sdk)) (e : Nat) (m : AnchorMethod) : Prop :=
  ∃ ev ∈ thisCycle l, ev.writesWitness e m = true

instance decidableCheckFailed (l : List (Event sdk)) (e : Nat)
    (m : AnchorMethod) : Decidable (CheckFailed l e m) :=
  inferInstanceAs (Decidable (∃ ev ∈ thisCycle l, ev.failsCheck e m = true))

instance decidableWritesWitness (l : List (Event sdk)) (e : Nat)
    (m : AnchorMethod) : Decidable (WritesWitness l e m) :=
  inferInstanceAs (Decidable (∃ ev ∈ thisCycle l, ev.writesWitness e m = true))

theorem failsCheck_eq_true {ev : Event sdk} {e : Nat} {m : AnchorMethod}
    (h : ev.failsCheck e m = true) :
    ∃ v minted did wiring answer,
      ev = .call (.selfCheck e m v minted did wiring) answer ∧
        ((∃ verdict ∈ selfCheckVerdicts wiring did minted answer,
            verdict ≠ .verified) ∨
          ∃ err, answer = .error err) := by
  unfold Event.failsCheck at h
  split at h
  · rename_i e' m' v minted did wiring answer
    simp only [Bool.and_eq_true, decide_eq_true_eq, Bool.or_eq_true,
      List.any_eq_true] at h
    obtain ⟨⟨rfl, rfl⟩, hbad⟩ := h
    refine ⟨v, minted, did, wiring, answer, rfl, ?_⟩
    rcases hbad with herror | hverdict
    · cases answer with
      | error err => exact Or.inr ⟨err, rfl⟩
      | ok answers => cases herror
    · exact Or.inl hverdict
  · cases h

theorem writesWitness_eq_true {ev : Event sdk} {e : Nat} {m : AnchorMethod}
    (h : ev.writesWitness e m = true) :
    ∃ remaining done minted o,
      ev = .call (.persistPendingMinted remaining done minted) o ∧
        o.committed = true ∧ ∃ wit ∈ minted, wit.epochId = e ∧ wit.method = m := by
  unfold Event.writesWitness at h
  split at h
  · simp only [Bool.and_eq_true, List.any_eq_true, decide_eq_true_eq] at h
    exact ⟨_, _, _, _, rfl, h⟩
  · cases h

/-- Of two events of a tick one comes first. -/
theorem mem_thisCycle_ordered {l : List (Event sdk)} {a b : Event sdk}
    (ha : a ∈ thisCycle l) (hb : b ∈ thisCycle l) (hne : a ≠ b) :
    (∃ l', a :: l' <:+ l ∧ b ∈ thisCycle l') ∨
      ∃ l', b :: l' <:+ l ∧ a ∈ thisCycle l' := by
  induction l with
  | nil => cases ha
  | cons ev l ih =>
      cases hboundary : ev.isBoundary with
      | true => simp [thisCycle, hboundary] at ha
      | false =>
          rw [mem_thisCycle_cons_iff hboundary] at ha hb
          rcases ha with rfl | ha
          · rcases hb with rfl | hb
            · exact absurd rfl hne
            · exact Or.inl ⟨l, List.suffix_refl _, hb⟩
          · rcases hb with rfl | hb
            · exact Or.inr ⟨l, List.suffix_refl _, ha⟩
            · have hgrow := List.suffix_cons ev l
              rcases ih ha hb with ⟨l', hl', hmem⟩ | ⟨l', hl', hmem⟩
              · exact Or.inl ⟨l', hl'.trans hgrow, hmem⟩
              · exact Or.inr ⟨l', hl'.trans hgrow, hmem⟩

section Run

variable {st : Store sdk} {w : World sdk} {j : Job sdk}

/-- Before a serve of an id below `u64::MAX` its (epoch, method) was checked in
the tick only as the serve's own list, and passed. -/
theorem Reach.check_before_serve (hst : st.Indexed)
    (hmethods : st.MethodsNodup) (h : Reach st w j) {e : Nat}
    {m : AnchorMethod} (he : e < u64Max) {remaining : PendingEpoch sdk}
    {done : AnchorMethod} {minted : List (MintedWitness sdk)}
    {o : WriteOutcome} {l : List (Event sdk)}
    (hl : .call (.persistPendingMinted remaining done minted) o :: l <:+ w.log)
    (hkey : ∃ wit ∈ minted, wit.epochId = e ∧ wit.method = m)
    {v : TimestampValue} {checked : List (MintedWitness sdk)} {did : String}
    {wiring : HostWiring} {answer : Except String (HostAnswers sdk)}
    (hcheck : .call (.selfCheck e m v checked did wiring) answer ∈
      thisCycle l) :
    checked = minted ∧
      firstUnverified checked (selfCheckVerdicts wiring did checked answer) =
        none := by
  obtain ⟨w₀, j₀, hw₀, rfl, -, hev⟩ := h.called hl
  cases hev with
  | mint _ hminting => cases hminting
  | @serve s _ v' _ _ hphase _ =>
      have hjudged := hw₀.judged _ _ _ _ _ rfl hphase
      obtain ⟨wit, hwit, hwe, hwm⟩ := hkey
      obtain ⟨hid, hmethod⟩ := hjudged.of_mem hwit
      obtain rfl : e = s.record.epochId := hwe.symm.trans hid
      obtain rfl : m = done := hwm.symm.trans hmethod
      have hprogress := (hw₀.ordered hst hmethods).progress s rfl he
      simp only [Settling.Progress, hphase] at hprogress
      rcases hprogress _ hcheck rfl with hprovider | ⟨answer', heq, hverdict⟩
      · cases hprovider
      · cases heq
        exact ⟨rfl, hverdict.symm⟩

/-- Before a check of an id below `u64::MAX` nothing of its (epoch, method)
was written in the tick. -/
theorem Reach.no_serve_before_check (hst : st.Indexed)
    (hmethods : st.MethodsNodup) (h : Reach st w j) {e : Nat}
    {m : AnchorMethod} (he : e < u64Max) {v : TimestampValue}
    {checked : List (MintedWitness sdk)} {did : String} {wiring : HostWiring}
    {answer : Except String (HostAnswers sdk)} {l : List (Event sdk)}
    (hl : .call (.selfCheck e m v checked did wiring) answer :: l <:+ w.log)
    {remaining : PendingEpoch sdk} {minted : List (MintedWitness sdk)}
    {o : WriteOutcome} (hid : remaining.epochId = e) :
    .call (.persistPendingMinted remaining m minted) o ∉ thisCycle l := by
  intro hserve
  obtain ⟨w₀, j₀, hw₀, rfl, -, hev⟩ := h.called hl
  cases hev with
  | mint _ hminting => cases hminting
  | @judge s _ _ _ _ _ _ hphase _ _ =>
      have hprogress := (hw₀.ordered hst hmethods).progress s rfl he
      simp only [Settling.Progress, hphase] at hprogress
      have habout : Event.about
          (.call (.persistPendingMinted remaining m minted) o) =
            some (s.record.epochId, m) := by rw [← hid]; rfl
      cases hprogress _ hserve habout

/-- A check that does not pass means that nothing of its (epoch, method) is
written in the tick, for an id below `u64::MAX`. -/
theorem Reach.no_write_when_check_failed (hst : st.Indexed)
    (hmethods : st.MethodsNodup) (h : Reach st w j) {e : Nat}
    {m : AnchorMethod} (he : e < u64Max) {l : List (Event sdk)}
    (hl : l <:+ w.log) (hfailed : CheckFailed l e m) :
    ¬ WritesWitness l e m := by
  rintro ⟨serve, hserve, hwrites⟩
  obtain ⟨check, hcheck, hfails⟩ := hfailed
  obtain ⟨remaining, done, minted, o, rfl, ho, hkey⟩ :=
    writesWitness_eq_true hwrites
  obtain ⟨v, checked, did, wiring, answer, rfl, hbad⟩ :=
    failsCheck_eq_true hfails
  have hlength := length_selfCheckVerdicts wiring did checked answer
  rcases mem_thisCycle_ordered hserve hcheck (by rintro ⟨⟩) with
    ⟨l', hl', hmem⟩ | ⟨l', hl', hmem⟩
  · obtain ⟨rfl, hnone⟩ :=
      h.check_before_serve hst hmethods he (hl'.trans hl) hkey hmem
    have hall := (firstUnverified_eq_none hlength).mp hnone
    rcases hbad with ⟨verdict, hverdict, hne⟩ | ⟨err, rfl⟩
    · exact hne (hall verdict hverdict)
    · -- A panicked check answers one failure for each witness.
      obtain ⟨wit, hwit, -⟩ := hkey
      have hlen : checked.length ≠ 0 :=
        List.length_pos_of_mem hwit |>.ne'
      cases hall (.failed ("self-check task: " ++ err) false)
        (List.mem_replicate.mpr ⟨hlen, rfl⟩)
  · -- The serve came before the check, which a tick never does.
    have hlog := (List.takeWhile_prefix _).subset hmem
    obtain ⟨w₀, j₀, hw₀, rfl, -, hev⟩ := h.called (hl'.trans hl)
    obtain ⟨l'', hl''⟩ : ∃ l'', Event.call
        (.persistPendingMinted remaining done minted) o :: l'' <:+ w₀.log := by
      obtain ⟨pre, l'', heq⟩ := List.append_of_mem hlog
      exact ⟨l'', heq ▸ List.suffix_append _ _⟩
    have hgated := hw₀.gated ⟨remaining, o, rfl, ho, hl''⟩
    obtain ⟨wit, hwit, rfl, rfl⟩ := hkey
    obtain ⟨hid, rfl⟩ := hgated.key wit hwit
    exact h.no_serve_before_check hst hmethods he (hl'.trans hl) hid.symm hmem

end Run

/-! ## The gate -/

/-- What the gate promises of a world and its history. -/
structure SelfCheckGate (w : World sdk) : Prop where
  /-- Every write of witnesses was gated. -/
  written : ∀ l e m minted, ServedBy w.log l e m minted → Gated l e m minted
  /-- Every index entry and every marker is of a gated write. -/
  stored : ∀ tip, tip ∈ w.store.tipToPair ∨ tip ∈ w.store.selfCheckedTips →
    ∃ idx, w.store.tipToPair[tip]? = some idx ∧ Vetted w.log tip idx
  /-- So is every pair a route serves. -/
  byTip : ∀ did tipHex r, getTreeByTip w.store did tipHex = .ok r →
    r.status = .ok →
      ∃ tip idx, Vetted w.log tip idx ∧ pairResponse w.store idx = .ok r
  byLeaf : ∀ max did leafHex method r,
    getTreeByLeaf w.store max did leafHex method = .ok r → r.status = .ok →
      ∃ tip idx, Vetted w.log tip idx ∧ pairResponse w.store idx = .ok r
  union : ∀ max did e m r, unionForEpoch w.store max did e m = .ok r →
    r.status = .ok → ∃ entries revisions fileIndex,
      (∀ idx ∈ entries, ∃ tip, Vetted w.log tip idx) ∧
      loadPairs w.store entries ∅ ∅ = .ok (revisions, fileIndex) ∧
      r.body = .tree revisions fileIndex
  /-- After a check that does not pass, or before it in the same tick, nothing
  of its (epoch, method) is written. -/
  closed : ∀ e < u64Max, ∀ m l, l <:+ w.log → CheckFailed l e m →
    ¬ WritesWitness l e m
  /-- What is written covers the leaves of the epoch. -/
  whole : ∀ e < u64Max, ∀ l m minted, ServedBy w.log l e m minted →
    Covers w.store e (minted.map MintedWitness.entry)

/-- The gate holds at every moment of every run from an empty store. -/
theorem served_only_when_all_verified {w : World sdk}
    (hw : Visited Store.empty w) : SelfCheckGate w := by
  obtain ⟨j, hj⟩ := reach_of_visited hw
  have hlinked := hj.linked
  constructor
  case written => exact fun l e m minted hserved => hj.gated hserved
  case stored =>
    intro tip htip
    have hmem : tip ∈ w.store.tipToPair :=
      htip.elim id (hlinked.checked tip).mpr
    obtain ⟨idx, hidx⟩ := Option.isSome_iff_exists.mp
      (Std.ExtTreeMap.mem_iff_isSome_getElem?.mp hmem)
    exact ⟨idx, hidx, hj.vetted hidx⟩
  case byTip =>
    intro did tipHex r hroute hr
    obtain ⟨tip, idx, -, hidx, -, -, hpair⟩ := getTreeByTip_served hroute hr
    exact ⟨tip, idx, hj.vetted hidx, hpair⟩
  case byLeaf =>
    intro max did leafHex method r hroute hr
    obtain ⟨-, -, -, tip, idx, -, -, -, -, -, hidx, -, hpair⟩ :=
      getTreeByLeaf_served hroute hr
    exact ⟨tip, idx, hj.vetted hidx, hpair⟩
  case union =>
    intro max did e m r hroute hr
    obtain ⟨-, revisions, fileIndex, hload, hbody⟩ :=
      unionForEpoch_served hroute hr
    refine ⟨_, revisions, fileIndex, fun idx hidx => ?_, hload, hbody⟩
    obtain ⟨⟨tip, htip⟩, -⟩ := mem_listWitnessesForDidInEpoch.mp hidx
    exact ⟨tip, hj.vetted htip⟩
  case closed =>
    intro e he m l hl hfailed
    exact hj.no_write_when_check_failed indexed_empty methodsNodup_empty he hl
      hfailed
  case whole => exact fun e he l m minted hserved => hj.serve_covers he hserved

/-- A run that serves both methods of an epoch. -/
def Sample.servedRun : World Sample.sdk :=
  .replay [.append [Sample.leaf 1, Sample.leaf 2] "did:a",
    Sample.cycle [.evm, .qtsa] 10 (Sample.honest "1")]

theorem served_only_when_all_verified_servedRun :
    Sample.servedRun.store.tipToPair.size = 4 ∧
      SelfCheckGate Sample.servedRun :=
  ⟨by decide +kernel,
    served_only_when_all_verified (.between (reachable_replay _))⟩

/-- The last epoch id is sealed again while it is pending: the check of its
first batch does not pass, and its second batch is served in the same tick. -/
def Sample.resealedRun : List (Move Sample.sdk) :=
  [.append [Sample.leaf 1] "did:a",
    Sample.cycle [.evm] 10
      { Sample.honest "1" with check := fun _ _ _ => .ok Sample.notFinal },
    .append [Sample.leaf 2] "did:a",
    Sample.cycle [.evm] 20
      { Sample.honest "2" with
        check := fun _ _ v =>
          if v.transactionHash = "evm1" then .ok Sample.notFinal
          else .ok Sample.verifying }]

theorem exists_check_failed_and_written :
    ∃ w : World Sample.sdk, Visited Store.empty w ∧
      CheckFailed w.log u64Max .evm ∧ WritesWitness w.log u64Max .evm := by
  have hmoves : ∀ move ∈ Sample.resealedRun, move.keepsProcess = true := by
    decide
  obtain ⟨w, past, hw, -, hend⟩ := exists_twin_playAll hmoves
  have hlog := hend.log
  have hboth : CheckFailed
        ((lastEpoch Sample.sdk).playAll Sample.resealedRun).log u64Max .evm ∧
      WritesWitness
        ((lastEpoch Sample.sdk).playAll Sample.resealedRun).log u64Max .evm := by
    decide +kernel
  obtain ⟨⟨check, hcheckMem, hfails⟩, serve, hserveMem, hwrites⟩ := hboth
  refine ⟨w, hw, ?_, ?_⟩
  · exact ⟨check, hlog ▸ mem_thisCycle_append hcheckMem, hfails⟩
  · exact ⟨serve, hlog ▸ mem_thisCycle_append hserveMem, hwrites⟩

end AquaTimestamp
