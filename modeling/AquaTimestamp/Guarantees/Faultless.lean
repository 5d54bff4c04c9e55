import AquaTimestamp.Guarantees.Recency
import AquaTimestamp.Guarantees.Retention
import AquaTimestamp.Guarantees.Stalled
import AquaTimestamp.Support.Conditional

/-!
# A tick in which no call fails

The other modules say what the sealer never does, whatever is answered.  Here
is what it does when every call of a tick is answered well: each program of the
sealer is followed on the runs in which no call fails.  The open epoch may take
submissions meanwhile; the store changes by the sealer's own writes only.
-/

namespace AquaTimestamp

open Support Semantics

variable {sdk : Sdk} {α β : Type}

/-! ## Calls that are answered well -/

/-- The producer put one timestamp object on the target, and its link is a
digest. -/
def putsTimestamp (target : sdk.RevisionLink)
    (tree : List (sdk.RevisionLink × AnyRevision sdk)) : Bool :=
  match tree.filter fun x => x.1 ≠ target with
  | [(link, .typed object)] =>
      sdk.objectPrevious object = some target && (revisionLinkToHash link).isOk
  | _ => false

/-- The answer lets the sealer go on to serve what it works on. -/
def Call.succeeds : (c : Call sdk) → Answer c → Bool
  | .listPendingEpochs, answer => answer.isOk
  | .swapAndOpenNext .., _ => true
  | .prepareBatchTimestamp _, answer =>
      match answer with
      | .ok prepared => (sdk.parseBatchRoot (sdk.merkleRoot prepared)).isOk
      | .error _ => false
  | .createTimestamp .., answer => answer.isOk
  | .finishBatchTimestamp _ targets _, answer =>
      match answer with
      | .ok results =>
          results.length = targets.length &&
            (results.zip targets).all fun x => putsTimestamp x.2 x.1
      | .error _ => false
  | .signRevision _, answer =>
      match answer with
      | .ok sig =>
          match sdk.signatureCalculateLink sig with
          | .ok link => (revisionLinkToHash link).isOk
          | .error _ => false
      | .error _ => false
  | .selfCheck _ _ _ minted serviceDid wiring, answer =>
      (firstUnverified minted
        (selfCheckVerdicts wiring serviceDid minted answer)).isNone
  | .persistSealedEpoch .., outcome => outcome.isOk
  | .persistPendingMinted .., outcome => outcome.isOk
  | .savePending _, outcome => outcome.isOk
  | .panicked, _ => true

/-- Submissions and the start of the tick never fail. -/
def Event.succeeds : Event sdk → Bool
  | .call c answer => c.succeeds answer
  | _ => true

/-- No call of the tick in progress failed. -/
def Faultless (log : List (Event sdk)) : Prop :=
  ∀ ev ∈ thisCycle log, ev.succeeds = true

instance decidableFaultless (log : List (Event sdk)) : Decidable (Faultless log) :=
  List.decidableBAll _ _

/-- A write that succeeds takes effect. -/
theorem WriteOutcome.committed_of_isOk {o : WriteOutcome} (h : o.isOk = true) :
    o.committed = true := by
  cases o with
  | ok => rfl
  | failed e | unsynced e => cases h

theorem backward_faultless :
    (serverSemantics sdk).Backward fun w => Faultless w.log where
  step c r w w' hstep h := by
    obtain ⟨-, rfl⟩ := hstep
    exact fun ev hev => h ev (mem_thisCycle_cons rfl hev)
  interferes w w' hstep h := by
    obtain ⟨batch, did, rfl⟩ := hstep
    exact fun ev hev => h ev (mem_thisCycle_cons rfl hev)

/-- In the runs in which no call fails the program leads from `P` to `Q`. -/
abbrev Faultlessly (P : World sdk → Prop) (p : SealM sdk α)
    (Q : α → World sdk → Prop) : Prop :=
  (serverSemantics sdk).Ends (fun w => Faultless w.log) P p Q

/-! ## The world while the sealer works -/

/-- The store meets `S`, and the open epoch is that of `acc` with what was
submitted since. -/
structure During (acc : Accumulator) (S : Store sdk → Prop) (w : World sdk) :
    Prop where
  store : S w.store
  epochId : w.accumulator.epochId = acc.epochId
  leaves : acc.leaves <+: w.accumulator.leaves
  sound : w.accumulator.Sound

section Rules

variable {acc : Accumulator} {S S' : Store sdk → Prop}

theorem During.mono {w : World sdk} (h : During acc S w)
    (hS : S w.store → S' w.store) : During acc S' w :=
  ⟨hS h.store, h.epochId, h.leaves, h.sound⟩

theorem stable_during : (serverSemantics sdk).Stable (During acc S) := by
  rintro w _ h ⟨batch, did, rfl⟩
  have hframe := w.accumulator.appendBatch_frame batch did
  exact ⟨h.store, hframe.1.trans h.epochId, h.leaves.trans hframe.2,
    h.sound.appendBatch batch did⟩

theorem faultlessly_pure {a : α} {Q : α → World sdk → Prop}
    (hQ : ∀ w, During acc S w → Q a w) :
    Faultlessly (During acc S) (.pure a) Q :=
  ends_pure stable_during hQ

/-- A call other than the swap is answered well, and the store is what it makes
of it. -/
theorem faultlessly_call {c : Call sdk} {next : Answer c → SealM sdk α}
    {Q : α → World sdk → Prop} (R : Answer c → Store sdk → Prop)
    (hswap : ∀ a : Accumulator, a.after c = a)
    (hstep : ∀ r w, S w.store → Permitted w c r → c.succeeds r = true →
      R r (w.store.after c r))
    (hnext : ∀ r, c.succeeds r = true →
      Faultlessly (During acc (R r)) (next r) Q) :
    Faultlessly (During acc S) (.call c next) Q := by
  refine ends_call (fun r w => c.succeeds r = true ∧ During acc (R r) w)
    backward_faultless stable_during ?_ fun r => ends_of_pre (hnext r)
  rintro r w w' h ⟨hperm, rfl⟩ hfaultless
  have hok : c.succeeds r = true := hfaultless _ (mem_thisCycle_self rfl)
  have hacc : (w.after c r).accumulator = w.accumulator := hswap w.accumulator
  refine ⟨hok, hstep r w h.store hperm hok, ?_, ?_, ?_⟩
  · exact (congrArg Accumulator.epochId hacc).trans h.epochId
  · rw [hacc]
    exact h.leaves
  · rw [hacc]
    exact h.sound

/-- A call that does not write is answered well and leaves the store alone. -/
theorem faultlessly_ask {c : Call sdk} {next : Answer c → SealM sdk α}
    {Q : α → World sdk → Prop} (hread : c.isWrite = false)
    (hswap : ∀ a : Accumulator, a.after c = a)
    (hnext : ∀ r, c.succeeds r = true →
      Faultlessly (During acc S) (next r) Q) :
    Faultlessly (During acc S) (.call c next) Q := by
  refine faultlessly_call (fun _ => S) hswap ?_ hnext
  intro r w h _ _
  rw [after_of_not_write r hread]
  exact h

theorem faultlessly_bind {p : SealM sdk α} {f : α → SealM sdk β}
    {P : World sdk → Prop} {Q : β → World sdk → Prop}
    (R : α → World sdk → Prop) (hp : Faultlessly P p R)
    (hf : ∀ a, Faultlessly (R a) (f a) Q) : Faultlessly P (p >>= f) Q :=
  ends_bind R backward_faultless hp hf

end Rules

/-! ## Minting -/

section Minting

variable {acc : Accumulator} {S : Store sdk → Prop} {m : AnchorMethod}

theorem faultlessly_signWitness {entry : LeafEntry} {e : Nat}
    {link : sdk.RevisionLink} {revision : AnyRevision sdk}
    (hlink : (revisionLinkToHash link).isOk = true) :
    Faultlessly (During acc S) (signWitness entry e m link revision)
      (fun r w => (∃ wit, r = .ok wit) ∧ During acc S w) := by
  unfold signWitness
  split
  · rename_i herror
    rw [herror] at hlink
    cases hlink
  · refine faultlessly_ask rfl (fun _ => rfl) fun answer hok => ?_
    cases answer with
    | error e => cases hok
    | ok sig =>
        simp only [Call.succeeds] at hok
        simp only [Prog.bind]
        split
        · rename_i herror
          rw [herror] at hok
          cases hok
        · rename_i signatureLink hcalc
          simp only [hcalc] at hok
          split
          · rename_i herror
            rw [herror] at hok
            cases hok
          · exact faultlessly_pure fun w hw => ⟨⟨_, rfl⟩, hw⟩

/-- Every leaf finds its object, so every leaf is signed. -/
theorem faultlessly_signLeaves {e : Nat}
    {objects : List (sdk.RevisionLink × AnyRevision sdk)}
    (hobjects : ∀ x ∈ objects, (revisionLinkToHash x.1).isOk = true)
    (entries : List LeafEntry) {i : Nat} (hlength : i + entries.length ≤ objects.length) :
    Faultlessly (During acc S) (signLeaves e [(m, objects)] entries i)
      (fun r w => (∃ ws, r = .ok ws) ∧ During acc S w) := by
  induction entries generalizing i with
  | nil => exact faultlessly_pure fun w hw => ⟨⟨_, rfl⟩, hw⟩
  | cons entry entries ih =>
      rw [List.length_cons] at hlength
      have hobject : objects[i]? = some objects[i] := List.getElem?_eq_getElem (by omega)
      have hlink := hobjects objects[i] (List.getElem_mem _)
      have hleaf : Faultlessly (During acc S) (signLeaf e entry i [(m, objects)])
          (fun r w => (∃ ws, r = .ok ws) ∧ During acc S w) := by
        unfold signLeaf
        simp only [hobject]
        refine faultlessly_bind _ (faultlessly_signWitness hlink) fun r => ends_of_pre ?_
        rintro ⟨wit, rfl⟩
        exact faultlessly_pure fun w hw => ⟨⟨_, rfl⟩, hw⟩
      refine faultlessly_bind _ hleaf fun r => ends_of_pre ?_
      rintro ⟨ws, rfl⟩
      refine faultlessly_bind _ (ih (by omega)) fun r => ends_of_pre ?_
      rintro ⟨more, rfl⟩
      exact faultlessly_pure fun w hw => ⟨⟨_, rfl⟩, hw⟩

theorem addedTimestamp_of_puts {leaf : Hash32}
    {tree : List (sdk.RevisionLink × AnyRevision sdk)}
    (h : putsTimestamp (sdk.linkFromBytes leaf) tree = true) :
    ∃ x, addedTimestamp tree leaf = .ok x ∧ (revisionLinkToHash x.1).isOk = true := by
  unfold putsTimestamp at h
  split at h
  · rename_i link object htree
    obtain ⟨hprevious, hlink⟩ := Bool.and_eq_true_iff.mp h
    refine ⟨(link, .typed object), ?_, hlink⟩
    rw [addedTimestamp, htree]
    exact if_pos (of_decide_eq_true hprevious)
  · cases h

/-- The producer's results give one object for each leaf. -/
theorem exists_perLeaf {leaves : List Hash32}
    {results : List (List (sdk.RevisionLink × AnyRevision sdk))}
    (hlength : results.length = leaves.length)
    (hputs : ∀ x ∈ results.zip (leaves.map sdk.linkFromBytes),
      putsTimestamp x.2 x.1 = true) :
    ∃ perLeaf, (results.zip leaves).mapM (fun x => addedTimestamp x.1 x.2) =
        .ok perLeaf ∧
      perLeaf.length = leaves.length ∧
      ∀ x ∈ perLeaf, (revisionLinkToHash x.1).isOk = true := by
  have hadded : ∀ x ∈ results.zip leaves, ∃ y, addedTimestamp x.1 x.2 = .ok y ∧
      (revisionLinkToHash y.1).isOk = true := by
    intro x hx
    refine addedTimestamp_of_puts (hputs (x.1, sdk.linkFromBytes x.2) ?_)
    rw [List.zip_map_right]
    exact List.mem_map_of_mem hx
  obtain ⟨perLeaf, hperLeaf⟩ := exists_mapM_eq_ok fun x hx =>
    (hadded x hx).imp fun _ h => h.1
  refine ⟨perLeaf, hperLeaf, ?_, fun y hy => ?_⟩
  · have hsame := (mapM_eq_ok_iff.mp hperLeaf).length_eq
    rw [List.length_zip, hlength, Nat.min_self] at hsame
    exact hsame.symm
  · obtain ⟨x, hx, hy⟩ := exists_of_mem_mapM hperLeaf hy
    obtain ⟨y', hy', hlink⟩ := hadded x hx
    rw [hy] at hy'
    cases hy'
    exact hlink

theorem faultlessly_finishMethods (batch : EpochBatch sdk)
    (outcome : MethodAnchorOutcome) :
    Faultlessly (During acc S) (finishMethods batch [(m, outcome)])
      (fun r w => (∃ perLeaf, r = .ok [(m, perLeaf)] ∧
        perLeaf.length = batch.leaves.length ∧
        ∀ x ∈ perLeaf, (revisionLinkToHash x.1).isOk = true) ∧ During acc S w) := by
  refine faultlessly_ask rfl (fun _ => rfl) fun answer hok => ?_
  cases answer with
  | error e => cases hok
  | ok results =>
      simp only [Call.succeeds, Bool.and_eq_true, decide_eq_true_eq,
        List.all_eq_true, EpochBatch.targets, List.length_map] at hok
      obtain ⟨perLeaf, hperLeaf, hlength, hlinks⟩ := exists_perLeaf hok.1 hok.2
      simp only [Prog.bind, hperLeaf]
      exact faultlessly_pure fun w hw => ⟨⟨perLeaf, rfl, hlength, hlinks⟩, hw⟩

/-- Minting from a record that restores gives one witness for each leaf. -/
theorem faultlessly_mintFrom {p : PendingEpoch sdk} {v : TimestampValue}
    {snapshot : SealedSnapshot} {batch : EpochBatch sdk}
    (hrestore : p.restore = .ok (snapshot, batch)) :
    Faultlessly (During acc S) (mintFrom p m v)
      (fun r w => (∃ minted, r = .ok minted ∧ MintedFor snapshot m minted) ∧
        During acc S w) := by
  have hleaves : batch.leaves = snapshot.leaves.map LeafEntry.leaf :=
    congrArg EpochBatch.leaves (PendingEpoch.restore_leaves hrestore).2
  unfold mintFrom mintWitnessesForEpoch
  simp only [hrestore, hleaves, ne_eq, not_true_eq_false, if_false]
  refine faultlessly_bind _ (faultlessly_finishMethods batch _) fun r => ends_of_pre ?_
  rintro ⟨perLeaf, rfl, hlength, hlinks⟩
  rw [hleaves, List.length_map] at hlength
  -- That the witnesses are those of the leaves holds in every run.
  have hstable : (serverSemantics sdk).Stable (During acc S) := stable_during
  have hsigned := (triple_within (I := fun _ => True) hstable (fun _ _ => trivial) ?_
    (within_signLeaves snapshot.epochId m perLeaf snapshot.leaves 0)).ends
      (C := fun w => Faultless w.log)
  · refine ends_weaken (ends_and hsigned (faultlessly_signLeaves hlinks snapshot.leaves
      (by rw [Nat.zero_add, hlength]))) (fun _ hw => hw) ?_
    rintro r w ⟨⟨hentries, -⟩, ⟨minted, rfl⟩, hw⟩
    exact ⟨⟨minted, rfl, (hentries minted rfl).entries⟩, hw⟩
  · rintro c answer w w' hminting hw ⟨-, rfl⟩
    have hread : c.isWrite = false := by
      cases c <;> first | rfl | cases hminting
    have hswap : (w.after c answer).accumulator = w.accumulator := by
      cases c <;> first | rfl | cases hminting
    have hstore : (w.after c answer).store = w.store := after_of_not_write answer hread
    exact ⟨hstore ▸ hw.store, hswap ▸ hw.epochId, hswap ▸ hw.leaves, hswap ▸ hw.sound⟩

end Minting

/-! ## Settling a record -/

/-- The tick has nothing to do for the method: it is disabled, or capped. -/
def LeftOver (ctx : WitnessContext) (p : PendingEpoch sdk) (m : AnchorMethod) :
    Prop :=
  m ∉ ctx.methods ∨ Capped ctx.maxAnchorFaults p m

/-- How far the settlement of the record `p₀` is.  It began on the store `st`;
`p` is the record in memory and `todo` what it has not come to. -/
structure Handled (ctx : WitnessContext) (st : Store sdk) (p₀ p : PendingEpoch sdk)
    (todo : List AnchorMethod) (st' : Store sdk) : Prop where
  same : PendingEpoch.SameEpoch p p₀
  todoNodup : todo.Nodup
  ahead : ∀ m ∈ todo, m ∈ p.methods
  behind : ∀ m ∈ p.methods, m ∉ todo → LeftOver ctx p m
  stored : ∀ q, st'.pendingAnchors[p₀.epochId]? = some q → q = p
  others : ∀ e ≠ p₀.epochId, st'.pendingAnchors[e]? = st.pendingAnchors[e]?
  epochs : st'.epochs = st.epochs
  owner : st'.leafOwner = st.leafOwner
  faults : ∀ m, p.anchorFaultCount m = p₀.anchorFaultCount m
  answers : ∀ m ∈ p₀.methods, m ∉ p.methods → ∀ leaf, p₀.HasLeaf leaf →
    answerEpoch st' leaf m = some p₀.epochId

section Record

variable {ctx : WitnessContext} {st st' : Store sdk} {p₀ p : PendingEpoch sdk}
variable {m : AnchorMethod} {todo : List AnchorMethod}

/-- Nothing has happened yet. -/
theorem handled_start (hnodup : p.methods.Nodup)
    (hstored : ∀ q, st.pendingAnchors[p.epochId]? = some q → q = p) :
    Handled ctx st p p p.methods st where
  same := ⟨rfl, rfl, rfl, rfl, rfl⟩
  todoNodup := hnodup
  ahead _ hm := hm
  behind _ hm hnot := absurd hm hnot
  stored := hstored
  others _ _ := rfl
  epochs := rfl
  owner := rfl
  faults _ := rfl
  answers _ hm hnot := absurd hm hnot

theorem Handled.skip (h : Handled ctx st p₀ p (m :: todo) st')
    (hleft : LeftOver ctx p m) : Handled ctx st p₀ p todo st' where
  same := h.same
  todoNodup := (List.nodup_cons.mp h.todoNodup).2
  ahead m' hm' := h.ahead m' (List.mem_cons_of_mem _ hm')
  behind m' hm' hnot := by
    by_cases hsame : m' = m
    · exact hsame ▸ hleft
    · refine h.behind m' hm' fun hin => ?_
      rcases List.mem_cons.mp hin with heq | htail
      · exact hsame heq
      · exact hnot htail
  stored := h.stored
  others := h.others
  epochs := h.epochs
  owner := h.owner
  faults := h.faults
  answers := h.answers

/-- What the record says of another method decides whether that is left over. -/
theorem LeftOver.congr {q : PendingEpoch sdk} (h : LeftOver ctx p m)
    (hagrees : Agrees p q m) : LeftOver ctx q m := by
  refine h.imp id fun hcapped => ?_
  unfold Capped PendingEpoch.anchor at hcapped ⊢
  rw [← hagrees.entry, ← hagrees.faults]
  exact hcapped

/-- A fresh anchor is saved with the record. -/
theorem Handled.anchor (h : Handled ctx st p₀ p (m :: todo) st') (v : TimestampValue)
    (now : Nat) :
    Handled ctx st p₀ (p.setAnchor m v now) (m :: todo)
      (st'.savePending (p.setAnchor m v now)) where
  same := (p.sameEpoch_setAnchor m v now).trans h.same
  todoNodup := h.todoNodup
  ahead := h.ahead
  behind m' hm' hnot := by
    have hne : m ≠ m' := fun heq => hnot (heq ▸ List.mem_cons_self ..)
    exact (h.behind m' hm' hnot).congr (agrees_setAnchor hne)
  stored q hq := by
    have hself := savePending_self st' (p.setAnchor m v now)
    rw [show (p.setAnchor m v now).epochId = p₀.epochId from h.same.1] at hself
    exact Option.some.inj (hq.symm.trans hself)
  others e he := by
    rw [savePending_of_ne, h.others e he]
    exact fun heq => he (heq.symm.trans h.same.1)
  epochs := h.epochs
  owner := h.owner
  faults m' := h.faults m'
  answers := h.answers

/-- Every leaf of the epoch has its witness among those minted for it. -/
theorem MintedFor.exists_witness {snapshot : SealedSnapshot}
    {minted : List (MintedWitness sdk)} (h : MintedFor snapshot m minted)
    {leaf : Hash32} (hleaf : leaf ∈ snapshot.leaves.map LeafEntry.leaf) :
    ∃ wit ∈ minted, wit.leaf = leaf ∧ wit.method = m := by
  obtain ⟨entry, hentry, rfl⟩ := List.mem_map.mp hleaf
  have hin := List.mem_map_of_mem (f := fun e : LeafEntry => (snapshot.epochId, m, e)) hentry
  rw [← h] at hin
  obtain ⟨wit, hwit, heq⟩ := List.mem_map.mp hin
  simp only [Prod.mk.injEq] at heq
  exact ⟨wit, hwit, congrArg LeafEntry.leaf heq.2.2, heq.2.1⟩

/-- After a serve its leaves answer with the served epoch. -/
theorem Served.answers {snapshot : SealedSnapshot} {remaining : PendingEpoch sdk}
    {minted : List (MintedWitness sdk)} (h : Served st remaining minted st')
    (hfor : MintedFor snapshot m minted) {leaf : Hash32}
    (hleaf : leaf ∈ snapshot.leaves.map LeafEntry.leaf) :
    answerEpoch st' leaf m = some snapshot.epochId := by
  obtain ⟨wit, hwit, rfl, rfl⟩ := hfor.exists_witness hleaf
  obtain ⟨tip, htip, hmem⟩ := Partition.putAll_of_mem st.leafToTips
    (List.mem_map_of_mem (f := fun w : MintedWitness sdk =>
      ((w.leaf, w.method.methodByte), w.signatureHash)) hwit)
  obtain ⟨wit', hwit', heq⟩ := List.mem_map.mp hmem
  obtain ⟨-, rfl⟩ := Prod.mk.inj heq
  have htip' : st'.getTipForLeaf wit.leaf wit.method = some wit'.signatureHash := by
    rw [Store.getTipForLeaf, h.leafToTips]
    exact htip
  obtain ⟨idx, hidx, hmem'⟩ := Partition.putAll_of_mem st.tipToPair
    (List.mem_map_of_mem (f := fun w : MintedWitness sdk =>
      (w.signatureHash, Store.pairIndex w)) hwit')
  obtain ⟨wit'', hwit'', heq'⟩ := List.mem_map.mp hmem'
  obtain ⟨-, rfl⟩ := Prod.mk.inj heq'
  simp only [answerEpoch, htip', Option.bind_some, Store.getTipPair, h.tipToPair, hidx,
    Option.map_some]
  exact congrArg some (hfor.of_mem hwit'').1

/-- Serving another method of the same epoch keeps what a leaf answers with. -/
theorem Served.answers_kept {snapshot : SealedSnapshot} {remaining : PendingEpoch sdk}
    {minted : List (MintedWitness sdk)} (h : Served st remaining minted st')
    (hfor : MintedFor snapshot m minted) {m' : AnchorMethod} (hne : m ≠ m')
    {leaf : Hash32} (hanswer : answerEpoch st leaf m' = some snapshot.epochId) :
    answerEpoch st' leaf m' = some snapshot.epochId := by
  have htip : st'.getTipForLeaf leaf m' = st.getTipForLeaf leaf m' := by
    rw [Store.getTipForLeaf, h.leafToTips]
    refine Partition.putAll_of_not_mem fun tip hmem => hne ?_
    obtain ⟨wit, hwit, heq⟩ := List.mem_map.mp hmem
    have hbyte := (Prod.mk.inj (Prod.mk.inj heq).1).2
    exact (hfor.of_mem hwit).2.1.symm.trans (AnchorMethod.methodByte_injective hbyte)
  unfold answerEpoch at hanswer ⊢
  rw [htip]
  cases hold : st.getTipForLeaf leaf m' with
  | none =>
      rw [hold] at hanswer
      cases hanswer
  | some tip =>
      rw [hold] at hanswer
      simp only [Option.bind_some, Store.getTipPair] at hanswer ⊢
      rcases h.tip_cases tip with ⟨wit, hwit, -, hidx⟩ | hkept
      · rw [hidx]
        exact congrArg some (hfor.of_mem hwit).1
      · rw [hkept]
        exact hanswer

/-- The method is served: its witnesses are written and it leaves the record. -/
theorem Handled.serve (h : Handled ctx st p₀ p (m :: todo) st')
    {st'' : Store sdk} {snapshot : SealedSnapshot} {batch : EpochBatch sdk}
    {minted : List (MintedWitness sdk)}
    (hrestore : p₀.restore = .ok (snapshot, batch)) (hfor : MintedFor snapshot m minted)
    (hserved : Served st' (p.without m) minted st'') :
    Handled ctx st p₀ (p.without m) todo st'' where
  same := (p.sameEpoch_without m).trans h.same
  todoNodup := (List.nodup_cons.mp h.todoNodup).2
  ahead m' hm' := by
    refine (PendingEpoch.mem_methods_without ..).mpr
      ⟨h.ahead m' (List.mem_cons_of_mem _ hm'), ?_⟩
    rintro rfl
    exact (List.nodup_cons.mp h.todoNodup).1 hm'
  behind m' hm' hnot := by
    obtain ⟨hin, hne⟩ := (PendingEpoch.mem_methods_without ..).mp hm'
    refine (h.behind m' hin fun hmem => ?_).congr (agrees_without (Ne.symm hne))
    rcases List.mem_cons.mp hmem with heq | htail
    · exact hne heq
    · exact hnot htail
  stored q hq := by
    have hself := hserved.pending_self
    rw [show (p.without m).epochId = p₀.epochId from h.same.1] at hself
    rw [hself] at hq
    split at hq
    · cases hq
    · exact (Option.some.inj hq).symm
  others e he := by
    rw [hserved.pending_of_ne fun heq => he (heq.symm.trans h.same.1), h.others e he]
  epochs := hserved.epochs.trans h.epochs
  owner := hserved.leafOwner.trans h.owner
  faults m' := (PendingEpoch.anchorFaultCount_without ..).trans (h.faults m')
  answers m' hm' hnot leaf hleaf := by
    have hid : snapshot.epochId = p₀.epochId := PendingEpoch.restore_epochId hrestore
    by_cases hsame : m = m'
    · subst hsame
      obtain ⟨hashes, hhashes, hin⟩ := hleaf
      rw [(PendingEpoch.restore_leaves hrestore).1] at hhashes
      cases hhashes
      exact hid ▸ hserved.answers hfor hin
    · have hgone : m' ∉ p.methods := fun hin =>
        hnot ((PendingEpoch.mem_methods_without ..).mpr ⟨hin, Ne.symm hsame⟩)
      exact hid ▸ hserved.answers_kept hfor hsame (hid ▸ h.answers m' hm' hgone leaf hleaf)

/-! ## The programs that settle -/

variable {acc : Accumulator} {now : Nat}

/-- The record's anchor is at hand, or the method is capped. -/
theorem faultlessly_obtainAnchor (hm : ctx.provider m = true) :
    Faultlessly (During acc (Handled ctx st p₀ p (m :: todo)))
      (obtainAnchor ctx p m [] now)
      (fun r w => (r.2.1 = [] ∧ (r.2.2 = none → LeftOver ctx r.1 m)) ∧
        During acc (Handled ctx st p₀ r.1 (m :: todo)) w) := by
  unfold obtainAnchor
  split
  · exact faultlessly_pure fun w hw => ⟨⟨rfl, nofun⟩, hw⟩
  · rename_i hnone
    split
    · rename_i hdown
      cases hdown
    · split
      · rename_i hcap
        exact faultlessly_pure fun w hw => ⟨⟨rfl, fun _ => Or.inr ⟨hnone, hcap⟩⟩, hw⟩
      · unfold anchorRoot
        rw [if_pos hm]
        refine faultlessly_ask rfl (fun _ => rfl) fun answer hok => ?_
        cases answer with
        | error e => cases hok
        | ok v =>
            -- The first save succeeds.
            refine faultlessly_call
              (fun _ => Handled ctx st p₀ (p.setAnchor m v now) (m :: todo))
              (fun _ => rfl) ?_ ?_
            · rintro (_ | e | e) w hw - hsaved
              · exact hw.anchor v now
              · cases hsaved
              · cases hsaved
            · rintro (_ | e | e) hsaved
              · exact faultlessly_pure fun w hw => ⟨⟨rfl, nofun⟩, hw⟩
              · cases hsaved
              · cases hsaved

theorem faultlessly_settleMethod {snapshot : SealedSnapshot} {batch : EpochBatch sdk}
    (hvalid : ctx.validate = .ok ()) (hrestore : p₀.restore = .ok (snapshot, batch)) :
    Faultlessly (During acc (Handled ctx st p₀ p (m :: todo)))
      (settleMethod ctx p m [] now)
      (fun r w => r.2.1 = [] ∧ During acc (Handled ctx st p₀ r.1 todo) w) := by
  unfold settleMethod
  split
  · rename_i hdisabled
    exact faultlessly_pure fun w hw =>
      ⟨rfl, hw.mono fun h => h.skip (Or.inl hdisabled)⟩
  · rename_i henabled
    have hwired := provider_of_validate hvalid (not_not.mp henabled)
    refine faultlessly_bind _ (faultlessly_obtainAnchor hwired) ?_
    rintro ⟨p', down, value⟩
    apply ends_of_pre
    rintro ⟨hdown, hleft⟩
    obtain rfl : down = [] := hdown
    cases value with
    | none =>
        exact faultlessly_pure fun w hw => ⟨rfl, hw.mono fun h => h.skip (hleft rfl)⟩
    | some v =>
        -- What is in memory restores to what the stored record did.
        have hsame : Faultlessly (During acc (Handled ctx st p₀ p' (m :: todo)))
            (mintFrom p' m v) (fun r w =>
              (∃ minted, r = .ok minted ∧ MintedFor snapshot m minted) ∧
                During acc (Handled ctx st p₀ p' (m :: todo)) w) := by
          intro w w' r hw hrun hfaultless
          have hrestore' : p'.restore = .ok (snapshot, batch) :=
            hw.store.same.restore_eq.trans hrestore
          exact faultlessly_mintFrom hrestore' w w' r hw hrun hfaultless
        refine faultlessly_bind _ hsame fun r => ends_of_pre ?_
        rintro ⟨minted, rfl, hfor⟩
        refine faultlessly_ask rfl (fun _ => rfl) fun answer hok => ?_
        have hverified : firstUnverified minted (selfCheckVerdicts ctx.selfCheck
          ctx.serviceDid minted answer) = none := Option.isNone_iff_eq_none.mp hok
        simp only [Prog.bind, hverified]
        refine faultlessly_call (fun _ => Handled ctx st p₀ (p'.without m) todo)
          (fun _ => rfl) ?_ ?_
        · rintro o w hw hperm hok
          rcases after_serve hperm with ⟨hno, -⟩ | ⟨-, hserved⟩
          · cases hno.symm.trans (WriteOutcome.committed_of_isOk hok)
          · exact hw.serve hrestore hfor hserved
        · rintro (_ | e | e) hserved
          · exact faultlessly_pure fun w hw => ⟨rfl, hw⟩
          · cases hserved
          · cases hserved

theorem faultlessly_settleMethods {snapshot : SealedSnapshot} {batch : EpochBatch sdk}
    (hvalid : ctx.validate = .ok ()) (hrestore : p₀.restore = .ok (snapshot, batch)) :
    Faultlessly (During acc (Handled ctx st p₀ p todo)) (settleMethods ctx now todo p [])
      (fun r w => r.2.1 = [] ∧ During acc (Handled ctx st p₀ r.1 []) w) := by
  induction todo generalizing p with
  | nil => exact faultlessly_pure fun w hw => ⟨rfl, hw⟩
  | cons m todo ih =>
      refine faultlessly_bind _ (faultlessly_settleMethod hvalid hrestore) ?_
      rintro ⟨p', down, served⟩
      apply ends_of_pre
      intro hdown
      obtain rfl : down = [] := hdown
      refine faultlessly_bind _ ih ?_
      rintro ⟨p'', down, more⟩
      apply ends_of_pre
      intro hdown
      obtain rfl : down = [] := hdown
      exact faultlessly_pure fun w hw => ⟨rfl, hw⟩

end Record

/-! ## The records of earlier epochs -/

/-- The listed records `queue` are still to come, and what else is pending is
left over. -/
structure ToRetry (ctx : WitnessContext) (queue : List (PendingEpoch sdk))
    (st : Store sdk) : Prop where
  distinct : (queue.map PendingEpoch.epochId).Nodup
  methods : ∀ p ∈ queue, p.methods.Nodup
  restores : ∀ p ∈ queue, ∃ snapshot batch, p.restore = .ok (snapshot, batch)
  listed : ∀ p ∈ queue, ∀ q, st.pendingAnchors[p.epochId]? = some q → q = p
  others : ∀ (e : Nat) q, st.pendingAnchors[e]? = some q →
    e ∉ queue.map PendingEpoch.epochId → ∀ m ∈ q.methods, LeftOver ctx q m

section Cycle

variable {ctx : WitnessContext} {st st' : Store sdk} {acc : Accumulator} {now : Nat}

/-- The record that was settled is left over, the ones behind it are as
listed. -/
theorem ToRetry.settled {p p' : PendingEpoch sdk} {queue : List (PendingEpoch sdk)}
    (h : ToRetry ctx (p :: queue) st) (hhandled : Handled ctx st p p' [] st') :
    ToRetry ctx queue st' where
  distinct := (List.nodup_cons.mp h.distinct).2
  methods q hq := h.methods q (List.mem_cons_of_mem _ hq)
  restores q hq := h.restores q (List.mem_cons_of_mem _ hq)
  listed q hq r hr := by
    have hne : q.epochId ≠ p.epochId := fun heq =>
      (List.nodup_cons.mp h.distinct).1 (heq ▸ List.mem_map_of_mem hq)
    rw [hhandled.others _ hne] at hr
    exact h.listed q (List.mem_cons_of_mem _ hq) r hr
  others e q hq hnot m hm := by
    by_cases he : e = p.epochId
    · subst he
      obtain rfl := hhandled.stored q hq
      exact hhandled.behind m hm List.not_mem_nil
    · rw [hhandled.others e he] at hq
      refine h.others e q hq (fun hin => ?_) m hm
      rcases List.mem_cons.mp hin with heq | htail
      · exact he heq
      · exact hnot htail

/-- What is listed when the tick begins. -/
theorem toRetry_list (hst : st.Indexed) (hmethods : st.MethodsNodup)
    (hrestores : ∀ (e : Nat) q, st.pendingAnchors[e]? = some q →
      ∃ snapshot batch, q.restore = .ok (snapshot, batch)) :
    ToRetry ctx st.listPendingEpochs st where
  distinct := nodup_listPendingEpochs fun e p hp => (hst.pending e p hp).2
  methods p hp := by
    obtain ⟨e, he⟩ := Partition.mem_inOrder.mp hp
    exact hmethods e p he
  restores p hp := by
    obtain ⟨e, he⟩ := Partition.mem_inOrder.mp hp
    exact hrestores e p he
  listed p hp q hq := by
    obtain ⟨e, he⟩ := Partition.mem_inOrder.mp hp
    rw [(hst.pending e p he).2, he] at hq
    exact (Option.some.inj hq).symm
  others e q hq hnot := by
    refine absurd (List.mem_map.mpr ⟨q, Partition.mem_inOrder.mpr ⟨e, hq⟩, ?_⟩) hnot
    exact (hst.pending e q hq).2

theorem faultlessly_retryEach (hvalid : ctx.validate = .ok ())
    (queue : List (PendingEpoch sdk)) :
    Faultlessly (During acc (ToRetry ctx queue)) (retryEach ctx now queue [])
      (fun r w => r.2 = [] ∧ During acc (ToRetry ctx []) w) := by
  induction queue with
  | nil => exact faultlessly_pure fun w hw => ⟨rfl, hw⟩
  | cons p queue ih =>
      -- The settlement of the record, from the store it finds.
      have hsettle : Faultlessly (During acc (ToRetry ctx (p :: queue)))
          (settleMethods ctx now p.methods p [])
          (fun r w => r.2.1 = [] ∧ During acc (ToRetry ctx queue) w) := by
        intro w w' r hw hrun hfaultless
        have hp : p ∈ p :: queue := List.mem_cons_self ..
        obtain ⟨snapshot, batch, hrestore⟩ := hw.store.restores p hp
        have hstart : Handled ctx w.store p p p.methods w.store :=
          handled_start (hw.store.methods p hp) (hw.store.listed p hp)
        obtain ⟨hdown, hdone⟩ := faultlessly_settleMethods hvalid hrestore w w' r
          (hw.mono fun _ => hstart) hrun hfaultless
        exact ⟨hdown, hdone.mono fun h => hw.store.settled h⟩
      refine faultlessly_bind _ hsettle ?_
      rintro ⟨p', down, out⟩
      apply ends_of_pre
      intro hdown
      obtain rfl : down = [] := hdown
      refine faultlessly_bind _ ih ?_
      rintro ⟨more, down⟩
      apply ends_of_pre
      intro hdown
      obtain rfl : down = [] := hdown
      exact faultlessly_pure fun w hw => ⟨rfl, hw⟩

theorem faultlessly_retryPending (hvalid : ctx.validate = .ok ())
    (hstart : ToRetry ctx st.listPendingEpochs st) :
    Faultlessly (During acc (· = st)) (retryPending ctx now)
      (fun r w => r.2 = [] ∧ During acc (ToRetry ctx []) w) := by
  refine faultlessly_call
    (fun answer st' => answer = .ok st.listPendingEpochs ∧ st' = st) (fun _ => rfl) ?_ ?_
  · rintro (e | queue) w hw hperm hok
    · cases hok
    · subst hw
      exact ⟨congrArg Except.ok (hperm queue rfl), rfl⟩
  · rintro (e | queue) hok
    · cases hok
    · have hqueue : Faultlessly
          (fun w => queue = st.listPendingEpochs ∧
            During acc (ToRetry ctx st.listPendingEpochs) w)
          (retryEach ctx now queue [])
          (fun r w => r.2 = [] ∧ During acc (ToRetry ctx []) w) := by
        apply ends_of_pre
        rintro rfl
        exact faultlessly_retryEach hvalid _
      refine ends_weaken hqueue ?_ fun _ _ h => h
      intro w hw
      exact ⟨Except.ok.inj hw.store.1, hw.mono fun h => h.2 ▸ hstart⟩

/-! ## The closed epoch -/

/-- The closed epoch is stored with its record `pending`, and what else is
pending is left over. -/
structure Closed (ctx : WitnessContext) (snapshot : SealedSnapshot)
    (pending : Option (PendingEpoch sdk)) (st : Store sdk) : Prop where
  owner : ∀ entry ∈ snapshot.leaves, st.leafOwner[entry.leaf]? = some entry.submitterDid
  own : ∀ p ∈ pending, st.pendingAnchors[p.epochId]? = some p
  others : ∀ (e : Nat) q, st.pendingAnchors[e]? = some q →
    (∀ p ∈ pending, e ≠ p.epochId) → ∀ m ∈ q.methods, LeftOver ctx q m

/-- Nothing is pending that the tick could have settled, and every leaf of the
closed epoch is owned by its submitter and answers with that epoch. -/
structure CaughtUp (ctx : WitnessContext) (snapshot : SealedSnapshot)
    (st : Store sdk) : Prop where
  pending : ∀ (e : Nat) q, st.pendingAnchors[e]? = some q → ∀ m ∈ q.methods,
    LeftOver ctx q m
  owner : ∀ entry ∈ snapshot.leaves, st.leafOwner[entry.leaf]? = some entry.submitterDid
  answers : 0 < ctx.maxAnchorFaults → ∀ entry ∈ snapshot.leaves, ∀ m ∈ ctx.methods,
    answerEpoch st entry.leaf m = some snapshot.epochId

theorem Sealed.closed {snapshot : SealedSnapshot} {record : EpochRecord}
    {pending : Option (PendingEpoch sdk)}
    (h : Sealed st record snapshot.leaves pending st') (hretried : ToRetry ctx [] st)
    (hnodup : (snapshot.leaves.map LeafEntry.leaf).Nodup) :
    Closed ctx snapshot pending st' where
  owner entry hentry := by
    rw [h.leafOwner]
    refine Partition.putAll_of_mem_unique ?_ ?_
    · exact List.mem_map_of_mem hentry
    · intro did hmem
      obtain ⟨other, hother, heq⟩ := List.mem_map.mp hmem
      obtain ⟨hleaf, rfl⟩ := Prod.mk.inj heq
      rw [List.inj_on_of_nodup_map hnodup hother hentry hleaf]
  own p hp := by
    obtain rfl : pending = some p := hp
    rw [h.pendingAnchors]
    simp
  others e q hq hne := by
    have hold : st.pendingAnchors[e]? = some q := by
      rw [h.pendingAnchors] at hq
      cases pending with
      | none => exact hq
      | some p =>
          rw [← hq]
          simp only [Partition.getElem?_put, if_neg (Ne.symm (hne p rfl))]
    exact hretried.others e q hold List.not_mem_nil

/-- Without a record there was nothing to settle. -/
theorem Closed.caughtUp {snapshot : SealedSnapshot}
    (h : Closed ctx snapshot none st)
    (hnone : ∀ entry ∈ snapshot.leaves, ctx.methods = []) :
    CaughtUp ctx snapshot st where
  pending e q hq := h.others e q hq fun p hp => nomatch hp
  owner := h.owner
  answers _ entry hentry m hm := by
    rw [hnone entry hentry] at hm
    cases hm

/-- The settlement of the epoch's own record. -/
theorem Closed.settled {snapshot : SealedSnapshot} {batch : EpochBatch sdk}
    {p' : PendingEpoch sdk}
    (h : Closed ctx snapshot (some (PendingEpoch.new snapshot batch ctx.methods)) st)
    (hhandled : Handled ctx st (PendingEpoch.new snapshot batch ctx.methods) p' [] st') :
    CaughtUp ctx snapshot st' where
  pending e q hq := by
    by_cases he : e = snapshot.epochId
    · subst he
      obtain rfl := hhandled.stored q hq
      exact fun m hm => hhandled.behind m hm List.not_mem_nil
    · rw [hhandled.others e he] at hq
      apply h.others e q hq
      rintro p ⟨⟩
      exact he
  owner entry hentry := by
    rw [hhandled.owner]
    exact h.owner entry hentry
  answers hpositive entry hentry m hm := by
    refine hhandled.answers m hm (fun hin => ?_) entry.leaf
      (PendingEpoch.hasLeaf_new.mpr (List.mem_map_of_mem hentry))
    rcases hhandled.behind m hin List.not_mem_nil with hdisabled | ⟨-, hcap⟩
    · exact hdisabled hm
    · rw [hhandled.faults m] at hcap
      exact absurd hcap (UInt32.not_le.mpr hpositive)

/-- The cycle ends without an error, and the tick has caught up. -/
def CatchesUp (ctx : WitnessContext) (snapshot : SealedSnapshot)
    (r : Except SealError (EpochRecord × List (MintedWitness sdk)))
    (w : World sdk) : Prop :=
  (∃ sealed, r = .ok sealed) ∧ CaughtUp ctx snapshot w.store

/-- Without a record of its own an epoch has no leaves, or no method is enabled. -/
theorem methods_eq_nil_of_pendingFor {snapshot : SealedSnapshot}
    {batch : Option (EpochBatch sdk)} (hempty : batch = none → snapshot.leaves = [])
    (h : pendingFor (some ctx) snapshot batch = none) :
    ∀ entry ∈ snapshot.leaves, ctx.methods = [] := by
  intro entry hentry
  cases batch with
  | none =>
      rw [hempty rfl] at hentry
      cases hentry
  | some batch =>
      by_contra hne
      rw [pendingFor, if_neg (by simpa using hne)] at h
      cases h

/-- The methods of the epoch's own record are settled. -/
theorem faultlessly_settleOwn {snapshot : SealedSnapshot} {batch : EpochBatch sdk}
    (hvalid : ctx.validate = .ok ()) (hmethods : ctx.methods.Nodup) :
    Faultlessly
      (During acc (Closed ctx snapshot (some (PendingEpoch.new snapshot batch ctx.methods))))
      (settleMethods ctx now ctx.methods (PendingEpoch.new snapshot batch ctx.methods) [])
      (fun _ w => CaughtUp ctx snapshot w.store) := by
  intro w w' r hw hrun hfaultless
  have hstart : Handled ctx w.store (PendingEpoch.new snapshot batch ctx.methods)
      (PendingEpoch.new snapshot batch ctx.methods) ctx.methods w.store :=
    handled_start hmethods fun q hq =>
      Option.some.inj (hq.symm.trans (hw.store.own _ rfl))
  obtain ⟨-, hdone⟩ := faultlessly_settleMethods hvalid
    (PendingEpoch.restore_new snapshot batch ctx.methods) w w' r
    (hw.mono fun _ => hstart) hrun hfaultless
  exact hw.store.settled hdone.store

theorem faultlessly_sealBatch {snapshot : SealedSnapshot}
    {batch : Option (EpochBatch sdk)} {witnesses : List (MintedWitness sdk)}
    (hvalid : ctx.validate = .ok ()) (hmethods : ctx.methods.Nodup)
    (hnodup : (snapshot.leaves.map LeafEntry.leaf).Nodup)
    (hrecord : ∃ record, buildRecord snapshot batch = .ok record)
    (hempty : batch = none → snapshot.leaves = []) :
    Faultlessly (During acc (ToRetry ctx []))
      (sealBatch (some ctx) now witnesses [] snapshot batch)
      (CatchesUp ctx snapshot) := by
  obtain ⟨record, hrecord⟩ := hrecord
  unfold sealBatch
  simp only [hrecord]
  refine faultlessly_call
    (fun _ => Closed ctx snapshot (pendingFor (some ctx) snapshot batch))
    (fun _ => rfl) ?_ ?_
  · intro o w hw hperm hok
    rcases after_seal hperm with ⟨hno, -⟩ | ⟨-, hsealed⟩
    · cases hno.symm.trans (WriteOutcome.committed_of_isOk hok)
    · exact hsealed.closed hw hnodup
  · rintro (_ | e | e) hok
    · simp only [WriteOutcome.result, Prog.bind]
      cases hpending : pendingFor (some ctx) snapshot batch with
      | none =>
          exact faultlessly_pure fun w hw =>
            ⟨⟨_, rfl⟩, hw.store.caughtUp (methods_eq_nil_of_pendingFor hempty hpending)⟩
      | some p =>
          obtain ⟨_, b, ⟨⟩, rfl, -, rfl⟩ := pendingFor_eq_some hpending
          refine faultlessly_bind _ (faultlessly_settleOwn hvalid hmethods) ?_
          rintro ⟨p', down, minted⟩
          refine ends_pure ?_ fun w hw => ⟨⟨_, rfl⟩, hw⟩
          rintro w _ hw ⟨batch, did, rfl⟩
          exact hw
    · cases hok
    · cases hok

theorem faultlessly_sealSnapshot {snapshot : SealedSnapshot}
    {witnesses : List (MintedWitness sdk)}
    (hvalid : ctx.validate = .ok ()) (hmethods : ctx.methods.Nodup)
    (hnodup : (snapshot.leaves.map LeafEntry.leaf).Nodup) :
    Faultlessly (During acc (ToRetry ctx []))
      (sealSnapshot (some ctx) now witnesses [] snapshot) (CatchesUp ctx snapshot) := by
  rw [sealSnapshot_eq]
  unfold prepare
  by_cases hempty : snapshot.leaves = []
  · rw [if_pos (by simp [hempty])]
    change Faultlessly _ (sealBatch (some ctx) now witnesses [] snapshot none) _
    exact faultlessly_sealBatch hvalid hmethods hnodup ⟨_, rfl⟩ fun _ => hempty
  · rw [if_neg (by simp [hempty])]
    refine faultlessly_ask rfl (fun _ => rfl) fun answer hok => ?_
    cases answer with
    | error e => cases hok
    | ok p =>
        have hkept : (Event.call (.prepareBatchTimestamp []) (.ok p) :
            Event sdk).keepsClosed = true := hok
        exact faultlessly_sealBatch hvalid hmethods hnodup
          (buildRecord_of_keepsClosed hkept) fun hnone => by cases hnone

/-- A tick in which no call fails settles what was pending, closes the open
epoch and settles that. -/
theorem faultlessly_sealOnce {durationSecs : Nat} (hvalid : ctx.validate = .ok ())
    (hmethods : ctx.methods.Nodup) (hstart : ToRetry ctx st.listPendingEpochs st) :
    Faultlessly (During acc (· = st)) (sealOnce now durationSecs (some ctx))
      (fun r w => ∃ snapshot : SealedSnapshot, snapshot.epochId = acc.epochId ∧
        acc.leaves <+: snapshot.leaves ∧ CatchesUp ctx snapshot r w) := by
  unfold sealOnce
  simp only [hvalid]
  refine faultlessly_bind _ (faultlessly_retryPending hvalid hstart) ?_
  rintro ⟨witnesses, down⟩
  apply ends_of_pre
  intro hdown
  obtain rfl : down = [] := hdown
  refine ends_call (fun snapshot w =>
      ((snapshot.epochId = acc.epochId ∧ acc.leaves <+: snapshot.leaves) ∧
        (snapshot.leaves.map LeafEntry.leaf).Nodup) ∧
      ∃ acc', During acc' (ToRetry ctx []) w)
    backward_faultless stable_during ?_ ?_
  · rintro snapshot w w' hw ⟨rfl, rfl⟩ -
    have hsound : (w.accumulator.swapAndOpenNext now now durationSecs).2.Sound :=
      hw.sound.swapAndOpenNext now now durationSecs
    exact ⟨⟨⟨hw.epochId, hw.leaves⟩, hw.sound.seen.nodup⟩, _, hw.store, rfl,
      List.prefix_refl _, hsound⟩
  · intro snapshot
    apply ends_of_pre
    rintro ⟨hopen, hnodup⟩
    apply ends_exists
    intro acc'
    refine ends_weaken (faultlessly_sealSnapshot hvalid hmethods hnodup)
      (fun _ hw => hw) fun r w hw => ?_
    exact ⟨snapshot, hopen.1, hopen.2, hw⟩

end Cycle

end AquaTimestamp
