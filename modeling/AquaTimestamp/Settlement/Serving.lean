import AquaTimestamp.Settlement.Order

/-!
# The serving partitions

Witnesses reach the store by one write only, the serve of an (epoch, method).
This module says where every index entry comes from, how the serving
partitions hang together, and that the pending record of an epoch keeps the
leaves the epoch was sealed with, so that a serve covers all of them.
-/

namespace AquaTimestamp

open Support Partition

variable {sdk : Sdk}

/-! ## Serves of a history -/

/-- After the history `l`, the witnesses `minted` of (`e`, `m`) were written by
a committed serve. -/
def ServedBy (log l : List (Event sdk)) (e : Nat) (m : AnchorMethod)
    (minted : List (MintedWitness sdk)) : Prop :=
  ∃ (remaining : PendingEpoch sdk) (o : WriteOutcome),
    remaining.epochId = e ∧ o.committed = true ∧
      .call (.persistPendingMinted remaining m minted) o :: l <:+ log

theorem ServedBy.mono {log log' l : List (Event sdk)} {e : Nat}
    {m : AnchorMethod} {minted : List (MintedWitness sdk)}
    (h : ServedBy log l e m minted) (hlog : log <:+ log') :
    ServedBy log' l e m minted := by
  obtain ⟨remaining, o, hid, ho, hl⟩ := h
  exact ⟨remaining, o, hid, ho, hl.trans hlog⟩

/-- The settlement behind a serve: the witnesses were just checked. -/
theorem Reach.servedBy {st : Store sdk} {w : World sdk} {j : Job sdk}
    (h : Reach st w j) {l : List (Event sdk)} {e : Nat} {m : AnchorMethod}
    {minted : List (MintedWitness sdk)} (hserved : ServedBy w.log l e m minted) :
    ∃ (w₀ : World sdk) (s : Settling sdk) (v : TimestampValue),
      Reach st w₀ (.settling s) ∧ w₀.log = l ∧ s.record.epochId = e ∧
        s.phase = .judged m v minted none ∧ s.Judged l m v minted none := by
  obtain ⟨remaining, o, rfl, -, hl⟩ := hserved
  obtain ⟨w₀, j₀, hw₀, rfl, -, hev⟩ := h.called hl
  cases hev with
  | mint _ hminting => cases hminting
  | serve hphase _ =>
      exact ⟨w₀, _, _, hw₀, rfl, rfl, hphase, hw₀.judged _ _ _ _ _ rfl hphase⟩

/-- The record a serve finds in the store: it lists the method and holds the
anchor the witnesses were minted from. -/
structure FoundBy (q : PendingEpoch sdk) (s : Settling sdk) (m : AnchorMethod)
    (v : TimestampValue) : Prop where
  same : PendingEpoch.SameEpoch q s.record
  listed : m ∈ q.methods
  anchor : q.anchor m = some v

theorem Reach.serve_found {st : Store sdk} (hst : st.Indexed)
    (hmethods : st.MethodsNodup) {w : World sdk} {s : Settling sdk}
    (h : Reach st w (.settling s)) {m : AnchorMethod} {v : TimestampValue}
    {minted : List (MintedWitness sdk)} {verdict : Option SelfCheckVerdict}
    (hphase : s.phase = .judged m v minted verdict) :
    ∃ q, w.store.pendingAnchors[s.record.epochId]? = some q ∧
      FoundBy q s m v := by
  have hsynced := (h.followed hst hmethods).2.1
  cases hq : w.store.pendingAnchors[s.record.epochId]? with
  | none =>
      have hready := (hsynced.absent hq).2
      rw [hphase] at hready
      cases hready
  | some q =>
      have htracks := hsynced.stored q hq
      have hfits := htracks.fits
      simp only [Settling.Fits, hphase] at hfits
      obtain ⟨-, hmem, hagrees, a, ha, rfl⟩ := hfits
      refine ⟨q, rfl, htracks.same, hagrees.listed.mpr hmem, ?_⟩
      rw [PendingEpoch.anchor, ha]
      rfl

theorem ServedBy.suffix {log l : List (Event sdk)} {e : Nat} {m : AnchorMethod}
    {minted : List (MintedWitness sdk)} (h : ServedBy log l e m minted) :
    l <:+ log := by
  obtain ⟨remaining, o, -, -, hl⟩ := h
  exact (List.suffix_cons _ _).trans hl

/-- The witnesses of a serve carry its epoch and method. -/
theorem Reach.servedKey {st : Store sdk} {w : World sdk} {j : Job sdk}
    (h : Reach st w j) {l : List (Event sdk)} {e : Nat} {m : AnchorMethod}
    {minted : List (MintedWitness sdk)} (hserved : ServedBy w.log l e m minted) :
    ∀ wit ∈ minted, wit.epochId = e ∧ wit.method = m := by
  obtain ⟨w₀, s, v, -, rfl, rfl, -, hjudged⟩ := h.servedBy hserved
  exact fun wit hwit => hjudged.of_mem hwit

/-- Where an index entry comes from. -/
structure Origin (log : List (Event sdk)) (tip : Hash32) (idx : TipPairIndex)
    (l : List (Event sdk)) (e : Nat) (m : AnchorMethod)
    (minted : List (MintedWitness sdk)) (wit : MintedWitness sdk) : Prop where
  served : ServedBy log l e m minted
  mem : wit ∈ minted
  tip : wit.signatureHash = tip
  index : Store.pairIndex wit = idx

/-- Every index entry of a store that was empty was written by a serve. -/
theorem Reach.origin {w : World sdk} {j : Job sdk}
    (h : Reach Store.empty w j) :
    ∀ tip idx, w.store.tipToPair[tip]? = some idx →
      ∃ l e m minted wit, Origin w.log tip idx l e m minted wit := by
  refine h.induct (P := fun w => ∀ (tip : Hash32) idx,
    w.store.tipToPair[tip]? = some idx →
      ∃ l e m minted wit, Origin w.log tip idx l e m minted wit) ?_ ?_
  · intro now durationSecs tip idx hidx
    simp [World.boot, Store.empty] at hidx
  · intro w j ev _ hev ih tip idx hidx
    have hold : w.store.tipToPair[tip]? = some idx →
        ∃ l e m minted wit, Origin (w.emit ev).log tip idx l e m minted wit := by
      intro hidx
      obtain ⟨l, e, m, minted, wit, horigin⟩ := ih tip idx hidx
      refine ⟨l, e, m, minted, wit, ?_, horigin.mem, horigin.tip, horigin.index⟩
      rw [hev.log_eq]
      exact horigin.served.mono (List.suffix_cons _ _)
    have hlog := hev.log_eq
    have hwritten := hev.written
    generalize (w.emit ev).store = st' at hwritten hidx
    cases hwritten with
    | unchanged => exact hold hidx
    | saved => exact hold hidx
    | sealed _ _ _ hsealed =>
        rw [hsealed.tipToPair] at hidx
        exact hold hidx
    | @served s m v minted o st' _ ho hserved =>
        rw [hserved.tipToPair] at hidx
        rcases putAll_cases _ _ _ hidx with ⟨idx', hsome, hmem⟩ | ⟨-, hidx⟩
        · obtain ⟨wit, hwit, heq⟩ := List.mem_map.mp hmem
          obtain ⟨rfl, rfl⟩ := Prod.mk.inj heq
          cases hsome
          refine ⟨w.log, s.record.epochId, m, minted, wit, ?_, hwit, rfl, rfl⟩
          rw [hlog]
          exact ⟨s.record.without m, o, rfl, ho, List.suffix_refl _⟩
        · exact hold hidx

/-- The (epoch, method) an index entry carries is the one it was served for. -/
theorem Reach.origin_key {st : Store sdk} {w : World sdk} {j : Job sdk}
    (h : Reach st w j) {tip : Hash32} {idx : TipPairIndex}
    {l : List (Event sdk)} {e : Nat} {m : AnchorMethod}
    {minted : List (MintedWitness sdk)} {wit : MintedWitness sdk}
    (horigin : Origin w.log tip idx l e m minted wit) :
    idx.epochId = e ∧ idx.methodByte = m.methodByte ∧ idx.leaf = wit.leaf ∧
      idx.submitterDid = wit.submitterDid := by
  obtain ⟨w₀, s, v, -, rfl, rfl, -, hjudged⟩ := h.servedBy horigin.served
  obtain ⟨hid, hmethod⟩ := hjudged.of_mem horigin.mem
  obtain rfl := horigin.index
  exact ⟨hid, by rw [← hmethod]; rfl, rfl, rfl⟩

/-- The current tip of a leaf was written by a serve for that leaf. -/
theorem Reach.current_origin {w : World sdk} {j : Job sdk}
    (h : Reach Store.empty w j) :
    ∀ key tip, w.store.leafToTips[key]? = some tip →
      ∃ l e m minted wit, ServedBy w.log l e m minted ∧ wit ∈ minted ∧
        (wit.leaf, wit.method.methodByte) = key ∧ wit.signatureHash = tip := by
  refine h.induct (P := fun w => ∀ (key : Hash32 × UInt8) tip,
    w.store.leafToTips[key]? = some tip →
      ∃ l e m minted wit, ServedBy w.log l e m minted ∧ wit ∈ minted ∧
        (wit.leaf, wit.method.methodByte) = key ∧
          wit.signatureHash = tip) ?_ ?_
  · intro now durationSecs key tip htip
    simp [World.boot, Store.empty] at htip
  · intro w j ev _ hev ih key tip htip
    have hold : w.store.leafToTips[key]? = some tip →
        ∃ l e m minted wit, ServedBy (w.emit ev).log l e m minted ∧
          wit ∈ minted ∧ (wit.leaf, wit.method.methodByte) = key ∧
          wit.signatureHash = tip := by
      intro htip
      obtain ⟨l, e, m, minted, wit, hserved, hrest⟩ := ih key tip htip
      refine ⟨l, e, m, minted, wit, ?_, hrest⟩
      rw [hev.log_eq]
      exact hserved.mono (List.suffix_cons _ _)
    have hlog := hev.log_eq
    have hwritten := hev.written
    generalize (w.emit ev).store = st' at hwritten htip
    cases hwritten with
    | unchanged => exact hold htip
    | saved => exact hold htip
    | sealed _ _ _ hsealed =>
        rw [hsealed.leafToTips] at htip
        exact hold htip
    | @served s m v minted o st' _ ho hserved =>
        rw [hserved.leafToTips] at htip
        rcases putAll_cases _ _ _ htip with ⟨tip', hsome, hmem⟩ | ⟨-, htip⟩
        · obtain ⟨wit, hwit, heq⟩ := List.mem_map.mp hmem
          obtain ⟨hkey, rfl⟩ := Prod.mk.inj heq
          cases hsome
          refine ⟨w.log, s.record.epochId, m, minted, wit, ?_, hwit, hkey, rfl⟩
          rw [hlog]
          exact ⟨s.record.without m, o, rfl, ho, List.suffix_refl _⟩
        · exact hold htip

/-- The witnesses an event tries to write. -/
def Event.minted : Event sdk → List (MintedWitness sdk)
  | .call (.persistPendingMinted _ _ minted) _ => minted
  | _ => []

/-- Revisions of different (epoch, method, leaf) have different hashes. -/
def DistinctHashes (log : List (Event sdk)) : Prop :=
  ∀ wit ∈ log.flatMap Event.minted, ∀ wit' ∈ log.flatMap Event.minted,
    wit.signatureHash = wit'.signatureHash →
      wit.epochId = wit'.epochId ∧ wit.method = wit'.method ∧
        wit.leaf = wit'.leaf

instance decidableDistinctHashes (log : List (Event sdk)) :
    Decidable (DistinctHashes log) :=
  inferInstanceAs (Decidable (∀ _ ∈ _, ∀ _ ∈ _, _ → _))

theorem DistinctHashes.of_suffix {log log' : List (Event sdk)}
    (h : DistinctHashes log) (hlog : log' <:+ log) : DistinctHashes log' := by
  have hsub : ∀ wit, wit ∈ log'.flatMap Event.minted →
      wit ∈ log.flatMap Event.minted := by
    intro wit hwit
    obtain ⟨ev, hev, hmem⟩ := List.mem_flatMap.mp hwit
    exact List.mem_flatMap.mpr ⟨ev, hlog.subset hev, hmem⟩
  exact fun wit hwit wit' hwit' => h wit (hsub wit hwit) wit' (hsub wit' hwit')

theorem ServedBy.minted_mem {log l : List (Event sdk)} {e : Nat}
    {m : AnchorMethod} {minted : List (MintedWitness sdk)}
    (h : ServedBy log l e m minted) {wit : MintedWitness sdk}
    (hwit : wit ∈ minted) :
    wit ∈ log.flatMap Event.minted := by
  obtain ⟨remaining, o, -, -, hl⟩ := h
  exact List.mem_flatMap.mpr ⟨_, hl.subset (List.mem_cons_self ..), hwit⟩

/-- With distinct hashes, the current tip of a leaf and method is indexed under
that leaf and method. -/
theorem Reach.current_key {w : World sdk} {j : Job sdk}
    (h : Reach Store.empty w j) (hhashes : DistinctHashes w.log)
    {leaf tip : Hash32} {b : UInt8} {idx : TipPairIndex}
    (htip : w.store.leafToTips[(leaf, b)]? = some tip)
    (hidx : w.store.tipToPair[tip]? = some idx) :
    idx.leaf = leaf ∧ idx.methodByte = b := by
  obtain ⟨l, e, m, minted, wit, hserved, hwit, hkey, rfl⟩ :=
    h.current_origin _ _ htip
  obtain ⟨l', e', m', minted', wit', horigin⟩ := h.origin _ idx hidx
  obtain ⟨-, hmethod, hleaf⟩ := hhashes wit (hserved.minted_mem hwit) wit'
    (horigin.served.minted_mem horigin.mem) horigin.tip.symm
  obtain ⟨rfl, rfl⟩ := Prod.mk.inj hkey
  obtain rfl := horigin.index
  exact ⟨hleaf.symm, by rw [hmethod]; rfl⟩

/-! ## How the serving partitions hang together -/

/-- Every indexed tip is marked as self-checked and its revisions are stored;
every leaf of an indexed tip has a current tip, which is indexed. -/
structure Store.Linked (st : Store sdk) : Prop where
  key : ∀ (tip : Hash32) idx, st.tipToPair[tip]? = some idx →
    idx.signatureHash = tip
  checked : ∀ tip, tip ∈ st.tipToPair ↔ tip ∈ st.selfCheckedTips
  revisions : ∀ (tip : Hash32) idx, st.tipToPair[tip]? = some idx →
    idx.objectHash ∈ st.witnessRevisions ∧
      idx.signatureHash ∈ st.witnessRevisions
  current : ∀ (tip : Hash32) idx, st.tipToPair[tip]? = some idx →
    (idx.leaf, idx.methodByte) ∈ st.leafToTips
  target : ∀ (key : Hash32 × UInt8) tip, st.leafToTips[key]? = some tip →
    tip ∈ st.tipToPair

theorem linked_empty : (Store.empty : Store sdk).Linked := by
  constructor <;> simp [Store.empty]

theorem Store.Linked.served {st st' : Store sdk} (h : st.Linked)
    {remaining : PendingEpoch sdk} {minted : List (MintedWitness sdk)}
    (hserved : Served st remaining minted st') : st'.Linked := by
  have htip : ∀ {tip : Hash32} {idx}, st'.tipToPair[tip]? = some idx →
      (∃ wit ∈ minted, wit.signatureHash = tip ∧ Store.pairIndex wit = idx) ∨
        st.tipToPair[tip]? = some idx := by
    intro tip idx hidx
    rw [hserved.tipToPair] at hidx
    rcases putAll_cases _ _ _ hidx with ⟨idx', hsome, hmem⟩ | ⟨-, hidx⟩
    · obtain ⟨wit, hwit, heq⟩ := List.mem_map.mp hmem
      obtain ⟨rfl, rfl⟩ := Prod.mk.inj heq
      cases hsome
      exact Or.inl ⟨wit, hwit, rfl, rfl⟩
    · exact Or.inr hidx
  refine ⟨?_, ?_, ?_, ?_, ?_⟩
  · intro tip idx hidx
    rcases htip hidx with ⟨wit, -, rfl, rfl⟩ | hold
    · rfl
    · exact h.key tip idx hold
  · intro tip
    rw [hserved.tipToPair, hserved.selfCheckedTips, mem_putAll, mem_putAll,
      h.checked tip]
    simp
  · intro tip idx hidx
    rw [hserved.witnessRevisions, mem_putAll, mem_putAll]
    rcases htip hidx with ⟨wit, hwit, -, rfl⟩ | hold
    · exact ⟨Or.inr ⟨wit.objectRevision,
          List.mem_flatMap.mpr ⟨wit, hwit, List.mem_cons_self ..⟩⟩,
        Or.inr ⟨wit.signatureRevision, List.mem_flatMap.mpr ⟨wit, hwit,
          List.mem_cons_of_mem _ (List.mem_cons_self ..)⟩⟩⟩
    · exact ⟨Or.inl (h.revisions tip idx hold).1,
        Or.inl (h.revisions tip idx hold).2⟩
  · intro tip idx hidx
    rw [hserved.leafToTips, mem_putAll]
    rcases htip hidx with ⟨wit, hwit, -, rfl⟩ | hold
    · exact Or.inr ⟨wit.signatureHash, List.mem_map.mpr ⟨wit, hwit, rfl⟩⟩
    · exact Or.inl (h.current tip idx hold)
  · intro key tip hkey
    rw [hserved.leafToTips] at hkey
    rw [hserved.tipToPair, mem_putAll]
    rcases putAll_cases _ _ _ hkey with ⟨tip', hsome, hmem⟩ | ⟨-, hkey⟩
    · obtain ⟨wit, hwit, heq⟩ := List.mem_map.mp hmem
      obtain ⟨-, rfl⟩ := Prod.mk.inj heq
      cases hsome
      exact Or.inr ⟨Store.pairIndex wit, List.mem_map.mpr ⟨wit, hwit, rfl⟩⟩
    · exact Or.inl (h.target key tip hkey)

theorem Reach.linked {w : World sdk} {j : Job sdk}
    (h : Reach Store.empty w j) : w.store.Linked := by
  refine h.induct (P := fun w => w.store.Linked) (fun _ _ => linked_empty) ?_
  intro w j ev _ hev ih
  have hwritten := hev.written
  generalize (w.emit ev).store = st' at hwritten
  cases hwritten with
  | unchanged => exact ih
  | saved => exact ⟨ih.key, ih.checked, ih.revisions, ih.current, ih.target⟩
  | served _ _ hserved => exact ih.served hserved
  | sealed _ _ _ hsealed =>
      constructor
      · rw [hsealed.tipToPair]
        exact ih.key
      · rw [hsealed.tipToPair, hsealed.selfCheckedTips]
        exact ih.checked
      · rw [hsealed.tipToPair, hsealed.witnessRevisions]
        exact ih.revisions
      · rw [hsealed.tipToPair, hsealed.leafToTips]
        exact ih.current
      · rw [hsealed.tipToPair, hsealed.leafToTips]
        exact ih.target

/-! ## The leaves of a sealed epoch -/

/-- The stored leaves of `e`, with their submitters, are `leaves`, each once. -/
structure Covers (st : Store sdk) (e : Nat) (leaves : List LeafEntry) :
    Prop where
  nodup : (leaves.map LeafEntry.leaf).Nodup
  leaves : ∀ leaf did,
    st.epochLeaves[(e, leaf)]? = some did ↔ ⟨leaf, did⟩ ∈ leaves

/-- Nothing but the seal of an epoch changes its leaves, and an id below
`u64::MAX` is sealed once. -/
theorem Reach.leaves_step {st : Store sdk} {w : World sdk} {j : Job sdk}
    {ev : Event sdk} {e : Nat} (hst : st.Indexed) (h : Reach st w j)
    (hev : Emits w j ev) (he : e < u64Max) (hsealed : e ∈ w.store.epochs)
    (leaf : Hash32) :
    (w.emit ev).store.epochLeaves[(e, leaf)]? =
      w.store.epochLeaves[(e, leaf)]? := by
  have hwritten := hev.written
  generalize (w.emit ev).store = st' at hwritten
  cases hwritten with
  | unchanged => rfl
  | saved => rfl
  | served _ _ hserved => rw [hserved.epochLeaves]
  | @sealed ctx now durationSecs down snapshot prepared batch record o st' _
      hrecord _ hwrite =>
      rw [hwrite.epochLeaves]
      refine putAll_of_not_mem fun did hmem => ?_
      obtain ⟨entry, -, heq⟩ := List.mem_map.mp hmem
      have hid : record.id = e := (Prod.mk.inj (Prod.mk.inj heq).1).1
      rw [buildRecord_id hrecord] at hid
      subst hid
      exact (h.grounded hst).fresh rfl he hsealed

/-- What a committed seal leaves under its own, fresh id. -/
theorem Sealed.covers {st st' : Store sdk} (hst : st.Indexed)
    {record : EpochRecord} {leaves : List LeafEntry}
    {pending : Option (PendingEpoch sdk)}
    (hsealed : Sealed st record leaves pending st')
    (hnodup : (leaves.map LeafEntry.leaf).Nodup)
    (hfresh : record.id ∉ st.epochs) : Covers st' record.id leaves where
  nodup := hnodup
  leaves leaf did := by
    rw [hsealed.epochLeaves]
    constructor
    · intro hget
      rcases putAll_cases _ _ _ hget with ⟨did', hsome, hmem⟩ | ⟨-, hold⟩
      · cases hsome
        obtain ⟨entry, hentry, heq⟩ := List.mem_map.mp hmem
        obtain ⟨hkey, rfl⟩ := Prod.mk.inj heq
        obtain ⟨-, rfl⟩ := Prod.mk.inj hkey
        exact hentry
      · exact absurd (hst.leaves _ _ _ hold) hfresh
    · intro hmem
      refine putAll_of_mem_unique
        (List.mem_map.mpr ⟨⟨leaf, did⟩, hmem, rfl⟩) fun did' hmem' => ?_
      obtain ⟨entry, hentry, heq⟩ := List.mem_map.mp hmem'
      obtain ⟨hkey, rfl⟩ := Prod.mk.inj heq
      have hleaf : entry.leaf = leaf := (Prod.mk.inj hkey).2
      have hsame := List.inj_on_of_nodup_map hnodup hentry hmem hleaf
      rw [hsame]

/-- The stored record of `e` restores to the leaves of `e`. -/
def Restores (st : Store sdk) (e : Nat) (q : PendingEpoch sdk) : Prop :=
  ∃ snapshot batch, q.restore = .ok (snapshot, batch) ∧
    Covers st e snapshot.leaves

theorem Restores.of_same {st st' : Store sdk} {e : Nat}
    {q p : PendingEpoch sdk} (h : Restores st e q)
    (hsame : PendingEpoch.SameEpoch q p)
    (hleaves : ∀ leaf : Hash32, st'.epochLeaves[(e, leaf)]? =
      st.epochLeaves[(e, leaf)]?) : Restores st' e p := by
  obtain ⟨snapshot, batch, hrestore, hcovers⟩ := h
  refine ⟨snapshot, batch, hsame.restore_eq ▸ hrestore, hcovers.nodup, ?_⟩
  intro leaf did
  rw [hleaves leaf]
  exact hcovers.leaves leaf did

/-- Every stored record of an id below `u64::MAX` restores to the leaves its
epoch was sealed with. -/
theorem Reach.restores {w : World sdk} {j : Job sdk}
    (h : Reach Store.empty w j) :
    ∀ e < u64Max, ∀ q, w.store.pendingAnchors[e]? = some q →
      Restores w.store e q := by
  have hst : (Store.empty : Store sdk).Indexed := indexed_empty
  have hmethods : (Store.empty : Store sdk).MethodsNodup := methodsNodup_empty
  refine h.induct (P := fun w => ∀ e < u64Max, ∀ q,
    w.store.pendingAnchors[e]? = some q → Restores w.store e q) ?_ ?_
  · intro now durationSecs e _ q hq
    simp [World.boot, Store.empty] at hq
  · intro w j ev hw hev ih e he q hq
    cases hold : w.store.pendingAnchors[e]? with
    | some p =>
        have hsealed := ((hw.grounded hst).store.pending e p hold).1
        have hleaves := hw.leaves_step hst hev he hsealed
        have hsame := (hw.record_after hst hmethods hev he hold hq).1
        exact (ih e he p hold).of_same hsame hleaves
    | none =>
        rcases hw.absent_step hst hmethods hev hold with hnone |
          ⟨snapshot, c, b, record, hseal⟩
        · rw [hnone] at hq
          cases hq
        · have hg := hw.grounded hst
          have hrid := (buildRecord_id hseal.built).trans hseal.id
          have hfresh : record.id ∉ w.store.epochs := by
            rw [buildRecord_id hseal.built]
            exact hg.fresh hseal.closes (hseal.id ▸ he)
          have hcovers := hseal.write.covers hg.store
            (hg.closes snapshot hseal.closes).1 hfresh
          rw [hrid] at hcovers
          rw [hseal.stored] at hq
          cases hq
          exact ⟨snapshot, _, PendingEpoch.restore_new snapshot b c.methods,
            hcovers⟩

/-- A sealed epoch stays sealed and keeps its leaves. -/
theorem Reach.leaves_run {st : Store sdk} {w : World sdk} {j : Job sdk}
    (hst : st.Indexed) (h : Reach st w j) {e : Nat} (he : e < u64Max)
    {l : List (Event sdk)} (hl : l <:+ w.log)
    (hsealed : e ∈ (storeOf st l).epochs) (leaf : Hash32) :
    e ∈ w.store.epochs ∧ w.store.epochLeaves[(e, leaf)]? =
      (storeOf st l).epochLeaves[(e, leaf)]? := by
  refine h.induct_since (P := fun st' => e ∈ st'.epochs ∧
    st'.epochLeaves[(e, leaf)]? = (storeOf st l).epochLeaves[(e, leaf)]?)
    ⟨hsealed, rfl⟩ ?_ hl
  intro w j ev hw hev ih
  exact ⟨hev.epochs_kept ih.1,
    (hw.leaves_step hst hev he ih.1 leaf).trans ih.2⟩

/-! ## A serve covers its epoch -/

/-- The leaf a witness is for, with its submitter. -/
def MintedWitness.entry (wit : MintedWitness sdk) : LeafEntry :=
  ⟨wit.leaf, wit.submitterDid⟩

theorem MintedFor.entries {snapshot : SealedSnapshot} {method : AnchorMethod}
    {minted : List (MintedWitness sdk)} (h : MintedFor snapshot method minted) :
    minted.map MintedWitness.entry = snapshot.leaves := by
  have hmap := congrArg (List.map fun x => x.2.2) h
  simp only [List.map_map, Function.comp_def, List.map_id'] at hmap
  exact hmap

/-- A serve of an id below `u64::MAX` writes exactly one witness for each leaf
its epoch was sealed with, with the leaf's submitter. -/
theorem Reach.serve_covers {w : World sdk} {j : Job sdk}
    (h : Reach Store.empty w j) {l : List (Event sdk)} {e : Nat}
    {m : AnchorMethod} {minted : List (MintedWitness sdk)} (he : e < u64Max)
    (hserved : ServedBy w.log l e m minted) :
    Covers w.store e (minted.map MintedWitness.entry) := by
  have hst : (Store.empty : Store sdk).Indexed := indexed_empty
  have hmethods : (Store.empty : Store sdk).MethodsNodup := methodsNodup_empty
  obtain ⟨w₀, s, v, hw₀, rfl, rfl, hphase, hjudged⟩ := h.servedBy hserved
  obtain ⟨q, hq, hfound⟩ := hw₀.serve_found hst hmethods hphase
  obtain ⟨snapshot, batch, hrestore, hcovers⟩ := hw₀.restores _ he q hq
  obtain ⟨snapshot', batch', hrestore', hfor⟩ := hjudged.mintedFor
  rw [← hfound.same.restore_eq, hrestore] at hrestore'
  cases hrestore'
  have hsealed := ((hw₀.grounded hst).store.pending _ q hq).1
  rw [hw₀.store_eq] at hsealed hcovers
  rw [hfor.entries]
  refine ⟨hcovers.nodup, fun leaf did => ?_⟩
  rw [(h.leaves_run hst he hserved.suffix hsealed leaf).2]
  exact hcovers.leaves leaf did

end AquaTimestamp
