import AquaTimestamp.Guarantees.Settled
import AquaTimestamp.Model.Routes

/-!
# The three tip-based views

The tip list, the fetch by tip and the union of an epoch read the same index
under different conditions.  On the store of a run they agree: the list names
what the fetch serves, and the union of a settled (epoch, method) is what the
list has of it, one pair for each leaf the caller submitted.
-/

namespace AquaTimestamp

open Support Partition

variable {sdk : Sdk}

/-! ## The spelling of a tip -/

/-- The SDK spells a link in wire form. -/
def SpellsLinks (sdk : Sdk) : Prop :=
  ∀ h : Hash32, revisionWireHex sdk h = wireForm h

/-- A listed spelling names its tip. -/
theorem parseHash32_revisionWireHex (hspells : SpellsLinks sdk) (h : Hash32) :
    parseHash32 (revisionWireHex sdk h) = .ok h := by
  simp [parseHash32, hspells h, parseLeafHex_wireForm]

theorem revisionWireHex_injective (hspells : SpellsLinks sdk) {h h' : Hash32}
    (heq : revisionWireHex sdk h = revisionWireHex sdk h') : h = h' := by
  have hparse := parseHash32_revisionWireHex hspells h
  rw [heq, parseHash32_revisionWireHex hspells h'] at hparse
  exact (Except.ok.inj hparse).symm

/-! ## The tip list -/

section Listing

variable {st : Store sdk} {did : String}

theorem mem_listWitnessTipsForDid {e : Nat} {tip : Hash32} :
    (e, tip) ∈ listWitnessTipsForDid st did ↔
      ∃ idx, st.tipToPair[tip]? = some idx ∧ idx.submitterDid = did ∧
        idx.epochId = e := by
  unfold listWitnessTipsForDid
  rw [List.mem_mergeSort, List.mem_map]
  constructor
  · rintro ⟨⟨tip', idx⟩, hmem, heq⟩
    obtain ⟨rfl, rfl⟩ := Prod.mk.inj heq
    obtain ⟨hin, hdid⟩ := List.mem_filter.mp hmem
    exact ⟨idx, Std.ExtTreeMap.mem_toList_iff_getElem?_eq_some.mp hin,
      of_decide_eq_true hdid, rfl⟩
  · rintro ⟨idx, hidx, hdid, rfl⟩
    exact ⟨(tip, idx), List.mem_filter.mpr
      ⟨Std.ExtTreeMap.mem_toList_iff_getElem?_eq_some.mpr hidx,
        decide_eq_true hdid⟩, rfl⟩

theorem tipOrder_iff {a b : Nat × Hash32} :
    ((compare b.1 a.1).then (compare a.2 b.2)).isLE = true ↔
      b.1 < a.1 ∨ b.1 = a.1 ∧ (compare a.2 b.2).isLE = true := by
  rw [Ordering.isLE_then_iff_or, Nat.compare_eq_lt, Nat.compare_eq_eq]

/-- The list goes from the newest epoch to the oldest. -/
theorem listWitnessTipsForDid_ordered :
    (listWitnessTipsForDid st did).Pairwise fun a b => b.1 ≤ a.1 := by
  have hsorted := @List.pairwise_mergeSort (Nat × Hash32)
    (fun a b => ((compare b.1 a.1).then (compare a.2 b.2)).isLE) ?_ ?_
    ((st.tipToPair.toList.filter fun x => x.2.submitterDid = did).map fun x =>
      (x.2.epochId, x.1))
  · refine hsorted.imp fun {a b} hle => ?_
    rcases tipOrder_iff.mp hle with hlt | ⟨heq, -⟩
    · exact le_of_lt hlt
    · exact le_of_eq heq
  · intro a b c hab hbc
    refine tipOrder_iff.mpr ?_
    rcases tipOrder_iff.mp hab with hlt | ⟨heq, hle⟩
    · rcases tipOrder_iff.mp hbc with hlt' | ⟨heq', -⟩ <;> left <;> omega
    · rcases tipOrder_iff.mp hbc with hlt' | ⟨heq', hle'⟩
      · left
        omega
      · exact Or.inr ⟨heq'.trans heq, Std.TransCmp.isLE_trans hle hle'⟩
  · intro a b
    rw [Bool.or_eq_true, tipOrder_iff, tipOrder_iff]
    rcases Nat.lt_trichotomy b.1 a.1 with hlt | heq | hgt
    · exact Or.inl (Or.inl hlt)
    · by_cases hle : (compare a.2 b.2).isLE = true
      · exact Or.inl (Or.inr ⟨heq, hle⟩)
      · refine Or.inr (Or.inr ⟨heq.symm, ?_⟩)
        rw [Std.OrientedCmp.lt_of_not_isLE hle]
        rfl
    · exact Or.inr (Or.inl hgt)

/-- No tip is listed twice. -/
theorem listWitnessTipsForDid_nodup :
    ((listWitnessTipsForDid st did).map Prod.snd).Nodup := by
  unfold listWitnessTipsForDid
  refine ((List.mergeSort_perm _ _).map _).nodup_iff.mpr ?_
  rw [List.map_map]
  have hkeys : (st.tipToPair.toList.map Prod.fst).Nodup := by
    rw [Std.ExtTreeMap.map_fst_toList_eq_keys]
    exact Std.ExtTreeMap.nodup_keys
  exact (List.filter_sublist.map _).nodup hkeys

/-- The caller's tip list names the tip. -/
def Listed (st : Store sdk) (did : String) (tip : Hash32) : Prop :=
  ∃ tips, listTipsForDid st did = .ok ⟨.ok, .tips tips⟩ ∧
    revisionWireHex sdk tip ∈ tips

/-- The list names the self-checked tips of the caller. -/
theorem listed_iff (hspells : SpellsLinks sdk) {tip : Hash32} :
    Listed st did tip ↔ ∃ idx, st.tipToPair[tip]? = some idx ∧
      idx.submitterDid = did ∧ st.isSelfChecked tip = true := by
  unfold Listed listTipsForDid
  constructor
  · rintro ⟨tips, heq, hmem⟩
    cases heq
    obtain ⟨⟨e, tip'⟩, hin, hwire⟩ := List.mem_map.mp hmem
    obtain rfl := revisionWireHex_injective hspells hwire
    obtain ⟨hlisted, hchecked⟩ := List.mem_filter.mp hin
    obtain ⟨idx, hidx, hdid, -⟩ := mem_listWitnessTipsForDid.mp hlisted
    exact ⟨idx, hidx, hdid, hchecked⟩
  · rintro ⟨idx, hidx, hdid, hchecked⟩
    refine ⟨_, rfl, List.mem_map.mpr ⟨(idx.epochId, tip), ?_, rfl⟩⟩
    exact List.mem_filter.mpr
      ⟨mem_listWitnessTipsForDid.mpr ⟨idx, hidx, hdid, rfl⟩, hchecked⟩

/-- The body of the tip list: distinct spellings, newest epoch first. -/
theorem listTipsForDid_body (hspells : SpellsLinks sdk) :
    ∃ entries : List (Nat × Hash32),
      listTipsForDid st did =
        .ok ⟨.ok, .tips (entries.map fun x => revisionWireHex sdk x.2)⟩ ∧
      (entries.map fun x => revisionWireHex sdk x.2).Nodup ∧
      entries.Pairwise (fun a b => b.1 ≤ a.1) ∧
      ∀ x ∈ entries, ∃ idx, st.tipToPair[x.2]? = some idx ∧ idx.epochId = x.1 := by
  refine ⟨(listWitnessTipsForDid st did).filter fun x => st.isSelfChecked x.2,
    rfl, ?_, ?_, ?_⟩
  · have htips : (((listWitnessTipsForDid st did).filter fun x =>
        st.isSelfChecked x.2).map Prod.snd).Nodup :=
      listWitnessTipsForDid_nodup.sublist (List.filter_sublist.map _)
    have hspellings := htips.map fun _ _ => revisionWireHex_injective hspells
    rw [List.map_map] at hspellings
    exact hspellings
  · exact listWitnessTipsForDid_ordered.filter _
  · rintro ⟨e, tip⟩ hx
    obtain ⟨idx, hidx, -, heq⟩ :=
      mem_listWitnessTipsForDid.mp (List.mem_of_mem_filter hx)
    exact ⟨idx, hidx, heq⟩

example : (listWitnessTipsForDid Sample.halfRun.store "did:a").map Prod.fst =
    [1] := by
  decide +kernel

/-! ## The fetch by tip -/

/-- The fetch by tip answers 200 with the pair of the tip. -/
def ServedByTip (st : Store sdk) (did : String) (tip : Hash32) : Prop :=
  ∃ r, getTreeByTip st did (revisionWireHex sdk tip) = .ok r ∧ r.status = .ok

/-- What is listed is what the fetch by tip serves. -/
theorem listed_iff_servedByTip (hspells : SpellsLinks sdk) (hlinked : st.Linked)
    {tip : Hash32} : Listed st did tip ↔ ServedByTip st did tip := by
  rw [listed_iff hspells]
  constructor
  · rintro ⟨idx, hidx, hdid, hchecked⟩
    obtain ⟨hobject, hsignature⟩ := hlinked.revisions tip idx hidx
    obtain ⟨r, hr⟩ := exists_pairResponse hobject hsignature
    refine ⟨r, ?_, pairResponse_status hr⟩
    rw [getTreeByTip_of_pair (parseHash32_revisionWireHex hspells tip) hidx hdid
      hchecked, hr]
  · rintro ⟨r, hanswer, hstatus⟩
    obtain ⟨tip', idx, hparse, hidx, hdid, hchecked, -⟩ :=
      getTreeByTip_served hanswer hstatus
    rw [parseHash32_revisionWireHex hspells tip] at hparse
    cases hparse
    exact ⟨idx, hidx, hdid, hchecked⟩

end Listing

/-! ## The union of an epoch -/

section Union

variable {st : Store sdk} {did : String}

/-- The key names a stored revision with this JSON. -/
def Names (st : Store sdk) (hash : Hash32) (key : String) (json : sdk.Json) :
    Prop :=
  key = revisionWireHex sdk hash ∧
    ∃ revision, st.getRevision hash = some revision ∧ json = revision.json

/-- The key names one of the two revisions of a pair. -/
def RevisionOf (st : Store sdk) (idx : TipPairIndex) (key : String)
    (json : sdk.Json) : Prop :=
  Names st idx.objectHash key json ∨ Names st idx.signatureHash key json

/-- Every entry of the map is a stored revision under its own key. -/
def HoldsStored (st : Store sdk) (revisions : Partition String sdk.Json) : Prop :=
  ∀ key json, revisions[key]? = some json → ∃ hash, Names st hash key json

theorem holdsStored_empty : HoldsStored st ∅ := by
  intro key json hnone
  simp at hnone

theorem Names.unique (hspells : SpellsLinks sdk) {hash hash' : Hash32}
    {key : String} {json json' : sdk.Json} (h : Names st hash key json)
    (h' : Names st hash' key json') : json = json' := by
  obtain ⟨rfl, revision, hget, rfl⟩ := h
  obtain ⟨hkey, revision', hget', rfl⟩ := h'
  obtain rfl := revisionWireHex_injective hspells hkey
  rw [hget] at hget'
  cases hget'
  rfl

/-- Adding a stored revision to a map of stored revisions. -/
theorem HoldsStored.insert (hspells : SpellsLinks sdk)
    {revisions : Partition String sdk.Json} (h : HoldsStored st revisions)
    {hash : Hash32} {revision : AnyRevision sdk}
    (hget : st.getRevision hash = some revision) :
    HoldsStored st (revisions.insert (revisionWireHex sdk hash) revision.json) ∧
    ∀ key json,
      (revisions.insert (revisionWireHex sdk hash) revision.json)[key]? =
          some json ↔
        Names st hash key json ∨ revisions[key]? = some json := by
  have hnames : Names st hash (revisionWireHex sdk hash) revision.json :=
    ⟨rfl, revision, hget, rfl⟩
  have hiff : ∀ key json,
      (revisions.insert (revisionWireHex sdk hash) revision.json)[key]? =
          some json ↔
        Names st hash key json ∨ revisions[key]? = some json := by
    intro key json
    rw [getElem?_put]
    split
    · rename_i hkey
      subst hkey
      constructor
      · rintro ⟨⟩
        exact Or.inl hnames
      · rintro (hnamed | hold)
        · rw [hnames.unique hspells hnamed]
        · obtain ⟨hash', hnamed⟩ := h _ _ hold
          rw [hnames.unique hspells hnamed]
    · rename_i hkey
      constructor
      · exact Or.inr
      · rintro (⟨rfl, -⟩ | hold)
        · exact absurd rfl hkey
        · exact hold
  refine ⟨fun key json hget' => ?_, hiff⟩
  rcases (hiff key json).mp hget' with hnamed | hold
  · exact ⟨hash, hnamed⟩
  · exact h key json hold

/-- Loading a pair adds its two revisions. -/
theorem loadPairIntoMaps_eq (hspells : SpellsLinks sdk) {idx : TipPairIndex}
    (hobject : idx.objectHash ∈ st.witnessRevisions)
    (hsignature : idx.signatureHash ∈ st.witnessRevisions)
    {revisions : Partition String sdk.Json} (h : HoldsStored st revisions)
    (fileIndex : Partition String String) :
    ∃ revisions' fileIndex',
      loadPairIntoMaps st idx revisions fileIndex =
        .ok (revisions', fileIndex') ∧
      HoldsStored st revisions' ∧
      ∀ key json, revisions'[key]? = some json ↔
        RevisionOf st idx key json ∨ revisions[key]? = some json := by
  obtain ⟨object, hobject⟩ := Option.isSome_iff_exists.mp
    (Std.ExtTreeMap.mem_iff_isSome_getElem?.mp hobject)
  obtain ⟨signature, hsignature⟩ := Option.isSome_iff_exists.mp
    (Std.ExtTreeMap.mem_iff_isSome_getElem?.mp hsignature)
  have hobject' : st.getRevision idx.objectHash = some object := hobject
  have hsignature' : st.getRevision idx.signatureHash = some signature :=
    hsignature
  obtain ⟨hholds, hadds⟩ := h.insert hspells hobject'
  obtain ⟨hholds', hadds'⟩ := hholds.insert hspells hsignature'
  refine ⟨_, (fileIndex.insert (revisionWireHex sdk idx.objectHash)
      idx.objectFileName).insert (revisionWireHex sdk idx.signatureHash)
        idx.signatureFileName, ?_, hholds', fun key json => ?_⟩
  · rw [loadPairIntoMaps, hobject', hsignature']
  · rw [hadds' key json, hadds key json, RevisionOf]
    tauto

/-- Loading a list of pairs adds the revisions of all of them. -/
theorem loadPairs_eq (hspells : SpellsLinks sdk) {entries : List TipPairIndex}
    (hstored : ∀ idx ∈ entries, idx.objectHash ∈ st.witnessRevisions ∧
      idx.signatureHash ∈ st.witnessRevisions)
    {revisions : Partition String sdk.Json} (h : HoldsStored st revisions)
    (fileIndex : Partition String String) :
    ∃ revisions' fileIndex',
      loadPairs st entries revisions fileIndex = .ok (revisions', fileIndex') ∧
      ∀ key json, revisions'[key]? = some json ↔
        (∃ idx ∈ entries, RevisionOf st idx key json) ∨
          revisions[key]? = some json := by
  induction entries generalizing revisions fileIndex with
  | nil => exact ⟨revisions, fileIndex, rfl, fun key json => by simp⟩
  | cons idx entries ih =>
      obtain ⟨hobject, hsignature⟩ := hstored idx (List.mem_cons_self ..)
      obtain ⟨revisions₁, fileIndex₁, hload, hholds, hadds⟩ :=
        loadPairIntoMaps_eq hspells hobject hsignature h fileIndex
      obtain ⟨revisions', fileIndex', hrest, hall⟩ :=
        ih (fun idx' hidx' => hstored idx' (List.mem_cons_of_mem _ hidx')) hholds
          fileIndex₁
      refine ⟨revisions', fileIndex', ?_, fun key json => ?_⟩
      · rw [loadPairs, hload]
        exact hrest
      · rw [hall key json, hadds key json, List.exists_mem_cons_iff, or_assoc,
          or_left_comm]

/-- The caller's tip list names the tip, whose entry is one of (`e`, `m`). -/
def ListedFor (st : Store sdk) (did : String) (e : Nat) (m : AnchorMethod)
    (tip : Hash32) (idx : TipPairIndex) : Prop :=
  Listed st did tip ∧ st.tipToPair[tip]? = some idx ∧ idx.IsOf e m

/-- The union of a sealed epoch that is not pending for the method holds the
revisions of the caller's listed tips. -/
theorem unionForEpoch_eq (hspells : SpellsLinks sdk) (hlinked : st.Linked)
    (maxAnchorFaults : UInt32) {e : Nat} {m : AnchorMethod}
    (hsealed : e ∈ st.epochs) (hpending : st.isEpochPending e m = false) :
    ∃ revisions fileIndex,
      unionForEpoch st maxAnchorFaults did e m =
        .ok ⟨.ok, .tree revisions fileIndex⟩ ∧
      ∀ key json, revisions[key]? = some json ↔
        ∃ tip idx, ListedFor st did e m tip idx ∧
          RevisionOf st idx key json := by
  obtain ⟨record, hrecord⟩ := Option.isSome_iff_exists.mp
    (Std.ExtTreeMap.mem_iff_isSome_getElem?.mp hsealed)
  have hepoch : st.getEpoch e = some record := hrecord
  have hentry : ∀ idx, idx ∈ listWitnessesForDidInEpoch st did e m ↔
      ∃ tip, Listed st did tip ∧ st.tipToPair[tip]? = some idx ∧
        idx.IsOf e m := by
    intro idx
    rw [mem_listWitnessesForDidInEpoch]
    constructor
    · rintro ⟨⟨tip, hidx⟩, hid, hmethod, hdid⟩
      have hin : tip ∈ st.tipToPair := by
        rw [Std.ExtTreeMap.mem_iff_isSome_getElem?, hidx]
        rfl
      exact ⟨tip, (listed_iff hspells).mpr ⟨idx, hidx, hdid,
        Std.ExtTreeMap.mem_iff_contains.mp ((hlinked.checked tip).mp hin)⟩,
        hidx, hid, hmethod⟩
    · rintro ⟨tip, hlisted, hidx, hid, hmethod⟩
      obtain ⟨idx', hidx', hdid, -⟩ := (listed_iff hspells).mp hlisted
      rw [hidx] at hidx'
      cases hidx'
      exact ⟨⟨tip, hidx⟩, hid, hmethod, hdid⟩
  have hchecked : (listWitnessesForDidInEpoch st did e m).all
      (fun idx => st.isSelfChecked idx.signatureHash) = true := by
    refine List.all_eq_true.mpr fun idx hidx => ?_
    obtain ⟨tip, hlisted, hget, -⟩ := (hentry idx).mp hidx
    obtain ⟨_, -, -, hmarked⟩ := (listed_iff hspells).mp hlisted
    rw [hlinked.key tip idx hget]
    exact hmarked
  have hstored : ∀ idx ∈ listWitnessesForDidInEpoch st did e m,
      idx.objectHash ∈ st.witnessRevisions ∧
        idx.signatureHash ∈ st.witnessRevisions := by
    intro idx hidx
    obtain ⟨tip, -, hget, -⟩ := (hentry idx).mp hidx
    exact hlinked.revisions tip idx hget
  obtain ⟨revisions, fileIndex, hload, hall⟩ :=
    loadPairs_eq hspells hstored holdsStored_empty ∅
  refine ⟨revisions, fileIndex, ?_, fun key json => ?_⟩
  · simp [unionForEpoch, hepoch, hpending, hchecked, hload]
  · rw [hall key json]
    constructor
    · rintro (⟨idx, hidx, hof⟩ | hnone)
      · obtain ⟨tip, hlisted, hget, his⟩ := (hentry idx).mp hidx
        exact ⟨tip, idx, ⟨hlisted, hget, his⟩, hof⟩
      · simp at hnone
    · rintro ⟨tip, idx, ⟨hlisted, hget, his⟩, hof⟩
      exact Or.inl ⟨idx, (hentry idx).mpr ⟨tip, hlisted, hget, his⟩, hof⟩

end Union

/-! ## What was enabled at the seal -/

section Enabled

variable {w : World sdk} {j : Job sdk} {e : Nat} {m : AnchorMethod}

theorem SealedWith.mono {log log' : List (Event sdk)} (h : SealedWith log e m)
    (hlog : log <:+ log') : SealedWith log' e m := by
  obtain ⟨ev, l, hl, hseals, hm⟩ := h
  exact ⟨ev, l, hl.trans hlog, hseals, hm⟩

/-- A pending method was enabled when its epoch was sealed. -/
theorem Reach.listed_sealedWith (h : Reach Store.empty w j) (he : e < u64Max) :
    ErrorsChangeNothing w.log → ∀ q, w.store.pendingAnchors[e]? = some q →
      m ∈ q.methods → SealedWith w.log e m := by
  have hst : (Store.empty : Store sdk).Indexed := indexed_empty
  have hmethods : (Store.empty : Store sdk).MethodsNodup := methodsNodup_empty
  refine h.induct (P := fun w => ErrorsChangeNothing w.log → ∀ q,
    w.store.pendingAnchors[e]? = some q → m ∈ q.methods →
      SealedWith w.log e m) ?_ ?_
  · intro now durationSecs _ q hq
    simp [World.boot, Store.empty] at hq
  · intro w j ev hw hev ih herr q hq hm
    rw [hev.log_eq] at herr ⊢
    have herr' := herr.tail
    have hgrow := List.suffix_cons ev w.log
    cases hold : w.store.pendingAnchors[e]? with
    | some p =>
        rcases (hw.record_after hst hmethods hev he hold hq).2 m hm with
          hp | ⟨id, hunsynced⟩
        · exact (ih herr' p hold hp).mono hgrow
        · exact absurd hunsynced (herr'.not_unsynced id m)
    | none =>
        rcases hw.absent_step hst hmethods hev hold with hnone |
          ⟨snapshot, c, b, record, hseal⟩
        · rw [hnone] at hq
          cases hq
        · obtain ⟨o, ho, rfl⟩ := hseal.event
          obtain ⟨now, htick⟩ := hseal.tick
          rw [hseal.stored] at hq
          cases hq
          refine ⟨_, w.log, List.suffix_refl _, ?_, ?_⟩
          · simp [Event.sealsLeaves, ho, buildRecord_id hseal.built, hseal.id,
              hseal.leaves]
          · rw [enabledMethods, hw.currentTick_eq _ htick]
            exact hm

/-- What was served was enabled when its epoch was sealed. -/
theorem Reach.served_sealedWith (h : Reach Store.empty w j)
    (herr : ErrorsChangeNothing w.log) (he : e < u64Max) {l : List (Event sdk)}
    {minted : List (MintedWitness sdk)} (hserved : ServedBy w.log l e m minted) :
    SealedWith w.log e m := by
  have hst : (Store.empty : Store sdk).Indexed := indexed_empty
  have hmethods : (Store.empty : Store sdk).MethodsNodup := methodsNodup_empty
  have hl := hserved.suffix
  obtain ⟨w₀, s, v, hw₀, rfl, rfl, hphase, -⟩ := h.servedBy hserved
  obtain ⟨q, hq, hfound⟩ := hw₀.serve_found hst hmethods hphase
  exact (hw₀.listed_sealedWith he (fun ev hev => herr ev (hl.subset hev)) q hq
    hfound.listed).mono hl

end Enabled

/-! ## The listed tips of an epoch and method -/

section ListedFor

variable {w : World sdk} {j : Job sdk} {e : Nat} {m : AnchorMethod}
variable {did : String} {tip : Hash32} {idx : TipPairIndex}

/-- A listed tip of (`e`, `m`) was served for the caller. -/
theorem Reach.listed_served (h : Reach Store.empty w j)
    (hspells : SpellsLinks sdk) (hlisted : ListedFor w.store did e m tip idx) :
    ∃ l minted wit, ServedBy w.log l e m minted ∧ wit ∈ minted ∧
      wit.leaf = idx.leaf ∧ wit.submitterDid = did := by
  obtain ⟨hlist, hidx, hof⟩ := hlisted
  obtain ⟨idx', hidx', hdid, -⟩ := (listed_iff hspells).mp hlist
  rw [hidx] at hidx'
  cases hidx'
  obtain ⟨l, e', m', minted, wit, horigin⟩ := h.origin tip idx hidx
  obtain ⟨hid, hmethod, hleaf, hsubmitter⟩ := h.origin_key horigin
  obtain rfl : e' = e := hid.symm.trans hof.1
  obtain rfl : m' = m :=
    AnchorMethod.methodByte_injective (hmethod.symm.trans hof.2)
  exact ⟨l, minted, wit, horigin.served, horigin.mem, hleaf.symm,
    hsubmitter.symm.trans hdid⟩

/-- A listed tip is for a leaf of the caller, and its method was enabled when
the epoch was sealed. -/
theorem Reach.listed_leaf (h : Reach Store.empty w j)
    (herr : ErrorsChangeNothing w.log) (hspells : SpellsLinks sdk)
    (he : e < u64Max) (hlisted : ListedFor w.store did e m tip idx) :
    SealedWith w.log e m ∧ w.store.epochLeaves[(e, idx.leaf)]? = some did := by
  obtain ⟨l, minted, wit, hserved, hwit, hleaf, hdid⟩ :=
    h.listed_served hspells hlisted
  refine ⟨h.served_sealedWith herr he hserved, ?_⟩
  rw [← hleaf, ← hdid]
  exact ((h.serve_covers he hserved).leaves wit.leaf wit.submitterDid).mpr
    (List.mem_map_of_mem hwit)

/-- Nothing is listed for a pending method. -/
theorem Reach.not_listed_of_pending (h : Reach Store.empty w j)
    (herr : ErrorsChangeNothing w.log) (hspells : SpellsLinks sdk)
    (he : e < u64Max) (hpending : w.store.isEpochPending e m = true) :
    ¬ ListedFor w.store did e m tip idx := by
  intro hlisted
  obtain ⟨l, minted, wit, hserved, -⟩ := h.listed_served hspells hlisted
  obtain ⟨q, hq, hm⟩ := Store.isEpochPending_eq_true.mp hpending
  exact h.unlisted he herr.poisonedByFsync.noStaleWrite l minted hserved q hq hm

/-- Once a method that was enabled at the seal is no longer pending, each leaf
of the caller has one listed tip. -/
theorem Reach.existsUnique_listed (h : Reach Store.empty w j)
    (herr : ErrorsChangeNothing w.log) (hhashes : DistinctHashes w.log)
    (hspells : SpellsLinks sdk) (he : e < u64Max)
    (hpending : w.store.isEpochPending e m = false)
    (hsealed : SealedWith w.log e m) {leaf : Hash32}
    (hleaf : w.store.epochLeaves[(e, leaf)]? = some did) :
    ∃! tip, ∃ idx, ListedFor w.store did e m tip idx ∧ idx.leaf = leaf := by
  have hserved : ∃ l minted, ServedBy w.log l e m minted := by
    rcases h.listed_or_served he hsealed with ⟨q, hq, hm⟩ | hserved
    · rw [Store.isEpochPending_eq_true.mpr ⟨q, hq, hm⟩] at hpending
      cases hpending
    · exact hserved
  obtain ⟨l, minted, hserved⟩ := hserved
  obtain ⟨-, hall⟩ := h.settled herr.poisonedByFsync.noStaleWrite hhashes he hserved
  obtain ⟨tip, idx, ⟨hidx, hof, hfor, hdid⟩, honly⟩ := hall leaf did hleaf
  have hchecked : w.store.isSelfChecked tip = true := by
    have hin : tip ∈ w.store.tipToPair := by
      rw [Std.ExtTreeMap.mem_iff_isSome_getElem?, hidx]
      rfl
    exact Std.ExtTreeMap.mem_iff_contains.mp ((h.linked.checked tip).mp hin)
  refine ⟨tip, ⟨idx, ⟨?_, hidx, hof⟩, hfor⟩, ?_⟩
  · exact (listed_iff hspells).mpr ⟨idx, hidx, hdid, hchecked⟩
  · rintro tip' ⟨idx', ⟨-, hidx', hof'⟩, hfor'⟩
    exact honly tip' idx' hidx' hof' hfor'

end ListedFor

/-- In every state of a run from an empty store in which writes that report an
error change nothing and different revisions have different hashes: what is
listed is what the fetch by tip serves; the list has no duplicates and goes
from the newest epoch to the oldest; the union of a sealed (epoch, method) that
is not pending holds the revisions of the listed tips.  Below `u64::MAX` these
are one for each leaf of the caller if the method was enabled at the seal and
none otherwise, and none is listed while the method is pending. -/
theorem tip_views_agree {w : World sdk} (hw : Visited Store.empty w)
    (herr : ErrorsChangeNothing w.log) (hhashes : DistinctHashes w.log)
    (hspells : SpellsLinks sdk) (maxAnchorFaults : UInt32) (did : String) :
    (∀ tip, Listed w.store did tip ↔ ServedByTip w.store did tip) ∧
    (∃ entries : List (Nat × Hash32),
      listTipsForDid w.store did =
        .ok ⟨.ok, .tips (entries.map fun x => revisionWireHex sdk x.2)⟩ ∧
      (entries.map fun x => revisionWireHex sdk x.2).Nodup ∧
      entries.Pairwise (fun a b => b.1 ≤ a.1) ∧
      ∀ x ∈ entries, ∃ idx, w.store.tipToPair[x.2]? = some idx ∧
        idx.epochId = x.1) ∧
    (∀ e ∈ w.store.epochs, ∀ m, w.store.isEpochPending e m = false →
      ∃ revisions fileIndex,
        unionForEpoch w.store maxAnchorFaults did e m =
          .ok ⟨.ok, .tree revisions fileIndex⟩ ∧
        ∀ key json, revisions[key]? = some json ↔
          ∃ tip idx, ListedFor w.store did e m tip idx ∧
            RevisionOf w.store idx key json) ∧
    ∀ e < u64Max, ∀ m,
      (w.store.isEpochPending e m = false →
        (SealedWith w.log e m → ∀ leaf,
          w.store.epochLeaves[(e, leaf)]? = some did →
            ∃! tip, ∃ idx, ListedFor w.store did e m tip idx ∧
              idx.leaf = leaf) ∧
        ∀ tip idx, ListedFor w.store did e m tip idx →
          SealedWith w.log e m ∧
            w.store.epochLeaves[(e, idx.leaf)]? = some did) ∧
      (w.store.isEpochPending e m = true →
        ∀ tip idx, ¬ ListedFor w.store did e m tip idx) := by
  obtain ⟨j, hj⟩ := reach_of_visited hw
  refine ⟨fun tip => listed_iff_servedByTip hspells hj.linked,
    listTipsForDid_body hspells, fun e hsealed m hpending => ?_,
    fun e he m => ⟨fun hpending => ⟨fun hsealed leaf hleaf => ?_,
      fun tip idx hlisted => ?_⟩, fun hpending tip idx => ?_⟩⟩
  · exact unionForEpoch_eq hspells hj.linked maxAnchorFaults hsealed hpending
  · exact hj.existsUnique_listed herr hhashes hspells he hpending hsealed hleaf
  · exact hj.listed_leaf herr hspells he hlisted
  · exact hj.not_listed_of_pending herr hspells he hpending

theorem Sample.spellsLinks : SpellsLinks Sample.sdk :=
  fun _ => rfl

theorem tip_views_agree_halfRun :
    ((∃! tip, ∃ idx,
        ListedFor Sample.halfRun.store "did:a" 1 .evm tip idx ∧
          idx.leaf = Sample.leaf 1) ∧
      ∀ tip idx, ListedFor Sample.halfRun.store "did:a" 1 .evm tip idx →
        Sample.halfRun.store.epochLeaves[(1, idx.leaf)]? = some "did:a") ∧
    ∀ tip idx, ¬ ListedFor Sample.halfRun.store "did:a" 1 .qtsa tip idx := by
  have hall : ErrorsChangeNothing Sample.halfRun.log ∧
      DistinctHashes Sample.halfRun.log ∧
      SealedWith Sample.halfRun.log 1 .evm ∧
      Sample.halfRun.store.isEpochPending 1 .evm = false ∧
      Sample.halfRun.store.isEpochPending 1 .qtsa = true ∧
      Sample.halfRun.store.epochLeaves[(1, Sample.leaf 1)]? =
        some "did:a" := by
    decide +kernel
  obtain ⟨herr, hhashes, hsealed, hserved, hpending, hleaf⟩ := hall
  obtain ⟨-, -, -, hviews⟩ := tip_views_agree (.between (reachable_replay _))
    herr hhashes Sample.spellsLinks 3 "did:a"
  obtain ⟨hone, honly⟩ := (hviews 1 (by decide) .evm).1 hserved
  exact ⟨⟨hone hsealed _ hleaf, fun tip idx hlisted => (honly tip idx hlisted).2⟩,
    (hviews 1 (by decide) .qtsa).2 hpending⟩

theorem exists_listed_while_pending :
    ∃ w : World Sample.sdk, Visited Store.empty w ∧ ErrorsChangeNothing w.log ∧
      DistinctHashes w.log ∧ SpellsLinks Sample.sdk ∧
      w.store.isEpochPending u64Max .evm = true ∧
      ∃ tip idx, ListedFor w.store "did:a" u64Max .evm tip idx := by
  have hmoves : ∀ move ∈ Sample.reopenedRun, move.keepsProcess = true := by
    decide
  obtain ⟨w, past, hw, hidle, hend⟩ := exists_twin_playAll hmoves
  obtain ⟨epochs, hstore⟩ := hend.store
  have hrun : ErrorsChangeNothing
        ((lastEpoch Sample.sdk).playAll Sample.reopenedRun).log ∧
      DistinctHashes ((lastEpoch Sample.sdk).playAll Sample.reopenedRun).log ∧
      ((lastEpoch Sample.sdk).playAll
        Sample.reopenedRun).store.isEpochPending u64Max .evm = true ∧
      ((lastEpoch Sample.sdk).playAll
        Sample.reopenedRun).store.tipToPair.toList.any (fun x =>
          decide (x.2.IsOf u64Max .evm ∧ x.2.submitterDid = "did:a") &&
            ((lastEpoch Sample.sdk).playAll
              Sample.reopenedRun).store.isSelfChecked x.1) = true := by
    decide +kernel
  obtain ⟨herr, hhashes, hpending, htips⟩ := hrun
  obtain ⟨⟨tip, idx⟩, hmem, hentry⟩ := List.any_eq_true.mp htips
  obtain ⟨hof, hchecked⟩ := Bool.and_eq_true_iff.mp hentry
  obtain ⟨hof, hdid⟩ := of_decide_eq_true hof
  have hidx := Std.ExtTreeMap.mem_toList_iff_getElem?_eq_some.mp hmem
  refine ⟨w, hw, ?_, ?_, Sample.spellsLinks, ?_, tip, idx, ?_⟩
  · exact hend.log ▸ herr.append_idle hidle
  · exact hend.log ▸ hhashes.append_idle hidle
  · rw [hstore]
    exact hpending
  · rw [hstore]
    exact ⟨(listed_iff Sample.spellsLinks).mpr ⟨idx, hidx, hdid, hchecked⟩, hidx,
      hof⟩

end AquaTimestamp
