import AquaTimestamp.Model.Routes
import AquaTimestamp.Model.Sample
import AquaTimestamp.Settlement.Serving

/-!
# Who is served what

By-tip access is decided by the submitter in the tip's index entry, by-leaf
access by the owner of the leaf, which is whoever sealed the leaf last.  The
two agree as long as a leaf with witnesses is not sealed again by another DID
and an epoch's witnesses are not served after another DID has sealed one of
its leaves.
-/

namespace AquaTimestamp

open Support Partition

variable {sdk : Sdk}

/-! ## By-leaf serves the caller's own pairs -/

/-- The pair of a leaf's current tip. -/
def Store.currentPair (st : Store sdk) (leaf : Hash32) (m : AnchorMethod) :
    Option TipPairIndex :=
  (st.getTipForLeaf leaf m).bind st.getTipPair

/-- The event keeps the owner of a leaf and the submitter of its current pairs
the same: a seal of a leaf with a current pair is by that pair's submitter,
and a serve is for the leaf's owner. -/
def KeepsCurrent (st : Store sdk) (ev : Event sdk) : Prop :=
  (∀ entry ∈ ev.sealedEntries, ∀ m, ∀ idx ∈ st.currentPair entry.leaf m,
    idx.submitterDid = entry.submitterDid) ∧
  ∀ wit ∈ ev.servedWitnesses, st.leafOwner[wit.leaf]? = some wit.submitterDid

/-- The owner of a leaf submitted its current pairs. -/
def CurrentOwned (st : Store sdk) : Prop :=
  ∀ (leaf : Hash32) m idx did, st.currentPair leaf m = some idx →
    st.leafOwner[leaf]? = some did → idx.submitterDid = did

theorem currentPair_eq_some {st : Store sdk} {leaf : Hash32}
    {m : AnchorMethod} {idx : TipPairIndex} :
    st.currentPair leaf m = some idx ↔
      ∃ tip : Hash32, st.leafToTips[(leaf, m.methodByte)]? = some tip ∧
        st.tipToPair[tip]? = some idx :=
  Option.bind_eq_some_iff

theorem CurrentOwned.sealed {st st' : Store sdk} {record : EpochRecord}
    {leaves : List LeafEntry} {pending : Option (PendingEpoch sdk)}
    (h : CurrentOwned st) (hsealed : Sealed st record leaves pending st')
    (hcond : ∀ entry ∈ leaves, ∀ m, ∀ idx ∈ st.currentPair entry.leaf m,
      idx.submitterDid = entry.submitterDid) : CurrentOwned st' := by
  intro leaf m idx did hidx howner
  have hcurrent : st.currentPair leaf m = some idx := by
    rw [← hidx]
    simp only [Store.currentPair, Store.getTipForLeaf, hsealed.leafToTips]
    congr 1
    funext tip
    simp only [Store.getTipPair, hsealed.tipToPair]
  rw [hsealed.leafOwner] at howner
  rcases putAll_cases _ _ _ howner with ⟨did', hsome, hmem⟩ | ⟨-, hold⟩
  · cases hsome
    obtain ⟨entry, hentry, heq⟩ := List.mem_map.mp hmem
    obtain ⟨rfl, rfl⟩ := Prod.mk.inj heq
    exact hcond entry hentry m idx hcurrent
  · exact h leaf m idx did hcurrent hold

theorem CurrentOwned.served {st st' : Store sdk}
    {remaining : PendingEpoch sdk} {minted : List (MintedWitness sdk)}
    (h : CurrentOwned st) (hserved : Served st remaining minted st')
    (hkey : ∀ (leaf : Hash32) m idx, st'.currentPair leaf m = some idx →
      idx.leaf = leaf)
    (hcond : ∀ wit ∈ minted, st.leafOwner[wit.leaf]? = some wit.submitterDid) :
    CurrentOwned st' := by
  intro leaf m idx did hcurrent howner
  have hleaf := hkey leaf m idx hcurrent
  obtain ⟨tip, htip, hidx⟩ := currentPair_eq_some.mp hcurrent
  rw [hserved.leafOwner] at howner
  rw [hserved.tipToPair] at hidx
  rcases putAll_cases _ _ _ hidx with ⟨idx', hsome, hmem⟩ | ⟨hnot, hold⟩
  · cases hsome
    obtain ⟨wit, hwit, heq⟩ := List.mem_map.mp hmem
    obtain ⟨-, rfl⟩ := Prod.mk.inj heq
    have hwitness := hcond wit hwit
    rw [show wit.leaf = leaf from hleaf, howner] at hwitness
    exact (Option.some.inj hwitness).symm
  · -- The entry was there before, so the leaf's current tip was too.
    rw [hserved.leafToTips] at htip
    rcases putAll_cases _ _ _ htip with ⟨tip', hsome, hmem⟩ | ⟨-, hprev⟩
    · cases hsome
      obtain ⟨wit, hwit, heq⟩ := List.mem_map.mp hmem
      obtain ⟨-, rfl⟩ := Prod.mk.inj heq
      exact absurd (List.mem_map.mpr ⟨wit, hwit, rfl⟩) (hnot _)
    · exact h leaf m idx did (currentPair_eq_some.mpr ⟨tip, hprev, hold⟩) howner

theorem Reach.currentOwned {w : World sdk} {j : Job sdk}
    (h : Reach Store.empty w j) :
    EachStep Store.empty KeepsCurrent w.log → DistinctHashes w.log →
      CurrentOwned w.store := by
  refine h.induct_steps (P := fun w => DistinctHashes w.log →
    CurrentOwned w.store) ?_ ?_
  · intro now durationSecs _ leaf m idx did hidx
    simp [World.boot, Store.empty, Store.currentPair, Store.getTipForLeaf] at hidx
  · intro w j ev j' hw hev hnext hcond ih hhashes
    have hold := ih (hhashes.of_suffix (hev.log_eq ▸ List.suffix_cons _ _))
    have hkey : ∀ (leaf : Hash32) m idx,
        (w.emit ev).store.currentPair leaf m = some idx → idx.leaf = leaf := by
      intro leaf m idx hcurrent
      obtain ⟨tip, htip, hidx⟩ := currentPair_eq_some.mp hcurrent
      exact (hnext.current_key hhashes htip hidx).1
    have hwritten := hev.written
    generalize (w.emit ev).store = st' at hwritten hkey
    cases hwritten with
    | unchanged => exact hold
    | saved => exact hold
    | sealed _ _ ho hsealed =>
        refine hold.sealed hsealed ?_
        simpa [Event.sealedEntries, ho] using hcond.1
    | served _ ho hserved =>
        refine hold.served hserved hkey ?_
        simpa [Event.servedWitnesses, ho] using hcond.2

/-- In a run whose events keep leaf owners and current pairs together, a pair
served by leaf is the caller's own, and is served to the caller by tip. -/
theorem by_leaf_serves_own_pairs {w : World sdk} (hw : Visited Store.empty w)
    (hhashes : DistinctHashes w.log)
    (hcond : EachStep Store.empty KeepsCurrent w.log)
    {maxAnchorFaults : UInt32} {did leafHex : String} {method : Option String}
    {r : Response sdk}
    (hroute : getTreeByLeaf w.store maxAnchorFaults did leafHex method = .ok r)
    (hr : r.status = .ok) :
    ∃ (tip : Hash32) (idx : TipPairIndex),
      w.store.tipToPair[tip]? = some idx ∧ pairResponse w.store idx = .ok r ∧
        idx.submitterDid = did ∧
        getTreeByTip w.store did (hexLower tip) = .ok r := by
  obtain ⟨j, hj⟩ := reach_of_visited hw
  obtain ⟨methodStr, m, leaf, tip, idx, -, -, -, howner, htip, hidx, hchecked,
    hpair⟩ := getTreeByLeaf_served hroute hr
  have hdid := hj.currentOwned hcond hhashes leaf m idx did
    (currentPair_eq_some.mpr ⟨tip, htip, hidx⟩) howner
  refine ⟨tip, idx, hidx, hpair, hdid, ?_⟩
  rw [getTreeByTip_of_pair (parseHash32_hexLower tip) hidx hdid hchecked, hpair]

instance decidableKeepsCurrent (st : Store sdk) (ev : Event sdk) :
    Decidable (KeepsCurrent st ev) :=
  inferInstanceAs (Decidable (_ ∧ _))

instance decidableEachStep (st : Store sdk) (C : Store sdk → Event sdk → Prop)
    [∀ st ev, Decidable (C st ev)] (log : List (Event sdk)) :
    Decidable (EachStep st C log) :=
  decidable_of_iff (someSplit (fun ev l => !decide (C (storeOf st l) ev)) log =
    false) (by
      rw [← Bool.not_eq_true, someSplit_iff]
      simp [EachStep])

/-- Two DIDs with a leaf each, and one of them submits its leaf again. -/
def Sample.ownLeavesRun : World Sample.sdk :=
  .replay [.append [Sample.leaf 1] "did:a", .append [Sample.leaf 2] "did:b",
    Sample.cycle [.evm] 10 (Sample.honest "1"),
    .append [Sample.leaf 1] "did:a", Sample.cycle [.evm] 20 (Sample.honest "2")]

/-- Whether a route answers 200. -/
def answersOk : Except AuthApiError (Response sdk) → Bool
  | .ok r => r.status == .ok
  | .error _ => false

theorem answersOk_iff {answer : Except AuthApiError (Response sdk)} :
    answersOk answer = true ↔ ∃ r, answer = .ok r ∧ r.status = .ok := by
  cases answer <;> simp [answersOk]

/-- Nothing is served from an empty store. -/
example : answersOk (getTreeByTip (Store.empty : Store Sample.sdk) "did:a"
    (hexLower (Sample.leaf 1))) = false := by
  decide +kernel

theorem by_leaf_serves_own_pairs_ownLeavesRun :
    ∃ (r : Response Sample.sdk) (tip : Hash32) (idx : TipPairIndex),
      Sample.ownLeavesRun.store.tipToPair[tip]? = some idx ∧
        pairResponse Sample.ownLeavesRun.store idx = .ok r ∧
        idx.submitterDid = "did:a" ∧
        getTreeByTip Sample.ownLeavesRun.store "did:a" (hexLower tip) =
          .ok r := by
  have hrun : DistinctHashes Sample.ownLeavesRun.log ∧
      EachStep Store.empty KeepsCurrent Sample.ownLeavesRun.log ∧
      answersOk (getTreeByLeaf Sample.ownLeavesRun.store 3 "did:a"
        (hexLower (Sample.leaf 1)) (some "evm")) = true := by
    decide +kernel
  obtain ⟨hhashes, hcond, hroute⟩ := hrun
  obtain ⟨r, hroute, hr⟩ := answersOk_iff.mp hroute
  exact ⟨r, by_leaf_serves_own_pairs (.between (reachable_replay _)) hhashes
    hcond hroute hr⟩

/-- A served leaf is sealed again by another DID, while its provider refuses. -/
def Sample.takenLeafRun : World Sample.sdk :=
  .replay [.append [Sample.leaf 1] "did:a",
    Sample.cycle [.evm] 10 (Sample.honest "1"),
    .append [Sample.leaf 1] "did:b", Sample.cycle [.evm] 20 Sample.noProvider]

theorem exists_by_leaf_serves_other_did :
    ∃ w : World Sample.sdk, Visited Store.empty w ∧ DistinctHashes w.log ∧
      (∃ r, getTreeByLeaf w.store 3 "did:b" (hexLower (Sample.leaf 1))
        (some "evm") = .ok r ∧ r.status = .ok) ∧
      ∀ (tip : Hash32) (idx : TipPairIndex), w.store.tipToPair[tip]? = some idx →
        idx.submitterDid = "did:a" ∧
        (intoResponse (getTreeByTip w.store "did:b" (hexLower tip))).status =
          .forbidden := by
  have hrun : DistinctHashes Sample.takenLeafRun.log ∧
      answersOk (getTreeByLeaf Sample.takenLeafRun.store 3 "did:b"
        (hexLower (Sample.leaf 1)) (some "evm")) = true ∧
      ∀ pair ∈ Sample.takenLeafRun.store.tipToPair.toList,
        pair.2.submitterDid = "did:a" ∧
        (intoResponse (getTreeByTip Sample.takenLeafRun.store "did:b"
          (hexLower pair.1))).status = .forbidden := by
    decide +kernel
  obtain ⟨hhashes, hroute, hpairs⟩ := hrun
  refine ⟨_, .between (reachable_replay _), hhashes, answersOk_iff.mp hroute, ?_⟩
  intro tip idx hidx
  exact hpairs (tip, idx)
    (Std.ExtTreeMap.mem_toList_iff_getElem?_eq_some.mpr hidx)

/-! ## Who has a pair by tip has one by leaf -/

/-- The event keeps the owner of a leaf and the submitters of all its pairs the
same. -/
def KeepsAll (st : Store sdk) (ev : Event sdk) : Prop :=
  (∀ entry ∈ ev.sealedEntries, ∀ idx ∈ st.tipToPair.inOrder,
    idx.leaf = entry.leaf → idx.submitterDid = entry.submitterDid) ∧
  ∀ wit ∈ ev.servedWitnesses, st.leafOwner[wit.leaf]? = some wit.submitterDid

/-- The submitter of a pair owns its leaf. -/
def PairsOwned (st : Store sdk) : Prop :=
  ∀ (tip : Hash32) idx, st.tipToPair[tip]? = some idx →
    st.leafOwner[idx.leaf]? = some idx.submitterDid

theorem Reach.pairsOwned {w : World sdk} {j : Job sdk}
    (h : Reach Store.empty w j) :
    EachStep Store.empty KeepsAll w.log → PairsOwned w.store := by
  refine h.induct_steps (P := fun w => PairsOwned w.store) ?_ ?_
  · intro now durationSecs tip idx hidx
    simp [World.boot, Store.empty] at hidx
  · intro w j ev j' _ hev _ hcond ih tip idx hidx
    have hwritten := hev.written
    generalize (w.emit ev).store = st' at hwritten hidx ⊢
    cases hwritten with
    | unchanged => exact ih tip idx hidx
    | saved => exact ih tip idx hidx
    | sealed _ _ ho hsealed =>
        rw [hsealed.tipToPair] at hidx
        rw [hsealed.leafOwner]
        rcases putAll_cases w.store.leafOwner _ idx.leaf rfl with
          ⟨did, hsome, hmem⟩ | ⟨-, hprev⟩
        · obtain ⟨entry, hentry, heq⟩ := List.mem_map.mp hmem
          obtain ⟨hleaf, rfl⟩ := Prod.mk.inj heq
          have hsame := hcond.1 entry
            (by simpa [Event.sealedEntries, ho] using hentry) idx
            (mem_inOrder.mpr ⟨tip, hidx⟩) hleaf.symm
          rw [hsome, hsame]
        · rw [← hprev]
          exact ih tip idx hidx
    | served _ ho hserved =>
        rw [hserved.tipToPair] at hidx
        rw [hserved.leafOwner]
        rcases putAll_cases _ _ _ hidx with ⟨idx', hsome, hmem⟩ | ⟨-, hprev⟩
        · cases hsome
          obtain ⟨wit, hwit, heq⟩ := List.mem_map.mp hmem
          obtain ⟨-, rfl⟩ := Prod.mk.inj heq
          refine hcond.2 wit ?_
          simpa [Event.servedWitnesses, ho] using hwit
        · exact ih tip idx hprev

/-- In a run whose events keep leaf owners and pairs together, whoever is
served a tip is served its leaf and method too. -/
theorem by_tip_access_gives_by_leaf_access {w : World sdk}
    (hw : Visited Store.empty w) (hcond : EachStep Store.empty KeepsAll w.log)
    {did tipHex : String} {r : Response sdk}
    (hroute : getTreeByTip w.store did tipHex = .ok r) (hr : r.status = .ok)
    {tip : Hash32} {idx : TipPairIndex} (htip : parseHash32 tipHex = .ok tip)
    (hidx : w.store.tipToPair[tip]? = some idx) {m : AnchorMethod}
    (hm : idx.methodByte = m.methodByte) (maxAnchorFaults : UInt32)
    {leafHex methodStr : String} (hleafHex : parseHash32 leafHex = .ok idx.leaf)
    (hmethodStr : AnchorMethod.parse methodStr = some m) :
    ∃ r', getTreeByLeaf w.store maxAnchorFaults did leafHex (some methodStr) =
      .ok r' ∧ r'.status = .ok := by
  obtain ⟨j, hj⟩ := reach_of_visited hw
  have hlinked := hj.linked
  obtain ⟨tip', idx', htip', hidx', hdid, -, -⟩ := getTreeByTip_served hroute hr
  obtain rfl : tip' = tip := by
    rw [htip] at htip'
    exact (Except.ok.inj htip').symm
  obtain rfl : idx' = idx := by
    rw [hidx] at hidx'
    exact (Option.some.inj hidx').symm
  have howner := hj.pairsOwned hcond tip' idx' hidx
  rw [hdid] at howner
  -- The leaf has a current tip, which may be of a later epoch.
  obtain ⟨current, hcurrent⟩ := Option.isSome_iff_exists.mp
    (Std.ExtTreeMap.mem_iff_isSome_getElem?.mp (hlinked.current tip' idx' hidx))
  rw [hm] at hcurrent
  have hmem := hlinked.target _ _ hcurrent
  obtain ⟨pair, hpair⟩ := Option.isSome_iff_exists.mp
    (Std.ExtTreeMap.mem_iff_isSome_getElem?.mp hmem)
  have hchecked : w.store.isSelfChecked current = true :=
    Std.ExtTreeMap.mem_iff_contains.mp ((hlinked.checked current).mp hmem)
  obtain ⟨hobject, hsignature⟩ := hlinked.revisions current pair hpair
  obtain ⟨r', hr'⟩ := exists_pairResponse hobject hsignature
  refine ⟨r', ?_, pairResponse_status hr'⟩
  rw [getTreeByLeaf_of_pair hmethodStr hleafHex howner hcurrent hpair hchecked,
    hr']

instance decidableKeepsAll (st : Store sdk) (ev : Event sdk) :
    Decidable (KeepsAll st ev) :=
  inferInstanceAs (Decidable (_ ∧ _))

theorem by_tip_access_gives_by_leaf_access_ownLeavesRun :
    ∃ r', getTreeByLeaf Sample.ownLeavesRun.store 3 "did:a"
      (hexLower (Sample.leaf 1)) (some "evm") = .ok r' ∧ r'.status = .ok := by
  have hrun : EachStep Store.empty KeepsAll Sample.ownLeavesRun.log ∧
      ∃ pair ∈ Sample.ownLeavesRun.store.tipToPair.toList,
        pair.2.leaf = Sample.leaf 1 ∧
        pair.2.methodByte = AnchorMethod.evm.methodByte ∧
        answersOk (getTreeByTip Sample.ownLeavesRun.store "did:a"
          (hexLower pair.1)) = true := by
    decide +kernel
  obtain ⟨hcond, ⟨tip, idx⟩, hmem, hleaf, hmethod, hroute⟩ := hrun
  obtain ⟨r, hroute, hr⟩ := answersOk_iff.mp hroute
  have hidx := Std.ExtTreeMap.mem_toList_iff_getElem?_eq_some.mp hmem
  refine by_tip_access_gives_by_leaf_access (.between (reachable_replay _))
    hcond hroute hr (parseHash32_hexLower tip) hidx hmethod 3 ?_ rfl
  rw [show idx.leaf = Sample.leaf 1 from hleaf]
  exact parseHash32_hexLower _

theorem exists_by_tip_access_without_by_leaf_access :
    ∃ w : World Sample.sdk, Visited Store.empty w ∧
      ∃ (tip : Hash32) (idx : TipPairIndex) (r : Response Sample.sdk),
        w.store.tipToPair[tip]? = some idx ∧ idx.leaf = Sample.leaf 1 ∧
        idx.methodByte = AnchorMethod.evm.methodByte ∧
        getTreeByTip w.store "did:a" (hexLower tip) = .ok r ∧ r.status = .ok ∧
        (intoResponse (getTreeByLeaf w.store 3 "did:a"
          (hexLower (Sample.leaf 1)) (some "evm"))).status = .forbidden := by
  have hrun : (∃ pair ∈ Sample.takenLeafRun.store.tipToPair.toList,
        pair.2.leaf = Sample.leaf 1 ∧
        pair.2.methodByte = AnchorMethod.evm.methodByte ∧
        answersOk (getTreeByTip Sample.takenLeafRun.store "did:a"
          (hexLower pair.1)) = true) ∧
      (intoResponse (getTreeByLeaf Sample.takenLeafRun.store 3 "did:a"
        (hexLower (Sample.leaf 1)) (some "evm"))).status = .forbidden := by
    decide +kernel
  obtain ⟨⟨⟨tip, idx⟩, hmem, hleaf, hmethod, hroute⟩, hrefused⟩ := hrun
  obtain ⟨r, hroute, hr⟩ := answersOk_iff.mp hroute
  exact ⟨_, .between (reachable_replay _), tip, idx, r,
    Std.ExtTreeMap.mem_toList_iff_getElem?_eq_some.mp hmem, hleaf, hmethod,
    hroute, hr, hrefused⟩

end AquaTimestamp
