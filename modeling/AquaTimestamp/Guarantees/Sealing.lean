import AquaTimestamp.Model.Sample
import AquaTimestamp.Settlement.Serving

/-!
# Sealed epochs

An epoch is stored under a fresh id, with one key per leaf that starts with
that id.  Nothing is ever written under the id again, so the record and the
leaves of a sealed epoch stay what the seal wrote, and a scan over the id's
keys reads back exactly the sealed leaves.  The last id is the exception: it
is opened again after it was sealed.
-/

namespace AquaTimestamp

open Support Partition

variable {sdk : Sdk}

/-! ## Reading the leaves of an epoch back -/

section Scan

variable {st : Store sdk} {e e' : Nat} {leaf leaf' : Hash32}

theorem lt_of_le_u64Max (h : e ≤ u64Max) : e < 256 ^ 8 := by
  have hmax : u64Max < 256 ^ 8 := by decide
  omega

@[simp]
theorem length_composeLeavesKey :
    (composeLeavesKey e leaf).length = epochLeavesKeyLen := by
  simp [composeLeavesKey, toBeBytes, epochLeavesKeyLen]

@[simp]
theorem drop_composeLeavesKey :
    (composeLeavesKey e leaf).drop 8 = leaf.toList := by
  simp [composeLeavesKey, toBeBytes]

/-- A composed key determines the epoch and the leaf. -/
theorem composeLeavesKey_injective (he : e ≤ u64Max) (he' : e' ≤ u64Max)
    (h : composeLeavesKey e leaf = composeLeavesKey e' leaf') :
    e = e' ∧ leaf = leaf' := by
  constructor
  · refine BigEndian.bytes_injective (lt_of_le_u64Max he) (lt_of_le_u64Max he') ?_
    have htake := congrArg (List.take 8) h
    simpa [composeLeavesKey, toBeBytes] using htake
  · have hdrop := congrArg (List.drop 8) h
    rw [drop_composeLeavesKey, drop_composeLeavesKey] at hdrop
    exact Vector.toList_inj.mp hdrop

example : composeLeavesKey 258 (Sample.leaf 7) =
    [0, 0, 0, 0, 0, 0, 1, 2] ++ List.replicate 32 7 := by
  decide +kernel

/-- The ids of stored leaves are `u64`s. -/
def Store.LeafIds (st : Store sdk) : Prop :=
  ∀ (e : Nat) (leaf : Hash32) (did : String),
    st.epochLeaves[(e, leaf)]? = some did → e ≤ u64Max

/-- The byte keys hold the same entries as the pairs. -/
theorem mem_epochLeavesBytes (hids : st.LeafIds) {key : List UInt8}
    {did : String} :
    (key, did) ∈ st.epochLeavesBytes.toList ↔
      ∃ e leaf, key = composeLeavesKey e leaf ∧
        st.epochLeaves[(e, leaf)]? = some did := by
  have hentries : ∀ key did, (key, did) ∈ (st.epochLeaves.toList.map fun x =>
      (composeLeavesKey x.1.1 x.1.2, x.2)) ↔
        ∃ e leaf, key = composeLeavesKey e leaf ∧
          st.epochLeaves[(e, leaf)]? = some did := by
    intro key did
    rw [List.mem_map]
    constructor
    · rintro ⟨⟨⟨e, leaf⟩, did'⟩, hmem, heq⟩
      obtain ⟨rfl, rfl⟩ := Prod.mk.inj heq
      exact ⟨e, leaf, rfl,
        Std.ExtTreeMap.mem_toList_iff_getElem?_eq_some.mp hmem⟩
    · rintro ⟨e, leaf, rfl, hget⟩
      exact ⟨((e, leaf), did),
        Std.ExtTreeMap.mem_toList_iff_getElem?_eq_some.mpr hget, rfl⟩
  rw [Std.ExtTreeMap.mem_toList_iff_getElem?_eq_some, Store.epochLeavesBytes]
  constructor
  · intro hget
    rcases putAll_cases _ _ _ hget with ⟨did', hsome, hmem⟩ | ⟨-, hnone⟩
    · cases hsome
      exact (hentries key did).mp hmem
    · simp at hnone
  · rintro ⟨e, leaf, rfl, hget⟩
    refine putAll_of_mem_unique ((hentries _ _).mpr ⟨e, leaf, rfl, hget⟩) ?_
    intro did' hmem
    obtain ⟨e', leaf', hkey, hget'⟩ := (hentries _ _).mp hmem
    obtain ⟨rfl, rfl⟩ := composeLeavesKey_injective (hids _ _ _ hget)
      (hids _ _ _ hget') hkey
    rw [hget] at hget'
    cases hget'
    rfl

/-- A common start does not decide the byte order. -/
theorem compare_append_left (start a b : List UInt8) :
    compare (start ++ a) (start ++ b) = compare a b := by
  induction start with
  | nil => rfl
  | cons x start ih =>
      rw [List.cons_append, List.cons_append, List.compare_eq_compareLex,
        List.compareLex_cons_cons, ← List.compare_eq_compareLex, ih,
        Std.ReflOrd.compare_self, Ordering.eq_then]

/-- A scan over an epoch gives its leaves in increasing byte order. -/
theorem listEpochLeaves_eq_ok (hids : st.LeafIds) (he : e ≤ u64Max) :
    ∃ result, st.listEpochLeaves e = .ok result ∧
      result.Pairwise (fun a b => compare a.1 b.1 = .lt) ∧
      ∀ key did, (key, did) ∈ result ↔
        ∃ leaf : Hash32, key = leaf.toList ∧
          st.epochLeaves[(e, leaf)]? = some did := by
  have hscanned : ∀ kv, kv ∈ (st.epochLeavesBytes.toList.filter fun kv =>
      (toBeBytes e).isPrefixOf kv.1) ↔
        ∃ leaf, kv.1 = composeLeavesKey e leaf ∧
          st.epochLeaves[(e, leaf)]? = some kv.2 := by
    rintro ⟨key, did⟩
    rw [List.mem_filter, mem_epochLeavesBytes hids]
    constructor
    · rintro ⟨⟨e', leaf, rfl, hget⟩, hstart⟩
      have heq := (BigEndian.bytes_isPrefixOf (lt_of_le_u64Max he)
        (lt_of_le_u64Max (hids _ _ _ hget)) leaf.toList).mp hstart
      subst heq
      exact ⟨leaf, rfl, hget⟩
    · rintro ⟨leaf, rfl, hget⟩
      refine ⟨⟨e, leaf, rfl, hget⟩, ?_⟩
      exact (BigEndian.bytes_isPrefixOf (lt_of_le_u64Max he) (lt_of_le_u64Max he)
        leaf.toList).mpr rfl
  refine ⟨(st.epochLeavesBytes.toList.filter fun kv =>
      (toBeBytes e).isPrefixOf kv.1).map fun kv => (kv.1.drop 8, kv.2),
    mapM_eq_ok_iff.mpr (List.forall₂_map_right_iff.mpr
      (List.forall₂_same.mpr fun kv hkv => ?_)), ?_, ?_⟩
  · obtain ⟨leaf, hkey, -⟩ := (hscanned kv).mp hkv
    rw [hkey, length_composeLeavesKey, if_neg (not_not.mpr rfl)]
  · -- The keys share their first bytes, so their order is that of the rest.
    refine List.pairwise_map.mpr ?_
    have hordered := Std.ExtTreeMap.ordered_keys_toList (t := st.epochLeavesBytes)
    refine (hordered.filter _).imp_of_mem ?_
    intro a b ha hb hlt
    obtain ⟨leaf, hkey, -⟩ := (hscanned a).mp ha
    obtain ⟨leaf', hkey', -⟩ := (hscanned b).mp hb
    rw [hkey, hkey'] at hlt ⊢
    rw [composeLeavesKey, composeLeavesKey, compare_append_left] at hlt
    rw [drop_composeLeavesKey, drop_composeLeavesKey]
    exact hlt
  · intro key did
    rw [List.mem_map]
    constructor
    · rintro ⟨kv, hkv, heq⟩
      obtain ⟨leaf, hkey, hget⟩ := (hscanned kv).mp hkv
      obtain ⟨rfl, rfl⟩ := Prod.mk.inj heq
      exact ⟨leaf, by rw [hkey, drop_composeLeavesKey], hget⟩
    · rintro ⟨leaf, rfl, hget⟩
      refine ⟨(composeLeavesKey e leaf, did), (hscanned _).mpr ⟨leaf, rfl, hget⟩, ?_⟩
      rw [drop_composeLeavesKey]

end Scan

/-! ## What a run seals -/

/-- After the history `l`, the epoch `record` was committed with `leaves`. -/
def SealedBy (log l : List (Event sdk)) (record : EpochRecord)
    (leaves : List LeafEntry) : Prop :=
  ∃ (witnesses : List (MintedWitness sdk)) (pending : Option (PendingEpoch sdk))
    (o : WriteOutcome), o.committed = true ∧
      .call (.persistSealedEpoch record leaves witnesses pending) o :: l <:+ log

/-- The epoch closed as `snapshot` in the history. -/
def ClosedAs (log : List (Event sdk)) (snapshot : SealedSnapshot) : Prop :=
  ∃ (closedAt openedAt durationSecs : Nat) (l : List (Event sdk)),
    .call (.swapAndOpenNext closedAt openedAt durationSecs) snapshot :: l <:+ log

theorem SealedBy.mono {log log' l : List (Event sdk)} {record : EpochRecord}
    {leaves : List LeafEntry} (h : SealedBy log l record leaves)
    (hlog : log <:+ log') : SealedBy log' l record leaves := by
  obtain ⟨witnesses, pending, o, ho, hl⟩ := h
  exact ⟨witnesses, pending, o, ho, hl.trans hlog⟩

theorem ClosedAs.mono {log log' : List (Event sdk)} {snapshot : SealedSnapshot}
    (h : ClosedAs log snapshot) (hlog : log <:+ log') :
    ClosedAs log' snapshot := by
  obtain ⟨closedAt, openedAt, durationSecs, l, hl⟩ := h
  exact ⟨closedAt, openedAt, durationSecs, l, hl.trans hlog⟩

section Runs

variable {st : Store sdk} {w : World sdk} {j : Job sdk} {e : Nat}

/-- The snapshot a job is sealing came out of the accumulator. -/
theorem Reach.closedAs (h : Reach st w j) :
    ∀ snapshot, j.closes = some snapshot → ClosedAs w.log snapshot := by
  induction h with
  | boot | restart | tick | refuse | plain | list | visit | settle | leave
  | fail | finish =>
      rintro snapshot ⟨⟩
  | append batch did _ ih =>
      exact fun snapshot hcloses =>
        (ih snapshot hcloses).mono (List.suffix_cons _ _)
  | swap _ _ =>
      rintro snapshot ⟨⟩
      exact ⟨_, _, _, _, List.suffix_refl _⟩
  | prepare _ _ ih =>
      rintro snapshot ⟨⟩
      exact (ih _ rfl).mono (List.suffix_cons _ _)
  | persist =>
      intro snapshot hcloses
      rw [closes_persisted] at hcloses
      cases hcloses

theorem buildRecord_leafCount {snapshot : SealedSnapshot}
    {batch : Option (EpochBatch sdk)} {record : EpochRecord}
    (h : buildRecord snapshot batch = .ok record) :
    record.leafCount = snapshot.leaves.length := by
  cases batch with
  | none =>
      cases h
      rfl
  | some batch =>
      simp only [buildRecord, Except.map] at h
      split at h
      · cases h
      · cases h
        rfl

/-- What is known of the world just before a committed seal. -/
theorem Reach.sealedBy (h : Reach st w j) {l : List (Event sdk)}
    {record : EpochRecord} {leaves : List LeafEntry}
    (hsealed : SealedBy w.log l record leaves) :
    ∃ (w₀ : World sdk) (j₀ : Job sdk) (snapshot : SealedSnapshot),
      Reach st w₀ j₀ ∧ w₀.log = l ∧ j₀.closes = some snapshot ∧
        leaves = snapshot.leaves ∧ record.id = snapshot.epochId ∧
        record.leafCount = snapshot.leaves.length := by
  obtain ⟨witnesses, pending, o, -, hl⟩ := hsealed
  obtain ⟨w₀, j₀, hw₀, hlog, -, hev⟩ := h.called hl
  cases hev with
  | mint _ hminting => cases hminting
  | persist _ hrecord _ =>
      exact ⟨w₀, _, _, hw₀, hlog, rfl, rfl, buildRecord_id hrecord,
        buildRecord_leafCount hrecord⟩

/-- A committed seal stores its epoch. -/
theorem Reach.sealedBy_stored (h : Reach st w j) {l : List (Event sdk)}
    {record : EpochRecord} {leaves : List LeafEntry}
    (hsealed : SealedBy w.log l record leaves) : record.id ∈ w.store.epochs := by
  obtain ⟨witnesses, pending, o, ho, hl⟩ := hsealed
  obtain ⟨w₀, j₀, hw₀, rfl, -, hev⟩ := h.called hl
  refine h.induct_since (P := fun st' => record.id ∈ st'.epochs) ?_
    (fun w j ev _ hev ih => hev.epochs_kept ih) hl
  rw [storeOf_cons, ← hw₀.store_eq, ← hev.store_eq]
  cases hev with
  | mint _ hminting => cases hminting
  | persist _ _ hperm =>
      rw [store_emit_call]
      rcases after_seal hperm with ⟨hno, -⟩ | ⟨-, hwrite⟩
      · rw [hno] at ho
        cases ho
      · rw [hwrite.epochs]
        exact Std.ExtTreeMap.mem_insert_self

/-- The id of a seal is past every id sealed before it, below `u64::MAX`. -/
theorem Reach.seal_order (hst : st.Indexed) (h : Reach st w j)
    {l l' : List (Event sdk)} {record record' : EpochRecord}
    {leaves leaves' : List LeafEntry}
    (hlater : SealedBy w.log l record leaves)
    (hbefore : SealedBy l l' record' leaves') (hid : record'.id < u64Max) :
    record'.id < record.id := by
  obtain ⟨w₀, j₀, snapshot, hw₀, rfl, hcloses, -, hrecord, -⟩ :=
    h.sealedBy hlater
  have hstored := hw₀.sealedBy_stored hbefore
  have hpast := (hw₀.grounded hst).past _ hstored
  simp only [Job.nextId, hcloses] at hpast
  omega

/-- The record of a sealed epoch is not written again. -/
theorem Reach.epoch_step (hst : st.Indexed) (h : Reach st w j)
    {ev : Event sdk} (hev : Emits w j ev) (he : e < u64Max)
    {record : EpochRecord} (hrecord : w.store.epochs[e]? = some record) :
    (w.emit ev).store.epochs[e]? = some record := by
  have hwritten := hev.written
  generalize (w.emit ev).store = st' at hwritten
  cases hwritten with
  | unchanged | saved => exact hrecord
  | served _ _ hserved =>
      rw [hserved.epochs]
      exact hrecord
  | @sealed ctx now durationSecs down snapshot prepared batch record' o st' _
      hbuild _ hwrite =>
      have hne : record'.id ≠ e := by
        rw [buildRecord_id hbuild]
        rintro rfl
        refine (h.grounded hst).fresh rfl he ?_
        rw [Std.ExtTreeMap.mem_iff_isSome_getElem?, hrecord]
        rfl
      rw [hwrite.epochs, getElem?_put, if_neg hne]
      exact hrecord

/-- A sealed epoch, as the history sealed it. -/
structure SealedAs (w : World sdk) (e : Nat) (record : EpochRecord)
    (l : List (Event sdk)) (snapshot : SealedSnapshot) : Prop where
  closed : ClosedAs l snapshot
  written : SealedBy w.log l record snapshot.leaves
  id : snapshot.epochId = e
  recordId : record.id = e
  leafCount : record.leafCount = snapshot.leaves.length
  covers : Covers w.store e snapshot.leaves

/-- Every stored epoch below `u64::MAX` is the snapshot it was sealed as. -/
theorem Reach.sealedAs (h : Reach Store.empty w j) (he : e < u64Max) :
    ∀ record, w.store.epochs[e]? = some record →
      ∃ l snapshot, SealedAs w e record l snapshot := by
  have hst : (Store.empty : Store sdk).Indexed := indexed_empty
  refine h.induct (P := fun w => ∀ record, w.store.epochs[e]? = some record →
    ∃ l snapshot, SealedAs w e record l snapshot) ?_ ?_
  · intro now durationSecs record hrecord
    simp [World.boot, Store.empty] at hrecord
  · intro w j ev hw hev ih record hrecord
    cases hold : w.store.epochs[e]? with
    | some record' =>
        have hkept := hw.epoch_step hst hev he hold
        rw [hrecord] at hkept
        cases hkept
        have hin : e ∈ w.store.epochs := by
          rw [Std.ExtTreeMap.mem_iff_isSome_getElem?, hold]
          rfl
        obtain ⟨l, snapshot, hsealed⟩ := ih record hold
        refine ⟨l, snapshot, hsealed.closed, ?_, hsealed.id, hsealed.recordId,
          hsealed.leafCount, hsealed.covers.nodup, fun leaf did => ?_⟩
        · rw [hev.log_eq]
          exact hsealed.written.mono (List.suffix_cons _ _)
        · rw [hw.leaves_step hst hev he hin leaf]
          exact hsealed.covers.leaves leaf did
    | none =>
        have hlog := hev.log_eq
        have hclosed := hw.closedAs
        have hg := hw.grounded hst
        have hwritten := hev.written
        generalize hst' : (w.emit ev).store = st' at hwritten hrecord
        cases hwritten with
        | unchanged | saved => cases hold.symm.trans hrecord
        | served _ _ hserved =>
            rw [hserved.epochs, hold] at hrecord
            cases hrecord
        | @sealed ctx now durationSecs down snapshot prepared batch record' o
            st' _ hbuild ho hwrite =>
            rw [hwrite.epochs, getElem?_put, hold] at hrecord
            split at hrecord
            · rename_i hid
              cases hrecord
              have hfresh : record.id ∉ w.store.epochs := by
                rw [hid, Std.ExtTreeMap.mem_iff_isSome_getElem?, hold]
                exact Bool.false_ne_true
              refine ⟨w.log, snapshot, hclosed snapshot rfl, ?_,
                (buildRecord_id hbuild).symm.trans hid, hid,
                buildRecord_leafCount hbuild, ?_⟩
              · rw [hlog]
                exact ⟨_, _, o, ho, List.suffix_refl _⟩
              · have hcovers := hwrite.covers hg.store (hg.closes _ rfl).1 hfresh
                rw [hid] at hcovers
                rw [hst']
                exact hcovers
            · cases hrecord

theorem Store.Indexed.leafIds (h : st.Indexed) : st.LeafIds :=
  fun e leaf did hleaf => h.ids e (h.leaves e leaf did hleaf)

/-- A scan over an epoch returns the leaves the epoch was sealed with. -/
theorem listEpochLeaves_of_covers (hst : st.Indexed) (he : e ≤ u64Max)
    {leaves : List LeafEntry} (hcovers : Covers st e leaves) :
    ∃ result, st.listEpochLeaves e = .ok result ∧
      result.Perm (leaves.map fun x => (x.leaf.toList, x.submitterDid)) ∧
      result.Pairwise (fun a b => compare a.1 b.1 = .lt) := by
  obtain ⟨result, hresult, hordered, hmem⟩ :=
    listEpochLeaves_eq_ok hst.leafIds he
  refine ⟨result, hresult, ?_, hordered⟩
  refine (List.perm_ext_iff_of_nodup ?_ ?_).mpr ?_
  · refine hordered.imp fun {a b} hlt heq => ?_
    rw [heq, Std.ReflOrd.compare_self] at hlt
    cases hlt
  · refine hcovers.nodup.of_map.map_on ?_
    intro x hx y hy heq
    obtain ⟨hleaf, -⟩ := Prod.mk.inj heq
    exact List.inj_on_of_nodup_map hcovers.nodup hx hy
      (Vector.toList_inj.mp hleaf)
  · rintro ⟨key, did⟩
    rw [hmem, List.mem_map]
    constructor
    · rintro ⟨leaf, rfl, hget⟩
      exact ⟨⟨leaf, did⟩, (hcovers.leaves leaf did).mp hget, rfl⟩
    · rintro ⟨⟨leaf, did'⟩, hx, heq⟩
      obtain ⟨rfl, rfl⟩ := Prod.mk.inj heq
      exact ⟨leaf, rfl, (hcovers.leaves leaf did').mpr hx⟩

end Runs

/-! ## Sealed epochs are immutable and separated -/

/-- In every state of a run from an empty store: the ids of committed seals
strictly increase below `u64::MAX`; the record and the leaves stored under an id
below `u64::MAX` are never changed; and a scan over the leaves of such an epoch
returns exactly the pairs of the snapshot that was closed and sealed under its
id, each once, in increasing byte order and as many as the record counts. -/
theorem sealed_epochs_immutable_and_separated {w : World sdk}
    (hw : Visited Store.empty w) :
    (∀ l l' record record' leaves leaves', SealedBy w.log l record leaves →
      SealedBy l l' record' leaves' → record'.id < u64Max →
        record'.id < record.id) ∧
    (∀ l, l <:+ w.log → ∀ e < u64Max,
      (∀ record, (storeOf Store.empty l).epochs[e]? = some record →
        w.store.epochs[e]? = some record) ∧
      ∀ (leaf : Hash32) did,
        (storeOf Store.empty l).epochLeaves[(e, leaf)]? = some did →
          w.store.epochLeaves[(e, leaf)]? = some did) ∧
    ∀ e < u64Max, ∀ record, w.store.epochs[e]? = some record →
      ∃ l snapshot result, ClosedAs l snapshot ∧
        SealedBy w.log l record snapshot.leaves ∧
        snapshot.epochId = e ∧ record.id = e ∧
        w.store.listEpochLeaves e = .ok result ∧
        result.Perm
          (snapshot.leaves.map fun x => (x.leaf.toList, x.submitterDid)) ∧
        result.Pairwise (fun a b => compare a.1 b.1 = .lt) ∧
        result.length = record.leafCount := by
  obtain ⟨j, hj⟩ := reach_of_visited hw
  have hst : (Store.empty : Store sdk).Indexed := indexed_empty
  refine ⟨?_, ?_, ?_⟩
  · intro l l' record record' leaves leaves' hlater hbefore hid
    exact hj.seal_order hst hlater hbefore hid
  · intro l hl e he
    constructor
    · intro record hrecord
      exact hj.induct_since (P := fun st' => st'.epochs[e]? = some record)
        hrecord (fun w j ev hw hev ih => hw.epoch_step hst hev he ih) hl
    · intro leaf did hleaf
      have hthen : e ∈ (storeOf Store.empty l).epochs := by
        rcases hj.earlier hl with rfl | ⟨w₀, j₀, hw₀, rfl⟩
        · exact hst.leaves e leaf did hleaf
        · rw [← hw₀.store_eq] at hleaf ⊢
          exact (hw₀.grounded hst).store.leaves e leaf did hleaf
      rw [(hj.leaves_run hst he hl hthen leaf).2]
      exact hleaf
  · intro e he record hrecord
    obtain ⟨l, snapshot, hsealed⟩ := hj.sealedAs he record hrecord
    obtain ⟨result, hresult, hperm, hordered⟩ := listEpochLeaves_of_covers
      (hj.grounded hst).store (le_of_lt he) hsealed.covers
    refine ⟨l, snapshot, result, hsealed.closed, hsealed.written, hsealed.id,
      hsealed.recordId, hresult, hperm, hordered, ?_⟩
    rw [hperm.length_eq, List.length_map, hsealed.leafCount]

/-- Two epochs are sealed, with a restart between them. -/
def Sample.twoEpochs : World Sample.sdk :=
  .replay [.append [Sample.leaf 3, Sample.leaf 1] "did:a",
    .append [Sample.leaf 2] "did:b",
    Sample.cycle [.evm] 10 Sample.noProvider,
    .restart 15 10,
    .append [Sample.leaf 1] "did:c",
    Sample.cycle [.evm] 20 Sample.noProvider]

theorem sealed_epochs_immutable_and_separated_twoEpochs :
    ∃ result, Sample.twoEpochs.store.listEpochLeaves 1 = .ok result ∧
      result.length = 3 ∧
      result.Pairwise (fun a b => compare a.1 b.1 = .lt) := by
  have hrun : (Sample.twoEpochs.store.epochs[1]?.map EpochRecord.leafCount) =
      some 3 := by
    decide +kernel
  obtain ⟨record, hrecord, hcount⟩ := Option.map_eq_some_iff.mp hrun
  have hall := sealed_epochs_immutable_and_separated
    (.between (reachable_replay _)) (w := Sample.twoEpochs)
  obtain ⟨l, snapshot, result, -, -, -, -, hresult, -, hordered, hlength⟩ :=
    hall.2.2 1 (by decide) record hrecord
  exact ⟨result, hresult, hlength.trans hcount, hordered⟩

/-- The last id is sealed, and the same leaf is submitted again by another. -/
def Sample.sealedLast : List (Move Sample.sdk) :=
  [.append [Sample.leaf 1] "did:a", Sample.cycle [.evm] 10 Sample.noProvider]

def Sample.sealedLastAgain : List (Move Sample.sdk) :=
  [.append [Sample.leaf 1] "did:b", Sample.cycle [.evm] 20 Sample.noProvider]

theorem exists_sealed_leaf_changed :
    ∃ w : World Sample.sdk, Visited Store.empty w ∧
      Visited Store.empty (w.playAll Sample.sealedLastAgain) ∧
      w.store.epochLeaves[(u64Max, Sample.leaf 1)]? = some "did:a" ∧
      (w.playAll Sample.sealedLastAgain).store.epochLeaves[(u64Max,
        Sample.leaf 1)]? = some "did:b" := by
  obtain ⟨w, past, hreach, hidle, htwin⟩ := exists_lastEpoch Sample.sdk
  have hmoves : (∀ move ∈ Sample.sealedLast, move.keepsProcess = true) ∧
      ∀ move ∈ Sample.sealedLastAgain, move.keepsProcess = true := by
    decide
  have hfirst := htwin.playAll hmoves.1
  have hagain := hfirst.playAll hmoves.2
  obtain ⟨epochs, hstore⟩ := hfirst.store
  obtain ⟨epochs', hstore'⟩ := hagain.store
  have hrun : ((lastEpoch Sample.sdk).playAll
        Sample.sealedLast).store.epochLeaves[(u64Max, Sample.leaf 1)]? =
          some "did:a" ∧
      (((lastEpoch Sample.sdk).playAll Sample.sealedLast).playAll
        Sample.sealedLastAgain).store.epochLeaves[(u64Max, Sample.leaf 1)]? =
          some "did:b" := by
    decide +kernel
  refine ⟨w.playAll Sample.sealedLast, .between (hreach.playAll _),
    .between ((hreach.playAll _).playAll _), ?_, ?_⟩
  · rw [hstore]
    exact hrun.1
  · rw [hstore']
    exact hrun.2

end AquaTimestamp
