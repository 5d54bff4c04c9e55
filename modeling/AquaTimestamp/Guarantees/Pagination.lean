import AquaTimestamp.Model.EpochList
import AquaTimestamp.Model.Sample
import AquaTimestamp.Settlement.Identity
import AquaTimestamp.Support.Paging

/-!
# Reading the epoch list page by page

A client follows the cursor of the epoch list while the server goes on
sealing.  The pages are the list of the store the first page was read from,
cut at the limits: epochs sealed meanwhile are above every cursor.
-/

namespace AquaTimestamp

open Support Partition

variable {sdk : Sdk}

/-- Epoch records are stored under their own ids, which are `u64`s. -/
def Store.KeyedById (st : Store sdk) : Prop :=
  ∀ e record, st.epochs[e]? = some record → record.id = e ∧ e ≤ u64Max

/-- Where the epochs of `st'` differ from those of `st`, no epoch of `st` is
above. -/
def Store.GrowsOnTop (st st' : Store sdk) : Prop :=
  ∀ e, st'.epochs[e]? ≠ st.epochs[e]? → ∀ e' ∈ st.epochs, e' ≤ e

/-- A client reads pages until the cursor is absent; page `i` is read from
`stores i` with the limit `limits i`. -/
inductive FollowsCursor (stores : Nat → Store sdk) (limits : Nat → Option Nat) :
    Nat → Option Nat → List (List EpochListItem) → Prop where
  | last {i : Nat} {start : Option Nat} :
      (listEpochs (stores i) ⟨start, limits i⟩).next = none →
        FollowsCursor stores limits i start
          [(listEpochs (stores i) ⟨start, limits i⟩).epochs]
  | more {i cursor : Nat} {start : Option Nat}
      {pages : List (List EpochListItem)} :
      (listEpochs (stores i) ⟨start, limits i⟩).next = some cursor →
      FollowsCursor stores limits (i + 1) (some cursor) pages →
        FollowsCursor stores limits i start
          ((listEpochs (stores i) ⟨start, limits i⟩).epochs :: pages)

/-! ## The list below a bound -/

section List

variable {st st' : Store sdk} {upper : Nat}

theorem descending_epochsDownFrom (hkeyed : st.KeyedById) :
    Paging.Descending EpochRecord.id (st.epochsDownFrom upper) := by
  rw [Paging.Descending, Store.epochsDownFrom, List.pairwise_reverse,
    List.pairwise_map]
  have hordered := (Std.ExtTreeMap.ordered_keys_toList (t := st.epochs)).filter
    (fun kv => kv.1 ≤ upper)
  refine hordered.imp_of_mem fun {a b} ha hb hlt => ?_
  have hid : ∀ kv ∈ st.epochs.toList.filter (fun kv => kv.1 ≤ upper),
      kv.2.id = kv.1 := by
    intro kv hkv
    exact (hkeyed kv.1 kv.2 (Std.ExtTreeMap.mem_toList_iff_getElem?_eq_some.mp
      (List.mem_filter.mp hkv).1)).1
  rw [hid a ha, hid b hb]
  exact Nat.compare_eq_lt.mp hlt

/-- Stores with the same epochs up to a bound have the same list below it. -/
theorem epochsDownFrom_congr (hkeyed : st.KeyedById) (hkeyed' : st'.KeyedById)
    (hsame : ∀ e ≤ upper, st'.epochs[e]? = st.epochs[e]?) :
    st'.epochsDownFrom upper = st.epochsDownFrom upper := by
  refine (descending_epochsDownFrom hkeyed').ext
    (descending_epochsDownFrom hkeyed) fun record => ?_
  rw [Store.mem_epochsDownFrom, Store.mem_epochsDownFrom]
  constructor
  · rintro ⟨e, hle, hget⟩
    exact ⟨e, hle, (hsame e hle).symm.trans hget⟩
  · rintro ⟨e, hle, hget⟩
    exact ⟨e, hle, (hsame e hle).trans hget⟩

/-- The list below a cursor is the rest of the list it was read off. -/
theorem epochsDownFrom_cursor (hkeyed : st.KeyedById) {limit : Nat}
    {record : EpochRecord} {rest : List EpochRecord}
    (hdrop : (st.epochsDownFrom upper).drop limit = record :: rest) :
    st.epochsDownFrom record.id = record :: rest := by
  have hdown : Paging.Descending EpochRecord.id (st.epochsDownFrom upper) :=
    descending_epochsDownFrom hkeyed
  rw [← hdown.filter_le hdrop]
  refine (descending_epochsDownFrom hkeyed).ext (hdown.filter _) fun record' => ?_
  have hrecord : record ∈ st.epochsDownFrom upper :=
    List.mem_of_mem_drop (hdrop ▸ List.mem_cons_self ..)
  obtain ⟨e, hle, hget⟩ := Store.mem_epochsDownFrom.mp hrecord
  rw [List.mem_filter, Store.mem_epochsDownFrom, Store.mem_epochsDownFrom,
    decide_eq_true_eq, (hkeyed e record hget).1]
  constructor
  · rintro ⟨e', hle', hget'⟩
    exact ⟨⟨e', hle'.trans hle, hget'⟩, by rw [(hkeyed e' record' hget').1]; exact hle'⟩
  · rintro ⟨⟨e', -, hget'⟩, hid⟩
    rw [(hkeyed e' record' hget').1] at hid
    exact ⟨e', hid, hget'⟩

/-- After a page with a record on it, growth on top leaves the rest alone. -/
theorem epochsDownFrom_grown (hkeyed : st.KeyedById) (hkeyed' : st'.KeyedById)
    (hgrows : st.GrowsOnTop st') {limit : Nat} (hpos : 0 < limit)
    {record : EpochRecord} {rest : List EpochRecord}
    (hdrop : (st.epochsDownFrom upper).drop limit = record :: rest) :
    st'.epochsDownFrom record.id = st.epochsDownFrom record.id := by
  obtain ⟨above, hmem, hlt⟩ :=
    (descending_epochsDownFrom hkeyed).lt_head hpos hdrop
  obtain ⟨e', -, hget⟩ := Store.mem_epochsDownFrom.mp hmem
  refine epochsDownFrom_congr hkeyed hkeyed' fun e hle => ?_
  by_contra hdiffers
  have hstored : e' ∈ st.epochs := by
    rw [Std.ExtTreeMap.mem_iff_isSome_getElem?, hget]
    rfl
  have hbelow := hgrows e hdiffers e' hstored
  rw [(hkeyed e' above hget).1] at hlt
  omega

end List

/-! ## The pages -/

section Pages

variable {stores : Nat → Store sdk} {limits : Nat → Option Nat}

theorem listEpochs_epochs (st : Store sdk) (start limit : Option Nat) :
    (listEpochs st ⟨start, limit⟩).epochs =
      ((st.epochsDownFrom (start.getD u64Max)).take (pageLimit limit)).map
        EpochRecord.listItem := by
  simp only [listEpochs, Store.listEpochsDesc_eq (pageLimit_pos limit)]

theorem listEpochs_next (st : Store sdk) (start limit : Option Nat) :
    (listEpochs st ⟨start, limit⟩).next =
      (((st.epochsDownFrom (start.getD u64Max)).drop (pageLimit limit)).head?).map
        EpochRecord.id := by
  simp only [listEpochs, Store.listEpochsDesc_eq (pageLimit_pos limit)]

section Follow

variable (hkeyed : ∀ i, (stores i).KeyedById)
variable (hgrows : ∀ i, (stores 0).GrowsOnTop (stores i))
include hkeyed hgrows

/-- A page with a cursor is full, and the next page reads the rest of the list
of the first store. -/
theorem next_page {i : Nat} {start : Option Nat} {cursor : Nat}
    (hsame : (stores i).epochsDownFrom (start.getD u64Max) =
      (stores 0).epochsDownFrom (start.getD u64Max))
    (hcursor : (listEpochs (stores i) ⟨start, limits i⟩).next = some cursor) :
    pageLimit (limits i) <
        ((stores 0).epochsDownFrom (start.getD u64Max)).length ∧
      (stores (i + 1)).epochsDownFrom cursor =
        (stores 0).epochsDownFrom cursor ∧
      (stores 0).epochsDownFrom cursor =
        ((stores 0).epochsDownFrom (start.getD u64Max)).drop
          (pageLimit (limits i)) := by
  rw [listEpochs_next, hsame, Option.map_eq_some_iff] at hcursor
  obtain ⟨record, hhead, rfl⟩ := hcursor
  obtain ⟨rest, hdrop⟩ := List.head?_eq_some_iff.mp hhead
  refine ⟨?_, ?_, ?_⟩
  · by_contra hshort
    rw [List.drop_eq_nil_of_le (by omega)] at hdrop
    cases hdrop
  · exact epochsDownFrom_grown (hkeyed 0) (hkeyed (i + 1)) (hgrows (i + 1))
      (pageLimit_pos _) hdrop
  · rw [hdrop, epochsDownFrom_cursor (hkeyed 0) hdrop]

/-- The pages of a reader are the list of the first store, cut at the limits. -/
theorem FollowsCursor.cut {i : Nat} {start : Option Nat}
    {pages : List (List EpochListItem)}
    (h : FollowsCursor stores limits i start pages)
    (hsame : (stores i).epochsDownFrom (start.getD u64Max) =
      (stores 0).epochsDownFrom (start.getD u64Max)) :
    ∃ cut, Paging.Pages (fun j => pageLimit (limits j)) i
        ((stores 0).epochsDownFrom (start.getD u64Max)) cut ∧
      pages = cut.map (List.map EpochRecord.listItem) := by
  induction h with
  | @last i start hnone =>
      rw [listEpochs_next, hsame, Option.map_eq_none_iff, List.head?_eq_none_iff,
        List.drop_eq_nil_iff] at hnone
      refine ⟨_, .last hnone, ?_⟩
      rw [listEpochs_epochs, hsame, List.take_of_length_le hnone]
      rfl
  | @more i cursor start pages hcursor _ ih =>
      obtain ⟨hfull, hnext, hrest⟩ := next_page hkeyed hgrows hsame hcursor
      obtain ⟨cut, hcut, rfl⟩ := ih hnext
      rw [Option.getD_some, hrest] at hcut
      refine ⟨_, .more hfull hcut, ?_⟩
      rw [listEpochs_epochs, hsame]
      rfl

/-- A list cut at the limits is read to its end. -/
theorem exists_followsCursor {i : Nat} {records : List EpochRecord}
    {cut : List (List EpochRecord)}
    (h : Paging.Pages (fun j => pageLimit (limits j)) i records cut)
    {start : Option Nat}
    (hrecords : records = (stores 0).epochsDownFrom (start.getD u64Max))
    (hsame : (stores i).epochsDownFrom (start.getD u64Max) =
      (stores 0).epochsDownFrom (start.getD u64Max)) :
    ∃ pages, FollowsCursor stores limits i start pages := by
  induction h generalizing start with
  | @last i records hlast =>
      refine ⟨_, .last ?_⟩
      rw [listEpochs_next, hsame, ← hrecords, List.drop_eq_nil_of_le hlast]
      rfl
  | @more i records cut hmore _ ih =>
      have hcursor : ∃ cursor,
          (listEpochs (stores i) ⟨start, limits i⟩).next = some cursor := by
        rw [listEpochs_next, hsame, ← hrecords]
        obtain ⟨record, hhead⟩ : ∃ record,
            (records.drop (pageLimit (limits i))).head? = some record := by
          rw [List.head?_drop]
          exact ⟨_, List.getElem?_eq_getElem hmore⟩
        rw [hhead]
        exact ⟨_, rfl⟩
      obtain ⟨cursor, hcursor⟩ := hcursor
      obtain ⟨-, hnext, hrest⟩ := next_page hkeyed hgrows hsame hcursor
      have hcut : records.drop (pageLimit (limits i)) =
          (stores 0).epochsDownFrom ((some cursor).getD u64Max) := by
        rw [Option.getD_some, hrest, hrecords]
      obtain ⟨pages, hpages⟩ := ih hcut hnext
      exact ⟨_, .more hcursor hpages⟩

end Follow

/-- A client that follows the cursor comes to an end, and has read what was
stored when it began, newest first, in full pages. -/
theorem epoch_pages_complete (hkeyed : ∀ i, (stores i).KeyedById)
    (hgrows : ∀ i, (stores 0).GrowsOnTop (stores i)) (start : Option Nat) :
    (∃ pages, FollowsCursor stores limits 0 start pages) ∧
    ∀ pages, FollowsCursor stores limits 0 start pages →
      (pages.flatten.map EpochListItem.id).Pairwise (· > ·) ∧
      (∀ item, item ∈ pages.flatten ↔ ∃ e record,
        (stores 0).epochs[e]? = some record ∧ (∀ s, start = some s → e ≤ s) ∧
          item = record.listItem) ∧
      (∀ (i : Nat) page, pages.dropLast[i]? = some page →
        page.length = pageLimit (limits i)) ∧
      ∀ s, start = some s → s ∉ (stores 0).epochs →
        ∀ item, item ∈ pages.flatten ↔ ∃ e record,
          (stores 0).epochs[e]? = some record ∧ e < s ∧
            item = record.listItem := by
  constructor
  · have hpos : ∀ j, 0 < (fun j => pageLimit (limits j)) j :=
      fun j => pageLimit_pos (limits j)
    obtain ⟨cut, hcut⟩ := Paging.exists_pages hpos 0
      ((stores 0).epochsDownFrom (start.getD u64Max))
    exact exists_followsCursor hkeyed hgrows hcut rfl rfl
  · intro pages hpages
    obtain ⟨cut, hcut, rfl⟩ := hpages.cut hkeyed hgrows rfl
    have hread : (cut.map (List.map EpochRecord.listItem)).flatten =
        ((stores 0).epochsDownFrom (start.getD u64Max)).map
          EpochRecord.listItem := by
      rw [← List.map_flatten, hcut.flatten]
    have hitems : ∀ item, item ∈ (cut.map (List.map EpochRecord.listItem)).flatten ↔
        ∃ e record, (stores 0).epochs[e]? = some record ∧
          (∀ s, start = some s → e ≤ s) ∧ item = record.listItem := by
      intro item
      rw [hread, List.mem_map]
      simp only [Store.mem_epochsDownFrom]
      constructor
      · rintro ⟨record, ⟨e, hle, hget⟩, rfl⟩
        refine ⟨e, record, hget, ?_, rfl⟩
        rintro s rfl
        exact hle
      · rintro ⟨e, record, hget, hbelow, rfl⟩
        refine ⟨record, ⟨e, ?_, hget⟩, rfl⟩
        cases start with
        | none => exact (hkeyed 0 e record hget).2
        | some s => exact hbelow s rfl
    refine ⟨?_, hitems, ?_, ?_⟩
    · rw [hread, List.map_map, List.pairwise_map]
      exact descending_epochsDownFrom (hkeyed 0)
    · intro i page hpage
      rw [← List.map_dropLast, List.getElem?_map, Option.map_eq_some_iff] at hpage
      obtain ⟨records, hrecords, rfl⟩ := hpage
      rw [List.length_map, hcut.full i records hrecords, Nat.zero_add]
    · rintro s rfl habsent item
      rw [hitems]
      constructor
      · rintro ⟨e, record, hget, hle, rfl⟩
        refine ⟨e, record, hget, lt_of_le_of_ne (hle s rfl) ?_, rfl⟩
        rintro rfl
        refine habsent ?_
        rw [Std.ExtTreeMap.mem_iff_isSome_getElem?, hget]
        rfl
      · rintro ⟨e, record, hget, hlt, rfl⟩
        refine ⟨e, record, hget, ?_, rfl⟩
        rintro s' ⟨⟩
        exact le_of_lt hlt

end Pages

/-! ## The lists of a running server -/

section Run

variable {st : Store sdk} {w : World sdk} {j : Job sdk}

theorem Reach.keyedById (hst : st.Indexed) (hkeyed : st.KeyedById)
    (h : Reach st w j) : w.store.KeyedById := by
  refine h.induct (P := fun w => w.store.KeyedById) (fun _ _ => hkeyed) ?_
  intro w j ev hw hev ih
  have hwritten := hev.written
  generalize (w.emit ev).store = st' at hwritten
  cases hwritten with
  | unchanged | saved => exact ih
  | served _ _ hserved =>
      rw [Store.KeyedById, hserved.epochs]
      exact ih
  | @sealed ctx now durationSecs down snapshot prepared batch record o st' _
      hbuild _ hsealed =>
      intro e record' hget
      rw [hsealed.epochs, getElem?_put] at hget
      split at hget
      · rename_i heq
        cases hget
        obtain ⟨-, hid, -⟩ := (hw.grounded hst).closes snapshot rfl
        rw [← buildRecord_id hbuild] at hid
        exact ⟨heq, heq ▸ hid⟩
      · exact ih e record' hget

/-- The ids of later seals are not below an id stored at an earlier moment. -/
theorem Reach.growsOnTop (hst : st.Indexed) (h : Reach st w j)
    {l : List (Event sdk)} (hl : l <:+ w.log) :
    (storeOf st l).GrowsOnTop w.store := by
  have hsince : (∀ e ∈ (storeOf st l).epochs, e ∈ w.store.epochs) ∧
      (storeOf st l).GrowsOnTop w.store := by
    refine h.induct_since (P := fun st' => (∀ e ∈ (storeOf st l).epochs,
      e ∈ st'.epochs) ∧ (storeOf st l).GrowsOnTop st') ?_ ?_ hl
    · exact ⟨fun _ he => he, fun e hdiffers => absurd rfl hdiffers⟩
    · rintro w j ev hw hev ⟨hkept, hgrows⟩
      refine ⟨fun e he => hev.epochs_kept (hkept e he), ?_⟩
      have hwritten := hev.written
      generalize (w.emit ev).store = st' at hwritten
      cases hwritten with
      | unchanged | saved => exact hgrows
      | served _ _ hserved =>
          rw [Store.GrowsOnTop, hserved.epochs]
          exact hgrows
      | @sealed ctx now durationSecs down snapshot prepared batch record o st' _
          hbuild _ hsealed =>
          intro e hdiffers e' he'
          rw [hsealed.epochs, getElem?_put] at hdiffers
          split at hdiffers
          · rename_i hid
            have hground := hw.grounded hst
            have hpast : e' < snapshot.epochId ∨ snapshot.epochId = u64Max :=
              hground.past e' (hkept e' he')
            have hle := hground.store.ids e' (hkept e' he')
            have hnext : snapshot.epochId = e := (buildRecord_id hbuild).symm.trans hid
            omega
          · exact hgrows e hdiffers e' he'
  exact hsince.2

theorem keyedById_empty : (Store.empty : Store sdk).KeyedById := by
  intro e record hget
  simp [Store.empty] at hget

end Run

/-- Three epochs are sealed. -/
def Sample.threeEpochs : World Sample.sdk :=
  .replay [Sample.cycle [.evm] 10 Sample.noProvider,
    Sample.cycle [.evm] 20 Sample.noProvider,
    Sample.cycle [.evm] 30 Sample.noProvider]

/-- The stores a reader meets when the third epoch is sealed after the first
page was read. -/
def Sample.listedStores : Nat → Store Sample.sdk
  | 0 => storeOf Store.empty (Sample.threeEpochs.log.drop 2)
  | _ + 1 => Sample.threeEpochs.store

theorem epoch_pages_complete_threeEpochs :
    ∃ pages, FollowsCursor Sample.listedStores (fun _ => some 1) 0 none pages ∧
      (pages.flatten.map EpochListItem.id).Pairwise (· > ·) := by
  have hj : Reach Store.empty Sample.threeEpochs .idle :=
    reach_of_reachable (reachable_replay _)
  have hsuffix : Sample.threeEpochs.log.drop 2 <:+ Sample.threeEpochs.log :=
    List.drop_suffix _ _
  have hkeyed : ∀ i, (Sample.listedStores i).KeyedById := by
    rintro (_ | i)
    · rcases hj.earlier hsuffix with hnil | ⟨w₀, j₀, hw₀, hlog⟩
      · rw [Sample.listedStores, hnil]
        exact keyedById_empty
      · rw [Sample.listedStores, ← hlog, ← hw₀.store_eq]
        exact hw₀.keyedById indexed_empty keyedById_empty
    · exact hj.keyedById indexed_empty keyedById_empty
  have hgrows : ∀ i, (Sample.listedStores 0).GrowsOnTop (Sample.listedStores i) := by
    rintro (_ | i)
    · exact fun e hdiffers => absurd rfl hdiffers
    · exact hj.growsOnTop indexed_empty hsuffix
  obtain ⟨hends, hread⟩ := epoch_pages_complete hkeyed hgrows none
  obtain ⟨pages, hpages⟩ := hends
  exact ⟨pages, hpages, (hread pages hpages).1⟩

example : ((listEpochs (Sample.listedStores 0) ⟨none, some 1⟩).epochs.map
      EpochListItem.id) = [2] ∧
    (listEpochs (Sample.listedStores 1) ⟨none, some 1⟩).next = some 2 := by
  decide +kernel

end AquaTimestamp
