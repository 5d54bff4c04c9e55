import AquaTimestamp.Guarantees.Feed
import AquaTimestamp.Support.Tally

/-!
# What the public counters say

The totals of the schedule and of the health ticks count every sealed epoch and every
stored leaf once, as long as the epoch ids have not reached `u64::MAX` and the leaves can
be counted in a `u64`.  They never go down, and no health tick runs ahead of the store.
-/

namespace AquaTimestamp

open Support Partition

variable {sdk : Sdk}

/-! ## The sums -/

/-- The sealed epochs, and the leaves their records count. -/
def Store.sizes (st : Store sdk) : Nat × Nat :=
  (st.epochs.size, tally EpochRecord.leafCount st.epochs)

/-- Records whose leaves fit are added up exactly. -/
theorem foldlM_countRecord {checks : OverflowChecks} {records : List EpochRecord}
    {epochs leaves : U64} (hepochs : epochs.val + records.length < 2 ^ 64)
    (hleaves : leaves.val + (records.map EpochRecord.leafCount).sum < 2 ^ 64) :
    records.foldlM (countRecord checks) (epochs, leaves) =
      some (⟨_, hepochs⟩, ⟨_, hleaves⟩) := by
  induction records generalizing epochs leaves with
  | nil => rfl
  | cons record records ih =>
      rw [List.length_cons] at hepochs
      rw [List.map_cons, List.sum_cons] at hleaves
      have hcount : epochs.val + 1 < 2 ^ 64 := by omega
      have hsum : leaves.val + record.leafCount < 2 ^ 64 := by omega
      have hone : countRecord checks (epochs, leaves) record =
          some (⟨epochs.val + 1, hcount⟩, ⟨leaves.val + record.leafCount, hsum⟩) := by
        unfold countRecord
        rw [OverflowChecks.settle_of_lt hcount, OverflowChecks.settle_of_lt hsum]
        rfl
      rw [List.foldlM_cons, hone, Option.bind_eq_bind, Option.bind_some,
        ih (by simp only; omega) (by simp only; omega)]
      simp only [Option.some.injEq, Prod.mk.injEq, Fin.mk.injEq, List.length_cons,
        List.map_cons, List.sum_cons]
      omega

theorem totals_eq {checks : OverflowChecks} {st : Store sdk} (hepochs : st.sizes.1 < 2 ^ 64)
    (hleaves : st.sizes.2 < 2 ^ 64) :
    st.totals checks = some (⟨st.sizes.1, hepochs⟩, ⟨st.sizes.2, hleaves⟩) := by
  have hlength : st.epochs.inOrder.length = st.epochs.size := by
    rw [inOrder, List.length_map, Std.ExtTreeMap.length_toList]
  have hsum : (st.epochs.inOrder.map EpochRecord.leafCount).sum = st.sizes.2 := rfl
  have hzero : ((0 : U64)).val = 0 := rfl
  unfold Store.totals
  rw [foldlM_countRecord (by rwa [hzero, hlength, Nat.zero_add])
    (by rwa [hzero, hsum, Nat.zero_add])]
  simp only [Option.some.injEq, Prod.mk.injEq, Fin.mk.injEq, hzero, hsum, hlength,
    Nat.zero_add]
  exact ⟨rfl, trivial⟩

/-! ## A seal adds its leaves -/

/-- The records count the stored leaves. -/
def Store.Counted (st : Store sdk) : Prop :=
  tally EpochRecord.leafCount st.epochs = st.epochLeaves.size

section Seals

variable {st st' : Store sdk} {record : EpochRecord} {leaves : List LeafEntry}
variable {pending : Option (PendingEpoch sdk)}

theorem Sealed.sizes (h : Sealed st record leaves pending st')
    (hfresh : record.id ∉ st.epochs) :
    st'.sizes = (st.sizes.1 + 1, record.leafCount + st.sizes.2) := by
  unfold Store.sizes
  rw [h.epochs, size_put hfresh, tally_put hfresh]

theorem Sealed.counted (h : Sealed st record leaves pending st') (hst : st.Indexed)
    (hfresh : record.id ∉ st.epochs) (hcount : record.leafCount = leaves.length)
    (hnodup : (leaves.map LeafEntry.leaf).Nodup) (hcounted : st.Counted) :
    st'.Counted := by
  have hsize : st'.epochLeaves.size = st.epochLeaves.size + leaves.length := by
    rw [h.epochLeaves, size_putAll, List.length_map]
    · rw [List.map_map]
      apply List.Nodup.of_map Prod.snd
      rw [List.map_map]
      exact hnodup
    · intro x hx hmem
      obtain ⟨entry, -, rfl⟩ := List.mem_map.mp hx
      obtain ⟨did, hdid⟩ := Option.isSome_iff_exists.mp
        (Std.ExtTreeMap.mem_iff_isSome_getElem?.mp hmem)
      exact hfresh (hst.leaves _ _ _ hdid)
  unfold Store.Counted at hcounted ⊢
  rw [h.epochs, tally_put hfresh, hsize, hcounted, hcount]
  omega

end Seals

section Runs

variable {w : World sdk} {j : Job sdk} {ev : Event sdk}

/-- A step stores nothing new under an epoch, or seals a new one. -/
inductive SealsAtMost (st : Store sdk) : Store sdk → Prop where
  | nothing {st' : Store sdk} : st'.epochs = st.epochs →
      st'.epochLeaves = st.epochLeaves → SealsAtMost st st'
  | epoch {st' : Store sdk} {record : EpochRecord} {leaves : List LeafEntry}
      {pending : Option (PendingEpoch sdk)} :
      Sealed st record leaves pending st' → record.id ∉ st.epochs →
        record.leafCount = leaves.length → (leaves.map LeafEntry.leaf).Nodup →
          SealsAtMost st st'

theorem Reach.sealsAtMost (h : Reach Store.empty w j) (hev : Emits w j ev)
    (hids : u64Max ∉ (w.emit ev).store.epochs) : SealsAtMost w.store (w.emit ev).store := by
  have hwritten := hev.written
  generalize (w.emit ev).store = st' at hwritten hids ⊢
  cases hwritten with
  | unchanged | saved => exact .nothing rfl rfl
  | served _ _ hserved => exact .nothing hserved.epochs hserved.epochLeaves
  | sealed _ hrecord _ hsealed =>
      have hg := h.grounded indexed_empty
      obtain ⟨hnodup, hle, -⟩ := hg.closes _ rfl
      have hid := buildRecord_id hrecord
      refine .epoch hsealed ?_ (buildRecord_leafCount hrecord) hnodup
      rw [hid]
      refine hg.fresh rfl (Nat.lt_of_le_of_ne hle fun hmax => hids ?_)
      rw [hsealed.epochs, hid, hmax]
      exact Std.ExtTreeMap.mem_insert_self

theorem Reach.counted (h : Reach Store.empty w j) :
    u64Max ∉ w.store.epochs → w.store.Counted := by
  refine h.induct (P := fun w => u64Max ∉ w.store.epochs → w.store.Counted) ?_ ?_
  · intro now durationSecs _
    rfl
  · intro w j ev hw hev ih hids
    have hcounted := ih fun hmem => hids (hev.epochs_kept hmem)
    cases hw.sealsAtMost hev hids with
    | nothing hepochs hleaves =>
        unfold Store.Counted at hcounted ⊢
        rw [hepochs, hleaves, hcounted]
    | epoch hsealed hfresh hcount hnodup =>
        exact hsealed.counted (hw.grounded indexed_empty).store hfresh hcount hnodup hcounted

/-- The sizes of an earlier store are not above those of a later one. -/
theorem Reach.sizes_le (h : Reach Store.empty w j) (hids : u64Max ∉ w.store.epochs)
    {l : List (Event sdk)} (hl : l <:+ w.log) :
    (storeOf Store.empty l).sizes ≤ w.store.sizes := by
  refine h.induct_since (P := fun st' => u64Max ∉ st'.epochs →
    (storeOf Store.empty l).sizes ≤ st'.sizes) (fun _ => le_rfl) ?_ hl hids
  intro w j ev hw hev ih hids
  refine le_trans (ih fun hmem => hids (hev.epochs_kept hmem)) ?_
  cases hw.sealsAtMost hev hids with
  | nothing hepochs _ =>
      unfold Store.sizes
      rw [hepochs]
  | epoch hsealed hfresh _ _ =>
      rw [hsealed.sizes hfresh]
      exact ⟨Nat.le_succ _, Nat.le_add_left _ _⟩

/-- There are no more epochs than ids. -/
theorem Reach.epochs_lt (h : Reach Store.empty w j) (hids : u64Max ∉ w.store.epochs) :
    w.store.epochs.size < 2 ^ 64 := by
  have hle : w.store.epochs.size ≤ u64Max := by
    refine size_le_of_lt fun e he => Nat.lt_of_le_of_ne ?_ fun hmax => hids (hmax ▸ he)
    exact (h.grounded indexed_empty).store.ids e he
  unfold u64Max at hle
  omega

/-- The totals of a store whose leaves can be counted. -/
theorem Reach.totals_eq (h : Reach Store.empty w j) (hids : u64Max ∉ w.store.epochs)
    (hleaves : w.store.epochLeaves.size < 2 ^ 64) (checks : OverflowChecks) :
    w.store.totals checks =
      some (⟨w.store.epochs.size, h.epochs_lt hids⟩, ⟨w.store.epochLeaves.size, hleaves⟩) := by
  have hcounted : w.store.sizes.2 = w.store.epochLeaves.size := h.counted hids
  rw [AquaTimestamp.totals_eq (h.epochs_lt hids) (hcounted ▸ hleaves)]
  simp only [hcounted]
  rfl

end Runs

/-! ## The schedule -/

/-- The last sealed epoch is stored, and none is past it. -/
theorem lastSealedEpochId_eq_some {st : Store sdk} {last : Nat}
    (h : st.lastSealedEpochId = some last) :
    last ∈ st.epochs ∧ ∀ e ∈ st.epochs, e ≤ last := by
  obtain ⟨init, hkeys⟩ := List.getLast?_eq_some_iff.mp h
  have hordered := Std.ExtTreeMap.ordered_keys (t := st.epochs)
  constructor
  · rw [← Std.ExtTreeMap.mem_keys, hkeys]
    exact List.mem_append_right _ (List.mem_singleton_self _)
  · intro e he
    have hmem := Std.ExtTreeMap.mem_keys.mpr he
    rw [hkeys] at hmem hordered
    rcases List.mem_append.mp hmem with hinit | hend
    · have hlt := (List.pairwise_append.mp hordered).2.2 e hinit last
        (List.mem_singleton_self _)
      exact le_of_lt (Nat.compare_eq_lt.mp hlt)
    · exact le_of_eq (List.mem_singleton.mp hend)

/-- A stored epoch is not the open one, nor after it. -/
theorem Reach.sealed_lt_open {w : World sdk} {j : Job sdk} (h : Reach Store.empty w j)
    (hids : u64Max ∉ w.store.epochs) : ∀ e ∈ w.store.epochs, e < w.accumulator.epochId := by
  intro e he
  have hg := h.grounded indexed_empty
  have hle : e ≤ u64Max := hg.store.ids e he
  have hne : e ≠ u64Max := fun hmax => hids (hmax ▸ he)
  have hpast := hg.past e he
  unfold Job.nextId at hpast
  cases hcloses : j.closes with
  | none =>
      simp only [hcloses] at hpast
      omega
  | some snapshot =>
      obtain ⟨-, -, hnext⟩ := hg.closes snapshot hcloses
      simp only [hcloses] at hpast
      unfold saturatingAdd at hnext
      omega

/-- The schedule counts every sealed epoch and every stored leaf, and names the newest
sealed epoch, which is before the open one, with its closing time. -/
theorem schedule_is_exact {w : World sdk} (h : Visited Store.empty w)
    (hids : u64Max ∉ w.store.epochs) (hleaves : w.store.epochLeaves.size < 2 ^ 64)
    (checks : OverflowChecks) (durationSecs uptimeSecs : Nat) :
    ∃ sched, schedule checks w durationSecs uptimeSecs = some sched ∧
      sched.epochsTotal = w.store.epochs.size ∧
      sched.leavesTotal = w.store.epochLeaves.size ∧
      (sched.lastSealedEpochId = none →
        w.store.epochs.size = 0 ∧ w.store.epochLeaves.size = 0) ∧
      ∀ id, sched.lastSealedEpochId = some id →
        id < sched.currentEpochId ∧ (∀ e ∈ w.store.epochs, e ≤ id) ∧
        ∃ record, w.store.epochs[id]? = some record ∧
          sched.lastSealedAt = some record.closedAt := by
  obtain ⟨j, hj⟩ := reach_of_visited h
  have hcounted : w.store.Counted := hj.counted hids
  unfold schedule
  rw [hj.totals_eq hids hleaves checks]
  refine ⟨_, rfl, rfl, rfl, ?_, ?_⟩
  · intro hlast
    have hkeys : w.store.epochs.keys = [] := List.getLast?_eq_none_iff.mp hlast
    have hempty : w.store.epochs.toList = [] := by
      rw [← List.map_eq_nil_iff (f := Prod.fst), Std.ExtTreeMap.map_fst_toList_eq_keys, hkeys]
    have hsize : w.store.epochs.size = 0 := by
      rw [← Std.ExtTreeMap.length_toList, hempty, List.length_nil]
    refine ⟨hsize, ?_⟩
    rw [← hcounted, tally, inOrder, hempty]
    rfl
  · intro id hid
    obtain ⟨hmem, hmax⟩ := lastSealedEpochId_eq_some hid
    refine ⟨hj.sealed_lt_open hids id hmem, hmax, ?_⟩
    obtain ⟨record, hrecord⟩ := Option.isSome_iff_exists.mp
      (Std.ExtTreeMap.mem_iff_isSome_getElem?.mp hmem)
    refine ⟨record, hrecord, ?_⟩
    have hlast : w.store.lastSealedEpochId = some id := hid
    simp [hlast, Store.getEpoch, hrecord]

theorem schedule_is_exact_twoEpochs :
    ∃ sched, schedule .enabled Sample.twoEpochs 60 5 = some sched ∧
      sched.leavesTotal = 4 ∧ sched.lastSealedEpochId = some 2 := by
  have hstored : u64Max ∉ Sample.twoEpochs.store.epochs ∧
      Sample.twoEpochs.store.epochLeaves.size = 4 ∧
      Sample.twoEpochs.store.lastSealedEpochId = some 2 := by
    decide +kernel
  obtain ⟨hids, hsize, hlast⟩ := hstored
  obtain ⟨sched, hsched, -, hleaves, -⟩ :=
    schedule_is_exact (.between (reachable_replay _)) hids (hsize.trans_lt (by decide)) .enabled 60 5
  refine ⟨sched, hsched, hleaves.trans hsize, ?_⟩
  obtain ⟨total, -, rfl⟩ := Option.map_eq_some_iff.mp hsched
  exact hlast

/-! ## Health ticks -/

/-- The totals a health tick tells. -/
def SseEvent.counters : SseEvent → Option (Nat × Nat)
  | .healthTick _ epochsTotal leavesTotal => some (epochsTotal, leavesTotal)
  | _ => none

/-- The totals the health ticks of a list tell. -/
def countersOf (events : List SseEvent) : List (Nat × Nat) :=
  events.filterMap SseEvent.counters

theorem countersOf_append (events events' : List SseEvent) :
    countersOf (events ++ events') = countersOf events ++ countersOf events' :=
  List.filterMap_append ..

/-- What a build reads of the totals at a moment. -/
def readAt (point : OverflowChecks × List (Event sdk)) : Option (Nat × Nat) :=
  ((storeOf Store.empty point.2).totals point.1).map fun total => (total.1.val, total.2.val)

/-- The health ticks tell the totals of the moments `points`, which lie one after the
other; each is a part of the history. -/
structure Ticked (points : List (OverflowChecks × List (Event sdk))) (s : Feed sdk) :
    Prop where
  store : s.world.store = storeOf Store.empty s.world.log
  told : countersOf (s.bus.sent ++ s.due.toList) = points.filterMap readAt
  ordered : (points.map Prod.snd).Pairwise (· <:+ ·)
  past : ∀ l ∈ points.map Prod.snd, l <:+ s.world.log
  owed : ∀ event, s.owed = some event → event.counters = none

/-- The health ticks tell the totals of some moments. -/
def Ticks (s : Feed sdk) : Prop :=
  ∃ points, Ticked points s

namespace Ticked

variable {points : List (OverflowChecks × List (Event sdk))} {s : Feed sdk}

/-- An event of the server keeps the moments. -/
theorem emit (h : Ticked points s) {w : World sdk} {ev : Event sdk}
    (hlog : w.log = ev :: s.world.log) (hstore : w.store = s.world.store.replayed ev) :
    Ticked points { s with world := w } where
  store := by
    rw [hlog, storeOf_cons, ← h.store]
    exact hstore
  told := h.told
  ordered := h.ordered
  past l hl := by
    rw [hlog]
    exact (h.past l hl).trans (List.suffix_cons _ _)
  owed := h.owed

theorem act (h : Ticked points s) (step : FeedAct) : Ticks (s.act step) := by
  cases step with
  | append batch did => exact ⟨points, h.emit rfl rfl⟩
  | readTotals checks uptimeSecs =>
      unfold Feed.act
      dsimp only
      split
      · rename_i total hdue htotal
        have htold := h.told
        rw [hdue, Option.toList_none, List.append_nil] at htold
        have hread : readAt (checks, s.world.log) = some (total.1.val, total.2.val) := by
          rw [readAt, ← h.store, htotal]
          rfl
        refine ⟨points ++ [(checks, s.world.log)], h.store, ?_, ?_, ?_, h.owed⟩
        · rw [countersOf_append, htold, List.filterMap_append]
          simp only [List.filterMap_cons, hread, List.filterMap_nil]
          rfl
        · rw [List.map_append]
          refine List.pairwise_append.mpr ⟨h.ordered, List.pairwise_singleton _ _, ?_⟩
          intro l hl l' hl'
          rw [List.mem_singleton.mp hl']
          exact h.past l hl
        · intro l hl
          rw [List.map_append] at hl
          rcases List.mem_append.mp hl with hold | hnew
          · exact h.past l hold
          · obtain rfl := List.mem_singleton.mp hnew
            exact List.suffix_refl _
      · exact ⟨points, h⟩
  | sendHealth =>
      refine ⟨points, h.store, ?_, h.ordered, h.past, h.owed⟩
      have htold := h.told
      unfold Feed.act Feed.send
      dsimp only
      cases hdue : s.due with
      | none =>
          rw [hdue] at htold
          exact htold
      | some event =>
          rw [hdue] at htold
          exact (congrArg countersOf (List.append_nil _)).trans htold
  | subscribe => exact ⟨points, h.store, h.told, h.ordered, h.past, h.owed⟩
  | recv i => exact ⟨points, h.store, h.told, h.ordered, h.past, h.owed⟩
  | leave i => exact ⟨points, h.store, h.told, h.ordered, h.past, h.owed⟩

theorem announce (h : Ticked points s) : Ticked points s.announce := by
  refine ⟨h.store, ?_, h.ordered, h.past, by simp [Feed.announce]⟩
  have htold := h.told
  unfold Feed.announce Feed.send
  dsimp only
  cases howed : s.owed with
  | none => exact htold
  | some event =>
      have hnone : countersOf [event] = [] := by
        simp [countersOf, h.owed event howed]
      have hsent : countersOf (s.bus.send event).2.sent = countersOf s.bus.sent := by
        refine (countersOf_append _ _).trans ?_
        rw [hnone, List.append_nil]
      rw [countersOf_append, hsent, ← countersOf_append, htold]

end Ticked

theorem ticks_start (rule : LagRule) (w : World sdk)
    (hstore : w.store = storeOf Store.empty w.log) : Ticks (Feed.start rule w) :=
  ⟨[], hstore, rfl, List.Pairwise.nil, by simp, by simp [Feed.start]⟩

theorem Ticks.cycle {s s' : Feed sdk} {ctx : Option WitnessContext} {now durationSecs : Nat}
    {o : Option (Except SealError (EpochRecord × List (MintedWitness sdk)))} (h : Ticks s)
    (hcycle : Feed.SealCycle s ctx now durationSecs s' o) : Ticks s' := by
  refine hcycle.keeps (P := Ticks) ?_ ?_ ?_
  · rintro c r s₁ s₂ ⟨-, rfl⟩ ⟨points, h₁⟩
    exact ⟨points, h₁.emit rfl rfl⟩
  · rintro s₁ s₂ ⟨points, h₁⟩ ⟨step, rfl⟩
    exact h₁.act step
  · obtain ⟨points, h⟩ := h
    exact ⟨points, h.emit rfl rfl⟩

theorem Feed.Reachable.ticks {s : Feed sdk} (h : Feed.Reachable Store.empty s) :
    Ticks s := by
  induction h with
  | boot rule now durationSecs => exact ticks_start rule _ rfl
  | act step _ ih =>
      obtain ⟨points, h⟩ := ih
      exact h.act step
  | @cycle s s' ctx now durationSecs result _ _ _ hcycle ih =>
      obtain ⟨points, h⟩ := ih.cycle hcycle
      refine ⟨points, h.store, h.told, h.ordered, h.past, fun event hevent => ?_⟩
      cases result with
      | ok x =>
          obtain rfl := Option.some.inj hevent
          rfl
      | error e => cases hevent
  | announce _ ih =>
      obtain ⟨points, h⟩ := ih
      exact ⟨points, h.announce⟩
  | restart rule now durationSecs _ ih =>
      obtain ⟨points, h⟩ := ih
      exact ticks_start rule _ h.store
  | crash rule now' durationSecs' _ _ _ hcycle ih =>
      obtain ⟨points, h⟩ := ih.cycle hcycle
      exact ticks_start rule _ h.store

theorem Feed.Visited.ticks {s : Feed sdk} (h : Feed.Visited Store.empty s) : Ticks s := by
  cases h with
  | between h => exact h.ticks
  | during h _ _ hcycle => exact h.ticks.cycle hcycle

/-- The health ticks on the bus never go down, and none is ahead of the store, whose
totals count each sealed epoch and each stored leaf once. -/
theorem health_ticks_never_go_down {s : Feed sdk} (h : Feed.Visited Store.empty s)
    (hids : u64Max ∉ s.world.store.epochs)
    (hleaves : s.world.store.epochLeaves.size < 2 ^ 64) :
    (countersOf s.bus.sent).Pairwise (· ≤ ·) ∧
      ∀ x ∈ countersOf s.bus.sent,
        x ≤ (s.world.store.epochs.size, s.world.store.epochLeaves.size) := by
  obtain ⟨points, hticked⟩ := h.ticks
  obtain ⟨j, hj⟩ := reach_of_visited h.world
  have hnow : s.world.store.sizes =
      (s.world.store.epochs.size, s.world.store.epochLeaves.size) :=
    congrArg _ (hj.counted hids)
  have hpast : ∀ l ∈ points.map Prod.snd, (storeOf Store.empty l).sizes ≤
      (s.world.store.epochs.size, s.world.store.epochLeaves.size) :=
    fun l hl => hnow ▸ hj.sizes_le hids (hticked.past l hl)
  -- What was counted before can be counted too, so each tick tells the sizes.
  have htold : points.filterMap readAt =
      (points.map Prod.snd).map fun l => (storeOf Store.empty l).sizes := by
    rw [List.map_map, ← List.filterMap_eq_map]
    refine List.filterMap_congr fun point hpoint => ?_
    obtain ⟨hepochs, hcount⟩ := hpast _ (List.mem_map_of_mem hpoint)
    rw [readAt, totals_eq (hepochs.trans_lt (hj.epochs_lt hids)) (hcount.trans_lt hleaves)]
    rfl
  have hsent : (countersOf s.bus.sent).Sublist
      ((points.map Prod.snd).map fun l => (storeOf Store.empty l).sizes) := by
    rw [← htold, ← hticked.told, countersOf_append]
    exact List.sublist_append_left _ _
  have hlater : ∀ l l', l <:+ l' → l' <:+ s.world.log →
      (storeOf Store.empty l).sizes ≤ (storeOf Store.empty l').sizes := by
    intro l l' hl hl'
    rcases hj.earlier hl' with rfl | ⟨w₀, j₀, hw₀, rfl⟩
    · rw [List.suffix_nil.mp hl]
    · have hkept : u64Max ∉ w₀.store.epochs := fun hmem => hids <| by
        refine hj.induct_since (P := fun st' => u64Max ∈ st'.epochs) ?_
          (fun w j ev _ hev ih => hev.epochs_kept ih) hl'
        rw [← hw₀.store_eq]
        exact hmem
      rw [← hw₀.store_eq]
      exact hw₀.sizes_le hkept hl
  constructor
  · apply List.Pairwise.sublist hsent
    rw [List.pairwise_map]
    refine hticked.ordered.imp_of_mem fun {l l'} _ hmem hl => ?_
    exact hlater l l' hl (hticked.past l' hmem)
  · intro x hx
    obtain ⟨l, hl, rfl⟩ := List.mem_map.mp (hsent.subset hx)
    exact hpast l hl

/-- Two health ticks after the seal. -/
def Sample.tickedFeed : Feed Sample.sdk :=
  (((Sample.heardFeed.act (.readTotals .enabled 30)).act .sendHealth).act
    (.readTotals .enabled 60)).act .sendHealth

theorem health_ticks_never_go_down_tickedFeed :
    (countersOf Sample.tickedFeed.bus.sent).Pairwise (· ≤ ·) ∧
      countersOf Sample.tickedFeed.bus.sent = [(1, 1), (1, 1)] := by
  have hstored : u64Max ∉ Sample.tickedFeed.world.store.epochs ∧
      Sample.tickedFeed.world.store.epochLeaves.size = 1 := by
    decide +kernel
  obtain ⟨hids, hsize⟩ := hstored
  have hvisited : Feed.Visited Store.empty Sample.tickedFeed :=
    .between (.act _ (.act _ (.act _ (.act _ Sample.heardFeed_reachable))))
  exact ⟨(health_ticks_never_go_down hvisited hids (hsize.trans_lt (by decide))).1,
    by decide +kernel⟩

end AquaTimestamp
