import AquaTimestamp.Model.Basic
import AquaTimestamp.Support.Keyed
import Mathlib.Data.Finset.Card
import Mathlib.Data.Finset.Dedup
import Mathlib.Data.Finset.SDiff

/-!
# The accumulator of the open epoch

`accumulator.rs`: submissions append leaves to the open epoch, the first
submitter of a leaf winning, and the sealer swaps the open epoch's content for
an empty one.  Both take the same lock, so each is one atomic step.
-/

namespace AquaTimestamp

open Support

/-- Most leaves one epoch may hold. -/
def maxLeavesPerEpoch : Nat := 2 ^ 20

/-- One accepted leaf with its submitter. -/
structure LeafEntry where
  leaf : Hash32
  submitterDid : String
  deriving DecidableEq

/-- The refusal of a whole batch that does not fit under the leaf cap. -/
structure EpochFull where
  epochId : Nat
  epochClosesAt : Nat
  cap : Nat
  deriving DecidableEq

/-- What `append_batch` reports. -/
structure AcceptOutcome where
  epochId : Nat
  epochClosesAt : Nat
  accepted : Nat
  duplicates : Nat
  deriving DecidableEq

/-- The closed epoch's content, as the sealer takes it out. -/
structure SealedSnapshot where
  epochId : Nat
  openedAt : Nat
  closedAt : Nat
  leaves : List LeafEntry
  deriving DecidableEq

/-- The accumulator behind its lock. -/
structure Accumulator where
  epochId : Nat
  openedAt : Nat
  closesAt : Nat
  leaves : List LeafEntry
  seen : Partition Hash32 Nat
  leafCap : Nat

namespace Accumulator

/-- An empty epoch with a leaf cap, clamped to the template maximum. -/
def withLeafCap (epochId openedAt durationSecs cap : Nat) : Accumulator where
  epochId := epochId
  openedAt := openedAt
  closesAt := saturatingAdd openedAt durationSecs
  leaves := []
  seen := ∅
  leafCap := min cap maxLeavesPerEpoch

def new (epochId openedAt durationSecs : Nat) : Accumulator :=
  withLeafCap epochId openedAt durationSecs maxLeavesPerEpoch

/-- The distinct leaves of a batch the open epoch does not hold yet. -/
def fresh (acc : Accumulator) (batch : List Hash32) : List Hash32 :=
  (batch.filter fun leaf => leaf ∉ acc.seen).dedup

/-- The loop of `append_batch` over one batch, with the two counts.  A slice
has fewer than `2 ^ 64` elements, so the saturating counts are plain ones. -/
def appendLeaves (did : String) :
    List Hash32 → Accumulator → Nat → Nat → Accumulator × Nat × Nat
  | [], acc, accepted, duplicates => (acc, accepted, duplicates)
  | leaf :: batch, acc, accepted, duplicates =>
      if leaf ∈ acc.seen then
        appendLeaves did batch acc accepted (duplicates + 1)
      else
        appendLeaves did batch
          { acc with
            leaves := acc.leaves ++ [⟨leaf, did⟩]
            seen := acc.seen.insert leaf acc.leaves.length }
          (accepted + 1) duplicates

/-- `append_batch`: the whole batch lands in the open epoch or nothing does. -/
def appendBatch (acc : Accumulator) (batch : List Hash32) (did : String) :
    Except EpochFull AcceptOutcome × Accumulator :=
  if saturatingAdd acc.leaves.length (acc.fresh batch).length > acc.leafCap then
    (.error ⟨acc.epochId, acc.closesAt, acc.leafCap⟩, acc)
  else
    let (acc', accepted, duplicates) := appendLeaves did batch acc 0 0
    (.ok ⟨acc.epochId, acc.closesAt, accepted, duplicates⟩, acc')

/-- `swap_and_open_next`: take the open epoch's content and open the next. -/
def swapAndOpenNext
    (acc : Accumulator) (closedAt nextOpenedAt durationSecs : Nat) :
    SealedSnapshot × Accumulator :=
  (⟨acc.epochId, acc.openedAt, closedAt, acc.leaves⟩,
    { acc with
      epochId := saturatingAdd acc.epochId 1
      openedAt := nextOpenedAt
      closesAt := saturatingAdd nextOpenedAt durationSecs
      leaves := []
      seen := ∅ })

/-! ## What an append changes -/

theorem appendLeaves_frame
    (did : String) (batch : List Hash32) (acc : Accumulator) (a d : Nat) :
    (appendLeaves did batch acc a d).1.epochId = acc.epochId ∧
      acc.leaves <+: (appendLeaves did batch acc a d).1.leaves := by
  induction batch generalizing acc a d with
  | nil => exact ⟨rfl, List.prefix_refl _⟩
  | cons leaf batch ih =>
      by_cases hseen : leaf ∈ acc.seen
      · simpa [appendLeaves, hseen] using ih acc a (d + 1)
      · simp only [appendLeaves, hseen, if_false]
        refine ⟨(ih _ _ _).1, List.IsPrefix.trans ?_ (ih _ _ _).2⟩
        exact List.prefix_append _ _

/-- An append keeps the open epoch's id and everything already accepted. -/
theorem appendBatch_frame
    (acc : Accumulator) (batch : List Hash32) (did : String) :
    (acc.appendBatch batch did).2.epochId = acc.epochId ∧
      acc.leaves <+: (acc.appendBatch batch did).2.leaves := by
  unfold appendBatch
  split
  · exact ⟨rfl, List.prefix_refl _⟩
  · exact appendLeaves_frame did batch acc 0 0

/-! ## The open epoch -/

/-- The dedup index maps exactly the open epoch's leaves to their positions. -/
def SeenPositions (acc : Accumulator) : Prop :=
  ∀ (leaf : Hash32) (i : Nat), acc.seen[leaf]? = some i ↔
    (acc.leaves[i]?).map LeafEntry.leaf = some leaf

/-- The number of distinct leaves of a batch the open epoch does not hold. -/
def newLeaves (acc : Accumulator) (batch : List Hash32) : Nat :=
  (batch.toFinset \ (acc.leaves.map LeafEntry.leaf).toFinset).card

variable {acc : Accumulator}

theorem SeenPositions.mem_seen (h : acc.SeenPositions) (leaf : Hash32) :
    leaf ∈ acc.seen ↔ leaf ∈ acc.leaves.map LeafEntry.leaf := by
  rw [Std.ExtTreeMap.mem_iff_isSome_getElem?, Option.isSome_iff_exists,
    List.mem_iff_getElem?]
  simp only [h leaf, List.getElem?_map]

theorem SeenPositions.nodup (h : acc.SeenPositions) :
    (acc.leaves.map LeafEntry.leaf).Nodup := by
  rw [List.nodup_iff_getElem?_ne_getElem?]
  intro i j hij hj heq
  simp only [List.getElem?_map] at heq
  rw [List.length_map] at hj
  have hleaf : (acc.leaves[j]?).map LeafEntry.leaf = some acc.leaves[j].leaf := by
    rw [List.getElem?_eq_getElem hj, Option.map_some]
  -- Both positions are the one the index gives for the leaf.
  have hi := (h _ i).mpr (heq.trans hleaf)
  rw [(h _ j).mpr hleaf] at hi
  cases hi
  omega

theorem SeenPositions.push (h : acc.SeenPositions) {leaf : Hash32}
    (hleaf : leaf ∉ acc.seen) (did : String) :
    ({ acc with
      leaves := acc.leaves ++ [⟨leaf, did⟩]
      seen := acc.seen.insert leaf acc.leaves.length } :
        Accumulator).SeenPositions := by
  intro leaf' i
  show (acc.seen.insert leaf acc.leaves.length)[leaf']? = some i ↔
    ((acc.leaves ++ [⟨leaf, did⟩])[i]?).map LeafEntry.leaf = some leaf'
  rw [Partition.getElem?_put, List.getElem?_append]
  rcases Nat.lt_trichotomy i acc.leaves.length with hi | hi | hi
  · rw [if_pos hi, ← h leaf' i]
    split
    · rename_i heq
      subst heq
      rw [Std.ExtTreeMap.getElem?_eq_none hleaf]
      simp only [Option.some.injEq, reduceCtorEq, iff_false]
      omega
    · rfl
  · subst hi
    simp only [lt_irrefl, if_false, Nat.sub_self, List.getElem?_cons_zero,
      Option.map_some, Option.some.injEq]
    split
    · rename_i heq
      simp [heq]
    · rename_i hne
      refine iff_of_false (fun hseen => ?_) hne
      have hpos := (h leaf' _).mp hseen
      simp at hpos
  · have hnot : ¬ i < acc.leaves.length := by omega
    have hlast : ([⟨leaf, did⟩] : List LeafEntry)[i - acc.leaves.length]? =
        none :=
      List.getElem?_eq_none (by simp only [List.length_singleton]; omega)
    have hnone : acc.leaves[i]? = none := List.getElem?_eq_none (le_of_lt hi)
    rw [if_neg hnot, hlast]
    split
    · simp only [Option.some.injEq, Option.map_none, reduceCtorEq, iff_false]
      omega
    · rw [h leaf' i, hnone]

/-! ## One batch -/

/-- What the loop of a batch leaves: the gathered leaves at their positions,
and one count or the other for each leaf of the batch. -/
theorem appendLeaves_gathers (did : String) (batch : List Hash32)
    (acc : Accumulator) (a d : Nat) (h : acc.SeenPositions) :
    (appendLeaves did batch acc a d).1.SeenPositions ∧
    (appendLeaves did batch acc a d).1.leaves =
      Keyed.gather LeafEntry.leaf acc.leaves (batch.map (LeafEntry.mk · did)) ∧
    (appendLeaves did batch acc a d).2.1 + acc.leaves.length =
      a + (appendLeaves did batch acc a d).1.leaves.length ∧
    (appendLeaves did batch acc a d).2.1 + (appendLeaves did batch acc a d).2.2 =
      a + d + batch.length ∧
    (appendLeaves did batch acc a d).1.leafCap = acc.leafCap := by
  induction batch generalizing acc a d with
  | nil => exact ⟨h, rfl, rfl, rfl, rfl⟩
  | cons leaf batch ih =>
      simp only [appendLeaves, List.map_cons, Keyed.gather, ← h.mem_seen leaf]
      split
      · obtain ⟨hseen, hleaves, haccepted, hcounts, hcap⟩ := ih acc a (d + 1) h
        refine ⟨hseen, hleaves, haccepted, ?_, hcap⟩
        rw [hcounts, List.length_cons]
        omega
      · rename_i hleaf
        obtain ⟨hseen, hleaves, haccepted, hcounts, hcap⟩ :=
          ih _ (a + 1) d (h.push hleaf did)
        refine ⟨hseen, hleaves, ?_, ?_, hcap⟩
        · simp only [List.length_append, List.length_singleton] at haccepted
          omega
        · rw [hcounts, List.length_cons]
          omega

theorem length_fresh (h : acc.SeenPositions) (batch : List Hash32) :
    (acc.fresh batch).length = acc.newLeaves batch := by
  unfold fresh newLeaves
  rw [← List.card_toFinset]
  congr 1
  ext leaf
  simp [h.mem_seen leaf]

/-- The gathered leaves of a batch are the old ones and the new ones. -/
theorem length_gather (h : acc.SeenPositions) (batch : List Hash32)
    (did : String) :
    (Keyed.gather LeafEntry.leaf acc.leaves
      (batch.map (LeafEntry.mk · did))).length =
      acc.leaves.length + acc.newLeaves batch := by
  have hnodup := Keyed.nodup_gather (batch.map (LeafEntry.mk · did)) h.nodup
  have hkeys : ((Keyed.gather LeafEntry.leaf acc.leaves
      (batch.map (LeafEntry.mk · did))).map LeafEntry.leaf).toFinset =
        (acc.leaves.map LeafEntry.leaf).toFinset ∪ batch.toFinset := by
    ext leaf
    rw [List.mem_toFinset, Keyed.keys_gather, Finset.mem_union, List.mem_toFinset,
      List.mem_toFinset, List.map_map]
    simp
  have hcard := congrArg Finset.card hkeys
  rw [List.toFinset_card_of_nodup hnodup, List.length_map] at hcard
  rw [hcard, Finset.union_comm, ← Finset.card_sdiff_add_card,
    List.toFinset_card_of_nodup h.nodup, List.length_map, Nat.add_comm]
  rfl

/-- What holds of the open epoch between two calls. -/
structure OpenEpoch (acc : Accumulator) : Prop where
  seen : acc.SeenPositions
  within : acc.leaves.length ≤ acc.leafCap
  capped : acc.leafCap ≤ maxLeavesPerEpoch

theorem openEpoch_withLeafCap (epochId openedAt durationSecs cap : Nat) :
    (withLeafCap epochId openedAt durationSecs cap).OpenEpoch where
  seen leaf i := by simp [withLeafCap]
  within := Nat.zero_le _
  capped := Nat.min_le_right _ _

/-- A batch is refused exactly when its new leaves do not fit. -/
theorem OpenEpoch.refused_iff (h : acc.OpenEpoch) (batch : List Hash32)
    (did : String) :
    (∃ e, (acc.appendBatch batch did).1 = .error e) ↔
      acc.leafCap < acc.leaves.length + acc.newLeaves batch := by
  have hmax : maxLeavesPerEpoch < u64Max := by decide
  have hcap := h.capped
  unfold appendBatch
  rw [length_fresh h.seen, saturatingAdd]
  split
  · refine iff_of_true ⟨_, rfl⟩ ?_
    omega
  · refine iff_of_false ?_ ?_
    · rintro ⟨e, ⟨⟩⟩
    · omega

theorem appendBatch_of_error {batch : List Hash32} {did : String}
    {e : EpochFull} (h : (acc.appendBatch batch did).1 = .error e) :
    (acc.appendBatch batch did).2 = acc := by
  unfold appendBatch at h ⊢
  split
  · rfl
  · rename_i hfits
    rw [if_neg hfits] at h
    cases h

/-- What an accepted batch reports and leaves. -/
theorem OpenEpoch.accepted (h : acc.OpenEpoch) {batch : List Hash32}
    {did : String} {o : AcceptOutcome}
    (hok : (acc.appendBatch batch did).1 = .ok o) :
    o.epochId = acc.epochId ∧ o.accepted + o.duplicates = batch.length ∧
      o.accepted = acc.newLeaves batch ∧
      (acc.appendBatch batch did).2.leaves =
        Keyed.gather LeafEntry.leaf acc.leaves (batch.map (LeafEntry.mk · did)) ∧
      (acc.appendBatch batch did).2.OpenEpoch := by
  have hfits : ¬ acc.leafCap < acc.leaves.length + acc.newLeaves batch := by
    rw [← h.refused_iff batch did]
    rintro ⟨e, he⟩
    rw [he] at hok
    cases hok
  obtain ⟨hseen, hleaves, haccepted, hcounts, hcap⟩ :=
    appendLeaves_gathers did batch acc 0 0 h.seen
  have hlength := length_gather h.seen batch did
  rw [← hleaves] at hlength
  unfold appendBatch at hok ⊢
  split
  · rename_i hfull
    rw [if_pos hfull] at hok
    cases hok
  · rename_i hnot
    rw [if_neg hnot] at hok
    cases hok
    refine ⟨rfl, ?_, ?_, hleaves, hseen, ?_, ?_⟩
    · simpa using hcounts
    · show (appendLeaves did batch acc 0 0).2.1 = acc.newLeaves batch
      omega
    · show (appendLeaves did batch acc 0 0).1.leaves.length ≤
        (appendLeaves did batch acc 0 0).1.leafCap
      omega
    · exact hcap ▸ h.capped

theorem OpenEpoch.appendBatch (h : acc.OpenEpoch) (batch : List Hash32)
    (did : String) : (acc.appendBatch batch did).2.OpenEpoch := by
  cases hok : (acc.appendBatch batch did).1 with
  | error e =>
      rw [appendBatch_of_error hok]
      exact h
  | ok o => exact (h.accepted hok).2.2.2.2

theorem OpenEpoch.swapAndOpenNext (h : acc.OpenEpoch)
    (closedAt nextOpenedAt durationSecs : Nat) :
    (acc.swapAndOpenNext closedAt nextOpenedAt durationSecs).2.OpenEpoch where
  seen leaf i := by simp [Accumulator.swapAndOpenNext]
  within := Nat.zero_le _
  capped := h.capped

/-- Every leaf of an accepted batch is in the open epoch afterwards, added or
there before. -/
theorem OpenEpoch.mem_appendBatch (h : acc.OpenEpoch) {batch : List Hash32}
    {did : String} {o : AcceptOutcome}
    (hok : (acc.appendBatch batch did).1 = .ok o) {leaf : Hash32}
    (hleaf : leaf ∈ batch) :
    leaf ∈ (acc.appendBatch batch did).2.leaves.map LeafEntry.leaf := by
  rw [(h.accepted hok).2.2.2.1, Keyed.keys_gather, List.map_map]
  exact Or.inr (List.mem_map_of_mem hleaf)

/-- An open epoch with an id that is a `u64`. -/
structure Sound (acc : Accumulator) : Prop extends OpenEpoch acc where
  id_le : acc.epochId ≤ u64Max

theorem sound_new {epochId openedAt durationSecs : Nat}
    (h : epochId ≤ u64Max) : (new epochId openedAt durationSecs).Sound :=
  ⟨openEpoch_withLeafCap _ _ _ _, h⟩

theorem Sound.appendBatch (h : acc.Sound) (batch : List Hash32) (did : String) :
    (acc.appendBatch batch did).2.Sound :=
  ⟨h.toOpenEpoch.appendBatch batch did, (appendBatch_frame acc batch did).1 ▸ h.id_le⟩

theorem Sound.swapAndOpenNext (h : acc.Sound)
    (closedAt nextOpenedAt durationSecs : Nat) :
    (acc.swapAndOpenNext closedAt nextOpenedAt durationSecs).2.Sound :=
  ⟨h.toOpenEpoch.swapAndOpenNext _ _ _, Nat.min_le_right _ _⟩

end Accumulator

end AquaTimestamp
