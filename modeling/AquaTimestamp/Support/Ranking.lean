import Mathlib.Data.List.Sort
import Mathlib.Tactic.Common

/-!
# Rankings

A ranking lists the elements with the largest measure first and keeps the order of
elements that measure the same.  Its first `limit` entries are a page: nothing that is
left out measures more than an entry.
-/

namespace AquaTimestamp.Support

variable {α : Type} (measure : α → Nat)

/-- Largest measure first; the sort is stable. -/
def ranked (xs : List α) : List α :=
  xs.mergeSort fun a b => decide (measure b ≤ measure a)

/-- The first `limit` entries of the ranking. -/
def topOf (limit : Nat) (xs : List α) : List α :=
  (ranked measure xs).take limit

variable {measure} {limit : Nat} {xs : List α}

theorem ranked_perm (xs : List α) : (ranked measure xs).Perm xs :=
  List.mergeSort_perm xs _

theorem measure_trans (a b c : α) (hab : decide (measure b ≤ measure a) = true)
    (hbc : decide (measure c ≤ measure b) = true) :
    decide (measure c ≤ measure a) = true :=
  decide_eq_true ((of_decide_eq_true hbc).trans (of_decide_eq_true hab))

theorem measure_total (a b : α) :
    (decide (measure b ≤ measure a) || decide (measure a ≤ measure b)) = true := by
  rcases Nat.le_total (measure b) (measure a) with hle | hle
  · simp [hle]
  · simp [hle]

theorem ranked_pairwise (xs : List α) :
    (ranked measure xs).Pairwise fun a b => measure b ≤ measure a := by
  have hsorted : (ranked measure xs).Pairwise
      fun a b => decide (measure b ≤ measure a) = true :=
    List.pairwise_mergeSort measure_trans measure_total xs
  exact hsorted.imp fun hle => of_decide_eq_true hle

/-- The elements of one measure stand in the order they came in. -/
theorem filter_ranked (m : Nat) (xs : List α) :
    (ranked measure xs).filter (fun a => measure a = m) =
      xs.filter fun a => measure a = m := by
  have hequal : (xs.filter fun a => measure a = m).Pairwise
      fun a b => decide (measure b ≤ measure a) = true := by
    refine List.pairwise_of_forall_mem_list fun a ha b hb => decide_eq_true ?_
    have hma := of_decide_eq_true (List.mem_filter.mp ha).2
    have hmb := of_decide_eq_true (List.mem_filter.mp hb).2
    omega
  have hsublist : (xs.filter fun a => measure a = m).Sublist (ranked measure xs) :=
    List.sublist_mergeSort measure_trans measure_total hequal List.filter_sublist
  have hown := hsublist.filter fun a => measure a = m
  rw [List.filter_filter] at hown
  simp only [Bool.and_self] at hown
  exact (hown.eq_of_length ((ranked_perm xs).filter _).length_eq.symm).symm

/-- An order that the list came in decides between elements that measure the same. -/
theorem ranked_pairwise_ties {R : α → α → Prop} (h : xs.Pairwise R) :
    (ranked measure xs).Pairwise
      fun a b => measure b < measure a ∨ measure a = measure b ∧ R a b := by
  rw [List.pairwise_iff_forall_sublist]
  intro a b hab
  have hle : measure b ≤ measure a :=
    List.pairwise_iff_forall_sublist.mp (ranked_pairwise xs) hab
  rcases Nat.lt_or_eq_of_le hle with hlt | heq
  · exact .inl hlt
  · refine .inr ⟨heq.symm, ?_⟩
    have hboth := hab.filter fun x => measure x = measure a
    rw [filter_ranked] at hboth
    simp only [List.filter_cons, heq, decide_true, if_true, List.filter_nil] at hboth
    exact List.pairwise_iff_forall_sublist.mp h (hboth.trans List.filter_sublist)

theorem topOf_sublist (limit : Nat) (xs : List α) :
    (topOf measure limit xs).Sublist (ranked measure xs) :=
  List.take_sublist _ _

theorem mem_of_mem_topOf {a : α} (h : a ∈ topOf measure limit xs) : a ∈ xs :=
  (ranked_perm xs).mem_iff.mp ((topOf_sublist limit xs).mem h)

theorem length_topOf (limit : Nat) (xs : List α) :
    (topOf measure limit xs).length = min limit xs.length := by
  rw [topOf, List.length_take, (ranked_perm xs).length_eq]

/-- What is left out measures no more than an entry of the page. -/
theorem measure_le_of_not_mem_topOf {a b : α} (ha : a ∈ xs)
    (hout : a ∉ topOf measure limit xs) (hb : b ∈ topOf measure limit xs) :
    measure a ≤ measure b := by
  have hsplit : topOf measure limit xs ++ (ranked measure xs).drop limit =
      ranked measure xs := List.take_append_drop limit _
  have hrest : a ∈ (ranked measure xs).drop limit := by
    have hmem : a ∈ ranked measure xs := (ranked_perm xs).mem_iff.mpr ha
    rw [← hsplit] at hmem
    exact (List.mem_append.mp hmem).resolve_left hout
  have hsorted : (ranked measure xs).Pairwise fun a b => measure b ≤ measure a :=
    ranked_pairwise xs
  rw [← hsplit] at hsorted
  exact (List.pairwise_append.mp hsorted).2.2 b hb a hrest

end AquaTimestamp.Support
