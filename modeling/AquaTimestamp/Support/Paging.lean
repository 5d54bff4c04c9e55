import Mathlib.Data.List.Sort
import Mathlib.Tactic.Common

/-!
# Pages of a descending list

A list that goes down in a key is read page by page.  The cursor of a page is
the key of the element that comes after it, and the next page holds what is
not above the cursor.  The pages are the list cut at the limits.
-/

namespace AquaTimestamp.Support.Paging

variable {α κ : Type} [LinearOrder κ] {key : α → κ} {xs ys : List α}

/-! ## Cutting a list -/

/-- The list in pages, the first of which has limit `i`. -/
inductive Pages (limits : Nat → Nat) : Nat → List α → List (List α) → Prop where
  | last {i : Nat} {xs : List α} : xs.length ≤ limits i → Pages limits i xs [xs]
  | more {i : Nat} {xs : List α} {pages : List (List α)} :
      limits i < xs.length → Pages limits (i + 1) (xs.drop (limits i)) pages →
        Pages limits i xs (xs.take (limits i) :: pages)

variable {limits : Nat → Nat} {i : Nat} {pages : List (List α)}

/-- Limits that are not zero reach the end. -/
theorem exists_pages (hpos : ∀ i, 0 < limits i) (i : Nat) (xs : List α) :
    ∃ pages, Pages limits i xs pages := by
  induction hn : xs.length using Nat.strong_induction_on generalizing i xs with
  | _ n ih =>
      rcases Nat.lt_or_ge (limits i) xs.length with hmore | hlast
      · have hshorter : (xs.drop (limits i)).length < n := by
          have hlimit := hpos i
          rw [List.length_drop]
          omega
        obtain ⟨pages, hpages⟩ := ih _ hshorter (i + 1) _ rfl
        exact ⟨_, .more hmore hpages⟩
      · exact ⟨_, .last hlast⟩

/-- Nothing is lost between two pages. -/
theorem Pages.flatten (h : Pages limits i xs pages) : pages.flatten = xs := by
  induction h with
  | last => simp
  | more _ _ ih => rw [List.flatten_cons, ih, List.take_append_drop]

theorem Pages.ne_nil (h : Pages limits i xs pages) : pages ≠ [] := by
  cases h <;> exact List.cons_ne_nil _ _

/-- Every page but the last is full. -/
theorem Pages.full (h : Pages limits i xs pages) :
    ∀ (j : Nat) page, pages.dropLast[j]? = some page →
      page.length = limits (i + j) := by
  induction h with
  | last =>
      intro j page hpage
      simp at hpage
  | @more i xs pages hmore hpages ih =>
      intro j page hpage
      rw [List.dropLast_cons_of_ne_nil hpages.ne_nil] at hpage
      cases j with
      | zero =>
          rw [List.getElem?_cons_zero] at hpage
          cases hpage
          rw [List.length_take, Nat.add_zero]
          exact min_eq_left (le_of_lt hmore)
      | succ j =>
          rw [List.getElem?_cons_succ] at hpage
          rw [ih j page hpage]
          congr 1
          omega

/-! ## Descending lists -/

/-- The key goes down from one element to the next. -/
def Descending (key : α → κ) (xs : List α) : Prop :=
  xs.Pairwise fun a b => key b < key a

/-- A descending list is determined by its elements. -/
theorem Descending.ext (hxs : Descending key xs) (hys : Descending key ys)
    (h : ∀ a, a ∈ xs ↔ a ∈ ys) : xs = ys := by
  have hirrefl : Std.Irrefl fun a b : α => key b < key a :=
    ⟨fun a => lt_irrefl (key a)⟩
  exact List.Pairwise.eq_of_mem_iff hxs hys h

/-- What is not above an element is the element and what comes after it. -/
theorem Descending.filter_le {x : α} {rest : List α} {n : Nat}
    (h : Descending key xs) (hdrop : xs.drop n = x :: rest) :
    xs.filter (fun a => key a ≤ key x) = x :: rest := by
  obtain ⟨hbefore, hafter, hcross⟩ := List.pairwise_append.mp
    ((List.take_append_drop n xs).symm ▸ h :
      (xs.take n ++ xs.drop n).Pairwise fun a b => key b < key a)
  rw [hdrop] at hafter hcross
  have htaken : (xs.take n).filter (fun a => key a ≤ key x) = [] := by
    rw [List.filter_eq_nil_iff]
    intro a ha
    have hlt := hcross a ha x (List.mem_cons_self ..)
    simpa using hlt
  have hdropped : (x :: rest).filter (fun a => key a ≤ key x) = x :: rest := by
    rw [List.filter_eq_self]
    intro a ha
    rcases List.mem_cons.mp ha with rfl | ha
    · simp
    · have hlt := (List.pairwise_cons.mp hafter).1 a ha
      simpa using le_of_lt hlt
  rw [← List.take_append_drop n xs, List.filter_append, htaken, hdrop, hdropped,
    List.nil_append]

/-- An element that comes before the rest of the list is above its start. -/
theorem Descending.lt_head {x : α} {rest : List α} {n : Nat}
    (h : Descending key xs) (hn : 0 < n) (hdrop : xs.drop n = x :: rest) :
    ∃ a ∈ xs, key x < key a := by
  cases xs with
  | nil => simp at hdrop
  | cons a xs =>
      obtain ⟨n, rfl⟩ : ∃ k, n = k + 1 := ⟨n - 1, by omega⟩
      rw [List.drop_succ_cons] at hdrop
      have hmem : x ∈ xs := by
        have : x ∈ xs.drop n := hdrop ▸ List.mem_cons_self ..
        exact List.mem_of_mem_drop this
      exact ⟨a, List.mem_cons_self .., (List.pairwise_cons.mp h).1 x hmem⟩

end AquaTimestamp.Support.Paging
