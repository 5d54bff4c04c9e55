import Mathlib.Data.List.Nodup
import Mathlib.Tactic.Common

/-!
# Short lists used as maps

A list of records with a key field, where the first record of a key counts:
look a key up, drop every record of a key, change the first record of a key,
add the records of a second list whose keys are new.
-/

namespace AquaTimestamp.Support.Keyed

variable {α κ : Type} [DecidableEq κ] (key : α → κ)

/-- The first record with key `k`. -/
def lookup (k : κ) (as : List α) : Option α :=
  as.find? fun a => key a = k

/-- Every record of another key, in order. -/
def discard (k : κ) (as : List α) : List α :=
  as.filter fun a => key a ≠ k

/-- Change the first record with key `k`. -/
def revise (k : κ) (f : α → α) : List α → List α
  | [] => []
  | a :: as => if key a = k then f a :: as else a :: revise k f as

/-- Add the records whose key is not there yet, one after the other. -/
def gather : List α → List α → List α
  | init, [] => init
  | init, a :: as =>
      if key a ∈ init.map key then gather init as else gather (init ++ [a]) as

variable {key}

theorem lookup_discard (k k' : κ) (as : List α) :
    lookup key k' (discard key k as) =
      if k = k' then none else lookup key k' as := by
  induction as with
  | nil => simp [lookup, discard]
  | cons a as ih =>
      simp only [lookup, discard] at ih ⊢
      by_cases ha : key a = k
      · by_cases hk : k = k'
        · simp [ha, hk]
        · simpa [List.filter_cons, ha, hk] using ih
      · by_cases hk : k = k'
        · subst hk
          simp
        · by_cases ha' : key a = k'
          · simp [ha', hk, Ne.symm hk]
          · simpa [List.filter_cons, ha, ha', hk] using ih

theorem lookup_append (k : κ) (as bs : List α) :
    lookup key k (as ++ bs) = (lookup key k as).or (lookup key k bs) := by
  simp [lookup, List.find?_append]

theorem lookup_singleton (k : κ) (a : α) :
    lookup key k [a] = if key a = k then some a else none := by
  by_cases h : key a = k <;> simp [lookup, h]

/-- A change that keeps the key shows at its own key only. -/
theorem lookup_revise {f : α → α} (hf : ∀ a, key (f a) = key a)
    (k k' : κ) (as : List α) :
    lookup key k' (revise key k f as) =
      if k = k' then (lookup key k as).map f else lookup key k' as := by
  induction as with
  | nil => simp [lookup, revise]
  | cons a as ih =>
      simp only [lookup] at ih ⊢
      by_cases ha : key a = k
      · by_cases hk : k = k'
        · subst hk
          simp [revise, ha, hf]
        · have hfk : key (f a) ≠ k' := by
            rw [hf, ha]
            exact hk
          simp [revise, ha, hk, hfk]
      · by_cases hk : k = k'
        · subst hk
          simpa [revise, ha] using ih
        · by_cases ha' : key a = k'
          · simp [revise, ha', hk, Ne.symm hk]
          · simpa [revise, ha, ha', hk] using ih

theorem not_mem_keys_of_lookup {k : κ} {as : List α} (h : lookup key k as = none) :
    k ∉ as.map key := by
  intro hmem
  obtain ⟨a, ha, hkey⟩ := List.mem_map.mp hmem
  have hnot := List.find?_eq_none.mp h a ha
  exact hnot (decide_eq_true hkey)

theorem not_mem_keys_discard (k : κ) (as : List α) : k ∉ (discard key k as).map key := by
  intro hmem
  obtain ⟨a, ha, hkey⟩ := List.mem_map.mp hmem
  have hne := (List.mem_filter.mp ha).2
  simp [hkey] at hne

theorem nodup_discard {k : κ} {as : List α} (h : (as.map key).Nodup) :
    ((discard key k as).map key).Nodup :=
  h.sublist (List.filter_sublist.map key)

omit [DecidableEq κ] in
theorem nodup_append_singleton {as : List α} {a : α} (h : (as.map key).Nodup)
    (ha : key a ∉ as.map key) : ((as ++ [a]).map key).Nodup := by
  rw [List.map_append]
  refine List.nodup_append.mpr ⟨h, List.nodup_singleton _, ?_⟩
  intro k hk k' hk' heq
  rw [List.mem_singleton.mp hk'] at heq
  exact ha (heq ▸ hk)

/-- A change that keeps the key leaves the keys where they are. -/
theorem keys_revise {f : α → α} (hf : ∀ a, key (f a) = key a) (k : κ) (as : List α) :
    (revise key k f as).map key = as.map key := by
  induction as with
  | nil => rfl
  | cons a as ih =>
      simp only [revise]
      split
      · rw [List.map_cons, List.map_cons, hf]
      · rw [List.map_cons, List.map_cons, ih]

theorem mem_revise {f : α → α} {k : κ} {as : List α} {b : α}
    (h : b ∈ revise key k f as) : b ∈ as ∨ ∃ a ∈ as, b = f a := by
  induction as with
  | nil => cases h
  | cons a as ih =>
      simp only [revise] at h
      split at h
      · rcases List.mem_cons.mp h with rfl | h
        · exact Or.inr ⟨a, List.mem_cons_self .., rfl⟩
        · exact Or.inl (List.mem_cons_of_mem _ h)
      · rcases List.mem_cons.mp h with rfl | h
        · exact Or.inl (List.mem_cons_self ..)
        · rcases ih h with h | ⟨a', ha', rfl⟩
          · exact Or.inl (List.mem_cons_of_mem _ h)
          · exact Or.inr ⟨a', List.mem_cons_of_mem _ ha', rfl⟩

theorem gather_append (init as bs : List α) :
    gather key init (as ++ bs) = gather key (gather key init as) bs := by
  induction as generalizing init with
  | nil => rfl
  | cons a as ih =>
      simp only [List.cons_append, gather]
      split
      · exact ih init
      · exact ih (init ++ [a])

/-- A gathered record was there before, or is the first of a new key. -/
theorem mem_gather {init as : List α} {a : α} :
    a ∈ gather key init as ↔
      a ∈ init ∨ key a ∉ init.map key ∧ lookup key (key a) as = some a := by
  induction as generalizing init with
  | nil => simp [gather, lookup]
  | cons b as ih =>
      have hcons : lookup key (key a) (b :: as) =
          if key b = key a then some b else lookup key (key a) as := by
        by_cases h : key b = key a <;> simp [lookup, h]
      rw [hcons]
      simp only [gather]
      split
      · rename_i hb
        rw [ih]
        by_cases h : key b = key a
        · simp [← h, hb]
        · simp [h]
      · rename_i hb
        rw [ih]
        by_cases h : key b = key a
        · have hnot : key a ∉ init.map key := h ▸ hb
          simp [← h, hb, eq_comm]
        · have hne : a ≠ b := fun hab => h (hab ▸ rfl)
          simp [h, hne, Ne.symm h]

theorem keys_gather {init as : List α} {k : κ} :
    k ∈ (gather key init as).map key ↔ k ∈ init.map key ∨ k ∈ as.map key := by
  induction as generalizing init with
  | nil => simp [gather]
  | cons a as ih =>
      simp only [gather]
      split
      · rename_i ha
        rw [ih, List.map_cons, List.mem_cons]
        constructor
        · rintro (h | h)
          · exact Or.inl h
          · exact Or.inr (Or.inr h)
        · rintro (h | rfl | h)
          · exact Or.inl h
          · exact Or.inl ha
          · exact Or.inr h
      · rw [ih]
        simp [or_assoc]

theorem nodup_gather {init : List α} (as : List α) (h : (init.map key).Nodup) :
    ((gather key init as).map key).Nodup := by
  induction as generalizing init with
  | nil => exact h
  | cons a as ih =>
      simp only [gather]
      split
      · exact ih h
      · rename_i ha
        exact ih (nodup_append_singleton h ha)

end AquaTimestamp.Support.Keyed
