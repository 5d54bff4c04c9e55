import Mathlib.Data.List.Nodup
import Mathlib.Tactic.Common

/-!
# Ordered key-value partitions

A partition of an ordered key-value store is an extensional ordered map.  A
write batch inserts a list of entries, the last entry of a key winning, and
removes a list of keys.  Composite keys are compared component by component,
which is the byte order of fixed-width keys written one after the other.
-/

namespace AquaTimestamp.Support

/-- Composite keys are ordered lexicographically. -/
instance compositeKeyOrd {α β : Type} [Ord α] [Ord β] : Ord (α × β) :=
  lexOrd

/-- One partition: an ordered map from keys to values. -/
abbrev Partition (K V : Type) [Ord K] : Type :=
  Std.ExtTreeMap K V compare

namespace Partition

open Std

variable {K V : Type} [Ord K] [TransOrd K] [LawfulEqOrd K] [DecidableEq K]

theorem getElem?_put (t : Partition K V) (k a : K) (v : V) :
    (t.insert k v)[a]? = if k = a then some v else t[a]? := by
  simp [ExtTreeMap.getElem?_insert]

theorem getElem?_remove (t : Partition K V) (k a : K) :
    (t.erase k)[a]? = if k = a then none else t[a]? := by
  simp [ExtTreeMap.getElem?_erase]

/-- What a batch of insertions leaves under a key was inserted by it, or was
there before and not touched. -/
theorem putAll_cases
    (t : Partition K V) (entries : List (K × V)) (k : K) {o : Option V}
    (h : (t.insertMany entries)[k]? = o) :
    (∃ v, o = some v ∧ (k, v) ∈ entries) ∨
      ((∀ v, (k, v) ∉ entries) ∧ t[k]? = o) := by
  rw [ExtTreeMap.getElem?_insertMany_list,
    List.findSomeRev?_eq_findSome?_reverse] at h
  cases hfind : entries.reverse.findSome?
      (fun x => if compare x.1 k = .eq then some x.2 else none) with
  | some u =>
      obtain ⟨⟨a, b⟩, hmem, hab⟩ := List.exists_of_findSome?_eq_some hfind
      rw [hfind, Option.some_or] at h
      simp only [LawfulEqCmp.compare_eq_iff_eq, Option.ite_none_right_eq_some,
        Option.some.injEq] at hab
      obtain ⟨rfl, rfl⟩ := hab
      exact Or.inl ⟨b, h.symm, List.mem_reverse.mp hmem⟩
  | none =>
      rw [hfind, Option.none_or] at h
      refine Or.inr ⟨fun v hv => ?_, h⟩
      have hskipped := List.findSome?_eq_none_iff.mp hfind (k, v) (List.mem_reverse.mpr hv)
      simp at hskipped

/-- A batch of insertions leaves its last entry of each key. -/
theorem getElem?_putAll (t : Partition K V) (entries : List (K × V)) (k : K) :
    (t.insertMany entries)[k]? =
      ((entries.filter fun x => x.1 = k).getLast?.map Prod.snd).or t[k]? := by
  have hpick : entries.filterMap
      (fun x => if compare x.1 k = .eq then some x.2 else none) =
        (entries.filter fun x => x.1 = k).map Prod.snd := by
    induction entries with
    | nil => rfl
    | cons x entries ih =>
        by_cases hx : x.1 = k
        · simpa [hx] using ih
        · simpa [hx] using ih
  rw [ExtTreeMap.getElem?_insertMany_list, List.findSomeRev?_eq_findSome?_reverse,
    ← List.head?_filterMap, List.filterMap_reverse, List.head?_reverse, hpick,
    List.getLast?_map]

theorem putAll_of_not_mem
    {t : Partition K V} {entries : List (K × V)} {k : K}
    (h : ∀ v, (k, v) ∉ entries) :
    (t.insertMany entries)[k]? = t[k]? := by
  rcases putAll_cases t entries k rfl with
    ⟨v, -, hmem⟩ | ⟨-, hold⟩
  · exact absurd hmem (h v)
  · exact hold.symm

/-- An inserted key is present afterwards, with one of its inserted values. -/
theorem putAll_of_mem
    (t : Partition K V) {entries : List (K × V)} {k : K} {v : V}
    (h : (k, v) ∈ entries) :
    ∃ v', (t.insertMany entries)[k]? = some v' ∧ (k, v') ∈ entries := by
  rcases putAll_cases t entries k rfl with
    ⟨v', hget, hmem⟩ | ⟨hnot, -⟩
  · exact ⟨v', hget, hmem⟩
  · exact absurd h (hnot v)

/-- When no key occurs twice with different values, an inserted entry is
found as it was inserted. -/
theorem putAll_of_mem_unique
    {t : Partition K V} {entries : List (K × V)} {k : K} {v : V}
    (h : (k, v) ∈ entries) (huniq : ∀ v', (k, v') ∈ entries → v' = v) :
    (t.insertMany entries)[k]? = some v := by
  obtain ⟨v', hget, hmem⟩ := putAll_of_mem t h
  rw [hget, huniq v' hmem]

theorem mem_putAll {t : Partition K V} {entries : List (K × V)} {k : K} :
    k ∈ t.insertMany entries ↔ k ∈ t ∨ ∃ v, (k, v) ∈ entries := by
  rw [ExtTreeMap.mem_insertMany_list]
  simp

/-- Remove a list of keys. -/
def removeAll (t : Partition K V) (keys : List K) : Partition K V :=
  keys.foldl (fun t k => t.erase k) t

theorem getElem?_removeAll (t : Partition K V) (keys : List K) (a : K) :
    (t.removeAll keys)[a]? = if a ∈ keys then none else t[a]? := by
  induction keys generalizing t with
  | nil => simp [removeAll]
  | cons k keys ih =>
      have hcons : t.removeAll (k :: keys) = removeAll (t.erase k) keys := rfl
      rw [hcons, ih, getElem?_remove]
      by_cases hka : k = a
      · simp [hka]
      · by_cases ha : a ∈ keys
        · simp [ha]
        · simp [ha, hka, Ne.symm hka]

/-- The values in key order. -/
def inOrder (t : Partition K V) : List V :=
  t.toList.map Prod.snd

omit [DecidableEq K] in
theorem mem_inOrder {t : Partition K V} {v : V} :
    v ∈ t.inOrder ↔ ∃ k : K, t[k]? = some v := by
  simp only [inOrder, List.mem_map, Prod.exists,
    ExtTreeMap.mem_toList_iff_getElem?_eq_some]
  constructor
  · rintro ⟨k, v', hget, rfl⟩
    exact ⟨k, hget⟩
  · rintro ⟨k, hget⟩
    exact ⟨k, v, hget, rfl⟩

omit [DecidableEq K] in
/-- Two partitions in which `f` finds the same under every key list the same
finds in the same order. -/
theorem filterMap_inOrder_congr {W : Type} {t t' : Partition K V} {f : V → Option W}
    (h : ∀ k : K, t[k]?.bind f = t'[k]?.bind f) :
    t.inOrder.filterMap f = t'.inOrder.filterMap f := by
  have hmap : t.filterMap (fun _ v => f v) = t'.filterMap fun _ v => f v := by
    apply ExtTreeMap.ext_getElem?
    intro k
    rw [ExtTreeMap.getElem?_filterMap', ExtTreeMap.getElem?_filterMap', h k]
  have hfinds : ∀ t : Partition K V, t.inOrder.filterMap f =
      (t.filterMap fun _ v => f v).toList.map Prod.snd := by
    intro t
    rw [ExtTreeMap.toList_filterMap, inOrder, List.filterMap_map, List.map_filterMap]
    congr 1
    funext x
    cases hx : f x.2 <;> simp [hx]
  rw [hfinds, hfinds, hmap]

end Partition

end AquaTimestamp.Support
