import AquaTimestamp.Support.Partition

/-!
# Sums over a partition

A sum over the values of a partition grows by the value of a new key, and the number of
its keys by the number of new ones.
-/

namespace AquaTimestamp.Support.Partition

open Std

variable {K V : Type} [Ord K] [TransOrd K] [LawfulEqOrd K]

/-- The sum of `f` over the values. -/
def tally (f : V → Nat) (t : Partition K V) : Nat :=
  (t.inOrder.map f).foldr (fun n total => n + total) 0

theorem nodup_toList (t : Partition K V) : t.toList.Nodup :=
  t.distinct_keys_toList.imp fun {a b} hne heq => by
    subst heq
    exact hne ReflOrd.compare_self

theorem toList_put_perm {t : Partition K V} {k : K} {v : V} (hk : k ∉ t) :
    (t.insert k v).toList.Perm ((k, v) :: t.toList) := by
  have hnone : t[k]? = none := ExtTreeMap.getElem?_eq_none hk
  refine (List.perm_ext_iff_of_nodup (nodup_toList _) ?_).mpr ?_
  · refine List.nodup_cons.mpr ⟨fun hmem => ?_, nodup_toList t⟩
    rw [ExtTreeMap.mem_toList_iff_getElem?_eq_some, hnone] at hmem
    cases hmem
  · rintro ⟨k', v'⟩
    rw [List.mem_cons, ExtTreeMap.mem_toList_iff_getElem?_eq_some,
      ExtTreeMap.mem_toList_iff_getElem?_eq_some, ExtTreeMap.getElem?_insert]
    by_cases heq : compare k k' = .eq
    · obtain rfl := LawfulEqOrd.eq_of_compare heq
      simp [hnone, eq_comm]
    · have hne : k' ≠ k := fun hk' => heq (hk' ▸ ReflOrd.compare_self)
      simp [heq, hne]

theorem tally_put {f : V → Nat} {t : Partition K V} {k : K} {v : V} (hk : k ∉ t) :
    tally f (t.insert k v) = f v + tally f t := by
  have hperm := ((toList_put_perm (v := v) hk).map Prod.snd).map f
  exact hperm.foldr_eq' (fun a _ b _ total => Nat.add_left_comm b a total) 0

theorem size_put {t : Partition K V} {k : K} {v : V} (hk : k ∉ t) :
    (t.insert k v).size = t.size + 1 := by
  have hlength := (toList_put_perm (v := v) hk).length_eq
  rw [ExtTreeMap.length_toList, List.length_cons, ExtTreeMap.length_toList] at hlength
  exact hlength

/-- New keys, each given once, are counted once. -/
theorem size_putAll {t : Partition K V} {entries : List (K × V)}
    (hdistinct : (entries.map Prod.fst).Nodup) (hnew : ∀ x ∈ entries, x.1 ∉ t) :
    (t.insertMany entries).size = t.size + entries.length := by
  induction entries generalizing t with
  | nil => simp
  | cons x entries ih =>
      obtain ⟨hx, hrest⟩ := List.nodup_cons.mp hdistinct
      have hfresh : ∀ y ∈ entries, y.1 ∉ t.insert x.1 x.2 := by
        intro y hy hmem
        rcases ExtTreeMap.mem_insert.mp hmem with heq | hold
        · rw [LawfulEqOrd.eq_of_compare heq] at hx
          exact hx (List.mem_map_of_mem hy)
        · exact hnew y (List.mem_cons_of_mem _ hy) hold
      rw [ExtTreeMap.insertMany_cons, ih hrest hfresh, size_put (hnew x (List.mem_cons_self ..)),
        List.length_cons]
      omega

/-- There are no more keys than numbers below a bound. -/
theorem size_le_of_lt {t : Partition Nat V} {n : Nat} (h : ∀ k ∈ t, k < n) : t.size ≤ n := by
  have hnodup : t.keys.Nodup := t.distinct_keys.imp fun {a b} hne heq => by
    subst heq
    exact hne ReflOrd.compare_self
  have hsub : t.keys ⊆ List.range n := fun k hk =>
    List.mem_range.mpr (h k (ExtTreeMap.mem_keys.mp hk))
  have hlength := hnodup.length_le_of_subset hsub
  rwa [ExtTreeMap.length_keys, List.length_range] at hlength

end AquaTimestamp.Support.Partition
