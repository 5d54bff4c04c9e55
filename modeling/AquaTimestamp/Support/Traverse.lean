import Mathlib.Data.List.Forall2
import Mathlib.Tactic.Common

/-!
# Fallible computations

A chain in `Except` succeeds when each of its parts does.  `mapM` runs over a
list and stops at the first error; when it gives a list, that list relates
element by element to the argument.
-/

namespace AquaTimestamp.Support

variable {ε α β : Type}

/-- A chain succeeds when its first part does and the rest does from there. -/
theorem bind_eq_ok_iff {x : Except ε α} {f : α → Except ε β} {b : β} :
    x >>= f = .ok b ↔ ∃ a, x = .ok a ∧ f a = .ok b := by
  cases x with
  | error e =>
      constructor
      · rintro ⟨⟩
      · rintro ⟨a, ⟨⟩, -⟩
  | ok a =>
      constructor
      · exact fun h => ⟨a, rfl, h⟩
      · rintro ⟨a', ha, h⟩
        cases ha
        exact h

theorem map_eq_ok_iff {x : Except ε α} {f : α → β} {b : β} :
    x.map f = .ok b ↔ ∃ a, x = .ok a ∧ f a = b := by
  cases x with
  | error e =>
      constructor
      · rintro ⟨⟩
      · rintro ⟨a, ⟨⟩, -⟩
  | ok a =>
      constructor
      · exact fun h => ⟨a, rfl, Except.ok.inj h⟩
      · rintro ⟨a', ha, rfl⟩
        cases ha
        rfl

theorem mapError_eq_ok_iff {ε' : Type} {x : Except ε α} {f : ε → ε'} {a : α} :
    x.mapError f = .ok a ↔ x = .ok a := by
  cases x with
  | error e =>
      constructor
      · rintro ⟨⟩
      · rintro ⟨⟩
  | ok b => exact ⟨fun h => congrArg _ (Except.ok.inj h), fun h => congrArg _ (Except.ok.inj h)⟩

/-- What a list read with an empty default holds, it was read with. -/
theorem mem_toOption_getD {x : Except ε (List α)} {a : α} :
    a ∈ x.toOption.getD [] ↔ ∃ as, x = .ok as ∧ a ∈ as := by
  cases x with
  | error e =>
      constructor
      · rintro ⟨⟩
      · rintro ⟨as, ⟨⟩, -⟩
  | ok as =>
      constructor
      · exact fun ha => ⟨as, rfl, ha⟩
      · rintro ⟨as', has, ha⟩
        cases has
        exact ha

/-- A fallible map succeeds with `bs` when every element does, in order. -/
theorem mapM_eq_ok_iff {f : α → Except ε β} {as : List α} {bs : List β} :
    as.mapM f = .ok bs ↔ List.Forall₂ (fun a b => f a = .ok b) as bs := by
  induction as generalizing bs with
  | nil =>
      rw [List.forall₂_nil_left_iff]
      constructor
      · rintro ⟨⟩
        rfl
      · rintro rfl
        rfl
  | cons a as ih =>
      rw [List.mapM_cons, List.forall₂_cons_left_iff]
      rw [bind_eq_ok_iff]
      constructor
      · rintro ⟨b, hb, hrest⟩
        obtain ⟨bs', hbs', hcons⟩ := bind_eq_ok_iff.mp hrest
        cases hcons
        exact ⟨b, bs', hb, ih.mp hbs', rfl⟩
      · rintro ⟨b, bs', hb, hrest, rfl⟩
        exact ⟨b, hb, bind_eq_ok_iff.mpr ⟨bs', ih.mpr hrest, rfl⟩⟩

/-- A fallible map succeeds when it succeeds on every element. -/
theorem exists_mapM_eq_ok {f : α → Except ε β} {as : List α}
    (h : ∀ a ∈ as, ∃ b, f a = .ok b) : ∃ bs, as.mapM f = .ok bs := by
  induction as with
  | nil => exact ⟨[], rfl⟩
  | cons a as ih =>
      obtain ⟨b, hb⟩ := h a (List.mem_cons_self ..)
      obtain ⟨bs, hbs⟩ := ih fun a' ha' => h a' (List.mem_cons_of_mem _ ha')
      refine ⟨b :: bs, mapM_eq_ok_iff.mpr (.cons hb (mapM_eq_ok_iff.mp hbs))⟩

/-- What a fallible map gives comes from the elements. -/
theorem exists_of_mem_mapM {f : α → Except ε β} {as : List α} {bs : List β}
    (h : as.mapM f = .ok bs) {b : β} (hb : b ∈ bs) : ∃ a ∈ as, f a = .ok b := by
  have hall := mapM_eq_ok_iff.mp h
  obtain ⟨i, hi, rfl⟩ := List.getElem_of_mem hb
  exact ⟨as.get ⟨i, hall.length_eq ▸ hi⟩, List.getElem_mem _,
    (List.forall₂_iff_get.mp hall).2 i (hall.length_eq ▸ hi) hi⟩

theorem exists_image_of_mapM {f : α → Except ε β} {as : List α} {bs : List β}
    (h : as.mapM f = .ok bs) {a : α} (ha : a ∈ as) : ∃ b ∈ bs, f a = .ok b := by
  have hall := mapM_eq_ok_iff.mp h
  obtain ⟨i, hi, rfl⟩ := List.getElem_of_mem ha
  exact ⟨bs.get ⟨i, hall.length_eq ▸ hi⟩, List.getElem_mem _,
    (List.forall₂_iff_get.mp hall).2 i hi (hall.length_eq ▸ hi)⟩

/-- The error of a fallible map is the error of an element. -/
theorem exists_error_of_mapM {f : α → Except ε β} {as : List α} {e : ε}
    (h : as.mapM f = .error e) : ∃ a ∈ as, f a = .error e := by
  induction as with
  | nil => cases h
  | cons a as ih =>
      rw [List.mapM_cons] at h
      cases ha : f a with
      | error e' =>
          rw [ha] at h
          cases h
          exact ⟨a, List.mem_cons_self .., ha⟩
      | ok b =>
          cases hrest : as.mapM f with
          | error e' =>
              rw [ha, hrest] at h
              cases h
              obtain ⟨a', ha', herror⟩ := ih hrest
              exact ⟨a', List.mem_cons_of_mem _ ha', herror⟩
          | ok bs =>
              rw [ha, hrest] at h
              cases h

end AquaTimestamp.Support
