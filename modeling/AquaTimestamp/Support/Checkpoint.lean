import Mathlib.Data.List.Flatten
import Mathlib.Data.List.Perm.Subperm
import Mathlib.Logic.Relation
import Mathlib.Order.Basic
import Mathlib.Tactic.Common

/-!
# Consumers with a checkpoint

A consumer reads a sequence of items, window after window.  Its position is in
memory and its checkpoint in storage.  A window with items is committed together
with a checkpoint at its end; a window without items moves the position, and the
checkpoint too unless that write fails.  A consumer that resumes goes back to its
checkpoint, or starts anywhere while there is none.

From a first checkpoint on, the items up to a later one are in exactly one
committed window, and none beyond it is in any.
-/

namespace AquaTimestamp.Support

variable {α : Type}

/-- The items of the positions from `first` to `last`, in order. -/
def itemsIn (items : Nat → List α) (first last : Nat) : List α :=
  (List.range' first (last + 1 - first)).flatMap items

/-- There is nothing after `p` up to `e`. -/
def NothingIn (items : Nat → List α) (p e : Nat) : Prop :=
  ∀ n, p < n → n ≤ e → items n = []

/-- A committed window with the items found in it. -/
structure Window (α : Type) where
  first : Nat
  last : Nat
  items : List α

/-- The window reaches over the position. -/
def Window.Covers (w : Window α) (n : Nat) : Prop :=
  w.first ≤ n ∧ n ≤ w.last

instance (w : Window α) : DecidablePred w.Covers :=
  fun _ => inferInstanceAs (Decidable (_ ∧ _))

/-- A consumer: its position, its checkpoint, and what it has committed, the
newest window first. -/
structure Consumer (α : Type) where
  position : Nat
  checkpoint : Option Nat
  committed : List (Window α)

theorem mem_itemsIn {items : Nat → List α} {first last : Nat} {a : α} :
    a ∈ itemsIn items first last ↔ ∃ n, first ≤ n ∧ n ≤ last ∧ a ∈ items n := by
  simp only [itemsIn, List.mem_flatMap, List.mem_range'_1]
  constructor
  · rintro ⟨n, ⟨hfirst, hlt⟩, ha⟩
    exact ⟨n, hfirst, by omega, ha⟩
  · rintro ⟨n, hfirst, hlast, ha⟩
    exact ⟨n, ⟨hfirst, by omega⟩, ha⟩

theorem nothingIn_self (items : Nat → List α) (p : Nat) : NothingIn items p p :=
  fun _ hlt hle => absurd hle (Nat.not_le.mpr hlt)

theorem nothingIn_of_itemsIn {items : Nat → List α} {p e : Nat}
    (h : itemsIn items (p + 1) e = []) : NothingIn items p e := by
  intro n hp he
  refine List.eq_nil_iff_forall_not_mem.mpr fun a ha => ?_
  have hmem : a ∈ itemsIn items (p + 1) e := mem_itemsIn.mpr ⟨n, hp, he, ha⟩
  rw [h] at hmem
  cases hmem

/-- When an item names its position, those of a position are found in any range
around it. -/
theorem filter_itemsIn {items : Nat → List α} {key : α → Nat}
    (hkey : ∀ n, ∀ a ∈ items n, key a = n) {first last n : Nat} (hfirst : first ≤ n)
    (hlast : n ≤ last) :
    (itemsIn items first last).filter (fun a => key a = n) = items n := by
  have hsplit : List.range' first (last + 1 - first) =
      List.range' first (n - first) ++ (n :: List.range' (n + 1) (last - n)) := by
    rw [← List.range'_succ, show last + 1 - first = (n - first) + (last - n + 1) by omega,
      ← List.range'_append_1, Nat.add_sub_cancel' hfirst]
  have hother : ∀ ks : List Nat, (∀ k ∈ ks, k ≠ n) →
      (ks.flatMap items).filter (fun a => key a = n) = [] := by
    intro ks hks
    refine List.filter_eq_nil_iff.mpr fun a ha => ?_
    obtain ⟨k, hk, hak⟩ := List.mem_flatMap.mp ha
    simpa [hkey k a hak] using hks k hk
  have hown : (items n).filter (fun a => key a = n) = items n :=
    List.filter_eq_self.mpr fun a ha => decide_eq_true (hkey n a ha)
  rw [itemsIn, hsplit, List.flatMap_append, List.flatMap_cons, List.filter_append,
    List.filter_append, hother _ fun k hk => ?_, hother _ fun k hk => ?_, hown,
    List.nil_append, List.append_nil]
  · have hlt := List.mem_range'_1.mp hk
    omega
  · have hlt := List.mem_range'_1.mp hk
    omega

namespace Consumer

variable {items : Nat → List α} {c c' : Consumer α} {from₀ : Nat}

/-- One step of a consumer of `items`. -/
inductive Step (items : Nat → List α) : Consumer α → Consumer α → Prop where
  | resume {c : Consumer α} {p : Nat} :
      (∀ w ∈ c.checkpoint, p = w) → Step items c { c with position := p }
  | pass {c : Consumer α} {e : Nat} :
      c.position ≤ e → NothingIn items c.position e →
        Step items c { c with position := e }
  | mark {c : Consumer α} {e : Nat} :
      c.position ≤ e → NothingIn items c.position e →
        Step items c { c with position := e, checkpoint := some e }
  | commit {c : Consumer α} {e : Nat} :
      c.position < e →
        Step items c ⟨e, some e,
          ⟨c.position + 1, e, itemsIn items (c.position + 1) e⟩ :: c.committed⟩

/-- What every step keeps: nothing lies between the checkpoint and the
position, and the committed windows lie apart, up to the checkpoint. -/
structure Kept (items : Nat → List α) (c : Consumer α) : Prop where
  ahead : ∀ w ∈ c.checkpoint, w ≤ c.position ∧ NothingIn items w c.position
  behind : ∀ x ∈ c.committed, x.first ≤ x.last ∧ ∃ w ∈ c.checkpoint, x.last ≤ w
  apart : c.committed.Pairwise fun newer older => older.last < newer.first
  found : ∀ x ∈ c.committed, x.items = itemsIn items x.first x.last

theorem Step.kept (hstep : Step items c c') (h : c.Kept items) : c'.Kept items := by
  cases hstep with
  | resume hp =>
      refine ⟨fun w hw => ?_, h.behind, h.apart, h.found⟩
      obtain rfl := hp w hw
      exact ⟨Nat.le_refl _, nothingIn_self _ _⟩
  | pass hle hnone =>
      refine ⟨fun w hw => ?_, h.behind, h.apart, h.found⟩
      obtain ⟨hposition, hbetween⟩ := h.ahead w hw
      refine ⟨Nat.le_trans hposition hle, fun n hlt hend => ?_⟩
      rcases Nat.lt_or_ge c.position n with hafter | hbefore
      · exact hnone n hafter hend
      · exact hbetween n hlt hbefore
  | @mark e hle hnone =>
      refine ⟨fun w hw => ?_, fun x hx => ?_, h.apart, h.found⟩
      · cases hw
        exact ⟨Nat.le_refl _, nothingIn_self _ _⟩
      · obtain ⟨hwidth, w, hw, hlast⟩ := h.behind x hx
        exact ⟨hwidth, e, rfl, Nat.le_trans (Nat.le_trans hlast (h.ahead w hw).1) hle⟩
  | @commit e hlt =>
      have hbelow : ∀ x ∈ c.committed, x.last ≤ c.position := by
        intro x hx
        obtain ⟨-, w, hw, hlast⟩ := h.behind x hx
        exact Nat.le_trans hlast (h.ahead w hw).1
      refine ⟨fun w hw => ?_, fun x hx => ?_, ?_, fun x hx => ?_⟩
      · cases hw
        exact ⟨Nat.le_refl _, nothingIn_self _ _⟩
      · rcases List.mem_cons.mp hx with rfl | hx
        · exact ⟨hlt, e, rfl, Nat.le_refl _⟩
        · exact ⟨(h.behind x hx).1, e, rfl, Nat.le_trans (hbelow x hx) (Nat.le_of_lt hlt)⟩
      · refine List.pairwise_cons.mpr ⟨fun x hx => ?_, h.apart⟩
        exact Nat.lt_succ_of_le (hbelow x hx)
      · rcases List.mem_cons.mp hx with rfl | hx
        · rfl
        · exact h.found x hx

/-- The checkpoint has not gone below `from₀`, and what lies between is
covered. -/
def CoveredFrom (items : Nat → List α) (from₀ : Nat) (c : Consumer α) : Prop :=
  ∃ w ∈ c.checkpoint, from₀ ≤ w ∧
    ∀ n, from₀ < n → n ≤ w → items n ≠ [] → ∃ x ∈ c.committed, x.Covers n

theorem Step.coveredFrom (hstep : Step items c c') (h : c.Kept items)
    (hcovered : c.CoveredFrom items from₀) : c'.CoveredFrom items from₀ := by
  obtain ⟨w, hw, hfrom, hcover⟩ := hcovered
  obtain ⟨hposition, hbetween⟩ := h.ahead w hw
  cases hstep with
  | resume => exact ⟨w, hw, hfrom, hcover⟩
  | pass => exact ⟨w, hw, hfrom, hcover⟩
  | @mark e hle hnone =>
      refine ⟨e, rfl, Nat.le_trans (Nat.le_trans hfrom hposition) hle, fun n hlt hend hn => ?_⟩
      rcases Nat.lt_or_ge c.position n with hafter | hbefore
      · exact absurd (hnone n hafter hend) hn
      rcases Nat.lt_or_ge w n with hafter | hwithin
      · exact absurd (hbetween n hafter hbefore) hn
      · exact hcover n hlt hwithin hn
  | @commit e hlt =>
      refine ⟨e, rfl, Nat.le_trans hfrom (Nat.le_trans hposition (Nat.le_of_lt hlt)), fun n hfrom hend hn => ?_⟩
      rcases Nat.lt_or_ge c.position n with hafter | hbefore
      · exact ⟨_, List.mem_cons_self .., hafter, hend⟩
      rcases Nat.lt_or_ge w n with hafter | hwithin
      · exact absurd (hbetween n hafter hbefore) hn
      · obtain ⟨x, hx, hcovers⟩ := hcover n hfrom hwithin hn
        exact ⟨x, List.mem_cons_of_mem _ hx, hcovers⟩

/-- Any number of steps. -/
abbrev Steps (items : Nat → List α) : Consumer α → Consumer α → Prop :=
  Relation.ReflTransGen (Step items)

theorem Steps.kept (hsteps : Steps items c c') (h : c.Kept items) :
    c'.Kept items := by
  induction hsteps with
  | refl => exact h
  | tail _ hstep ih => exact hstep.kept ih

theorem Steps.coveredFrom (hsteps : Steps items c c') (h : c.Kept items)
    (hcheckpoint : c.checkpoint = some from₀) : c'.CoveredFrom items from₀ := by
  induction hsteps with
  | refl =>
      exact ⟨from₀, hcheckpoint, Nat.le_refl _, fun n hlt hle => absurd hle (by omega)⟩
  | tail hsteps hstep ih => exact hstep.coveredFrom (Steps.kept hsteps h) ih

/-- Windows that lie apart reach over a position at most once. -/
theorem Kept.covers_unique (h : c.Kept items) {n : Nat} :
    (c.committed.filter fun x => x.Covers n).length ≤ 1 := by
  have hapart := h.apart
  generalize c.committed = committed at hapart
  induction hapart with
  | nil => exact Nat.zero_le _
  | @cons newer olders hnewer _ hrest =>
      by_cases hcovers : newer.Covers n
      · have hnone : olders.filter (fun x => x.Covers n) = [] := by
          rw [List.filter_eq_nil_iff]
          intro x hx hx'
          have hlast := (of_decide_eq_true hx').2
          have hapart := hnewer x hx
          exact absurd hcovers.1 (by omega)
        simp [hcovers, hnone]
      · simpa [hcovers] using hrest

/-- Windows that lie apart hold, in the order of their commits, some of the items
of the positions before `k`. -/
theorem flatMap_sublist {ws : List (Window α)} {k : Nat}
    (hapart : ws.Pairwise fun newer older => older.last < newer.first)
    (hfound : ∀ x ∈ ws, x.first ≤ x.last ∧ x.items = itemsIn items x.first x.last)
    (hbelow : ∀ x ∈ ws, x.last < k) :
    (ws.reverse.flatMap Window.items).Sublist ((List.range k).flatMap items) := by
  induction hapart generalizing k with
  | nil => exact List.nil_sublist _
  | @cons newer olders hnewer _ ih =>
      obtain ⟨⟨hwidth, hitems⟩, hrest⟩ := List.forall_mem_cons.mp hfound
      have holders := ih hrest hnewer
      have hjoin : List.range newer.first ++
          List.range' newer.first (newer.last + 1 - newer.first) =
            List.range (newer.last + 1) := by
        rw [List.range_eq_range', List.range_eq_range']
        have happend := List.range'_append_1 (s := 0) (m := newer.first)
          (n := newer.last + 1 - newer.first)
        rw [Nat.zero_add] at happend
        rw [happend, Nat.add_sub_cancel' (Nat.le_succ_of_le hwidth)]
      have hwhole : ((newer :: olders).reverse.flatMap Window.items).Sublist
          ((List.range (newer.last + 1)).flatMap items) := by
        rw [List.reverse_cons, List.flatMap_append, List.flatMap_singleton, hitems, ← hjoin,
          List.flatMap_append]
        exact holders.append (List.Sublist.refl _)
      have hk := hbelow newer (List.mem_cons_self ..)
      exact hwhole.trans ((List.range_sublist.mpr hk).flatMap items)

/-- What has been committed is among the items up to the checkpoint, each at most
as often as it is there. -/
theorem Kept.committed_subperm (h : c.Kept items) {w : Nat} (hw : c.checkpoint = some w) :
    (c.committed.flatMap Window.items).Subperm ((List.range (w + 1)).flatMap items) := by
  have hbelow : ∀ x ∈ c.committed, x.last < w + 1 := by
    intro x hx
    obtain ⟨-, w', hw', hlast⟩ := h.behind x hx
    cases hw.symm.trans hw'
    exact Nat.lt_succ_of_le hlast
  have hsublist := flatMap_sublist h.apart
    (fun x hx => ⟨(h.behind x hx).1, h.found x hx⟩) hbelow
  exact ⟨_, (List.reverse_perm _).flatMap_right _, hsublist⟩

/-- Every item from a checkpoint to a later one is in exactly one committed
window, and no committed window reaches beyond the later one. -/
theorem Steps.exactly_once (hsteps : Steps items c c') (h : c.Kept items)
    (hcheckpoint : c.checkpoint = some from₀) :
    ∃ w, c'.checkpoint = some w ∧ from₀ ≤ w ∧
      (∀ n, from₀ < n → n ≤ w → items n ≠ [] →
        ∃ x, c'.committed.filter (fun x => x.Covers n) = [x]) ∧
      ∀ x ∈ c'.committed, x.last ≤ w := by
  have hkept := Steps.kept hsteps h
  obtain ⟨w, hw, hfrom, hcover⟩ := Steps.coveredFrom hsteps h hcheckpoint
  refine ⟨w, hw, hfrom, fun n hlt hle hn => ?_, fun x hx => ?_⟩
  · obtain ⟨x, hx, hcovers⟩ := hcover n hlt hle hn
    have hmem : x ∈ c'.committed.filter (fun x => x.Covers n) :=
      List.mem_filter.mpr ⟨hx, decide_eq_true hcovers⟩
    have hone : (c'.committed.filter fun x => x.Covers n).length = 1 :=
      Nat.le_antisymm hkept.covers_unique (List.length_pos_of_mem hmem)
    exact List.length_eq_one_iff.mp hone
  · obtain ⟨-, w', hw', hlast⟩ := hkept.behind x hx
    cases hw.symm.trans hw'
    exact hlast

end Consumer

end AquaTimestamp.Support
