import AquaTimestamp.Model.Sample
import AquaTimestamp.Settlement.Order
import AquaTimestamp.Settlement.Refinement
import Mathlib.Data.List.TakeWhile

/-!
# Methods that are down for a tick

A tick asks the provider of a method until a call of it does not succeed: an
error, an anchor that cannot be stored, or an anchor found at fault by the
self-check.  The set of methods that are down is threaded through the pending
records and on to the epoch sealed in the tick.  The statements are about the
calls of one `seal_once`, whatever is listed and whatever is answered.
-/

namespace AquaTimestamp

open Support
open Prog (Leads leads_pure leads_call leads_bind within_ask within_bind)

variable {sdk : Sdk}

/-! ## Provider calls in a trace -/

/-- The (epoch, method) a provider is asked about. -/
def Call.asks : Call sdk → Option (Nat × AnchorMethod)
  | .createTimestamp e m _ => some (e, m)
  | _ => none

/-- The (epoch, method) whose witnesses are checked. -/
def Call.checks : Call sdk → Option (Nat × AnchorMethod)
  | .selfCheck e m _ _ _ _ => some (e, m)
  | _ => none

/-- How often the provider is asked about (`e`, `m`). -/
def askCount (e : Nat) (m : AnchorMethod) (t : SealTrace sdk) : Nat :=
  t.countP fun x => x.1.asks = some (e, m)

/-- The method's provider is not asked. -/
def Spares (m : AnchorMethod) (t : SealTrace sdk) : Prop :=
  ∀ x ∈ t, ∀ e, x.1.asks ≠ some (e, m)

/-- An anchor of (`e`, `m`) that was obtained earlier is found at fault. -/
def Blames (ctx : WitnessContext) (e : Nat) (m : AnchorMethod)
    (t : SealTrace sdk) : Prop :=
  ∃ before v minted answer reason rest,
    t = before ++ ⟨.selfCheck e m v minted ctx.serviceDid ctx.selfCheck,
      answer⟩ :: rest ∧
    askCount e m before = 0 ∧
    firstUnverified minted (selfCheckVerdicts ctx.selfCheck ctx.serviceDid
      minted answer) = some (.failed reason true)

/-- A provider call for (`e`, `m`) that got this answer and was followed by
`rest` does not succeed: it fails, its anchor cannot be stored (both saves
fail), or its anchor is found at fault. -/
def Unsuccessful (ctx : WitnessContext) (e : Nat) (m : AnchorMethod)
    (answer : Except String TimestampValue) (rest : SealTrace sdk) : Prop :=
  (∃ err, answer = .error err) ∨
  (∃ (p : PendingEpoch sdk) (o o' : WriteOutcome),
    [⟨.savePending p, o⟩, ⟨.savePending p, o'⟩] <+: rest ∧
      o.isOk = false ∧ o'.isOk = false) ∨
  Blames ctx e m rest

section Traces

variable {ctx : WitnessContext} {e : Nat} {m : AnchorMethod}
variable {t t' : SealTrace sdk}

@[simp]
theorem askCount_append : askCount e m (t ++ t') = askCount e m t + askCount e m t' :=
  List.countP_append

theorem askCount_eq_zero : askCount e m t = 0 ↔ ∀ x ∈ t, x.1.asks ≠ some (e, m) := by
  simp [askCount, List.countP_eq_zero]

/-- A place in two traces, one after the other, is in one of them. -/
theorem split_append {α : Type} {a b t₁ t₂ : List α} {x : α}
    (h : a ++ b = t₁ ++ x :: t₂) :
    (∃ s, a = t₁ ++ x :: s ∧ t₂ = s ++ b) ∨ ∃ s, t₁ = a ++ s ∧ b = s ++ x :: t₂ := by
  rcases List.append_eq_append_iff.mp h with ⟨s, rfl, hb⟩ | ⟨s, rfl, hs⟩
  · exact Or.inr ⟨s, rfl, hb⟩
  · rcases List.cons_eq_append_iff.mp hs with ⟨rfl, rfl⟩ | ⟨s', rfl, rfl⟩
    · exact Or.inr ⟨[], by simp, rfl⟩
    · exact Or.inl ⟨s', rfl, rfl⟩

theorem blames_nil : ¬ Blames ctx e m ([] : SealTrace sdk) := by
  rintro ⟨before, v, minted, answer, reason, rest, heq, -, -⟩
  simp at heq

theorem Blames.append_cases (h : Blames ctx e m (t ++ t')) :
    Blames ctx e m t ∨ askCount e m t = 0 ∧ Blames ctx e m t' := by
  obtain ⟨before, v, minted, answer, reason, rest, heq, hquiet, hfault⟩ := h
  rcases split_append heq with ⟨s, rfl, -⟩ | ⟨s, rfl, rfl⟩
  · exact Or.inl ⟨before, v, minted, answer, reason, s, rfl, hquiet, hfault⟩
  · rw [askCount_append] at hquiet
    exact Or.inr ⟨by omega, s, v, minted, answer, reason, rest, rfl, by omega, hfault⟩

end Traces

/-! ## Orderly traces -/

/-- A trace that starts with the methods `down` and holds anchors for `held`
leaves methods alone that are down, and those that get down in it. -/
structure Orderly (ctx : WitnessContext) (down : List AnchorMethod)
    (held : Nat → AnchorMethod → Prop) (t : SealTrace sdk) : Prop where
  notDown : ∀ m ∈ down, Spares m t
  blames : ∀ e m, Blames ctx e m t → held e m
  spares : ∀ t₁ e m root answer t₂ more,
    t = t₁ ++ ⟨.createTimestamp e m root, answer⟩ :: t₂ →
    Unsuccessful ctx e m answer (t₂ ++ more) → ¬ Blames ctx e m more → Spares m t₂

/-- The methods that are down after a trace: those before it, and every method
of which a call in it does not succeed. -/
structure Lowers (ctx : WitnessContext) (down down' : List AnchorMethod)
    (t : SealTrace sdk) : Prop where
  grows : ∀ m ∈ down, m ∈ down'
  sets : ∀ t₁ e m root answer t₂ more,
    t = t₁ ++ ⟨.createTimestamp e m root, answer⟩ :: t₂ →
    Unsuccessful ctx e m answer (t₂ ++ more) → ¬ Blames ctx e m more → m ∈ down'

section Orderly

variable {ctx : WitnessContext} {down down' down'' : List AnchorMethod}
variable {held held' : Nat → AnchorMethod → Prop} {t t' : SealTrace sdk}

theorem Spares.append {m : AnchorMethod} (h : Spares m t) (h' : Spares m t') :
    Spares m (t ++ t') := by
  intro x hx
  rcases List.mem_append.mp hx with hx | hx
  · exact h x hx
  · exact h' x hx

/-- Nothing of the first trace is judged in the second. -/
def Apart (held' : Nat → AnchorMethod → Prop) (t : SealTrace sdk) : Prop :=
  ∀ e m, held' e m → askCount e m t = 0

/-- An anchor of the first trace that is not judged later is not judged in the
second either. -/
theorem Orderly.not_blames (h' : Orderly ctx down' held' t') (hapart : Apart held' t)
    {e : Nat} {m : AnchorMethod} {more : SealTrace sdk}
    (hasked : askCount e m t ≠ 0) (hmore : ¬ Blames ctx e m more) :
    ¬ Blames ctx e m (t' ++ more) := by
  intro hblames
  rcases hblames.append_cases with hblames | ⟨-, hblames⟩
  · exact hasked (hapart e m (h'.blames e m hblames))
  · exact hmore hblames

theorem askCount_split {t₁ t₂ : SealTrace sdk} {e : Nat} {m : AnchorMethod}
    {root : String} {answer : Except String TimestampValue} :
    askCount e m (t₁ ++ ⟨.createTimestamp e m root, answer⟩ :: t₂) ≠ 0 := by
  intro hzero
  rw [askCount_eq_zero] at hzero
  exact hzero _ (List.mem_append_right _ (List.mem_cons_self ..)) rfl

theorem Orderly.append (h : Orderly ctx down held t) (hl : Lowers ctx down down' t)
    (h' : Orderly ctx down' held' t') (hapart : Apart held' t) :
    Orderly ctx down (fun e m => held e m ∨ held' e m) (t ++ t') where
  notDown m hm := (h.notDown m hm).append (h'.notDown m (hl.grows m hm))
  blames e m hblames := by
    rcases hblames.append_cases with hblames | ⟨-, hblames⟩
    · exact Or.inl (h.blames e m hblames)
    · exact Or.inr (h'.blames e m hblames)
  spares t₁ e m root answer t₂ more heq hfails hmore := by
    rcases split_append heq with ⟨s, rfl, rfl⟩ | ⟨s, rfl, rfl⟩
    · rw [List.append_assoc] at hfails
      have hnot := h'.not_blames hapart askCount_split hmore
      exact (h.spares _ _ _ _ _ _ _ rfl hfails hnot).append
        (h'.notDown m (hl.sets _ _ _ _ _ _ _ rfl hfails hnot))
    · exact h'.spares _ _ _ _ _ _ _ rfl hfails hmore

theorem Lowers.append (hl : Lowers ctx down down' t)
    (h' : Orderly ctx down' held' t') (hl' : Lowers ctx down' down'' t')
    (hapart : Apart held' t) : Lowers ctx down down'' (t ++ t') where
  grows m hm := hl'.grows m (hl.grows m hm)
  sets t₁ e m root answer t₂ more heq hfails hmore := by
    rcases split_append heq with ⟨s, rfl, rfl⟩ | ⟨s, rfl, rfl⟩
    · rw [List.append_assoc] at hfails
      have hnot := h'.not_blames hapart askCount_split hmore
      exact hl'.grows m (hl.sets _ _ _ _ _ _ _ rfl hfails hnot)
    · exact hl'.sets _ _ _ _ _ _ _ rfl hfails hmore

/-- Calls that neither ask a provider nor check witnesses. -/
def Call.isQuiet (c : Call sdk) : Prop :=
  c.asks = none ∧ c.checks = none

theorem orderly_quiet (ctx : WitnessContext) (down : List AnchorMethod)
    (h : ∀ x ∈ t, x.1.isQuiet) :
    Orderly ctx down (fun _ _ => False) t ∧ Lowers ctx down down t := by
  have hnone : ∀ t₁ e m root answer t₂,
      t ≠ t₁ ++ ⟨.createTimestamp e m root, answer⟩ :: t₂ := by
    rintro t₁ e m root answer t₂ rfl
    cases (h _ (List.mem_append_right _ (List.mem_cons_self ..))).1
  refine ⟨⟨?_, ?_, ?_⟩, ⟨fun _ => id, ?_⟩⟩
  · intro m _ x hx e hasks
    rw [(h x hx).1] at hasks
    cases hasks
  · rintro e m ⟨before, v, minted, answer, reason, rest, rfl, -, -⟩
    cases (h _ (List.mem_append_right _ (List.mem_cons_self ..))).2
  · exact fun _ _ _ _ _ _ _ heq => absurd heq (hnone _ _ _ _ _ _)
  · exact fun _ _ _ _ _ _ _ heq => absurd heq (hnone _ _ _ _ _ _)

theorem Orderly.mono (h : Orderly ctx down held t)
    (hheld : ∀ e m, held e m → held' e m) : Orderly ctx down held' t :=
  ⟨h.notDown, fun e m hblames => hheld e m (h.blames e m hblames), h.spares⟩

end Orderly

/-! ## At most one call for each method of an epoch -/

/-- The provider is asked at most once about each (epoch, method), and only
about those of `asked`. -/
def AsksOnce (asked : Nat → AnchorMethod → Prop) (t : SealTrace sdk) : Prop :=
  ∀ e m, askCount e m t ≤ 1 ∧ (askCount e m t ≠ 0 → asked e m)

/-- An orderly trace that asks once about each of `asked`. -/
structure Bounded (ctx : WitnessContext) (down : List AnchorMethod)
    (held asked : Nat → AnchorMethod → Prop) (t : SealTrace sdk) : Prop where
  orderly : Orderly ctx down held t
  once : AsksOnce asked t

section Bounded

variable {ctx : WitnessContext} {down down' : List AnchorMethod}
variable {held held' asked asked' : Nat → AnchorMethod → Prop}
variable {t t' : SealTrace sdk}

theorem askCount_of_asks_none {e : Nat} {m : AnchorMethod}
    (h : ∀ x ∈ t, x.1.asks = none) : askCount e m t = 0 :=
  askCount_eq_zero.mpr fun x hx => by rw [h x hx]; exact nofun

theorem asksOnce_of_asks_none (h : ∀ x ∈ t, x.1.asks = none) : AsksOnce asked t := by
  intro e m
  rw [askCount_of_asks_none h]
  exact ⟨Nat.zero_le _, fun hne => absurd rfl hne⟩

theorem AsksOnce.append (h : AsksOnce asked t) (h' : AsksOnce asked' t')
    (hdisjoint : ∀ e m, asked e m → ¬ asked' e m) :
    AsksOnce (fun e m => asked e m ∨ asked' e m) (t ++ t') := by
  intro e m
  obtain ⟨honce, hasked⟩ := h e m
  obtain ⟨honce', hasked'⟩ := h' e m
  rw [askCount_append]
  constructor
  · by_contra hmore
    exact hdisjoint e m (hasked (by omega)) (hasked' (by omega))
  · intro hne
    by_cases hzero : askCount e m t = 0
    · exact Or.inr (hasked' (by omega))
    · exact Or.inl (hasked hzero)

/-- What is not asked about in a trace has nothing judged after it. -/
theorem AsksOnce.apart (h : AsksOnce asked t)
    (hdisjoint : ∀ e m, asked e m → ¬ held e m) : Apart held t := by
  intro e m hheld
  by_contra hne
  exact hdisjoint e m ((h e m).2 hne) hheld

theorem bounded_quiet (ctx : WitnessContext) (down : List AnchorMethod)
    (h : ∀ x ∈ t, x.1.isQuiet) : Bounded ctx down held asked t where
  orderly := (orderly_quiet ctx down h).1.mono fun _ _ => False.elim
  once := asksOnce_of_asks_none fun x hx => (h x hx).1

theorem Bounded.mono (h : Bounded ctx down held asked t)
    (hheld : ∀ e m, held e m → held' e m) (hasked : ∀ e m, asked e m → asked' e m) :
    Bounded ctx down held' asked' t where
  orderly := h.orderly.mono hheld
  once e m := ⟨(h.once e m).1, fun hne => hasked e m ((h.once e m).2 hne)⟩

theorem Bounded.append (h : Bounded ctx down held asked t)
    (hl : Lowers ctx down down' t) (h' : Bounded ctx down' held' asked' t')
    (hapart : ∀ e m, asked e m → ¬ held' e m)
    (hdisjoint : ∀ e m, asked e m → ¬ asked' e m) :
    Bounded ctx down (fun e m => held e m ∨ held' e m)
      (fun e m => asked e m ∨ asked' e m) (t ++ t') where
  orderly := h.orderly.append hl h'.orderly (h.once.apart hapart)
  once := h.once.append h'.once hdisjoint

/-- Quiet calls come first. -/
theorem Bounded.after_quiet (hquiet : ∀ x ∈ t, x.1.isQuiet)
    (h : Bounded ctx down held asked t') : Bounded ctx down held asked (t ++ t') := by
  have hnone : Bounded ctx down (fun _ _ => False) (fun _ _ => False) t :=
    bounded_quiet ctx down hquiet
  refine (hnone.append (orderly_quiet ctx down hquiet).2 h nofun nofun).mono ?_ ?_
  · exact fun e m hheld => hheld.resolve_left id
  · exact fun e m hasked => hasked.resolve_left id

end Bounded

/-! ## Obtaining an anchor -/

section Obtain

variable {ctx : WitnessContext} {p : PendingEpoch sdk} {m : AnchorMethod}
variable {down : List AnchorMethod} {now : Nat} {t : SealTrace sdk}

theorem leads_storeAnchor {q : SealM sdk Bool} (h : Leads (storeAnchor p) t q) :
    ((∃ c next, q = .call c next) ∧
      (t = [] ∨ ∃ o, o.isOk = false ∧ t = [⟨.savePending p, o⟩])) ∨
    (∃ o, o.isOk = true ∧ t = [⟨.savePending p, o⟩] ∧ q = .pure true) ∨
    ∃ o o', o.isOk = false ∧ t = [⟨.savePending p, o⟩, ⟨.savePending p, o'⟩] ∧
      q = .pure o'.isOk := by
  rcases leads_call h with ⟨rfl, rfl⟩ | ⟨o, t', rfl, hrest⟩
  · exact Or.inl ⟨⟨_, _, rfl⟩, Or.inl rfl⟩
  dsimp only [Prog.bind] at hrest
  cases ho : o.isOk with
  | true =>
      rw [ho, if_pos rfl] at hrest
      obtain ⟨rfl, rfl⟩ := leads_pure hrest
      exact Or.inr (Or.inl ⟨o, ho, rfl, rfl⟩)
  | false =>
      rw [ho, if_neg Bool.false_ne_true] at hrest
      rcases leads_call hrest with ⟨rfl, rfl⟩ | ⟨o', t'', rfl, hlast⟩
      · exact Or.inl ⟨⟨_, _, rfl⟩, Or.inr ⟨o, ho, rfl⟩⟩
      · obtain ⟨rfl, rfl⟩ := leads_pure hlast
        exact Or.inr (Or.inr ⟨o, o', ho, rfl, rfl⟩)

/-- How step 1 of settling ends: the calls made, the record, the methods that
are down, and the anchor. -/
inductive Obtained (ctx : WitnessContext) (p : PendingEpoch sdk) (m : AnchorMethod)
    (down : List AnchorMethod) (now : Nat) : SealTrace sdk → PendingEpoch sdk →
    List AnchorMethod → Option TimestampValue → Prop where
  | held {v : TimestampValue} : p.anchor m = some v →
      Obtained ctx p m down now [] p down (some v)
  | skipped : p.anchor m = none →
      (m ∈ down ∨ ctx.maxAnchorFaults ≤ p.anchorFaultCount m) →
      Obtained ctx p m down now [] p down none
  | unwired : p.anchor m = none → ctx.provider m = false →
      Obtained ctx p m down now [] p (m :: down) none
  | refused {e : String} : p.anchor m = none → m ∉ down →
      Obtained ctx p m down now
        [⟨.createTimestamp p.epochId m p.anchorRoot, .error e⟩]
        p (m :: down) none
  | stored {v : TimestampValue} {o : WriteOutcome} : p.anchor m = none →
      m ∉ down → o.isOk = true →
      Obtained ctx p m down now
        [⟨.createTimestamp p.epochId m p.anchorRoot, .ok v⟩,
          ⟨.savePending (p.setAnchor m v now), o⟩]
        (p.setAnchor m v now) down (some v)
  | storedAgain {v : TimestampValue} {o o' : WriteOutcome} : p.anchor m = none →
      m ∉ down → o.isOk = false → o'.isOk = true →
      Obtained ctx p m down now
        [⟨.createTimestamp p.epochId m p.anchorRoot, .ok v⟩,
          ⟨.savePending (p.setAnchor m v now), o⟩,
          ⟨.savePending (p.setAnchor m v now), o'⟩]
        (p.setAnchor m v now) down (some v)
  | unstored {v : TimestampValue} {o o' : WriteOutcome} : p.anchor m = none →
      m ∉ down → o.isOk = false → o'.isOk = false →
      Obtained ctx p m down now
        [⟨.createTimestamp p.epochId m p.anchorRoot, .ok v⟩,
          ⟨.savePending (p.setAnchor m v now), o⟩,
          ⟨.savePending (p.setAnchor m v now), o'⟩]
        (p.setAnchor m v now) (m :: down) none

/-- The calls of step 1 before it ends. -/
def Obtaining (p : PendingEpoch sdk) (m : AnchorMethod) (down : List AnchorMethod)
    (t : SealTrace sdk) : Prop :=
  t = [] ∨ p.anchor m = none ∧ m ∉ down ∧ ∃ v saves,
    t = ⟨.createTimestamp p.epochId m p.anchorRoot, .ok v⟩ :: saves ∧
      ∀ x ∈ saves, x.1.isQuiet

theorem leads_obtainAnchor
    {q : SealM sdk (PendingEpoch sdk × List AnchorMethod × Option TimestampValue)}
    (h : Leads (obtainAnchor ctx p m down now) t q) :
    ((∃ c next, q = .call c next) ∧ Obtaining p m down t) ∨
      ∃ p' down' v?, q = .pure (p', down', v?) ∧
        Obtained ctx p m down now t p' down' v? := by
  unfold obtainAnchor at h
  cases hanchor : p.anchor m with
  | some v =>
      simp only [hanchor] at h
      obtain ⟨rfl, rfl⟩ := leads_pure h
      exact Or.inr ⟨_, _, _, rfl, .held hanchor⟩
  | none =>
      simp only [hanchor] at h
      split at h
      · rename_i hdown
        obtain ⟨rfl, rfl⟩ := leads_pure h
        exact Or.inr ⟨_, _, _, rfl, .skipped hanchor (Or.inl hdown)⟩
      rename_i hdown
      split at h
      · rename_i hcap
        obtain ⟨rfl, rfl⟩ := leads_pure h
        exact Or.inr ⟨_, _, _, rfl, .skipped hanchor (Or.inr hcap)⟩
      unfold anchorRoot at h
      split at h
      swap
      · rename_i hwired
        obtain ⟨rfl, rfl⟩ := leads_pure h
        exact Or.inr ⟨_, _, _, rfl, .unwired hanchor (by simpa using hwired)⟩
      rcases leads_call h with ⟨rfl, rfl⟩ | ⟨answer, t', rfl, hrest⟩
      · exact Or.inl ⟨⟨_, _, rfl⟩, Or.inl rfl⟩
      cases answer with
      | error e =>
          obtain ⟨rfl, rfl⟩ := leads_pure hrest
          exact Or.inr ⟨_, _, _, rfl, .refused hanchor hdown⟩
      | ok v =>
          have hstore : Leads (storeAnchor (p.setAnchor m v now) >>= fun stored =>
              if stored = true then .pure (p.setAnchor m v now, down, some v)
              else .pure (p.setAnchor m v now, m :: down, none)) t' q := hrest
          rcases leads_bind hstore with
            ⟨c, next, hsave, rfl⟩ | ⟨result, t₁, t₂, rfl, hsave, hlast⟩
          · refine Or.inl ⟨⟨_, _, rfl⟩, Or.inr ⟨hanchor, hdown, v, _, rfl, ?_⟩⟩
            rcases leads_storeAnchor hsave with
              ⟨-, rfl | ⟨o, -, rfl⟩⟩ | ⟨o, -, -, hq⟩ | ⟨o, o', -, -, hq⟩
            · exact nofun
            · intro x hx
              obtain rfl := List.mem_singleton.mp hx
              exact ⟨rfl, rfl⟩
            · cases hq
            · cases hq
          · rcases leads_storeAnchor hsave with
              ⟨⟨c, next, hq⟩, -⟩ | ⟨o, ho, rfl, hq⟩ | ⟨o, o', ho, rfl, hq⟩
            · cases hq
            · cases hq
              obtain ⟨rfl, rfl⟩ := leads_pure hlast
              exact Or.inr ⟨_, _, _, rfl, .stored hanchor hdown ho⟩
            · cases hq
              cases ho' : o'.isOk with
              | true =>
                  simp only [ho', if_true] at hlast
                  obtain ⟨rfl, rfl⟩ := leads_pure hlast
                  exact Or.inr ⟨_, _, _, rfl, .storedAgain hanchor hdown ho ho'⟩
              | false =>
                  simp only [ho', Bool.false_eq_true, if_false] at hlast
                  obtain ⟨rfl, rfl⟩ := leads_pure hlast
                  exact Or.inr ⟨_, _, _, rfl, .unstored hanchor hdown ho ho'⟩

end Obtain

/-! ## Minting, checking and acting on the verdict -/

/-- A call that is quiet, whatever it is answered. -/
def Quietly (c : Call sdk) (_ : Answer c) : Prop :=
  c.isQuiet

theorem quiet_of_minting {c : Call sdk} (h : c.isMinting = true) : c.isQuiet := by
  cases c <;> first | exact ⟨rfl, rfl⟩ | cases h

section Act

variable {ctx : WitnessContext} {p : PendingEpoch sdk} {m : AnchorMethod}
variable {down : List AnchorMethod} {now : Nat} {t : SealTrace sdk}

/-- The record keeps its id and its anchors of the other methods. -/
def OnlyAt (m : AnchorMethod) (p' p : PendingEpoch sdk) : Prop :=
  p'.epochId = p.epochId ∧ ∀ m' ≠ m, p'.anchor m' = p.anchor m'

theorem onlyAt_of_agrees {p' : PendingEpoch sdk} (hid : p'.epochId = p.epochId)
    (h : ∀ m', m ≠ m' → Agrees p p' m') : OnlyAt m p' p :=
  ⟨hid, fun m' hne => by simp only [PendingEpoch.anchor, (h m' hne.symm).entry]⟩

theorem onlyAt_refl : OnlyAt m p p :=
  ⟨rfl, fun _ _ => rfl⟩

theorem onlyAt_discardAnchor : OnlyAt m (discardAnchor p m) p :=
  onlyAt_of_agrees (sameEpoch_discardAnchor p m).1 fun _ => agrees_discardAnchor

theorem OnlyAt.trans {p' p'' : PendingEpoch sdk} (h : OnlyAt m p'' p')
    (h' : OnlyAt m p' p) : OnlyAt m p'' p :=
  ⟨h.1.trans h'.1, fun m' hne => (h.2 m' hne).trans (h'.2 m' hne)⟩

theorem within_settleMissing :
    (settleMissing ctx p m now).Within Quietly (fun p' => OnlyAt m p' p) := by
  unfold settleMissing PendingEpoch.anchorFirstSeen
  cases p.anchorEntry m with
  | none => exact onlyAt_refl
  | some a =>
      have htouch : OnlyAt m (p.touchAnchor m now) p :=
        onlyAt_of_agrees rfl fun _ => agrees_touchAnchor
      dsimp only [Option.map_some]
      cases a.firstSeen with
      | some first =>
          dsimp only
          split
          · exact onlyAt_refl
          · exact within_ask fun o => ⟨⟨rfl, rfl⟩, onlyAt_discardAnchor⟩
      | none =>
          dsimp only
          split
          · exact within_ask fun o => ⟨⟨rfl, rfl⟩, htouch⟩
          · exact within_ask fun o => ⟨⟨rfl, rfl⟩, onlyAt_discardAnchor.trans htouch⟩

/-- An anchor at fault sets its method down, and nothing else does. -/
theorem within_settleVerdict {minted : List (MintedWitness sdk)}
    (verdict : Option SelfCheckVerdict) :
    (settleVerdict ctx p m down now minted verdict).Within Quietly
      (fun result => OnlyAt m result.1 p ∧ (∀ m' ∈ down, m' ∈ result.2.1) ∧
        ∀ reason, verdict = some (.failed reason true) → m ∈ result.2.1) := by
  unfold settleVerdict
  split
  · refine within_bind within_settleMissing fun p' hp' => ?_
    exact ⟨hp', fun _ => id, nofun⟩
  · exact within_ask fun o => ⟨⟨rfl, rfl⟩, onlyAt_discardAnchor,
      fun m' hm' => List.mem_cons_of_mem _ hm', fun _ _ => List.mem_cons_self ..⟩
  · rename_i hfailed
    exact ⟨onlyAt_refl, fun _ => id, fun reason heq => (hfailed reason (Option.some.inj heq)).elim⟩
  · refine within_ask fun o => ⟨⟨rfl, rfl⟩, ?_⟩
    split
    · exact ⟨onlyAt_of_agrees rfl fun _ => agrees_without, fun _ => id, nofun⟩
    · exact ⟨onlyAt_refl, fun _ => id, nofun⟩

/-- Steps 2 to 4 of settling, from an anchor. -/
def settleAnchored (ctx : WitnessContext) (p : PendingEpoch sdk) (m : AnchorMethod)
    (down : List AnchorMethod) (now : Nat) (v : TimestampValue) :
    SealM sdk (PendingEpoch sdk × List AnchorMethod ×
      Option (List (MintedWitness sdk))) := do
  match ← mintFrom p m v with
  | .error _ => pure (p, down, none)
  | .ok minted => do
      let answer ← SealM.selfCheck p.epochId m v minted ctx.serviceDid ctx.selfCheck
      settleVerdict ctx p m down now minted
        (firstUnverified minted
          (selfCheckVerdicts ctx.selfCheck ctx.serviceDid minted answer))

/-- What the calls after an anchor is there do to the methods that are down. -/
structure Acts (ctx : WitnessContext) (e : Nat) (m : AnchorMethod)
    (t : SealTrace sdk) : Prop where
  asks : ∀ x ∈ t, x.1.asks = none
  blames : ∀ e' m', Blames ctx e' m' t → e' = e ∧ m' = m

theorem leads_settleAnchored {v : TimestampValue} {q}
    (h : Leads (settleAnchored ctx p m down now v) t q) :
    Acts ctx p.epochId m t ∧ ∀ p' down' served, q = .pure (p', down', served) →
      OnlyAt m p' p ∧ (∀ m' ∈ down, m' ∈ down') ∧
        (Blames ctx p.epochId m t → m ∈ down') := by
  have hquiet : ∀ {t : SealTrace sdk}, (∀ x ∈ t, x.1.isQuiet) →
      (∀ x ∈ t, x.1.asks = none) ∧ ∀ e' m', ¬ Blames ctx e' m' t :=
    fun hall => ⟨fun x hx => (hall x hx).1,
      fun e' m' hblames => (orderly_quiet ctx [] hall).1.blames e' m' hblames⟩
  have hmints : ∀ {t q}, Leads (mintFrom p m v) t q → ∀ x ∈ t, x.1.isQuiet :=
    fun hmint x hx =>
      quiet_of_minting (((within_mintFrom_methods p m v).leads hmint).1 x hx)
  unfold settleAnchored at h
  rcases leads_bind h with ⟨c, next, hmint, rfl⟩ | ⟨result, t₁, t₂, rfl, hmint, hrest⟩
  · obtain ⟨hasks, hblames⟩ := hquiet (hmints hmint)
    exact ⟨⟨hasks, fun e' m' hb => absurd hb (hblames e' m')⟩, nofun⟩
  have hminting := hmints hmint
  cases result with
  | error e =>
      obtain ⟨rfl, rfl⟩ := leads_pure hrest
      rw [List.append_nil]
      obtain ⟨hasks, hblames⟩ := hquiet hminting
      refine ⟨⟨hasks, fun e' m' hb => absurd hb (hblames e' m')⟩, ?_⟩
      rintro _ _ _ ⟨⟩
      exact ⟨onlyAt_refl, fun _ => id, fun hb => absurd hb (hblames _ _)⟩
  | ok minted =>
      rcases leads_call hrest with ⟨rfl, rfl⟩ | ⟨answer, t₃, rfl, hverdict⟩
      · rw [List.append_nil]
        obtain ⟨hasks, hblames⟩ := hquiet hminting
        exact ⟨⟨hasks, fun e' m' hb => absurd hb (hblames e' m')⟩, nofun⟩
      obtain ⟨hcalls, hresult⟩ := (within_settleVerdict _).leads hverdict
      -- The one check is that of the minted witnesses.
      have hcheck : ∀ e' m', Blames ctx e' m' (t₁ ++
            ⟨.selfCheck p.epochId m v minted ctx.serviceDid ctx.selfCheck,
              answer⟩ :: t₃) →
          (e' = p.epochId ∧ m' = m) ∧ ∃ reason, firstUnverified minted
            (selfCheckVerdicts ctx.selfCheck ctx.serviceDid minted answer) =
              some (.failed reason true) := by
        rintro e' m' ⟨before, v', minted', answer', reason, rest, heq, -, hfault⟩
        rcases split_append heq with ⟨s, rfl, -⟩ | ⟨s, -, hs⟩
        · cases (hminting _ (List.mem_append_right _ (List.mem_cons_self ..))).2
        · rcases List.cons_eq_append_iff.mp hs with ⟨rfl, hs⟩ | ⟨s', rfl, rfl⟩
          · cases hs
            exact ⟨⟨rfl, rfl⟩, reason, hfault⟩
          · cases (hcalls _ (List.mem_append_right _ (List.mem_cons_self ..))).2
      refine ⟨⟨?_, fun e' m' hb => (hcheck e' m' hb).1⟩, ?_⟩
      · intro x hx
        rcases List.mem_append.mp hx with hx | hx
        · exact (hminting x hx).1
        · rcases List.mem_cons.mp hx with rfl | hx
          · rfl
          · exact (hcalls x hx).1
      · rintro p' down' served rfl
        obtain ⟨honly, hgrows, hdown⟩ := hresult _ rfl
        refine ⟨honly, hgrows, fun hb => ?_⟩
        obtain ⟨-, reason, hfault⟩ := hcheck _ _ hb
        exact hdown reason hfault

end Act

/-! ## One method of one record -/

/-- The settlement of one method of a record so far. -/
abbrev SettlesOne (ctx : WitnessContext) (p : PendingEpoch sdk)
    (m : AnchorMethod) (down : List AnchorMethod) (t : SealTrace sdk) : Prop :=
  Bounded ctx down (fun e m' => e = p.epochId ∧ m' = m ∧ p.anchor m ≠ none)
    (fun e m' => e = p.epochId ∧ m' = m) t

section Method

variable {ctx : WitnessContext} {p : PendingEpoch sdk} {m : AnchorMethod}
variable {down : List AnchorMethod} {now : Nat} {t : SealTrace sdk}

/-- Without a provider call. -/
theorem settlesOne_held {v : TimestampValue} (hv : p.anchor m = some v)
    (hacts : Acts ctx p.epochId m t) : SettlesOne ctx p m down t := by
  have hnone : ∀ t₁ e m root answer t₂,
      t ≠ t₁ ++ ⟨.createTimestamp e m root, answer⟩ :: t₂ := by
    rintro t₁ e m root answer t₂ rfl
    cases hacts.asks _ (List.mem_append_right _ (List.mem_cons_self ..))
  refine ⟨⟨?_, ?_, ?_⟩, ?_⟩
  · intro m' _ x hx e hasks
    rw [hacts.asks x hx] at hasks
    cases hasks
  · intro e m' hblames
    obtain ⟨rfl, rfl⟩ := hacts.blames e m' hblames
    exact ⟨rfl, rfl, by rw [hv]; exact nofun⟩
  · exact fun _ _ _ _ _ _ _ heq => absurd heq (hnone _ _ _ _ _ _)
  · exact asksOnce_of_asks_none hacts.asks

/-- With a provider call, and what comes after it. -/
theorem settlesOne_asked {answer : Except String TimestampValue}
    {rest : SealTrace sdk} (hnot : m ∉ down)
    (hasks : ∀ x ∈ rest, x.1.asks = none)
    (hblames : ∀ e' m', Blames ctx e' m' rest → e' = p.epochId ∧ m' = m) :
    SettlesOne ctx p m down
      (⟨.createTimestamp p.epochId m p.anchorRoot, answer⟩ :: rest) := by
  have hspares : ∀ m', Spares m' rest := by
    intro m' x hx e hsome
    rw [hasks x hx] at hsome
    cases hsome
  refine ⟨⟨?_, ?_, ?_⟩, ?_⟩
  · intro m' hm' x hx e hsome
    rcases List.mem_cons.mp hx with rfl | hx
    · cases hsome
      exact hnot hm'
    · exact hspares m' x hx e hsome
  · rintro e m' hb
    -- The first call is the provider's, so nothing is judged before it.
    obtain ⟨before, v, minted, check, reason, after, heq, hquiet, hfault⟩ := hb
    cases before with
    | nil => cases heq
    | cons x before =>
        rw [List.cons_append] at heq
        obtain ⟨rfl, rfl⟩ := List.cons.inj heq
        have hquiet' : askCount e m' before = 0 := by
          rw [askCount_eq_zero] at hquiet ⊢
          exact fun y hy => hquiet y (List.mem_cons_of_mem _ hy)
        obtain ⟨rfl, rfl⟩ := hblames e m'
          ⟨before, v, minted, check, reason, after, rfl, hquiet', hfault⟩
        rw [askCount_eq_zero] at hquiet
        exact absurd rfl (hquiet _ (List.mem_cons_self ..))
  · intro t₁ e m' root answer' t₂ more heq _ _
    rcases List.cons_eq_append_iff.mp heq with ⟨rfl, heq⟩ | ⟨s, rfl, rfl⟩
    · cases heq
      exact hspares _
    · cases hasks _ (List.mem_append_right _ (List.mem_cons_self ..))
  · intro e m'
    have hzero : askCount e m' rest = 0 := askCount_of_asks_none hasks
    have hcount : askCount e m' (⟨.createTimestamp p.epochId m p.anchorRoot,
        answer⟩ :: rest) = if (p.epochId, m) = (e, m') then 1 else 0 := by
      have hrest : List.countP (fun x => decide (x.1.asks = some (e, m'))) rest = 0 :=
        hzero
      rw [askCount, List.countP_cons, hrest, Nat.zero_add]
      simp [Call.asks]
    rw [hcount]
    split
    · rename_i heq
      cases heq
      exact ⟨le_refl _, fun _ => ⟨rfl, rfl⟩⟩
    · exact ⟨Nat.zero_le _, fun h => absurd rfl h⟩

theorem settlesOne_nil : SettlesOne ctx p m down ([] : SealTrace sdk) :=
  bounded_quiet ctx down nofun

/-- Before step 1 has ended. -/
theorem Obtaining.settlesOne (h : Obtaining p m down t) : SettlesOne ctx p m down t := by
  rcases h with rfl | ⟨-, hnot, v, saves, rfl, hquiet⟩
  · exact settlesOne_nil
  · refine settlesOne_asked hnot (fun x hx => (hquiet x hx).1) fun e' m' hb => ?_
    exact ((orderly_quiet ctx [] hquiet).1.blames e' m' hb).elim

/-- The only provider call of a trace that starts with it. -/
theorem first_call {a answer : Except String TimestampValue} {saves : SealTrace sdk}
    (hquiet : ∀ x ∈ saves, x.1.asks = none) {t₁ t₂ : SealTrace sdk} {e e' : Nat}
    {m m' : AnchorMethod} {root root' : String}
    (heq : (⟨.createTimestamp e m root, a⟩ :: saves : SealTrace sdk) =
      t₁ ++ ⟨.createTimestamp e' m' root', answer⟩ :: t₂) :
    e' = e ∧ m' = m ∧ answer = a ∧ t₂ = saves := by
  rcases List.cons_eq_append_iff.mp heq with ⟨-, heq⟩ | ⟨s, -, rfl⟩
  · cases heq
    exact ⟨rfl, rfl, rfl, rfl⟩
  · cases hquiet _ (List.mem_append_right _ (List.mem_cons_self ..))

/-- When step 1 ends with an anchor, its call did not fail. -/
theorem not_unsuccessful {v : TimestampValue} {saves more : SealTrace sdk} {e : Nat}
    (hquiet : ∀ x ∈ saves, x.1.isQuiet)
    (hstored : ∀ (q : PendingEpoch sdk) (o o' : WriteOutcome),
      [⟨.savePending q, o⟩, ⟨.savePending q, o'⟩] <+: saves ++ more →
        o.isOk = true ∨ o'.isOk = true)
    (hmore : ¬ Blames ctx e m more) :
    ¬ Unsuccessful ctx e m (.ok v) (saves ++ more) := by
  rintro (⟨err, ⟨⟩⟩ | ⟨q, o, o', hprefix, ho, ho'⟩ | hb)
  · rcases hstored q o o' hprefix with hok | hok
    · rw [ho] at hok
      cases hok
    · rw [ho'] at hok
      cases hok
  · rcases hb.append_cases with hb | ⟨-, hb⟩
    · exact (orderly_quiet ctx [] hquiet).1.blames e m hb
    · exact hmore hb

/-- After step 1 the method is down when its call failed, also by what comes
next, unless that puts the anchor at fault. -/
theorem Obtained.fails {p' : PendingEpoch sdk} {down' : List AnchorMethod}
    {v? : Option TimestampValue} (h : Obtained ctx p m down now t p' down' v?)
    {t₁ t₂ more : SealTrace sdk} {e : Nat} {m' : AnchorMethod} {root : String}
    {answer : Except String TimestampValue}
    (heq : t = t₁ ++ ⟨.createTimestamp e m' root, answer⟩ :: t₂)
    (hfails : Unsuccessful ctx e m' answer (t₂ ++ more))
    (hmore : ¬ Blames ctx e m' more) : m' ∈ down' := by
  cases h with
  | held | skipped | unwired => simp at heq
  | refused =>
      obtain ⟨-, rfl, -, -⟩ := first_call (by simp) heq
      exact List.mem_cons_self ..
  | unstored =>
      obtain ⟨-, rfl, -, -⟩ := first_call (by simp [Call.asks]) heq
      exact List.mem_cons_self ..
  | @stored v o _ _ ho =>
      obtain ⟨rfl, rfl, rfl, rfl⟩ := first_call (by simp [Call.asks]) heq
      refine absurd hfails (not_unsuccessful ?_ ?_ hmore)
      · simp [Call.isQuiet, Call.asks, Call.checks]
      · intro q o₁ o₂ hprefix
        obtain ⟨hfirst, -⟩ := List.cons_prefix_cons.mp hprefix
        cases hfirst
        exact Or.inl ho
  | @storedAgain v o o' _ _ _ ho' =>
      obtain ⟨rfl, rfl, rfl, rfl⟩ := first_call (by simp [Call.asks]) heq
      refine absurd hfails (not_unsuccessful ?_ ?_ hmore)
      · simp [Call.isQuiet, Call.asks, Call.checks]
      · intro q o₁ o₂ hprefix
        obtain ⟨-, hprefix⟩ := List.cons_prefix_cons.mp hprefix
        obtain ⟨hsecond, -⟩ := List.cons_prefix_cons.mp hprefix
        cases hsecond
        exact Or.inr ho'

/-- What step 1 leaves to the rest. -/
theorem Obtained.frame {p' : PendingEpoch sdk} {down' : List AnchorMethod}
    {v? : Option TimestampValue} (h : Obtained ctx p m down now t p' down' v?) :
    OnlyAt m p' p ∧ ∀ m' ∈ down, m' ∈ down' := by
  have hset : ∀ v, OnlyAt m (p.setAnchor m v now) p := fun v =>
    onlyAt_of_agrees rfl fun _ => agrees_setAnchor
  cases h with
  | held | skipped => exact ⟨onlyAt_refl, fun _ => id⟩
  | unwired | refused => exact ⟨onlyAt_refl, fun _ => List.mem_cons_of_mem _⟩
  | stored | storedAgain => exact ⟨hset _, fun _ => id⟩
  | unstored => exact ⟨hset _, fun _ => List.mem_cons_of_mem _⟩

/-- Step 1 with what comes after it. -/
theorem Obtained.settlesOne {p' : PendingEpoch sdk} {down' : List AnchorMethod}
    {v? : Option TimestampValue} {rest : SealTrace sdk}
    (h : Obtained ctx p m down now t p' down' v?)
    (hacts : Acts ctx p.epochId m rest) (hnone : v? = none → rest = []) :
    SettlesOne ctx p m down (t ++ rest) := by
  have hasked : ∀ (answer : Except String TimestampValue) (saves : SealTrace sdk),
      m ∉ down → (∀ x ∈ saves, x.1.isQuiet) → SettlesOne ctx p m down
        (⟨.createTimestamp p.epochId m p.anchorRoot, answer⟩ :: saves ++ rest) := by
    intro answer saves hnot hquiet
    refine settlesOne_asked hnot ?_ ?_
    · intro x hx
      rcases List.mem_append.mp hx with hx | hx
      · exact (hquiet x hx).1
      · exact hacts.asks x hx
    · intro e' m' hb
      rcases hb.append_cases with hb | ⟨-, hb⟩
      · exact ((orderly_quiet ctx [] hquiet).1.blames e' m' hb).elim
      · exact hacts.blames e' m' hb
  cases h with
  | held hv => exact settlesOne_held hv hacts
  | skipped | unwired =>
      rw [hnone rfl, List.append_nil]
      exact settlesOne_nil
  | refused _ hnot => exact hasked _ [] hnot (by simp)
  | stored _ hnot | storedAgain _ hnot | unstored _ hnot =>
      exact hasked _ _ hnot (by simp [Call.isQuiet, Call.asks, Call.checks])

/-- The record and the methods that are down after settling one method. -/
def MethodSettled (ctx : WitnessContext) (p : PendingEpoch sdk) (m : AnchorMethod)
    (down : List AnchorMethod) (t : SealTrace sdk) (p' : PendingEpoch sdk)
    (down' : List AnchorMethod) : Prop :=
  OnlyAt m p' p ∧ Lowers ctx down down' t

theorem Obtained.settled {p' p'' : PendingEpoch sdk} {down' down'' : List AnchorMethod}
    {v? : Option TimestampValue} {rest : SealTrace sdk}
    (h : Obtained ctx p m down now t p' down' v?)
    (hacts : Acts ctx p.epochId m rest) (honly : OnlyAt m p'' p')
    (hgrows : ∀ m' ∈ down', m' ∈ down'')
    (hblames : Blames ctx p.epochId m rest → m ∈ down'') :
    MethodSettled ctx p m down (t ++ rest) p'' down'' := by
  obtain ⟨honly', hgrows'⟩ := h.frame
  refine ⟨honly.trans honly', fun m' hm' => hgrows m' (hgrows' m' hm'), ?_⟩
  intro t₁ e m' root answer t₂ more heq hfails hmore
  rcases split_append heq with ⟨s, rfl, rfl⟩ | ⟨s, -, rfl⟩
  · by_cases hb : Blames ctx e m' rest
    · obtain ⟨rfl, rfl⟩ := hacts.blames e m' hb
      exact hblames hb
    · rw [List.append_assoc] at hfails
      refine hgrows m' (h.fails rfl hfails fun hb' => ?_)
      rcases hb'.append_cases with hb' | ⟨-, hb'⟩
      · exact hb hb'
      · exact hmore hb'
  · cases hacts.asks _ (List.mem_append_right _ (List.mem_cons_self ..))

theorem acts_nil (ctx : WitnessContext) (e : Nat) (m : AnchorMethod) :
    Acts ctx e m ([] : SealTrace sdk) :=
  ⟨nofun, fun _ _ hb => absurd hb blames_nil⟩

theorem leads_settleMethod {q} (h : Leads (settleMethod ctx p m down now) t q) :
    SettlesOne ctx p m down t ∧ ∀ p' down' served, q = .pure (p', down', served) →
      MethodSettled ctx p m down t p' down' := by
  unfold settleMethod at h
  split at h
  · obtain ⟨rfl, rfl⟩ := leads_pure h
    refine ⟨settlesOne_nil, ?_⟩
    rintro _ _ _ ⟨⟩
    exact ⟨onlyAt_refl, (orderly_quiet ctx down (by simp)).2⟩
  rcases leads_bind h with
    ⟨c, next, hobtain, rfl⟩ | ⟨⟨p₁, down₁, v?⟩, t₁, t₂, rfl, hobtain, hrest⟩
  · rcases leads_obtainAnchor hobtain with ⟨-, hobtaining⟩ | ⟨_, _, _, hq, -⟩
    · exact ⟨hobtaining.settlesOne, nofun⟩
    · cases hq
  rcases leads_obtainAnchor hobtain with ⟨⟨_, _, hq⟩, -⟩ | ⟨_, _, _, hq, hobtained⟩
  · cases hq
  cases hq
  have hid := hobtained.frame.1.1
  cases v? with
  | none =>
      obtain ⟨rfl, rfl⟩ := leads_pure hrest
      refine ⟨hobtained.settlesOne (acts_nil _ _ _) fun _ => rfl, ?_⟩
      rintro _ _ _ ⟨⟩
      exact hobtained.settled (acts_nil _ _ _) onlyAt_refl (fun _ => id)
        fun hb => absurd hb blames_nil
  | some v =>
      have hanchored : Leads (settleAnchored ctx p₁ m down₁ now v) t₂ q := hrest
      obtain ⟨hacts, hresult⟩ := leads_settleAnchored hanchored
      rw [hid] at hacts hresult
      refine ⟨hobtained.settlesOne hacts nofun, fun p' down' served hq => ?_⟩
      obtain ⟨honly, hgrows, hblames⟩ := hresult p' down' served hq
      exact hobtained.settled hacts honly hgrows hblames

end Method

/-! ## The methods of one record -/

section Methods

variable {ctx : WitnessContext} {p : PendingEpoch sdk}
variable {down : List AnchorMethod} {now : Nat} {t t' : SealTrace sdk}
/-- The record holds an anchor of one of the methods still to come. -/
def HeldIn (p : PendingEpoch sdk) (todo : List AnchorMethod) (e : Nat)
    (m : AnchorMethod) : Prop :=
  e = p.epochId ∧ m ∈ todo ∧ p.anchor m ≠ none

/-- The settlement of methods of one record so far. -/
abbrev SettlesAll (ctx : WitnessContext) (p : PendingEpoch sdk)
    (todo down : List AnchorMethod) (t : SealTrace sdk) : Prop :=
  Bounded ctx down (HeldIn p todo) (fun e m => e = p.epochId ∧ m ∈ todo) t

theorem SettlesOne.settlesAll {m : AnchorMethod} {todo : List AnchorMethod}
    (h : SettlesOne ctx p m down t) : SettlesAll ctx p (m :: todo) down t := by
  refine h.mono ?_ ?_
  · rintro e m' ⟨hid, rfl, hheld⟩
    exact ⟨hid, List.mem_cons_self .., hheld⟩
  · rintro e m' ⟨hid, rfl⟩
    exact ⟨hid, List.mem_cons_self ..⟩

/-- One method and then the others, which leave it alone. -/
theorem SettlesOne.then {p' : PendingEpoch sdk} {m : AnchorMethod}
    {todo down' : List AnchorMethod} (hm : m ∉ todo)
    (h : SettlesOne ctx p m down t) (hsettled : MethodSettled ctx p m down t p' down')
    (h' : SettlesAll ctx p' todo down' t') :
    SettlesAll ctx p (m :: todo) down (t ++ t') ∧ Apart (HeldIn p' todo) t := by
  obtain ⟨⟨hid, hanchor⟩, hlowers⟩ := hsettled
  have hapart : ∀ e m', e = p.epochId ∧ m' = m → ¬ HeldIn p' todo e m' := by
    rintro e m' ⟨-, rfl⟩ ⟨-, hmem, -⟩
    exact hm hmem
  refine ⟨(h.append hlowers h' hapart ?_).mono ?_ ?_, h.once.apart hapart⟩
  · rintro e m' ⟨-, rfl⟩ ⟨-, hmem⟩
    exact hm hmem
  · rintro e m' (⟨he, rfl, hheld⟩ | ⟨he, hmem, hheld⟩)
    · exact ⟨he, List.mem_cons_self .., hheld⟩
    · have hne : m' ≠ m := fun heq => hm (heq ▸ hmem)
      rw [hanchor m' hne] at hheld
      exact ⟨he.trans hid, List.mem_cons_of_mem _ hmem, hheld⟩
  · rintro e m' (⟨he, rfl⟩ | ⟨he, hmem⟩)
    · exact ⟨he, List.mem_cons_self ..⟩
    · exact ⟨he.trans hid, List.mem_cons_of_mem _ hmem⟩

theorem leads_settleMethods {todo : List AnchorMethod} (hnodup : todo.Nodup) {q}
    (h : Leads (settleMethods ctx now todo p down) t q) :
    SettlesAll ctx p todo down t ∧ ∀ p' down' out, q = .pure (p', down', out) →
      Lowers ctx down down' t := by
  induction todo generalizing p down t q with
  | nil =>
      obtain ⟨rfl, rfl⟩ := leads_pure h
      refine ⟨bounded_quiet ctx down nofun, ?_⟩
      rintro _ _ _ ⟨⟩
      exact (orderly_quiet ctx down (by simp)).2
  | cons m todo ih =>
      obtain ⟨hm, hnodup⟩ := List.nodup_cons.mp hnodup
      rcases leads_bind h with
        ⟨c, next, hfirst, rfl⟩ | ⟨⟨p₁, down₁, served⟩, t₁, t₂, rfl, hfirst, hrest⟩
      · exact ⟨(leads_settleMethod hfirst).1.settlesAll, nofun⟩
      obtain ⟨hone, hresult⟩ := leads_settleMethod hfirst
      have hsettled := hresult _ _ _ rfl
      rcases leads_bind hrest with
        ⟨c, next, hmore, rfl⟩ | ⟨⟨p₂, down₂, more⟩, t₃, t₄, rfl, hmore, hlast⟩
      · exact ⟨(hone.then hm hsettled (ih hnodup hmore).1).1, nofun⟩
      · obtain ⟨rfl, rfl⟩ := leads_pure hlast
        obtain ⟨hall, hlowers⟩ := ih hnodup hmore
        obtain ⟨hboth, hapart⟩ := hone.then hm hsettled hall
        rw [List.append_nil]
        refine ⟨hboth, ?_⟩
        rintro _ _ _ ⟨⟩
        exact hsettled.2.append hall.orderly (hlowers _ _ _ rfl) hapart

end Methods

/-! ## The listed records -/

section Records

variable {ctx : WitnessContext} {down : List AnchorMethod} {now : Nat}
variable {t : SealTrace sdk}

/-- The retries of the records with these ids so far. -/
abbrev Retries (ctx : WitnessContext) (ids : List Nat)
    (down : List AnchorMethod) (t : SealTrace sdk) : Prop :=
  Bounded ctx down (fun e _ => e ∈ ids) (fun e _ => e ∈ ids) t

theorem SettlesAll.retries {p : PendingEpoch sdk} {ids : List Nat}
    (h : SettlesAll ctx p p.methods down t) : Retries ctx (p.epochId :: ids) down t := by
  refine h.mono ?_ ?_
  · rintro e m ⟨rfl, -, -⟩
    exact List.mem_cons_self ..
  · rintro e m ⟨rfl, -⟩
    exact List.mem_cons_self ..

/-- One record and then those of other epochs. -/
theorem SettlesAll.then {p : PendingEpoch sdk} {ids : List Nat}
    {down' : List AnchorMethod} {t' : SealTrace sdk} (hid : p.epochId ∉ ids)
    (h : SettlesAll ctx p p.methods down t) (hlowers : Lowers ctx down down' t)
    (h' : Retries ctx ids down' t') :
    Retries ctx (p.epochId :: ids) down (t ++ t') ∧
      Apart (fun e _ => e ∈ ids) t := by
  have hapart : ∀ e m, e = p.epochId ∧ m ∈ p.methods → e ∉ ids := by
    rintro e m ⟨rfl, -⟩
    exact hid
  refine ⟨(h.append hlowers h' hapart hapart).mono ?_ ?_, h.once.apart hapart⟩
  · rintro e m (⟨rfl, -, -⟩ | hmem)
    · exact List.mem_cons_self ..
    · exact List.mem_cons_of_mem _ hmem
  · rintro e m (⟨rfl, -⟩ | hmem)
    · exact List.mem_cons_self ..
    · exact List.mem_cons_of_mem _ hmem

theorem leads_retryEach {pendings : List (PendingEpoch sdk)}
    (hids : (pendings.map PendingEpoch.epochId).Nodup)
    (hmethods : ∀ p ∈ pendings, p.methods.Nodup) {q}
    (h : Leads (retryEach ctx now pendings down) t q) :
    Retries ctx (pendings.map PendingEpoch.epochId) down t ∧
      ∀ out down', q = .pure (out, down') → Lowers ctx down down' t := by
  induction pendings generalizing down t q with
  | nil =>
      obtain ⟨rfl, rfl⟩ := leads_pure h
      refine ⟨bounded_quiet ctx down nofun, ?_⟩
      rintro _ _ ⟨⟩
      exact (orderly_quiet ctx down (by simp)).2
  | cons p rest ih =>
      rw [List.map_cons, List.nodup_cons] at hids
      obtain ⟨hid, hids⟩ := hids
      have hnodup := hmethods p (List.mem_cons_self ..)
      have hrestMethods : ∀ p ∈ rest, p.methods.Nodup :=
        fun p hp => hmethods p (List.mem_cons_of_mem _ hp)
      rcases leads_bind h with
        ⟨c, next, hfirst, rfl⟩ | ⟨⟨p₁, down₁, out⟩, t₁, t₂, rfl, hfirst, hrest⟩
      · exact ⟨(leads_settleMethods hnodup hfirst).1.retries, nofun⟩
      obtain ⟨hone, hresult⟩ := leads_settleMethods hnodup hfirst
      have hlowered := hresult _ _ _ rfl
      rcases leads_bind hrest with
        ⟨c, next, hmore, rfl⟩ | ⟨⟨more, down₂⟩, t₃, t₄, rfl, hmore, hlast⟩
      · exact ⟨(hone.then hid hlowered (ih hids hrestMethods hmore).1).1, nofun⟩
      · obtain ⟨rfl, rfl⟩ := leads_pure hlast
        obtain ⟨hall, hlowers⟩ := ih hids hrestMethods hmore
        obtain ⟨hboth, hapart⟩ := hone.then hid hlowered hall
        rw [List.append_nil]
        refine ⟨hboth, ?_⟩
        rintro _ _ ⟨⟩
        exact hlowered.append hall.orderly (hlowers _ _ rfl) hapart

/-- The record of the epoch is among those the tick retries. -/
def Retried (e : Nat) (t : SealTrace sdk) : Prop :=
  ∃ pendings, ⟨.listPendingEpochs, .ok pendings⟩ ∈ t ∧
    e ∈ pendings.map PendingEpoch.epochId

/-- The listed records are of different epochs, each with different methods. -/
def ListsDistinct (t : SealTrace sdk) : Prop :=
  ∀ pendings, ⟨.listPendingEpochs, .ok pendings⟩ ∈ t →
    (pendings.map PendingEpoch.epochId).Nodup ∧ ∀ p ∈ pendings, p.methods.Nodup

theorem leads_retryPending (hlist : ListsDistinct t) {q}
    (h : Leads (retryPending ctx now) t q) :
    Bounded ctx [] (fun e _ => Retried e t) (fun e _ => Retried e t) t ∧
      ∀ out down', q = .pure (out, down') → Lowers ctx [] down' t := by
  have hquiet : ∀ answer, ∀ x ∈ ([⟨.listPendingEpochs, answer⟩] : SealTrace sdk),
      x.1.isQuiet := by
    intro answer x hx
    obtain rfl := List.mem_singleton.mp hx
    exact ⟨rfl, rfl⟩
  rcases leads_call h with ⟨rfl, rfl⟩ | ⟨answer, t', rfl, hrest⟩
  · exact ⟨bounded_quiet ctx [] nofun, nofun⟩
  cases answer with
  | error e =>
      obtain ⟨rfl, rfl⟩ := leads_pure hrest
      refine ⟨bounded_quiet ctx [] (hquiet _), ?_⟩
      rintro _ _ ⟨⟩
      exact (orderly_quiet ctx [] (hquiet _)).2
  | ok pendings =>
      obtain ⟨hids, hmethods⟩ := hlist pendings (List.mem_cons_self ..)
      obtain ⟨hretries, hlowers⟩ := leads_retryEach hids hmethods hrest
      have hlisted : ∀ e ∈ pendings.map PendingEpoch.epochId,
          Retried e (⟨.listPendingEpochs, .ok pendings⟩ :: t') :=
        fun e he => ⟨pendings, List.mem_cons_self .., he⟩
      refine ⟨(Bounded.after_quiet (hquiet _) hretries).mono
        (fun e _ => hlisted e) fun e _ => hlisted e, fun out down' hq => ?_⟩
      exact (orderly_quiet ctx [] (hquiet _)).2.append hretries.orderly
        (hlowers out down' hq) fun _ _ _ =>
          askCount_of_asks_none fun x hx => (hquiet _ x hx).1

end Records

/-! ## The epoch sealed in the tick -/

section Sealed

variable {closedAt : Nat} {snapshot : SealedSnapshot}
variable {witnesses : List (MintedWitness sdk)} {t : SealTrace sdk}

theorem within_prepare (leaves : List Hash32) :
    (prepare leaves : SealM sdk _).Within Quietly (fun _ => True) := by
  unfold prepare
  split
  · trivial
  · refine within_ask fun answer => ⟨⟨rfl, rfl⟩, ?_⟩
    cases answer <;> trivial

theorem methods_of_pendingFor {witnessCtx : Option WitnessContext}
    {batch : Option (EpochBatch sdk)} {p : PendingEpoch sdk}
    (h : pendingFor witnessCtx snapshot batch = some p) :
    ∃ ctx, witnessCtx = some ctx ∧ p.methods = ctx.methods ∧
      p.epochId = snapshot.epochId ∧ ∀ m, p.anchor m = none := by
  obtain ⟨ctx, b, hctx, -, -, rfl⟩ := pendingFor_eq_some h
  exact ⟨ctx, hctx, rfl, rfl, fun _ => rfl⟩

/-- The closed epoch's record holds no anchor, so its provider calls start
with the methods the retries left. -/
theorem leads_sealSnapshot {witnessCtx : Option WitnessContext}
    (hctx : DistinctMethods witnessCtx) {down : List AnchorMethod} {q}
    (h : Leads (sealSnapshot witnessCtx closedAt witnesses down snapshot) t q) :
    (witnessCtx = none → ∀ x ∈ t, x.1.isQuiet) ∧ ∀ ctx ∈ witnessCtx,
      Bounded ctx down (fun _ _ => False) (fun e _ => e = snapshot.epochId) t := by
  have hdone : ∀ {t : SealTrace sdk}, (∀ x ∈ t, x.1.isQuiet) →
      (witnessCtx = none → ∀ x ∈ t, x.1.isQuiet) ∧ ∀ ctx ∈ witnessCtx,
        Bounded ctx down (fun _ _ => False) (fun e _ => e = snapshot.epochId) t :=
    fun hquiet => ⟨fun _ => hquiet, fun ctx _ => bounded_quiet ctx down hquiet⟩
  unfold sealSnapshot at h
  rcases leads_bind h with ⟨c, next, hprepare, rfl⟩ | ⟨result, t₁, t₂, rfl, hprepare, hrest⟩
  · exact hdone ((within_prepare _).leads hprepare).1
  have hquiet := ((within_prepare _).leads hprepare).1
  cases result with
  | error e =>
      obtain ⟨rfl, rfl⟩ := leads_pure hrest
      rw [List.append_nil]
      exact hdone hquiet
  | ok batch =>
      dsimp only at hrest
      split at hrest
      · obtain ⟨rfl, rfl⟩ := leads_pure hrest
        rw [List.append_nil]
        exact hdone hquiet
      rename_i record _
      rcases leads_call hrest with ⟨rfl, rfl⟩ | ⟨o, t₃, rfl, hwritten⟩
      · rw [List.append_nil]
        exact hdone hquiet
      have hquiet' : ∀ x ∈ t₁ ++ [⟨.persistSealedEpoch record snapshot.leaves []
          (pendingFor witnessCtx snapshot batch), o⟩], x.1.isQuiet := by
        intro x hx
        rcases List.mem_append.mp hx with hx | hx
        · exact hquiet x hx
        · obtain rfl := List.mem_singleton.mp hx
          exact ⟨rfl, rfl⟩
      rw [List.append_cons]
      dsimp only [Prog.bind] at hwritten
      split at hwritten
      · obtain ⟨rfl, rfl⟩ := leads_pure hwritten
        rw [List.append_nil]
        exact hdone hquiet'
      split at hwritten
      · rename_i ctx p _ hpending
        obtain ⟨ctx', hsome, hmethods, hid, hnone⟩ := methods_of_pendingFor hpending
        cases hsome
        have hall : SettlesAll ctx p p.methods down t₃ := by
          have hnodup : p.methods.Nodup := hmethods ▸ hctx ctx rfl
          rcases leads_bind hwritten with
            ⟨c, next, hsettle, -⟩ | ⟨⟨p', down', minted⟩, t₄, t₅, rfl, hsettle, hlast⟩
          · exact (leads_settleMethods hnodup hsettle).1
          · obtain ⟨rfl, -⟩ := leads_pure hlast
            rw [List.append_nil]
            exact (leads_settleMethods hnodup hsettle).1
        refine ⟨nofun, ?_⟩
        rintro _ ⟨⟩
        refine Bounded.after_quiet hquiet' (hall.mono ?_ ?_)
        · rintro e m ⟨-, -, hheld⟩
          exact hheld (hnone m)
        · rintro e m ⟨he, -⟩
          exact he.trans hid
      · obtain ⟨rfl, rfl⟩ := leads_pure hwritten
        rw [List.append_nil]
        exact hdone hquiet'

end Sealed

/-! ## One seal cycle -/

section Cycle

variable {witnessCtx : Option WitnessContext} {closedAt durationSecs : Nat}
variable {t : SealTrace sdk}

/-- The epoch closed in the tick has the id of a record listed before in it. -/
def Reseals (e : Nat) (t : SealTrace sdk) : Prop :=
  ∃ t₁ closedAt nextOpenedAt durationSecs snapshot t₂,
    t = t₁ ++ ⟨.swapAndOpenNext closedAt nextOpenedAt durationSecs, snapshot⟩ :: t₂ ∧
      Retried e t₁ ∧ snapshot.epochId = e

theorem leads_sealOnce_none {q}
    (h : Leads (sealOnce closedAt durationSecs none) t q) : ∀ x ∈ t, x.1.isQuiet := by
  rcases leads_call h with ⟨rfl, rfl⟩ | ⟨snapshot, t', rfl, hrest⟩
  · exact nofun
  · have hseal : Leads (sealSnapshot none closedAt [] [] snapshot) t' q := hrest
    intro x hx
    rcases List.mem_cons.mp hx with rfl | hx
    · exact ⟨rfl, rfl⟩
    · exact (leads_sealSnapshot (by rintro _ ⟨⟩) hseal).1 rfl x hx

theorem leads_sealOnce {ctx : WitnessContext} (hctx : ctx.methods.Nodup)
    (hlist : ListsDistinct t) {q}
    (h : Leads (sealOnce closedAt durationSecs (some ctx)) t q) :
    Orderly ctx [] (fun e _ => Retried e t) t ∧
      ∀ e m, ¬ Reseals e t → askCount e m t ≤ 1 := by
  unfold sealOnce at h
  dsimp only at h
  split at h
  · obtain ⟨rfl, rfl⟩ := leads_pure h
    have hnone : Bounded ctx [] (fun _ _ => False) (fun _ _ => False) [] :=
      bounded_quiet ctx [] (t := ([] : SealTrace sdk)) nofun
    exact ⟨hnone.orderly.mono fun _ _ => False.elim, fun e m _ => (hnone.once e m).1⟩
  rcases leads_bind h with
    ⟨c, next, hretry, rfl⟩ | ⟨⟨witnesses, down⟩, t₁, t₂, rfl, hretry, hrest⟩
  · have hbounded := (leads_retryPending hlist hretry).1
    exact ⟨hbounded.orderly, fun e m _ => (hbounded.once e m).1⟩
  have hlist₁ : ListsDistinct t₁ :=
    fun pendings hmem => hlist pendings (List.mem_append_left _ hmem)
  obtain ⟨hbounded, hlowers⟩ := leads_retryPending hlist₁ hretry
  have hlisted : ∀ e, Retried e t₁ → Retried e (t₁ ++ t₂) :=
    fun e ⟨pendings, hmem, he⟩ => ⟨pendings, List.mem_append_left _ hmem, he⟩
  rcases leads_call hrest with ⟨rfl, rfl⟩ | ⟨snapshot, t₃, rfl, hseal⟩
  · rw [List.append_nil]
    exact ⟨hbounded.orderly, fun e m _ => (hbounded.once e m).1⟩
  -- The closed epoch's record holds nothing, whatever its id is.
  have hsealed := (leads_sealSnapshot
    (by rintro _ ⟨⟩; exact hctx) hseal).2 ctx rfl
  have hsealed' := hsealed.after_quiet
    (t := [⟨.swapAndOpenNext closedAt closedAt durationSecs, snapshot⟩])
    (by simp [Call.isQuiet, Call.asks, Call.checks])
  rw [List.singleton_append] at hsealed'
  constructor
  · refine (hbounded.orderly.append (hlowers _ _ rfl) hsealed'.orderly nofun).mono ?_
    rintro e m (hheld | hheld)
    · exact hlisted e hheld
    · exact hheld.elim
  · intro e m hnot
    rw [askCount_append]
    by_contra hmore
    obtain ⟨honce, hasked⟩ := hbounded.once e m
    obtain ⟨honce', hasked'⟩ := hsealed'.once e m
    exact hnot ⟨t₁, closedAt, closedAt, durationSecs, snapshot, t₃, rfl,
      hasked (by omega), (hasked' (by omega)).symm⟩

/-- After the calls `t₁` comes a call of the method's provider that does not
succeed. -/
def FailsAfter (ctx : WitnessContext) (m : AnchorMethod) (t₁ t : SealTrace sdk) :
    Prop :=
  ∃ e root answer t₂, t = t₁ ++ ⟨.createTimestamp e m root, answer⟩ :: t₂ ∧
    Unsuccessful ctx e m answer t₂

/-- After a call that does not succeed the provider is not asked again. -/
theorem Orderly.spares_of_failsAfter {ctx : WitnessContext}
    {held : Nat → AnchorMethod → Prop} (h : Orderly ctx [] held t) {m : AnchorMethod}
    {t₁ : SealTrace sdk} (hfails : FailsAfter ctx m t₁ t) :
    Spares m (t.drop (t₁.length + 1)) := by
  obtain ⟨e, root, answer, t₂, rfl, hfails⟩ := hfails
  have hdrop : (t₁ ++ ⟨.createTimestamp e m root, answer⟩ :: t₂ : SealTrace sdk).drop
      (t₁.length + 1) = t₂ := by
    simp
  rw [hdrop]
  refine h.spares t₁ e m root answer t₂ [] rfl ?_ blames_nil
  rw [List.append_nil]
  exact hfails

theorem Orderly.failsAfter_unique {ctx : WitnessContext}
    {held : Nat → AnchorMethod → Prop} (h : Orderly ctx [] held t) {m : AnchorMethod}
    {t₁ t₁' : SealTrace sdk} (hfails : FailsAfter ctx m t₁ t)
    (hfails' : FailsAfter ctx m t₁' t) : t₁ = t₁' := by
  have hlater : ∀ {s s' : SealTrace sdk}, FailsAfter ctx m s t →
      FailsAfter ctx m s' t → ¬ s.length < s'.length := by
    rintro s s' hs ⟨e, root, answer, t₂, rfl, -⟩ hlt
    have hspares := h.spares_of_failsAfter hs
    rw [List.drop_append_of_le_length (by omega)] at hspares
    exact hspares _ (List.mem_append_right _ (List.mem_cons_self ..)) e rfl
  obtain ⟨e, root, answer, t₂, rfl, -⟩ := id hfails
  obtain ⟨e', root', answer', t₂', heq, -⟩ := id hfails'
  have hlength : t₁.length = t₁'.length :=
    le_antisymm (not_lt.mp (hlater hfails' hfails)) (not_lt.mp (hlater hfails hfails'))
  exact (List.append_inj heq hlength).1

end Cycle

/-- The provider calls of one seal cycle.  Each (epoch, method) causes at most
one, but for the epoch whose id both a retried record and the sealed epoch
have; after one that fails, whose anchor cannot be stored or is found at fault,
the method's provider is not asked again in the tick; so there is at most one
such call for each method. -/
theorem provider_calls_bounded {witnessCtx : Option WitnessContext}
    (hctx : DistinctMethods witnessCtx) {closedAt durationSecs : Nat}
    {t : SealTrace sdk} {q}
    (h : Leads (sealOnce closedAt durationSecs witnessCtx) t q)
    (hlist : ListsDistinct t) :
    (∀ e m, ¬ Reseals e t → askCount e m t ≤ 1) ∧
    ∀ ctx ∈ witnessCtx, ∀ m t₁, FailsAfter ctx m t₁ t →
      Spares m (t.drop (t₁.length + 1)) ∧
      ∀ t₁', FailsAfter ctx m t₁' t → t₁' = t₁ := by
  cases witnessCtx with
  | none =>
      have hquiet := leads_sealOnce_none h
      refine ⟨fun e m _ => ?_, nofun⟩
      rw [askCount_of_asks_none fun x hx => (hquiet x hx).1]
      exact Nat.zero_le 1
  | some ctx =>
      obtain ⟨horderly, honce⟩ := leads_sealOnce (hctx ctx rfl) hlist h
      refine ⟨honce, ?_⟩
      rintro _ ⟨⟩ m t₁ hfails
      exact ⟨horderly.spares_of_failsAfter hfails,
        fun t₁' hfails' => horderly.failsAfter_unique hfails' hfails⟩

/-! ## Seal cycles of a run -/

/-- The call of an event, with its answer. -/
def Event.call? : Event sdk → Option ((c : Call sdk) × Answer c)
  | .call c answer => some ⟨c, answer⟩
  | _ => none

/-- The calls of the cycle in progress, the first one first. -/
def cycleCalls (log : List (Event sdk)) : SealTrace sdk :=
  (thisCycle log).reverse.filterMap Event.call?

section Runs

variable {st : Store sdk} {w w' : World sdk} {j : Job sdk}

theorem mem_cycleCalls {log : List (Event sdk)} {c : Call sdk} {answer : Answer c}
    (h : ⟨c, answer⟩ ∈ cycleCalls log) : .call c answer ∈ thisCycle log := by
  obtain ⟨ev, hev, hcall⟩ := List.mem_filterMap.mp h
  cases ev with
  | call c' answer' =>
      cases hcall
      exact List.mem_reverse.mp hev
  | boot | append | tick => cases hcall

/-- A run adds the calls of a trace to the history. -/
theorem run_leads {α : Type} {p : SealM sdk α} {o : Option α}
    (h : (serverSemantics sdk).Run p w w' o) :
    ∃ (new : List (Event sdk)) (q : SealM sdk α), w'.log = new ++ w.log ∧
      (∀ ev ∈ new, ev.isBoundary = false) ∧
      Leads p (new.reverse.filterMap Event.call?) q ∧
      ∀ a, o = some a → q = .pure a := by
  induction h with
  | stop p s => exact ⟨[], p, rfl, nofun, .refl p, nofun⟩
  | done a s =>
      refine ⟨[], _, rfl, nofun, .refl _, ?_⟩
      rintro _ ⟨⟩
      rfl
  | @call c next r s s₁ s' o hstep _ ih =>
      obtain ⟨new, q, hlog, hboundary, hleads, hresult⟩ := ih
      refine ⟨new ++ [.call c r], q, ?_, ?_, ?_, hresult⟩
      · rw [hlog, hstep.2, List.append_assoc]
        rfl
      · intro ev hev
        rcases List.mem_append.mp hev with hev | hev
        · exact hboundary ev hev
        · obtain rfl := List.mem_singleton.mp hev
          rfl
      · rw [List.reverse_append]
        exact .call hleads
  | @interfere p s s₁ s' o hstep _ ih =>
      obtain ⟨new, q, hlog, hboundary, hleads, hresult⟩ := ih
      obtain ⟨batch, did, rfl⟩ := hstep
      refine ⟨new ++ [s.submission batch did], q, ?_, ?_, ?_, hresult⟩
      · rw [hlog, List.append_assoc]
        rfl
      · intro ev hev
        rcases List.mem_append.mp hev with hev | hev
        · exact hboundary ev hev
        · obtain rfl := List.mem_singleton.mp hev
          rfl
      · rw [List.reverse_append]
        exact hleads

/-- The calls of a seal cycle are a trace of `seal_once`. -/
theorem sealCycle_leads {witnessCtx : Option WitnessContext} {now durationSecs : Nat}
    {result} (h : SealCycle w witnessCtx now durationSecs w' result) :
    ∃ q, Leads (sealOnce now durationSecs witnessCtx) (cycleCalls w'.log) q := by
  obtain ⟨new, q, hlog, hboundary, hleads, -⟩ := run_leads h
  refine ⟨q, ?_⟩
  have hcycle : thisCycle w'.log = new := by
    have hall : ∀ ev ∈ new, (!ev.isBoundary) = true :=
      fun ev hev => by rw [hboundary ev hev]; rfl
    rw [hlog, World.tick, thisCycle, List.takeWhile_append_of_pos hall]
    simp [Event.isBoundary]
  rw [cycleCalls, hcycle]
  exact hleads

/-- What a run lists are records of different sealed epochs. -/
theorem Reach.listed (hst : st.Indexed) (hmethods : st.MethodsNodup)
    (h : Reach st w j) {pendings : List (PendingEpoch sdk)}
    (hmem : .call .listPendingEpochs (.ok pendings) ∈ w.log) :
    (pendings.map PendingEpoch.epochId).Nodup ∧
      ∀ p ∈ pendings, p.methods.Nodup ∧ p.epochId ∈ w.store.epochs := by
  revert hmem
  refine h.induct (P := fun w => .call .listPendingEpochs (.ok pendings) ∈ w.log →
    (pendings.map PendingEpoch.epochId).Nodup ∧
      ∀ p ∈ pendings, p.methods.Nodup ∧ p.epochId ∈ w.store.epochs) ?_ ?_
  · intro now durationSecs hmem
    cases List.mem_singleton.mp hmem
  · intro w j ev hw hev ih hmem
    have hkept := fun {e} => hev.epochs_kept (e := e)
    rw [hev.log_eq] at hmem
    rcases List.mem_cons.mp hmem with rfl | hold
    · cases hev with
      | list hperm =>
          obtain rfl := hperm pendings rfl
          have hqueued := queued_list (hw.grounded hst).store
          refine ⟨hqueued.distinct, fun p hp => ?_⟩
          have hstored := hqueued.stored p hp
          exact ⟨(hw.followed hst hmethods).1 _ p hstored,
            hkept ((hw.grounded hst).store.pending _ p hstored).1⟩
      | mint _ hminting => cases hminting
    · obtain ⟨hids, hall⟩ := ih hold
      exact ⟨hids, fun p hp => ⟨(hall p hp).1, hkept (hall p hp).2⟩⟩

/-- A place in the calls of a cycle is a place in the history. -/
theorem cycleCalls_split {log : List (Event sdk)} {t₁ t₂ : SealTrace sdk}
    {c : Call sdk} {answer : Answer c}
    (h : cycleCalls log = t₁ ++ ⟨c, answer⟩ :: t₂) :
    ∃ l, .call c answer :: l <:+ log ∧ ∀ x ∈ t₁, .call x.1 x.2 ∈ l := by
  obtain ⟨rest, hrest⟩ : thisCycle log <+: log := List.takeWhile_prefix _
  obtain ⟨a, b, hab, rfl, hb⟩ := List.filterMap_eq_append_iff.mp h
  obtain ⟨b₁, ev, b₂, rfl, -, hev, -⟩ := List.filterMap_eq_cons_iff.mp hb
  have hcalls : ∀ {ev : Event sdk} {x}, ev.call? = some x → ev = .call x.1 x.2 := by
    intro ev x hx
    cases ev with
    | call => cases hx; rfl
    | boot | append | tick => cases hx
  obtain rfl := hcalls hev
  have hlog : log = b₂.reverse ++ .call c answer :: (b₁.reverse ++ a.reverse ++ rest) := by
    rw [← hrest, ← List.reverse_reverse (thisCycle log), hab]
    simp
  refine ⟨b₁.reverse ++ a.reverse ++ rest, ⟨b₂.reverse, hlog.symm⟩, fun x hx => ?_⟩
  obtain ⟨ev, hmem, hx⟩ := List.mem_filterMap.mp hx
  rw [← hcalls hx]
  exact List.mem_append_left _ (List.mem_append_right _ (List.mem_reverse.mpr hmem))

/-- While ids last, the epoch that a run closes is none of those it listed. -/
theorem Reach.not_reseals (hst : st.Indexed) (hmethods : st.MethodsNodup)
    (h : Reach st w j) {e : Nat} (he : e < u64Max) :
    ¬ Reseals e (cycleCalls w.log) := by
  rintro ⟨t₁, closedAt, nextOpenedAt, durationSecs, snapshot, t₂, hsplit,
    ⟨pendings, hlisted, hmem⟩, rfl⟩
  obtain ⟨l, hl, hearlier⟩ := cycleCalls_split hsplit
  obtain ⟨w₀, j₀, hw₀, rfl, -, hev⟩ := h.called hl
  obtain ⟨p, hp, hid⟩ := List.mem_map.mp hmem
  have hsealed := ((hw₀.listed hst hmethods (hearlier _ hlisted)).2 p hp).2
  rw [hid] at hsealed
  cases hev with
  | swap =>
      rcases (hw₀.grounded hst).past _ hsealed with hlt | hlast
      · exact lt_irrefl _ hlt
      · exact absurd hlast he.ne
  | mint _ hminting => cases hminting

/-- The calls of a seal cycle list records of different epochs, of which the
closed epoch is none while ids last. -/
theorem SealCycle.lists {witnessCtx : Option WitnessContext} {now durationSecs : Nat}
    {result} (hcycle : SealCycle w witnessCtx now durationSecs w' result)
    (hw : Reachable Store.empty w) (hctx : DistinctMethods witnessCtx) :
    ListsDistinct (cycleCalls w'.log) ∧
      ∀ e < u64Max, ¬ Reseals e (cycleCalls w'.log) := by
  have hst : (Store.empty : Store sdk).Indexed := indexed_empty
  have hmethods : (Store.empty : Store sdk).MethodsNodup := methodsNodup_empty
  have hvisited : Visited Store.empty w' := by
    cases result with
    | none => exact .during hw hctx hcycle
    | some result => exact .between (.cycle hw hctx hcycle)
  obtain ⟨j, hj⟩ := reach_of_visited hvisited
  refine ⟨fun pendings hmem => ?_, fun e he => hj.not_reseals hst hmethods he⟩
  obtain ⟨hids, hall⟩ :=
    hj.listed hst hmethods (mem_of_mem_thisCycle (mem_cycleCalls hmem))
  exact ⟨hids, fun p hp => (hall p hp).1⟩

end Runs

/-! ## Two epochs pending, and the last id -/

/-- Two epochs are pending: the first was left by a provider that refused, the
second too. -/
def Sample.twoPending : World Sample.sdk :=
  .replay [.append [Sample.leaf 1] "did:a",
    Sample.cycle [.evm] 10 Sample.noProvider,
    .append [Sample.leaf 2] "did:a",
    Sample.cycle [.evm] 20 Sample.noProvider]

/-- The cycle in which both are retried, and a third epoch is sealed. -/
def Sample.thirdTick : World Sample.sdk :=
  (Sample.twoPending.enter (some (Sample.ctx [.evm])) 30 60 Sample.noProvider).1

theorem provider_calls_bounded_thirdTick :
    FailsAfter (Sample.ctx [.evm]) .evm ((cycleCalls Sample.thirdTick.log).take 1)
        (cycleCalls Sample.thirdTick.log) ∧
      askCount 1 .evm (cycleCalls Sample.thirdTick.log) = 1 ∧
      (∀ e < u64Max, ∀ m, askCount e m (cycleCalls Sample.thirdTick.log) ≤ 1) ∧
      Spares .evm ((cycleCalls Sample.thirdTick.log).drop 2) ∧
      ∀ t₁, FailsAfter (Sample.ctx [.evm]) .evm t₁ (cycleCalls Sample.thirdTick.log) →
        t₁ = (cycleCalls Sample.thirdTick.log).take 1 := by
  have hctx : DistinctMethods (some (Sample.ctx [.evm])) := by decide
  have hcycle := sealCycle_enter Sample.twoPending (some (Sample.ctx [.evm])) 30 60
    Sample.noProvider
  obtain ⟨hlist, hfresh⟩ := hcycle.lists (reachable_replay _) hctx
  obtain ⟨q, hleads⟩ := sealCycle_leads hcycle
  obtain ⟨honce, hfails⟩ := provider_calls_bounded hctx hleads hlist
  have hfirst : FailsAfter (Sample.ctx [.evm]) .evm
      ((cycleCalls Sample.thirdTick.log).take 1) (cycleCalls Sample.thirdTick.log) :=
    ⟨1, _, _, (cycleCalls Sample.thirdTick.log).drop 2, rfl, Or.inl ⟨_, rfl⟩⟩
  obtain ⟨hspares, hunique⟩ := hfails _ rfl _ _ hfirst
  exact ⟨hfirst, by decide +kernel, fun e he m => honce e m (hfresh e he), hspares, hunique⟩

/-- The last id is left pending, and opened again with another leaf. -/
def Sample.lastPending : List (Move Sample.sdk) :=
  [.append [Sample.leaf 1] "did:a",
    Sample.cycle [.evm] 10 Sample.noProvider,
    .append [Sample.leaf 2] "did:a"]

theorem thisCycle_append {l past : List (Event sdk)}
    (h : l.any Event.isBoundary = true) : thisCycle (l ++ past) = thisCycle l := by
  obtain ⟨ev, hev, hboundary⟩ := List.any_eq_true.mp h
  rw [thisCycle, thisCycle, List.takeWhile_append, if_neg]
  intro hlength
  have hall := (List.takeWhile_prefix _).eq_of_length hlength
  rw [← hall] at hev
  have hnot := List.mem_takeWhile_imp hev
  rw [hboundary] at hnot
  cases hnot

/-- In one tick the pending record of the last id is served, and the epoch
sealed under the same id is anchored again. -/
theorem exists_two_calls_of_one_epoch :
    ∃ (w w' : World Sample.sdk) (ctx : WitnessContext) (result : _) (q : _),
      Reachable Store.empty w ∧ DistinctMethods (some ctx) ∧
      SealCycle w (some ctx) 20 60 w' (some result) ∧
      Leads (sealOnce 20 60 (some ctx)) (cycleCalls w'.log) q ∧
      ListsDistinct (cycleCalls w'.log) ∧
      1 < askCount u64Max .evm (cycleCalls w'.log) := by
  obtain ⟨w, past, hreach, -, htwin⟩ := exists_lastEpoch Sample.sdk
  have hmoves : ∀ move ∈ Sample.lastPending, move.keepsProcess = true := by
    decide
  have hctx : DistinctMethods (some (Sample.ctx [.evm])) := by decide
  obtain ⟨htwin', hresult⟩ := (htwin.playAll hmoves).enter (some (Sample.ctx [.evm]))
    20 60 (Sample.honest "1")
  have hcycle := sealCycle_enter (w.playAll Sample.lastPending)
    (some (Sample.ctx [.evm])) 20 60 (Sample.honest "1")
  have hfinished : (((lastEpoch Sample.sdk).playAll Sample.lastPending).enter
      (some (Sample.ctx [.evm])) 20 60 (Sample.honest "1")).2.isSome = true := by
    decide +kernel
  have hcalls : (((lastEpoch Sample.sdk).playAll Sample.lastPending).enter
        (some (Sample.ctx [.evm])) 20 60 (Sample.honest "1")).1.log.any
          Event.isBoundary = true ∧
      1 < askCount u64Max .evm (cycleCalls (((lastEpoch Sample.sdk).playAll
        Sample.lastPending).enter (some (Sample.ctx [.evm])) 20 60
          (Sample.honest "1")).1.log) := by
    decide +kernel
  obtain ⟨result, hsome⟩ := Option.isSome_iff_exists.mp hfinished
  rw [hresult, hsome] at hcycle
  obtain ⟨q, hleads⟩ := sealCycle_leads hcycle
  refine ⟨_, _, _, result, q, hreach.playAll Sample.lastPending, hctx, hcycle, hleads,
    (hcycle.lists (hreach.playAll _) hctx).1, ?_⟩
  rw [htwin'.log, cycleCalls, thisCycle_append hcalls.1]
  exact hcalls.2

end AquaTimestamp
