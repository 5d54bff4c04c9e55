import AquaTimestamp.Support.Program

/-!
# What a program achieves when nothing goes wrong

A `Triple` speaks of every run.  What a program achieves can only be said of
some runs: of the finished ones whose last state meets a condition `C`, for
instance that no call has failed.  The rules need of `C` only that a state
which meets it comes from one which met it, so that the condition on the last
state is a condition on the whole run.
-/

namespace AquaTimestamp.Support.Semantics

variable {Call : Type} {Answer : Call → Type} {σ α β : Type}
variable {sem : Semantics Call Answer σ} {C P : σ → Prop}

/-- A state meets `C` only if the state before it did. -/
structure Backward (sem : Semantics Call Answer σ) (C : σ → Prop) : Prop where
  step : ∀ (c : Call) (r : Answer c) (s s' : σ), sem.step c r s s' → C s' → C s
  interferes : ∀ s s', sem.interferes s s' → C s' → C s

theorem Backward.run (h : sem.Backward C) {p : Prog Call Answer α} {s s' : σ}
    {o : Option α} (hrun : sem.Run p s s' o) : C s' → C s := by
  induction hrun with
  | stop | done => exact fun hC => hC
  | call hstep _ ih => exact fun hC => h.step _ _ _ _ hstep (ih hC)
  | interfere hstep _ ih => exact fun hC => h.interferes _ _ hstep (ih hC)

/-- Every run from `P` that finishes in a state with `C` ends in `Q`. -/
def Ends (sem : Semantics Call Answer σ) (C P : σ → Prop)
    (p : Prog Call Answer α) (Q : α → σ → Prop) : Prop :=
  ∀ s s' a, P s → sem.Run p s s' (some a) → C s' → Q a s'

theorem ends_pure {a : α} {Q : α → σ → Prop} (hstable : sem.Stable P)
    (hQ : ∀ s, P s → Q a s) : sem.Ends C P (.pure a) Q := by
  intro s s' b hP hrun _
  exact (triple_pure (I := fun _ => True) hstable (fun _ _ => trivial) hQ s s' _
    hP hrun).2 b rfl

/-- After a call that may be answered in a run with `C`, the rest of the program
starts where the answer leads. -/
theorem ends_call {c : Call} {next : Answer c → Prog Call Answer α}
    {Q : α → σ → Prop} (R : Answer c → σ → Prop) (hback : sem.Backward C)
    (hstable : sem.Stable P)
    (hstep : ∀ r s s', P s → sem.step c r s s' → C s' → R r s')
    (hnext : ∀ r, sem.Ends C (R r) (next r) Q) :
    sem.Ends C P (.call c next) Q := by
  intro s s' a hP hrun hC
  generalize hp : Prog.call c next = p at hrun
  generalize ho : some a = o at hrun
  induction hrun with
  | stop => cases ho
  | done => cases hp
  | call hs hr _ =>
      cases hp
      cases ho
      exact hnext _ _ _ _ (hstep _ _ _ hP hs (hback.run hr hC)) hr hC
  | interfere hs _ ih => exact ih (hstable _ _ hP hs) hC hp ho

theorem ends_bind {p : Prog Call Answer α} {f : α → Prog Call Answer β}
    {Q : β → σ → Prop} (R : α → σ → Prop) (hback : sem.Backward C)
    (hp : sem.Ends C P p R) (hf : ∀ a, sem.Ends C (R a) (f a) Q) :
    sem.Ends C P (p >>= f) Q := by
  intro s s' b hP hrun hC
  rcases run_bind hrun with ⟨hnone, -⟩ | ⟨a, s₁, hfirst, hsecond⟩
  · cases hnone
  · exact hf a s₁ s' b (hp s s₁ a hP hfirst (hback.run hsecond hC)) hsecond hC

theorem ends_weaken {p : Prog Call Answer α} {P' : σ → Prop}
    {Q Q' : α → σ → Prop} (h : sem.Ends C P' p Q') (hP : ∀ s, P s → P' s)
    (hQ : ∀ a s, Q' a s → Q a s) : sem.Ends C P p Q :=
  fun s s' a hs hrun hC => hQ a s' (h s s' a (hP s hs) hrun hC)

theorem ends_and {p : Prog Call Answer α} {Q Q' : α → σ → Prop}
    (h : sem.Ends C P p Q) (h' : sem.Ends C P p Q') :
    sem.Ends C P p (fun a s => Q a s ∧ Q' a s) :=
  fun s s' a hs hrun hC => ⟨h s s' a hs hrun hC, h' s s' a hs hrun hC⟩

/-- A precondition that fixes a pure fact. -/
theorem ends_of_pre {p : Prog Call Answer α} {φ : Prop} {Q : α → σ → Prop}
    (h : φ → sem.Ends C P p Q) : sem.Ends C (fun s => φ ∧ P s) p Q :=
  fun s s' a hs hrun hC => h hs.1 s s' a hs.2 hrun hC

/-- A precondition that holds of some value. -/
theorem ends_exists {ι : Type} {p : Prog Call Answer α} {P : ι → σ → Prop}
    {Q : α → σ → Prop} (h : ∀ i, sem.Ends C (P i) p Q) :
    sem.Ends C (fun s => ∃ i, P i s) p Q := by
  rintro s s' a ⟨i, hs⟩ hrun hC
  exact h i s s' a hs hrun hC

/-- What every run does, the runs with `C` do. -/
theorem Triple.ends {p : Prog Call Answer α} {I : σ → Prop} {Q : α → σ → Prop}
    (h : sem.Triple I P p Q) : sem.Ends C P p Q :=
  fun s s' a hs hrun _ => (h s s' _ hs hrun).2 a rfl

end AquaTimestamp.Support.Semantics
