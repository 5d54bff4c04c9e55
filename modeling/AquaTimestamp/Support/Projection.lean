import AquaTimestamp.Support.Program

/-!
# Runs seen through a projection

A state often carries more than the program's own semantics speaks of.  When every
step is a step of the smaller semantics after a projection, and what other threads do
is either a step of its threads or invisible to it, every run is one of its runs.
-/

namespace AquaTimestamp.Support.Semantics

variable {Call : Type} {Answer : Call → Type} {σ τ α : Type}

/-- `sem` is `sem'` with more state, which `f` forgets. -/
structure Projects (sem : Semantics Call Answer σ) (sem' : Semantics Call Answer τ)
    (f : σ → τ) : Prop where
  step : ∀ (c : Call) (r : Answer c) (s s' : σ),
    sem.step c r s s' → sem'.step c r (f s) (f s')
  interferes : ∀ s s', sem.interferes s s' → f s' = f s ∨ sem'.interferes (f s) (f s')

theorem Projects.run {sem : Semantics Call Answer σ} {sem' : Semantics Call Answer τ}
    {f : σ → τ} (h : sem.Projects sem' f) {p : Prog Call Answer α} {s s' : σ}
    {o : Option α} (hrun : sem.Run p s s' o) : sem'.Run p (f s) (f s') o := by
  induction hrun with
  | stop p s => exact .stop p (f s)
  | done a s => exact .done a (f s)
  | call hstep _ ih => exact .call (h.step _ _ _ _ hstep) ih
  | interfere hstep _ ih =>
      rcases h.interferes _ _ hstep with hsame | hother
      · rwa [hsame] at ih
      · exact .interfere hother ih

/-- What every step and every other thread keeps holds at the end of a run. -/
theorem Run.keeps {sem : Semantics Call Answer σ} {P : σ → Prop}
    (hstep : ∀ (c : Call) (r : Answer c) (s s' : σ), sem.step c r s s' → P s → P s')
    (hstable : sem.Stable P) {p : Prog Call Answer α} {s s' : σ} {o : Option α}
    (hrun : sem.Run p s s' o) : P s → P s' := by
  induction hrun with
  | stop p s => exact id
  | done a s => exact id
  | call hs _ ih => exact fun hP => ih (hstep _ _ _ _ hs hP)
  | interfere hs _ ih => exact fun hP => ih (hstable _ _ hP hs)

end AquaTimestamp.Support.Semantics
