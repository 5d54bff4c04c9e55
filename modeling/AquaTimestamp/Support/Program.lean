import Mathlib.Tactic.Common

/-!
# Programs that call out, under interference and crashes

A program is a tree of calls: each node asks its surroundings one question and
goes on with the answer.  The surroundings are described by a `Semantics`: how
a call with a given answer changes the state, and how other threads may change
the state between two calls.

A run may stop anywhere.  The runs with no result are exactly the prefixes of
executions, so a property of all of them holds at every moment of the program,
also when the process dies there.
-/

namespace AquaTimestamp.Support

/-- A program over the calls `Call`, each with its own type of answers. -/
inductive Prog (Call : Type) (Answer : Call → Type) (α : Type) where
  | pure (a : α)
  | call (c : Call) (next : Answer c → Prog Call Answer α)

namespace Prog

variable {Call : Type} {Answer : Call → Type} {α β : Type}

/-- Sequential composition. -/
def bind : Prog Call Answer α → (α → Prog Call Answer β) → Prog Call Answer β
  | .pure a, f => f a
  | .call c next, f => .call c fun r => (next r).bind f

instance : Monad (Prog Call Answer) where
  pure := .pure
  bind := bind

/-- One call, returning its answer. -/
def ask (c : Call) : Prog Call Answer (Answer c) :=
  .call c .pure

@[simp]
theorem pure_bind (a : α) (f : α → Prog Call Answer β) :
    (Pure.pure a >>= f : Prog Call Answer β) = f a :=
  rfl

@[simp]
theorem ask_bind (c : Call) (f : Answer c → Prog Call Answer β) :
    (ask c >>= f) = .call c f :=
  rfl

@[simp]
theorem call_bind
    (c : Call) (next : Answer c → Prog Call Answer α)
    (f : α → Prog Call Answer β) :
    (Prog.call c next >>= f) = .call c fun r => next r >>= f :=
  rfl

end Prog

/-- What a call does to the state, and what other threads may do to it. -/
structure Semantics (Call : Type) (Answer : Call → Type) (σ : Type) where
  step : (c : Call) → Answer c → σ → σ → Prop
  interferes : σ → σ → Prop

namespace Semantics

variable {Call : Type} {Answer : Call → Type} {σ α β : Type}

/-- `Run p s s' o`: starting in `s` the program `p` can be in state `s'`, with
result `o`, or with no result yet when `o = none`. -/
inductive Run (sem : Semantics Call Answer σ) :
    Prog Call Answer α → σ → σ → Option α → Prop where
  | stop (p : Prog Call Answer α) (s : σ) : Run sem p s s none
  | done (a : α) (s : σ) : Run sem (.pure a) s s (some a)
  | call {c : Call} {next : Answer c → Prog Call Answer α} {r : Answer c}
      {s s₁ s' : σ} {o : Option α} :
      sem.step c r s s₁ → Run sem (next r) s₁ s' o →
        Run sem (.call c next) s s' o
  | interfere {p : Prog Call Answer α} {s s₁ s' : σ} {o : Option α} :
      sem.interferes s s₁ → Run sem p s₁ s' o → Run sem p s s' o

/-- A run of a sequence is a run of its first part that has not finished, or
a finished run of the first part followed by a run of the second. -/
theorem run_bind
    {sem : Semantics Call Answer σ} {p : Prog Call Answer α}
    {f : α → Prog Call Answer β} {s s' : σ} {o : Option β}
    (h : sem.Run (p >>= f) s s' o) :
    (o = none ∧ sem.Run p s s' none) ∨
      ∃ a s₁, sem.Run p s s₁ (some a) ∧ sem.Run (f a) s₁ s' o := by
  generalize hq : (p >>= f) = q at h
  induction h generalizing p with
  | stop q s => exact Or.inl ⟨rfl, .stop p s⟩
  | done b s =>
      cases p with
      | pure a =>
          have hfa : f a = .pure b := hq
          exact Or.inr ⟨a, s, .done a s, hfa ▸ .done b s⟩
      | call c next => cases hq
  | @call c next r s s₁ s' o hstep hrun ih =>
      cases p with
      | pure a =>
          have hfa : f a = .call c next := hq
          exact Or.inr ⟨a, s, .done a s, hfa ▸ .call hstep hrun⟩
      | call c' next' =>
          cases hq
          rcases ih rfl with ⟨ho, hp⟩ | ⟨a, s₂, hp, hf⟩
          · exact Or.inl ⟨ho, .call hstep hp⟩
          · exact Or.inr ⟨a, s₂, .call hstep hp, hf⟩
  | interfere hstep _ ih =>
      rcases ih hq with ⟨ho, hp⟩ | ⟨a, s₂, hp, hf⟩
      · exact Or.inl ⟨ho, .interfere hstep hp⟩
      · exact Or.inr ⟨a, s₂, .interfere hstep hp, hf⟩

/-! ## Preconditions, postconditions and what holds meanwhile -/

/-- `P` survives what other threads do. -/
def Stable (sem : Semantics Call Answer σ) (P : σ → Prop) : Prop :=
  ∀ s s', P s → sem.interferes s s' → P s'

/-- Started in `P`, the program keeps `I` at every moment and ends in `Q`. -/
def Triple
    (sem : Semantics Call Answer σ) (I P : σ → Prop)
    (p : Prog Call Answer α) (Q : α → σ → Prop) : Prop :=
  ∀ s s' o, P s → sem.Run p s s' o →
    (o = none → I s') ∧ ∀ a, o = some a → Q a s'

variable {sem : Semantics Call Answer σ} {I P : σ → Prop}

theorem triple_pure
    {a : α} {Q : α → σ → Prop}
    (hstable : sem.Stable P) (hI : ∀ s, P s → I s) (hQ : ∀ s, P s → Q a s) :
    sem.Triple I P (.pure a) Q := by
  intro s s' o hP hrun
  generalize hp : (Prog.pure a : Prog Call Answer α) = p at hrun
  induction hrun with
  | stop p s => exact ⟨fun _ => hI s hP, by simp⟩
  | done b s =>
      cases hp
      exact ⟨by simp, fun b hb => by cases hb; exact hQ s hP⟩
  | call => cases hp
  | interfere hstep _ ih => exact ih (hstable _ _ hP hstep) hp

theorem triple_call
    {c : Call} {next : Answer c → Prog Call Answer α} {Q : α → σ → Prop}
    (R : Answer c → σ → Prop)
    (hstable : sem.Stable P) (hI : ∀ s, P s → I s)
    (hstep : ∀ r s s', P s → sem.step c r s s' → R r s')
    (hnext : ∀ r, sem.Triple I (R r) (next r) Q) :
    sem.Triple I P (.call c next) Q := by
  intro s s' o hP hrun
  generalize hp : Prog.call c next = p at hrun
  induction hrun with
  | stop p s => exact ⟨fun _ => hI s hP, by simp⟩
  | done b s => cases hp
  | call hs hr _ =>
      cases hp
      exact hnext _ _ _ _ (hstep _ _ _ hP hs) hr
  | interfere hs _ ih => exact ih (hstable _ _ hP hs) hp

theorem triple_bind
    {p : Prog Call Answer α} {f : α → Prog Call Answer β}
    {Q : β → σ → Prop} (R : α → σ → Prop)
    (hp : sem.Triple I P p R) (hf : ∀ a, sem.Triple I (R a) (f a) Q) :
    sem.Triple I P (p >>= f) Q := by
  intro s s' o hP hrun
  rcases run_bind hrun with ⟨rfl, hfirst⟩ | ⟨a, s₁, hrun₁, hrun₂⟩
  · exact ⟨fun _ => (hp s s' none hP hfirst).1 rfl, by simp⟩
  · exact hf a s₁ s' o ((hp s s₁ _ hP hrun₁).2 a rfl) hrun₂

theorem triple_weaken
    {p : Prog Call Answer α} {P' : σ → Prop} {Q Q' : α → σ → Prop}
    (h : sem.Triple I P' p Q') (hP : ∀ s, P s → P' s)
    (hQ : ∀ a s, Q' a s → Q a s) :
    sem.Triple I P p Q := by
  intro s s' o hs hrun
  have hpost := h s s' o (hP s hs) hrun
  exact ⟨hpost.1, fun a ha => hQ a s' (hpost.2 a ha)⟩

/-- Two triples of one program hold together. -/
theorem triple_and
    {p : Prog Call Answer α} {I' P' : σ → Prop} {Q Q' : α → σ → Prop}
    (h : sem.Triple I P p Q) (h' : sem.Triple I' P' p Q') :
    sem.Triple (fun s => I s ∧ I' s) (fun s => P s ∧ P' s) p
      (fun a s => Q a s ∧ Q' a s) := by
  intro s s' o hs hrun
  have hpost := h s s' o hs.1 hrun
  have hpost' := h' s s' o hs.2 hrun
  exact ⟨fun ho => ⟨hpost.1 ho, hpost'.1 ho⟩, fun a ha => ⟨hpost.2 a ha, hpost'.2 a ha⟩⟩

theorem triple_meanwhile
    {p : Prog Call Answer α} {I' : σ → Prop} {Q : α → σ → Prop}
    (h : sem.Triple I' P p Q) (hI : ∀ s, I' s → I s) : sem.Triple I P p Q :=
  fun s s' o hs hrun => ⟨fun ho => hI s' ((h s s' o hs hrun).1 ho), (h s s' o hs hrun).2⟩

/-- A precondition that fixes nothing but a pure fact. -/
theorem triple_of_pre
    {p : Prog Call Answer α} {φ : Prop} {Q : α → σ → Prop}
    (h : φ → sem.Triple I P p Q) :
    sem.Triple I (fun s => φ ∧ P s) p Q := by
  intro s s' o hs hrun
  exact h hs.1 s s' o hs.2 hrun

/-- A precondition that holds of some value. -/
theorem triple_exists
    {ι : Type} {p : Prog Call Answer α} {P : ι → σ → Prop}
    {Q : α → σ → Prop} (h : ∀ i, sem.Triple I (P i) p Q) :
    sem.Triple I (fun s => ∃ i, P i s) p Q := by
  rintro s s' o ⟨i, hs⟩ hrun
  exact h i s s' o hs hrun

end Semantics

/-! ## Programs whose calls and results are known -/

namespace Prog

variable {Call : Type} {Answer : Call → Type} {α β : Type}

/-- Every call of the program satisfies `C` with its answer, and every result
satisfies `Q`. -/
def Within (C : (c : Call) → Answer c → Prop) (Q : α → Prop) :
    Prog Call Answer α → Prop
  | .pure a => Q a
  | .call c next => ∀ r, C c r ∧ Within C Q (next r)

variable {C : (c : Call) → Answer c → Prop}

theorem within_bind
    {p : Prog Call Answer α} {f : α → Prog Call Answer β}
    {R : α → Prop} {Q : β → Prop}
    (hp : Within C R p) (hf : ∀ a, R a → Within C Q (f a)) :
    Within C Q (p >>= f) := by
  induction p with
  | pure a => exact hf a hp
  | call c next ih => exact fun r => ⟨(hp r).1, ih r (hp r).2⟩

theorem within_mono
    {p : Prog Call Answer α} {C' : (c : Call) → Answer c → Prop} {Q Q' : α → Prop}
    (hp : Within C' Q' p) (hC : ∀ c r, C' c r → C c r) (hQ : ∀ a, Q' a → Q a) :
    Within C Q p := by
  induction p with
  | pure a => exact hQ a hp
  | call c next ih => exact fun r => ⟨hC c r (hp r).1, ih r (hp r).2⟩

theorem within_ask
    {c : Call} {f : Answer c → Prog Call Answer α} {Q : α → Prop}
    (h : ∀ r, C c r ∧ Within C Q (f r)) : Within C Q (ask c >>= f) :=
  h

end Prog

namespace Semantics

variable {Call : Type} {Answer : Call → Type} {σ α : Type}
variable {sem : Semantics Call Answer σ} {I P : σ → Prop}

/-- A program whose calls all keep `P` keeps it, with a known result. -/
theorem triple_within
    {C : (c : Call) → Answer c → Prop} {Q : α → Prop}
    (hstable : sem.Stable P) (hI : ∀ s, P s → I s)
    (hkeep : ∀ c r s s', C c r → P s → sem.step c r s s' → P s')
    {p : Prog Call Answer α} (hp : p.Within C Q) :
    sem.Triple I P p (fun a s => Q a ∧ P s) := by
  induction p with
  | pure a => exact triple_pure hstable hI fun s hs => ⟨hp, hs⟩
  | call c next ih =>
      refine triple_call (fun r s => C c r ∧ P s) hstable hI ?_ ?_
      · exact fun r s s' hs hstep => ⟨(hp r).1, hkeep c r s s' (hp r).1 hs hstep⟩
      · exact fun r => triple_of_pre fun _ => ih r (hp r).2

end Semantics

/-! ## Executing a program against a policy of answers -/

namespace Prog

variable {Call : Type} {Answer : Call → Type} {σ α : Type}

/-- Execute a program: `answer` chooses each answer and `after` gives the next
state.  A call that `answer` leaves open stops the execution there. -/
def drive
    (answer : σ → (c : Call) → Option (Answer c))
    (after : σ → (c : Call) → Answer c → σ) :
    Prog Call Answer α → σ → σ × Option α
  | .pure a, s => (s, some a)
  | .call c next, s =>
      match answer s c with
      | none => (s, none)
      | some r => drive answer after (next r) (after s c r)

/-- What is driven by permitted answers is a run. -/
theorem run_drive
    {sem : Semantics Call Answer σ}
    {answer : σ → (c : Call) → Option (Answer c)}
    {after : σ → (c : Call) → Answer c → σ}
    (hok : ∀ s c r, answer s c = some r → sem.step c r s (after s c r)) :
    ∀ (p : Prog Call Answer α) (s : σ),
      sem.Run p s (p.drive answer after s).1 (p.drive answer after s).2 := by
  intro p
  induction p with
  | pure a => exact fun s => .done a s
  | call c next ih =>
      intro s
      cases hr : answer s c with
      | none =>
          simp only [drive, hr]
          exact .stop _ s
      | some r =>
          simp only [drive, hr]
          exact .call (hok s c r hr) (ih r _)

end Prog

end AquaTimestamp.Support
