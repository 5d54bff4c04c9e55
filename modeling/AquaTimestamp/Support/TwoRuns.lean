import AquaTimestamp.Support.Program

/-!
# Marked calls, and two executions side by side

The parts of a program may be made on behalf of different parties.  Marking
every call with its party leaves the program what it is, and lets its
surroundings answer each party by itself.

Two executions are compared by a relation on their states.  Both may do the
same for a while, or one of them may do something the other does not.  Nothing
is said of executions that do not finish, and `fine` may restrict the others:
it holds all along when it holds at the end.
-/

namespace AquaTimestamp.Support

namespace Prog

variable {Mark Call : Type} {Answer : Call → Type} {α β : Type}

/-- Calls with a mark are answered as the calls are. -/
abbrev MarkedAnswer (Mark : Type) (Answer : Call → Type) (c : Mark × Call) : Type :=
  Answer c.2

/-- The program with every call marked. -/
def marked (k : Mark) :
    Prog Call Answer α → Prog (Mark × Call) (MarkedAnswer Mark Answer) α
  | .pure a => .pure a
  | .call c next => .call (k, c) fun r => marked k (next r)

/-- The program without the marks of its calls. -/
def unmarked :
    Prog (Mark × Call) (MarkedAnswer Mark Answer) α → Prog Call Answer α
  | .pure a => .pure a
  | .call c next => .call c.2 fun r => unmarked (next r)

@[simp]
theorem unmarked_pure (a : α) :
    (Pure.pure a : Prog (Mark × Call) (MarkedAnswer Mark Answer) α).unmarked =
      Pure.pure a :=
  rfl

@[simp]
theorem unmarked_marked (k : Mark) (p : Prog Call Answer α) :
    (p.marked k).unmarked = p := by
  induction p with
  | pure a => rfl
  | call c next ih =>
      rw [marked, unmarked]
      congr 1
      funext r
      exact ih r

@[simp]
theorem unmarked_bind (p : Prog (Mark × Call) (MarkedAnswer Mark Answer) α)
    (f : α → Prog (Mark × Call) (MarkedAnswer Mark Answer) β) :
    (p >>= f).unmarked = p.unmarked >>= fun a => (f a).unmarked := by
  induction p with
  | pure a => rfl
  | call c next ih =>
      change Prog.call c.2 (fun r => (next r >>= f).unmarked) = _
      rw [funext ih]
      rfl

theorem marked_bind (k : Mark) (p : Prog Call Answer α)
    (f : α → Prog Call Answer β) :
    (p >>= f).marked k = p.marked k >>= fun a => (f a).marked k := by
  induction p with
  | pure a => rfl
  | call c next ih =>
      change Prog.call (k, c) (fun r => (next r >>= f).marked k) = _
      rw [funext ih]
      rfl

variable {C : (c : Call) → Answer c → Prop} {Q : α → Prop}

theorem within_marked {k : Mark} {p : Prog Call Answer α} (hp : p.Within C Q) :
    (p.marked k).Within (fun c r => c.1 = k ∧ C c.2 r) Q := by
  induction p with
  | pure a => exact hp
  | call c next ih => exact fun r => ⟨⟨rfl, (hp r).1⟩, ih r (hp r).2⟩

end Prog

/-! ## Executors -/

/-- How the calls of a program are answered in a state, and the state after.
A call without an answer is where the execution ends. -/
structure Executor (Call : Type) (Answer : Call → Type) (σ : Type) where
  answer : σ → (c : Call) → Option (Answer c)
  after : σ → (c : Call) → Answer c → σ

namespace Executor

variable {Call : Type} {Answer : Call → Type} {σ τ α β : Type}

/-- The execution of a program finishes with a result. -/
def Finishes (E : Executor Call Answer σ) (p : Prog Call Answer α) (s s' : σ)
    (a : α) : Prop :=
  p.drive E.answer E.after s = (s', some a)

variable {E E₁ E₂ : Executor Call Answer σ} {p : Prog Call Answer α}
variable {s s' : σ} {a : α}

theorem finishes_pure : E.Finishes (Pure.pure a) s s' a' ↔ s = s' ∧ a = a' := by
  change (s, some a) = (s', some a') ↔ _
  simp

theorem finishes_call {c : Call} {next : Answer c → Prog Call Answer α} :
    E.Finishes (.call c next) s s' a ↔
      ∃ r, E.answer s c = some r ∧ E.Finishes (next r) (E.after s c r) s' a := by
  unfold Finishes
  rw [Prog.drive]
  cases E.answer s c with
  | none => simp
  | some r => simp

/-- A sequence finishes when its first part does and the second from there. -/
theorem finishes_bind {f : α → Prog Call Answer β} {b : β} :
    E.Finishes (p >>= f) s s' b ↔
      ∃ s₁ a, E.Finishes p s s₁ a ∧ E.Finishes (f a) s₁ s' b := by
  induction p generalizing s with
  | pure a =>
      constructor
      · exact fun h => ⟨s, a, rfl, h⟩
      · rintro ⟨s₁, a', hp, hf⟩
        obtain ⟨rfl, rfl⟩ := finishes_pure.mp hp
        exact hf
  | call c next ih =>
      rw [Prog.call_bind, finishes_call]
      constructor
      · rintro ⟨r, hr, hrest⟩
        obtain ⟨s₁, a, hp, hf⟩ := ih r |>.mp hrest
        exact ⟨s₁, a, finishes_call.mpr ⟨r, hr, hp⟩, hf⟩
      · rintro ⟨s₁, a, hp, hf⟩
        obtain ⟨r, hr, hp⟩ := finishes_call.mp hp
        exact ⟨r, hr, (ih r).mpr ⟨s₁, a, hp, hf⟩⟩

/-- What an executor of marked calls finishes is a run of the program without
marks, when each answer is one the surroundings may give. -/
theorem Finishes.run {Mark : Type}
    {E : Executor (Mark × Call) (Prog.MarkedAnswer Mark Answer) σ}
    (sem : Semantics Call Answer τ) (view : σ → τ)
    (hok : ∀ s c r, E.answer s c = some r →
      sem.step c.2 r (view s) (view (E.after s c r)))
    {p : Prog (Mark × Call) (Prog.MarkedAnswer Mark Answer) α}
    (h : E.Finishes p s s' a) :
    sem.Run p.unmarked (view s) (view s') (some a) := by
  induction p generalizing s with
  | pure a' =>
      obtain ⟨rfl, rfl⟩ := finishes_pure.mp h
      exact .done _ _
  | call c next ih =>
      obtain ⟨r, hr, hrest⟩ := finishes_call.mp h
      exact .call (hok s c r hr) (ih r hrest)

/-! ## One execution -/

/-- What is `fine` after a call was so before it. -/
def Lasting (E : Executor Call Answer σ) (fine : σ → Prop) : Prop :=
  ∀ s c r, fine (E.after s c r) → fine s

variable {fine : σ → Prop}

theorem Lasting.of_finishes (hfine : E.Lasting fine) (h : E.Finishes p s s' a)
    (hs' : fine s') : fine s := by
  induction p generalizing s with
  | pure a' =>
      obtain ⟨rfl, -⟩ := finishes_pure.mp h
      exact hs'
  | call c next ih =>
      obtain ⟨r, -, hrest⟩ := finishes_call.mp h
      exact hfine s c r (ih r hrest)

/-- Programs all of whose calls keep `P` keep it, with a known result. -/
theorem Finishes.kept {C : (c : Call) → Answer c → Prop} {P : σ → Prop}
    {Q : α → Prop} (hfine : E.Lasting fine) (hp : p.Within C Q)
    (hkeep : ∀ s c r, C c r → P s → E.answer s c = some r →
      fine (E.after s c r) → P (E.after s c r))
    (h : E.Finishes p s s' a) (hs : P s) (hs' : fine s') : Q a ∧ P s' := by
  induction p generalizing s with
  | pure a' =>
      obtain ⟨rfl, rfl⟩ := finishes_pure.mp h
      exact ⟨hp, hs⟩
  | call c next ih =>
      obtain ⟨r, hr, hrest⟩ := finishes_call.mp h
      have hfine' := hfine.of_finishes hrest hs'
      exact ih r (hp r).2 hrest (hkeep s c r (hp r).1 hs hr hfine')

/-! ## Two executions -/

/-- Two finished executions from related states have related results and end
in states that are related again. -/
def Paired (E₁ E₂ : Executor Call Answer σ) (fine : σ → Prop)
    (P : σ → σ → Prop) (p₁ : Prog Call Answer α) (p₂ : Prog Call Answer β)
    (Q : α → β → σ → σ → Prop) : Prop :=
  ∀ s₁ s₂ s₁' s₂' a b, P s₁ s₂ →
    E₁.Finishes p₁ s₁ s₁' a → E₂.Finishes p₂ s₂ s₂' b →
      fine s₁' → fine s₂' → Q a b s₁' s₂'

variable {γ δ : Type} {P : σ → σ → Prop}

theorem paired_pure {b : β} {Q : α → β → σ → σ → Prop}
    (h : ∀ s₁ s₂, P s₁ s₂ → Q a b s₁ s₂) :
    Paired E₁ E₂ fine P (Pure.pure a) (Pure.pure b) Q := by
  intro s₁ s₂ s₁' s₂' a' b' hP h₁ h₂ _ _
  obtain ⟨rfl, rfl⟩ := finishes_pure.mp h₁
  obtain ⟨rfl, rfl⟩ := finishes_pure.mp h₂
  exact h _ _ hP

theorem paired_bind {p₁ : Prog Call Answer α} {p₂ : Prog Call Answer β}
    {f₁ : α → Prog Call Answer γ} {f₂ : β → Prog Call Answer δ}
    {Q : γ → δ → σ → σ → Prop} (R : α → β → σ → σ → Prop)
    (h₁ : E₁.Lasting fine) (h₂ : E₂.Lasting fine)
    (hp : Paired E₁ E₂ fine P p₁ p₂ R)
    (hf : ∀ a b, Paired E₁ E₂ fine (R a b) (f₁ a) (f₂ b) Q) :
    Paired E₁ E₂ fine P (p₁ >>= f₁) (p₂ >>= f₂) Q := by
  intro s₁ s₂ s₁' s₂' c d hP hc hd hfine₁ hfine₂
  obtain ⟨t₁, a, hpa, hfa⟩ := finishes_bind.mp hc
  obtain ⟨t₂, b, hpb, hfb⟩ := finishes_bind.mp hd
  have hR := hp _ _ _ _ _ _ hP hpa hpb (h₁.of_finishes hfa hfine₁)
    (h₂.of_finishes hfb hfine₂)
  exact hf a b _ _ _ _ _ _ hR hfa hfb hfine₁ hfine₂

/-- Both call, and the answers are related. -/
theorem paired_call {c₁ c₂ : Call} {next₁ : Answer c₁ → Prog Call Answer α}
    {next₂ : Answer c₂ → Prog Call Answer β} {Q : α → β → σ → σ → Prop}
    (R : Answer c₁ → Answer c₂ → σ → σ → Prop)
    (h₁ : E₁.Lasting fine) (h₂ : E₂.Lasting fine)
    (hstep : ∀ s₁ s₂ r₁ r₂, P s₁ s₂ →
      E₁.answer s₁ c₁ = some r₁ → E₂.answer s₂ c₂ = some r₂ →
        fine (E₁.after s₁ c₁ r₁) → fine (E₂.after s₂ c₂ r₂) →
          R r₁ r₂ (E₁.after s₁ c₁ r₁) (E₂.after s₂ c₂ r₂))
    (hnext : ∀ r₁ r₂, Paired E₁ E₂ fine (R r₁ r₂) (next₁ r₁) (next₂ r₂) Q) :
    Paired E₁ E₂ fine P (.call c₁ next₁) (.call c₂ next₂) Q := by
  intro s₁ s₂ s₁' s₂' a b hP ha hb hfine₁ hfine₂
  obtain ⟨r₁, hr₁, hrest₁⟩ := finishes_call.mp ha
  obtain ⟨r₂, hr₂, hrest₂⟩ := finishes_call.mp hb
  have hR := hstep _ _ _ _ hP hr₁ hr₂ (h₁.of_finishes hrest₁ hfine₁)
    (h₂.of_finishes hrest₂ hfine₂)
  exact hnext r₁ r₂ _ _ _ _ _ _ hR hrest₁ hrest₂ hfine₁ hfine₂

theorem Paired.weaken {p₁ : Prog Call Answer α} {p₂ : Prog Call Answer β}
    {P' : σ → σ → Prop} {Q Q' : α → β → σ → σ → Prop}
    (h : Paired E₁ E₂ fine P' p₁ p₂ Q') (hP : ∀ s₁ s₂, P s₁ s₂ → P' s₁ s₂)
    (hQ : ∀ a b s₁ s₂, Q' a b s₁ s₂ → Q a b s₁ s₂) :
    Paired E₁ E₂ fine P p₁ p₂ Q := by
  intro s₁ s₂ s₁' s₂' a b hs ha hb hfine₁ hfine₂
  exact hQ _ _ _ _ (h _ _ _ _ _ _ (hP _ _ hs) ha hb hfine₁ hfine₂)

/-- A relation that includes a pure fact. -/
theorem paired_of_pre {p₁ : Prog Call Answer α} {p₂ : Prog Call Answer β}
    {φ : Prop} {Q : α → β → σ → σ → Prop}
    (h : φ → Paired E₁ E₂ fine P p₁ p₂ Q) :
    Paired E₁ E₂ fine (fun s₁ s₂ => φ ∧ P s₁ s₂) p₁ p₂ Q := by
  intro s₁ s₂ s₁' s₂' a b hs ha hb hfine₁ hfine₂
  exact h hs.1 _ _ _ _ _ _ hs.2 ha hb hfine₁ hfine₂

/-- The left side does something first that the right side does not. -/
theorem paired_bind_left {p₁ : Prog Call Answer α} {p₂ : Prog Call Answer β}
    {f₁ : α → Prog Call Answer γ} {Q : γ → β → σ → σ → Prop}
    (R : α → σ → σ → Prop) (h₁ : E₁.Lasting fine) (h₂ : E₂.Lasting fine)
    (hp : Paired E₁ E₂ fine P p₁ (Pure.pure ()) fun a _ => R a)
    (hf : ∀ a, Paired E₁ E₂ fine (R a) (f₁ a) p₂ Q) :
    Paired E₁ E₂ fine P (p₁ >>= f₁) p₂ Q := by
  change Paired E₁ E₂ fine P (p₁ >>= f₁)
    ((Pure.pure () : Prog Call Answer Unit) >>= fun _ => p₂) Q
  exact paired_bind (fun a _ => R a) h₁ h₂ hp fun a _ => hf a

/-- A result that is rewritten at the end. -/
theorem Paired.map_left {p₁ : Prog Call Answer α} {p₂ : Prog Call Answer β}
    {g : α → γ} {Q : γ → β → σ → σ → Prop}
    (h : Paired E₁ E₂ fine P p₁ p₂ fun a => Q (g a)) :
    Paired E₁ E₂ fine P (p₁ >>= fun a => Pure.pure (g a)) p₂ Q := by
  intro s₁ s₂ s₁' s₂' c b hP hc hb hfine₁ hfine₂
  obtain ⟨t₁, a, hpa, hga⟩ := finishes_bind.mp hc
  obtain ⟨rfl, rfl⟩ := finishes_pure.mp hga
  exact h _ _ _ _ _ _ hP hpa hb hfine₁ hfine₂

theorem Paired.symm {p₁ : Prog Call Answer α} {p₂ : Prog Call Answer β}
    {Q : α → β → σ → σ → Prop}
    (h : Paired E₁ E₂ fine P p₁ p₂ Q) :
    Paired E₂ E₁ fine (fun s₂ s₁ => P s₁ s₂) p₂ p₁
      (fun b a s₂ s₁ => Q a b s₁ s₂) := by
  intro s₂ s₁ s₂' s₁' b a hs hb ha hfine₂ hfine₁
  exact h _ _ _ _ _ _ hs ha hb hfine₁ hfine₂

end Executor

end AquaTimestamp.Support
