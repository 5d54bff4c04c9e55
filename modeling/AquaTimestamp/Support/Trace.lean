import AquaTimestamp.Support.Program

/-!
# Traces of programs

The calls a program makes, with the answers it gets, in order.  Nothing is
said about the surroundings: any answers make a trace.  What a program does
for all answers is read off its traces part by part, along its sequences.
-/

namespace AquaTimestamp.Support

/-- Calls with their answers, the first one first. -/
abbrev Trace (Call : Type) (Answer : Call → Type) : Type :=
  List ((c : Call) × Answer c)

namespace Prog

variable {Call : Type} {Answer : Call → Type} {α β : Type}

/-- After the calls of `t` and their answers the program `p` goes on as `q`. -/
inductive Leads : Prog Call Answer α → Trace Call Answer → Prog Call Answer α →
    Prop where
  | refl (p : Prog Call Answer α) : Leads p [] p
  | call {c : Call} {next : Answer c → Prog Call Answer α} {r : Answer c}
      {t : Trace Call Answer} {q : Prog Call Answer α} :
      Leads (next r) t q → Leads (.call c next) (⟨c, r⟩ :: t) q

variable {p q : Prog Call Answer α} {t : Trace Call Answer}

theorem leads_pure {a : α} (h : Leads (.pure a) t q) : t = [] ∧ q = .pure a := by
  cases h
  exact ⟨rfl, rfl⟩

/-- A program that calls waits for the answer or goes on with it. -/
theorem leads_call {c : Call} {next : Answer c → Prog Call Answer α}
    (h : Leads (.call c next) t q) :
    (t = [] ∧ q = .call c next) ∨
      ∃ r t', t = ⟨c, r⟩ :: t' ∧ Leads (next r) t' q := by
  cases h with
  | refl => exact Or.inl ⟨rfl, rfl⟩
  | call hrest => exact Or.inr ⟨_, _, rfl, hrest⟩

/-- A sequence waits in its first part, or has finished it and is in the
second. -/
theorem leads_bind {f : α → Prog Call Answer β} {q : Prog Call Answer β}
    (h : Leads (p >>= f) t q) :
    (∃ c next, Leads p t (.call c next) ∧ q = (.call c next >>= f)) ∨
      ∃ a t₁ t₂, t = t₁ ++ t₂ ∧ Leads p t₁ (.pure a) ∧ Leads (f a) t₂ q := by
  induction p generalizing t with
  | pure a => exact Or.inr ⟨a, [], t, rfl, .refl _, h⟩
  | call c next ih =>
      rcases leads_call h with ⟨rfl, rfl⟩ | ⟨r, t', rfl, hrest⟩
      · exact Or.inl ⟨c, next, .refl _, rfl⟩
      · rcases ih r hrest with ⟨c', next', hp, rfl⟩ | ⟨a, t₁, t₂, rfl, hp, hf⟩
        · exact Or.inl ⟨c', next', .call hp, rfl⟩
        · exact Or.inr ⟨a, _, t₂, rfl, .call hp, hf⟩

/-- The calls of a program of which all calls and results are known. -/
theorem Within.leads {C : (c : Call) → Answer c → Prop} {Q : α → Prop}
    (hp : p.Within C Q) (h : Leads p t q) :
    (∀ x ∈ t, C x.1 x.2) ∧ ∀ a, q = .pure a → Q a := by
  induction h with
  | refl p =>
      refine ⟨nofun, ?_⟩
      rintro a rfl
      exact hp
  | @call c next r t q _ ih =>
      obtain ⟨hcalls, hresult⟩ := ih (hp r).2
      refine ⟨?_, hresult⟩
      rintro x hx
      rcases List.mem_cons.mp hx with rfl | hx
      · exact (hp r).1
      · exact hcalls x hx

/-- Execute a program against a policy of answers, with the calls it makes. -/
def follow (answer : (c : Call) → Option (Answer c)) :
    Prog Call Answer α → Trace Call Answer × Prog Call Answer α
  | .pure a => ([], .pure a)
  | .call c next =>
      match answer c with
      | none => ([], .call c next)
      | some r => (⟨c, r⟩ :: (follow answer (next r)).1, (follow answer (next r)).2)

theorem leads_follow (answer : (c : Call) → Option (Answer c))
    (p : Prog Call Answer α) : Leads p (p.follow answer).1 (p.follow answer).2 := by
  induction p with
  | pure a => exact .refl _
  | call c next ih =>
      simp only [follow]
      cases answer c with
      | none => exact .refl _
      | some r => exact .call (ih r)

theorem answer_of_mem_follow {answer : (c : Call) → Option (Answer c)}
    {x : (c : Call) × Answer c} (h : x ∈ (p.follow answer).1) :
    answer x.1 = some x.2 := by
  induction p with
  | pure a => cases h
  | call c next ih =>
      simp only [follow] at h
      cases hanswer : answer c with
      | none =>
          rw [hanswer] at h
          cases h
      | some r =>
          rw [hanswer] at h
          rcases List.mem_cons.mp h with rfl | h
          · exact hanswer
          · exact ih r h

end Prog

end AquaTimestamp.Support
