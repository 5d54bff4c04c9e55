import AquaTimestamp.Model.Auth
import Mathlib.Tactic.Common

/-!
# One refresh, and who waits for it

At most one caller owns the refresh, in every interleaving.  A caller that waits
has somebody who will notify it as long as no owner is dropped before it releases
and no future is created after the notification it is meant for.
-/

namespace AquaTimestamp

open AuthState

/-! ## What one step does -/

/-- What a caller's own step does to it and to `in_flight`. -/
inductive Caller.Move (a : AuthAction) (i : Nat) :
    Bool → Caller → Bool → Caller → Prop where
  | pass {b : Bool} {c c' : Caller} : c.owns = false → c.hasReleased = false →
      c'.owns = false → c'.isWaiting = false → Move a i b c b c'
  | claim : Move a i false .claiming true .refreshing
  | wait {b : Bool} : a = .createNotified i → Move a i b .outrun b .waiting
  | hold {b : Bool} {c c' : Caller} : c.owns = true → c'.owns = true → Move a i b c b c'
  | release {b : Bool} {result : Except String String} :
      Move a i b (.finished result) false (.released result)
  | abandon {b : Bool} {c : Caller} : a = .drop i → c.owns = true →
      Move a i b c b .dropped

/-- The step moves the caller `i` and nobody else. -/
def MovesOne (a : AuthAction) (i : Nat) (s s' : AuthState) : Prop :=
  ∃ c', Caller.Move a i s.inFlight (s.callers i) s'.inFlight c' ∧
    s'.callers = Function.update s.callers i c'

section Moves

variable {s s' : AuthState} {a : AuthAction} {i : Nat}

theorem checkCache_moves {now : Nat} (h : s.next (.checkCache i now) = some s') :
    MovesOne a i s s' := by
  simp only [next] at h
  split at h
  · rename_i hi
    split at h
    · split at h
      · cases h
        exact ⟨_, hi ▸ .pass rfl rfl rfl rfl, rfl⟩
      · cases h
        exact ⟨_, hi ▸ .pass rfl rfl rfl rfl, rfl⟩
    · cases h
      exact ⟨_, hi ▸ .pass rfl rfl rfl rfl, rfl⟩
  · cases h

theorem compareExchange_moves (h : s.next (.compareExchange i) = some s') :
    MovesOne a i s s' := by
  simp only [next] at h
  split at h
  · rename_i hi
    split at h
    · cases h
      exact ⟨_, hi ▸ .pass rfl rfl rfl rfl, rfl⟩
    · rename_i hfree
      cases h
      refine ⟨.refreshing, ?_, rfl⟩
      rw [hi, Bool.eq_false_iff.mpr hfree]
      exact .claim
  · cases h

theorem authenticate_moves {answer : Except String Cached}
    (h : s.next (.authenticate i answer) = some s') : MovesOne a i s s' := by
  simp only [next] at h
  split at h
  · rename_i hi
    split at h
    · cases h
      exact ⟨_, hi ▸ .hold rfl rfl, rfl⟩
    · cases h
      exact ⟨_, hi ▸ .hold rfl rfl, rfl⟩
  · cases h

/-- A caller is dropped where it awaits something: as the owner of the refresh
or before it owned one. -/
theorem drop_moves (h : s.next (.drop i) = some s') : MovesOne (.drop i) i s s' := by
  simp only [next] at h
  split at h
  · rename_i hawaits
    cases h
    refine ⟨.dropped, ?_, rfl⟩
    cases howns : (s.callers i).owns with
    | true => exact .abandon rfl howns
    | false =>
        refine .pass howns ?_ rfl rfl
        revert hawaits
        cases s.callers i <;> simp [Caller.awaits, Caller.hasReleased]
  · cases h

/-- Every step moves one caller, or notifies all that wait. -/
theorem next_cases (h : s.next a = some s') :
    (∃ i, MovesOne a i s s') ∨
    ∃ i result, s.callers i = .released result ∧ s'.inFlight = s.inFlight ∧
      s'.callers = Function.update (fun j => (s.callers j).notified) i
        (.returned result) := by
  cases a with
  | checkCache i now => exact Or.inl ⟨i, checkCache_moves h⟩
  | compareExchange i => exact Or.inl ⟨i, compareExchange_moves h⟩
  | authenticate i answer => exact Or.inl ⟨i, authenticate_moves h⟩
  | drop i => exact Or.inl ⟨i, drop_moves h⟩
  | arrive i | wake i =>
      simp only [next] at h
      split at h
      · rename_i hi
        cases h
        exact Or.inl ⟨i, _, hi ▸ .pass rfl rfl rfl rfl, rfl⟩
      · cases h
  | createNotified i =>
      simp only [next] at h
      split at h
      · rename_i hi
        cases h
        exact Or.inl ⟨i, _, hi ▸ .wait rfl, rfl⟩
      · cases h
  | publish i =>
      simp only [next] at h
      split at h
      · rename_i hi
        cases h
        exact Or.inl ⟨i, _, hi ▸ .hold rfl rfl, rfl⟩
      · cases h
  | release i =>
      simp only [next] at h
      split at h
      · rename_i hi
        cases h
        exact Or.inl ⟨i, _, hi ▸ .release, rfl⟩
      · cases h
  | notifyWaiters i =>
      simp only [next] at h
      split at h
      · rename_i result hi
        cases h
        exact Or.inr ⟨i, result, hi, rfl, rfl⟩
      · cases h

end Moves

/-! ## One owner -/

/-- Whoever owns the refresh holds `in_flight`, and nobody else owns it. -/
structure SingleOwner (s : AuthState) : Prop where
  held : ∀ i, (s.callers i).owns = true → s.inFlight = true
  single : ∀ i j, (s.callers i).owns = true → (s.callers j).owns = true → i = j

theorem owns_notified (c : Caller) : c.notified.owns = c.owns := by
  cases c <;> rfl

theorem isWaiting_notified (c : Caller) : c.notified.isWaiting = false := by
  cases c <;> rfl

/-- An owner after a move was one before it, or has just claimed. -/
theorem Caller.Move.owns_after {a : AuthAction} {i : Nat} {b b' : Bool} {c c' : Caller}
    (h : Caller.Move a i b c b' c') (hc' : c'.owns = true) :
    b' = true ∧ b = false ∨ b' = b ∧ c.owns = true := by
  cases h with
  | pass _ _ hnot => exact absurd hc' (by simp [hnot])
  | claim => exact Or.inl ⟨rfl, rfl⟩
  | wait => cases hc'
  | hold hc => exact Or.inr ⟨rfl, hc⟩
  | release => cases hc'
  | abandon => cases hc'

/-- `in_flight` is given back by an owner only. -/
theorem Caller.Move.inFlight_after {a : AuthAction} {i : Nat} {b b' : Bool}
    {c c' : Caller} (h : Caller.Move a i b c b' c') (hb : b = true) :
    b' = true ∨ c.owns = true := by
  cases h with
  | claim => cases hb
  | release => exact Or.inr rfl
  | pass => exact Or.inl hb
  | wait => exact Or.inl hb
  | hold => exact Or.inl hb
  | abandon => exact Or.inl hb

theorem SingleOwner.next {s s' : AuthState} {a : AuthAction} (h : SingleOwner s)
    (hstep : s.next a = some s') : SingleOwner s' := by
  rcases next_cases hstep with ⟨i, c', hmove, hcallers⟩ | ⟨i, result, hi, hflight, hcallers⟩
  · -- An owner besides the moved caller was one before.
    have hothers : ∀ j, j ≠ i → s'.callers j = s.callers j := fun j hj => by
      rw [hcallers, Function.update_of_ne hj]
    have hmoved : s'.callers i = c' := by rw [hcallers, Function.update_self]
    have hheld : ∀ j, j ≠ i → (s.callers j).owns = true →
        s'.inFlight = true ∧ c'.owns = false := by
      intro j hj howns
      have hbefore := h.held j howns
      constructor
      · rcases hmove.inFlight_after hbefore with hafter | hi
        · exact hafter
        · exact absurd (h.single j i howns hi) hj
      · by_contra hnot
        rcases hmove.owns_after ((Bool.not_eq_false _).mp hnot) with
          ⟨-, hfree⟩ | ⟨-, hi⟩
        · rw [hbefore] at hfree
          cases hfree
        · exact hj (h.single j i howns hi)
    constructor
    · intro j howns
      by_cases hj : j = i
      · subst hj
        rw [hmoved] at howns
        rcases hmove.owns_after howns with ⟨hafter, -⟩ | ⟨hsame, hbefore⟩
        · exact hafter
        · exact hsame.trans (h.held j hbefore)
      · rw [hothers j hj] at howns
        exact (hheld j hj howns).1
    · intro j k hj hk
      by_cases hji : j = i
      · subst hji
        by_cases hkj : k = j
        · exact hkj.symm
        · rw [hothers k hkj] at hk
          rw [hmoved, (hheld k hkj hk).2] at hj
          cases hj
      · rw [hothers j hji] at hj
        by_cases hki : k = i
        · subst hki
          rw [hmoved, (hheld j hji hj).2] at hk
          cases hk
        · rw [hothers k hki] at hk
          exact h.single j k hj hk
  · have howns : ∀ j, (s'.callers j).owns = true → (s.callers j).owns = true := by
      intro j hj
      rw [hcallers] at hj
      by_cases hji : j = i
      · subst hji
        rw [Function.update_self] at hj
        cases hj
      · rwa [Function.update_of_ne hji, owns_notified] at hj
    exact ⟨fun j hj => hflight.trans (h.held j (howns j hj)),
      fun j k hj hk => h.single j k (howns j hj) (howns k hk)⟩

theorem singleOwner_of_steps {meets : Condition} {cached : Option Cached}
    {s : AuthState} (h : Steps meets (.new cached) s) : SingleOwner s := by
  induction h with
  | refl => exact ⟨nofun, nofun⟩
  | tail _ hstep ih =>
      obtain ⟨a, -, hnext⟩ := hstep
      exact ih.next hnext

/-! ## Who notifies -/

/-- A caller that owns the refresh, or has released it and not notified yet. -/
def Caller.willNotify (c : Caller) : Bool :=
  c.owns || c.hasReleased

/-- No owner is dropped before it releases, and a `notified()` future is created
while a refresh is in flight or somebody is about to notify. -/
def KeepsHandshake : Condition
  | s, .createNotified _ => s.inFlight = true ∨ ∃ j, (s.callers j).hasReleased = true
  | s, .drop i => (s.callers i).owns = false
  | _, _ => True

/-- A refresh in flight has an owner, and who waits will be notified. -/
structure Answered (s : AuthState) : Prop where
  owned : s.inFlight = true → ∃ i, (s.callers i).owns = true
  notifier : ∀ i, (s.callers i).isWaiting = true → ∃ j, (s.callers j).willNotify = true

/-- A caller that will notify goes on to do so, unless it is dropped. -/
theorem Caller.Move.willNotify_after {a : AuthAction} {i : Nat} {b b' : Bool}
    {c c' : Caller} (h : Caller.Move a i b c b' c') (hdrop : a = .drop i → c.owns = false)
    (hc : c.willNotify = true) : c'.willNotify = true := by
  cases h with
  | pass howns hreleased => simp [willNotify, howns, hreleased] at hc
  | claim => cases hc
  | wait => cases hc
  | hold _ hc' => simp [willNotify, hc']
  | release => rfl
  | abandon ha howns => exact absurd howns (by simp [hdrop ha])

/-- A refresh in flight after a move was in flight before, or has just begun. -/
theorem Caller.Move.inFlight_before {a : AuthAction} {i : Nat} {b b' : Bool}
    {c c' : Caller} (h : Caller.Move a i b c b' c') (hb : b' = true) :
    b = true ∨ c'.owns = true := by
  cases h with
  | claim => exact Or.inr rfl
  | release => cases hb
  | pass => exact Or.inl hb
  | wait => exact Or.inl hb
  | hold => exact Or.inl hb
  | abandon => exact Or.inl hb

/-- An owner keeps the refresh while it is in flight, unless it is dropped. -/
theorem Caller.Move.owns_kept {a : AuthAction} {i : Nat} {b b' : Bool} {c c' : Caller}
    (h : Caller.Move a i b c b' c') (hdrop : a = .drop i → c.owns = false)
    (hb : b' = true) (hc : c.owns = true) : c'.owns = true := by
  cases h with
  | pass howns => exact absurd hc (by simp [howns])
  | claim => rfl
  | wait => cases hc
  | hold _ hc' => exact hc'
  | release => cases hb
  | abandon ha => exact absurd hc (by simp [hdrop ha])

/-- Only a caller that creates its future begins to wait. -/
theorem Caller.Move.begins_to_wait {a : AuthAction} {i : Nat} {b b' : Bool}
    {c c' : Caller} (h : Caller.Move a i b c b' c') (hc' : c'.isWaiting = true) :
    a = .createNotified i := by
  cases h with
  | pass _ _ _ hnot => exact absurd hc' (by simp [hnot])
  | claim => cases hc'
  | wait ha => exact ha
  | hold _ howns => cases c' <;> simp [owns, isWaiting] at howns hc'
  | release => cases hc'
  | abandon => cases hc'

/-- Where a future may be created, somebody will notify. -/
theorem Answered.exists_notifier {s : AuthState} {i : Nat} (h : Answered s)
    (hmeets : KeepsHandshake s (.createNotified i)) :
    ∃ j, (s.callers j).willNotify = true := by
  rcases hmeets with hflight | ⟨j, hj⟩
  · obtain ⟨j, hj⟩ := h.owned hflight
    exact ⟨j, by simp [Caller.willNotify, hj]⟩
  · exact ⟨j, by simp [Caller.willNotify, hj]⟩

theorem Answered.next {s s' : AuthState} {a : AuthAction} (h : Answered s)
    (hmeets : KeepsHandshake s a) (hstep : s.next a = some s') : Answered s' := by
  rcases next_cases hstep with ⟨i, c', hmove, hcallers⟩ | ⟨i, result, hi, hflight, hcallers⟩
  · have hdrop : a = .drop i → (s.callers i).owns = false := by
      rintro rfl
      exact hmeets
    have hothers : ∀ j, j ≠ i → s'.callers j = s.callers j := fun j hj => by
      rw [hcallers, Function.update_of_ne hj]
    have hmoved : s'.callers i = c' := by rw [hcallers, Function.update_self]
    have hnotifier : (∃ j, (s.callers j).willNotify = true) →
        ∃ j, (s'.callers j).willNotify = true := by
      rintro ⟨j, hj⟩
      refine ⟨j, ?_⟩
      by_cases hji : j = i
      · subst hji
        rw [hmoved]
        exact hmove.willNotify_after hdrop hj
      · rw [hothers j hji]
        exact hj
    constructor
    · intro hafter
      rcases hmove.inFlight_before hafter with hbefore | howns
      · obtain ⟨j, hj⟩ := h.owned hbefore
        refine ⟨j, ?_⟩
        by_cases hji : j = i
        · subst hji
          rw [hmoved]
          exact hmove.owns_kept hdrop hafter hj
        · rw [hothers j hji]
          exact hj
      · exact ⟨i, hmoved ▸ howns⟩
    · intro j hj
      by_cases hji : j = i
      · subst hji
        rw [hmoved] at hj
        obtain rfl := hmove.begins_to_wait hj
        exact hnotifier (h.exists_notifier hmeets)
      · rw [hothers j hji] at hj
        exact hnotifier (h.notifier j hj)
  · constructor
    · intro hafter
      obtain ⟨j, hj⟩ := h.owned (hflight ▸ hafter)
      refine ⟨j, ?_⟩
      have hji : j ≠ i := by
        rintro rfl
        rw [hi] at hj
        cases hj
      rw [hcallers, Function.update_of_ne hji, owns_notified]
      exact hj
    · intro j hj
      rw [hcallers] at hj
      by_cases hji : j = i
      · subst hji
        rw [Function.update_self] at hj
        cases hj
      · rw [Function.update_of_ne hji, isWaiting_notified] at hj
        cases hj

theorem answered_of_steps {cached : Option Cached} {s : AuthState}
    (h : Steps KeepsHandshake (.new cached) s) : Answered s := by
  induction h with
  | refl => exact ⟨nofun, nofun⟩
  | tail _ hstep ih =>
      obtain ⟨a, hmeets, hnext⟩ := hstep
      exact ih.next hmeets hnext

/-- In every run at most one caller owns the refresh; and as long as no owner is
dropped before it releases, and no future is created after the notification it
is meant for, whoever waits has somebody who will notify it. -/
theorem refresh_single_flight (cached : Option Cached) :
    (∀ s, Steps (fun _ _ => True) (.new cached) s →
      ∀ i j, (s.callers i).owns = true → (s.callers j).owns = true → i = j) ∧
    ∀ s, Steps KeepsHandshake (.new cached) s →
      ∀ i, (s.callers i).isWaiting = true → ∃ j, (s.callers j).willNotify = true :=
  ⟨fun _ h => (singleOwner_of_steps h).single, fun _ h => (answered_of_steps h).notifier⟩

/-! ## A caller that waits for nobody -/

/-- Two callers find no token; the second one loses the exchange. -/
def Sample.contended : List AuthAction :=
  [.arrive 0, .arrive 1, .checkCache 0 0, .checkCache 1 0, .compareExchange 0,
    .compareExchange 1]

theorem refresh_single_flight_contended :
    ∃ s : AuthState, (s.callers 1).isWaiting = true ∧
      ∃ j, (s.callers j).willNotify = true := by
  have hquiet : ∀ a ∈ Sample.contended, ∀ s, KeepsHandshake s a := by
    intro a ha s
    simp only [Sample.contended, List.mem_cons, List.not_mem_nil, or_false] at ha
    rcases ha with rfl | rfl | rfl | rfl | rfl | rfl <;> trivial
  have hsteps : Steps KeepsHandshake (.new none) _ :=
    (steps_play Sample.contended hquiet rfl).tail ⟨.createNotified 1, Or.inl rfl, rfl⟩
  exact ⟨_, rfl, (refresh_single_flight none).2 _ hsteps 1 rfl⟩

/-- The owner is dropped while the other one waits. -/
def Sample.ownerDropped : List AuthAction :=
  Sample.contended ++ [.createNotified 1, .drop 0]

/-- The other one creates its future after the notification. -/
def Sample.notifiedTooEarly : List AuthAction :=
  Sample.contended ++ [.authenticate 0 (.ok ⟨"token", 1000⟩), .publish 0, .release 0,
    .notifyWaiters 0, .createNotified 1]

/-- A caller waits and nobody will notify it. -/
def Stuck (s : AuthState) : Prop :=
  ∃ i, (s.callers i).isWaiting = true ∧ ∀ j, (s.callers j).willNotify = false

/-- A caller can wait for nobody, when the owner is dropped, and when it comes
too late for the notification. -/
theorem exists_stuck_waiter :
    (∃ s, AuthState.play (.new none) Sample.ownerDropped = some s ∧
      Steps (fun _ _ => True) (.new none) s ∧ Stuck s) ∧
    ∃ s, AuthState.play (.new none) Sample.notifiedTooEarly = some s ∧
      Steps (fun _ _ => True) (.new none) s ∧ Stuck s := by
  constructor
  · refine ⟨_, rfl, steps_play Sample.ownerDropped (fun _ _ _ => trivial) rfl, 1, rfl, ?_⟩
    intro j
    match j with
    | 0 => rfl
    | 1 => rfl
    | _ + 2 => rfl
  · refine ⟨_, rfl, steps_play Sample.notifiedTooEarly (fun _ _ _ => trivial) rfl, 1, rfl, ?_⟩
    intro j
    match j with
    | 0 => rfl
    | 1 => rfl
    | _ + 2 => rfl

end AquaTimestamp
