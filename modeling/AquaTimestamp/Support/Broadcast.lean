import Mathlib.Data.List.Basic
import Mathlib.Tactic.Common

/-!
# A broadcast channel with a bounded buffer

A value that is sent goes to every receiver that has subscribed by then.  Where a receiver
that has fallen behind goes on is the channel's own rule; all that is asked of it is that
the receiver goes on forwards and not past the end.  The receiver is told how many values
it has missed by that.
-/

namespace AquaTimestamp.Support

variable {α : Type}

/-- A receiver: how many values were sent before it subscribed and before the one it
reads next, what it has read, and how many it has missed. -/
structure Receiver (α : Type) where
  joined : Nat
  next : Nat
  got : List α
  missed : Nat

/-- What a receiver is given. -/
inductive Received (α : Type) where
  | value (a : α)
  | lagged (missed : Nat)
  | empty

/-- Where a receiver goes on, from the capacity of the channel, the number of values sent
and the number of those before the one the receiver would read next. -/
structure LagRule where
  resume : Nat → Nat → Nat → Nat
  forwards : ∀ capacity sent next, next ≤ sent → next ≤ resume capacity sent next
  within : ∀ capacity sent next, next ≤ sent → resume capacity sent next ≤ sent

/-- The last `capacity` values are retained, and a receiver that is further behind goes on
with the oldest of them. -/
def LagRule.oldestRetained : LagRule where
  resume capacity sent next := max next (sent - capacity)
  forwards _ _ _ _ := Nat.le_max_left _ _
  within _ _ _ h := Nat.max_le.mpr ⟨h, Nat.sub_le _ _⟩

/-- The channel, with every value that was sent, oldest first. -/
structure Broadcast (α : Type) where
  rule : LagRule
  capacity : Nat
  sent : List α
  receivers : List (Receiver α)

/-! ## Operations -/

/-- A receiver asks for its next value. -/
def Receiver.recv (rule : LagRule) (capacity : Nat) (sent : List α) (r : Receiver α) :
    Received α × Receiver α :=
  let next := rule.resume capacity sent.length r.next
  if r.next < next then
    (.lagged (next - r.next), { r with next := next, missed := r.missed + (next - r.next) })
  else
    match sent[r.next]? with
    | some a => (.value a, { r with next := r.next + 1, got := r.got ++ [a] })
    | none => (.empty, r)

namespace Broadcast

/-- A channel without receivers. -/
def create (rule : LagRule) (capacity : Nat) : Broadcast α :=
  ⟨rule, capacity, [], []⟩

/-- The number of receivers the value goes to. -/
def send (a : α) (b : Broadcast α) : Nat × Broadcast α :=
  (b.receivers.length, { b with sent := b.sent ++ [a] })

def subscribe (b : Broadcast α) : Broadcast α :=
  { b with receivers := b.receivers ++ [⟨b.sent.length, b.sent.length, [], 0⟩] }

/-- The receiver at the index asks for its next value. -/
def recv (i : Nat) (b : Broadcast α) : Broadcast α :=
  { b with receivers := b.receivers.modify i fun r => (r.recv b.rule b.capacity b.sent).2 }

/-- The receiver at the index is dropped. -/
def leave (i : Nat) (b : Broadcast α) : Broadcast α :=
  { b with receivers := b.receivers.eraseIdx i }

end Broadcast

/-! ## What a receiver has read -/

/-- What the receiver has read was sent since it subscribed and is in order; what it
has not read of that it has missed. -/
structure Receiver.Follows (sent : List α) (r : Receiver α) : Prop where
  joined_le : r.joined ≤ r.next
  next_le : r.next ≤ sent.length
  sublist : r.got.Sublist ((sent.take r.next).drop r.joined)
  count : r.got.length + r.missed = r.next - r.joined

namespace Receiver.Follows

variable {sent : List α} {r : Receiver α}

theorem send (h : r.Follows sent) (a : α) : r.Follows (sent ++ [a]) where
  joined_le := h.joined_le
  next_le := by
    rw [List.length_append]
    exact Nat.le_add_right_of_le h.next_le
  sublist := by
    rw [List.take_append_of_le_length h.next_le]
    exact h.sublist
  count := h.count

/-- Reading one value, or being told of a gap, keeps the order. -/
theorem recv (h : r.Follows sent) (rule : LagRule) (capacity : Nat) :
    (r.recv rule capacity sent).2.Follows sent := by
  have hjoined := h.joined_le
  have hcount := h.count
  have hwithin := rule.within capacity sent.length r.next h.next_le
  unfold Receiver.recv
  generalize rule.resume capacity sent.length r.next = next at hwithin
  by_cases hbehind : r.next < next
  · simp only [if_pos hbehind]
    have hle : r.next ≤ next := Nat.le_of_lt hbehind
    refine ⟨Nat.le_trans hjoined hle, hwithin, ?_, ?_⟩
    · exact h.sublist.trans ((List.take_prefix_take_left hle).sublist.drop r.joined)
    · simp only
      omega
  · simp only [if_neg hbehind]
    cases hvalue : sent[r.next]? with
    | none => exact h
    | some a =>
        obtain ⟨hlt, rfl⟩ := List.getElem?_eq_some_iff.mp hvalue
        refine ⟨Nat.le_succ_of_le hjoined, hlt, ?_, ?_⟩
        · have htake : (sent.take (r.next + 1)).drop r.joined =
              (sent.take r.next).drop r.joined ++ [sent[r.next]] := by
            rw [List.take_succ_eq_append_getElem hlt, List.drop_append_of_le_length]
            rw [List.length_take]
            omega
          rw [htake]
          exact h.sublist.append_right _
        · rw [List.length_append, List.length_singleton]
          simp only
          omega

/-- A receiver that has missed nothing has read all there was, and in order. -/
theorem got_eq (h : r.Follows sent) (hmissed : r.missed = 0) :
    r.got = (sent.take r.next).drop r.joined := by
  refine h.sublist.eq_of_length ?_
  have hcount := h.count
  have hnext := h.next_le
  rw [List.length_drop, List.length_take]
  omega

/-- Such a receiver is up to date when nothing is left to read. -/
theorem got_eq_drop (h : r.Follows sent) (hmissed : r.missed = 0)
    (hnext : r.next = sent.length) : r.got = sent.drop r.joined := by
  rw [h.got_eq hmissed, hnext, List.take_length]

end Receiver.Follows

/-- All receivers follow what was sent. -/
def Broadcast.Sound (b : Broadcast α) : Prop :=
  ∀ r ∈ b.receivers, r.Follows b.sent

namespace Broadcast

variable {b : Broadcast α}

theorem sound_create (rule : LagRule) (capacity : Nat) :
    (create rule capacity : Broadcast α).Sound := by
  intro r hr
  cases hr

theorem Sound.send (h : b.Sound) (a : α) : (b.send a).2.Sound :=
  fun r hr => (h r hr).send a

theorem Sound.subscribe (h : b.Sound) : b.subscribe.Sound := by
  intro r hr
  rcases List.mem_append.mp hr with hold | hnew
  · exact h r hold
  · obtain rfl := List.mem_singleton.mp hnew
    exact ⟨Nat.le_refl _, Nat.le_refl _, List.nil_sublist _, by simp⟩

theorem Sound.recv (h : b.Sound) (i : Nat) : (b.recv i).Sound := by
  intro r hr
  obtain ⟨k, hk⟩ := List.mem_iff_getElem?.mp hr
  unfold Broadcast.recv at hk
  rw [List.getElem?_modify] at hk
  obtain ⟨r₀, hr₀, rfl⟩ := Option.map_eq_some_iff.mp hk
  have hfollows := h r₀ (List.mem_of_getElem? hr₀)
  split
  · exact hfollows.recv _ _
  · exact hfollows

theorem Sound.leave (h : b.Sound) (i : Nat) : (b.leave i).Sound :=
  fun r hr => h r (List.mem_of_mem_eraseIdx hr)

end Broadcast

end AquaTimestamp.Support
