import Mathlib.Algebra.Order.Ring.Nat
import Mathlib.Tactic.Common

/-!
# Arithmetic of fixed width

The exact result of an operation may not fit the width of its type.  A build
with overflow checks panics there; a build without them keeps the residue.
-/

namespace AquaTimestamp.Support

abbrev U64 := Fin (2 ^ 64)

abbrev U128 := Fin (2 ^ 128)

abbrev U256 := Fin (2 ^ 256)

instance neZero_u64 : NeZero (2 ^ 64 : Nat) :=
  ⟨by decide⟩

/-- Whether a build checks its arithmetic. -/
inductive OverflowChecks where
  | enabled
  | disabled
  deriving DecidableEq

namespace OverflowChecks

variable {checks : OverflowChecks} {width n : Nat} {a b : Fin (2 ^ width)}

/-- What an operation with the exact result `n` gives at a width; `none` is a
panic. -/
def settle (checks : OverflowChecks) (width n : Nat) : Option (Fin (2 ^ width)) :=
  if h : n < 2 ^ width then some ⟨n, h⟩
  else
    match checks with
    | .enabled => none
    | .disabled => some ⟨n % 2 ^ width, Nat.mod_lt _ (Nat.two_pow_pos width)⟩

/-- Addition. -/
def add (checks : OverflowChecks) (a b : Fin (2 ^ width)) : Option (Fin (2 ^ width)) :=
  checks.settle width (a.val + b.val)

/-- Multiplication. -/
def mul (checks : OverflowChecks) (a b : Fin (2 ^ width)) : Option (Fin (2 ^ width)) :=
  checks.settle width (a.val * b.val)

/-- Subtraction. -/
def sub (checks : OverflowChecks) (a b : Fin (2 ^ width)) : Option (Fin (2 ^ width)) :=
  if b ≤ a then checks.settle width (a.val - b.val)
  else
    match checks with
    | .enabled => none
    | .disabled => checks.settle width (2 ^ width - b.val + a.val)

theorem settle_of_lt (h : n < 2 ^ width) : checks.settle width n = some ⟨n, h⟩ :=
  dif_pos h

/-- A checked build goes on exactly when the result fits. -/
theorem settle_enabled_ne_none : enabled.settle width n ≠ none ↔ n < 2 ^ width := by
  unfold settle
  split
  · rename_i h
    exact ⟨fun _ => h, fun _ => Option.some_ne_none _⟩
  · rename_i h
    exact ⟨fun hne => absurd rfl hne, fun hlt => absurd hlt h⟩

theorem sub_of_le (h : b ≤ a) :
    checks.sub a b = some ⟨a.val - b.val, Nat.lt_of_le_of_lt (Nat.sub_le _ _) a.isLt⟩ := by
  unfold sub
  rw [if_pos h, settle_of_lt]

end OverflowChecks

end AquaTimestamp.Support
