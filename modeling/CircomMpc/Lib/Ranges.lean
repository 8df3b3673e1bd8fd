import Mathlib.Data.List.Basic

/-!
# Consecutive ranges

A cursor that only moves forward hands out ranges laid end to end. `Consecutive a ranges b` says so
of a list of half-open ranges; its positions are then `a..b`, each once and in order. A range may be
empty, which is what a reader that takes nothing leaves.
-/

namespace CircomMpc
namespace Lib

/-- Ranges laid end to end, from `a` to `b`. -/
inductive Consecutive : Nat → List (Nat × Nat) → Nat → Prop
  | nil {a : Nat} : Consecutive a [] a
  | cons {a b c : Nat} {ranges : List (Nat × Nat)} (hab : a ≤ b) (h : Consecutive b ranges c) :
      Consecutive a ((a, b) :: ranges) c

namespace Consecutive

variable {a b c : Nat} {ranges ranges' : List (Nat × Nat)}

theorem le (h : Consecutive a ranges b) : a ≤ b := by
  induction h with
  | nil => exact Nat.le_refl _
  | cons hab _ ih => exact Nat.le_trans hab ih

theorem append (h : Consecutive a ranges b) (h' : Consecutive b ranges' c) :
    Consecutive a (ranges ++ ranges') c := by
  induction h with
  | nil => exact h'
  | cons hab _ ih => exact .cons hab (ih h')

theorem single (hab : a ≤ b) : Consecutive a [(a, b)] b := .cons hab .nil

/-- The positions of consecutive ranges, in order, are all of `a..b`. -/
theorem positions (h : Consecutive a ranges b) :
    (ranges.flatMap fun r => List.range' r.1 (r.2 - r.1)) = List.range' a (b - a) := by
  induction h with
  | nil => simp
  | @cons a b c ranges hab h ih =>
    have hbc := h.le
    have hsplit : c - a = (b - a) + (c - b) := by omega
    have hstart : a + 1 * (b - a) = b := by omega
    rw [List.flatMap_cons, ih, hsplit, ← List.range'_append, hstart]

end Consecutive
end Lib
end CircomMpc
