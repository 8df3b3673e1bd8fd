import Mathlib.Algebra.Ring.Int.Defs
import Mathlib.Algebra.Order.Ring.Nat
import Mathlib.Data.Nat.Bitwise
import Mathlib.Tactic.Ring

/-!
# Positional values, and comparing two of them digit by digit

A number written in digits, least significant first, and the running sign of a comparison that
never looks at the number as a whole: `lead s c n` adds `2 ^ i` for every digit of `s` below the
digit of `c` and subtracts it for every digit above. Each power outweighs all the smaller ones
together, so the most significant difference decides: `lead_pos`, `lead_neg`.

The powers are those of two whatever the base of the digits is, since the running sign only has to be
weighed against itself.
-/

namespace CircomMpc
namespace Lib

/-- The value of the first `n` digits `f 0, f 1, …` in base `base`, least significant first. -/
def digits (base : Nat) (f : Nat → Nat) : Nat → Nat
  | 0 => 0
  | n + 1 => digits base f n + f n * base ^ n

/-- Digits below the base keep the value below the base's power. -/
theorem digits_lt {base : Nat} {f : Nat → Nat} (hf : ∀ i, f i < base) :
    ∀ n, digits base f n < base ^ n
  | 0 => Nat.one_pos
  | n + 1 => by
    have ih := digits_lt hf n
    have hle : (f n + 1) * base ^ n ≤ base * base ^ n := Nat.mul_le_mul_right _ (hf n)
    rw [Nat.add_mul, Nat.one_mul] at hle
    rw [digits, Nat.pow_succ, Nat.mul_comm (base ^ n)]
    omega

/-- Two binary digits are one digit of base four. -/
theorem digits_pairs (f : Nat → Nat) :
    ∀ n, digits 4 (fun i => f (2 * i) + 2 * f (2 * i + 1)) n = digits 2 f (2 * n)
  | 0 => rfl
  | n + 1 => by
    have hpow : 2 ^ (2 * n) = 4 ^ n := by rw [Nat.pow_mul]
    have hsplit : 2 * (n + 1) = 2 * n + 1 + 1 := by omega
    rw [hsplit, digits, digits, digits, digits_pairs f n, Nat.pow_succ, hpow]
    ring

/-- The bits of a number give back its remainder. -/
theorem digits_testBit (x : Nat) : ∀ n, digits 2 (fun i => (x.testBit i).toNat) n = x % 2 ^ n
  | 0 => by rw [Nat.pow_zero, Nat.mod_one]; rfl
  | n + 1 => by
    rw [digits, digits_testBit x n, Nat.toNat_testBit, Nat.mod_pow_succ, Nat.mul_comm]

theorem digits_congr {base : Nat} {f g : Nat → Nat} :
    ∀ {n : Nat}, (∀ i < n, f i = g i) → digits base f n = digits base g n
  | 0, _ => rfl
  | n + 1, h => by
    rw [digits, digits, digits_congr fun i hi => h i (Nat.lt_succ_of_lt hi), h n (Nat.lt_succ_self n)]

/-! ## The sign of a comparison -/

/-- One digit's contribution: its power of two, for or against. -/
def leadStep (s c : Nat → Nat) (i : Nat) : Int :=
  if s i < c i then 2 ^ i else if s i = c i then 0 else -2 ^ i

/-- The running sign of comparing `s` with `c`, digit by digit. -/
def lead (s c : Nat → Nat) : Nat → Int
  | 0 => 0
  | n + 1 => lead s c n + leadStep s c n

/-- The sign is smaller than the next power. -/
theorem lead_bound (s c : Nat → Nat) : ∀ n, -2 ^ n < lead s c n ∧ lead s c n < 2 ^ n
  | 0 => by simp [lead]
  | n + 1 => by
    obtain ⟨hlow, hhigh⟩ := lead_bound s c n
    have hpow : (2 : Int) ^ (n + 1) = 2 ^ n + 2 ^ n := by rw [pow_succ]; ring
    have hpos : (0 : Int) < 2 ^ n := by omega
    rw [lead, leadStep, hpow]
    split
    · omega
    · split <;> omega

/-- **The most significant difference decides.** -/
theorem lead_sign {base : Nat} {s c : Nat → Nat} (hs : ∀ i, s i < base) (hc : ∀ i, c i < base) :
    ∀ n, (0 < lead s c n ↔ digits base s n < digits base c n) ∧
      (lead s c n < 0 ↔ digits base c n < digits base s n)
  | 0 => by simp [lead, digits]
  | n + 1 => by
    obtain ⟨hpos, hneg⟩ := lead_sign hs hc n
    obtain ⟨hlow, hhigh⟩ := lead_bound s c n
    have hsn := digits_lt hs n
    have hcn := digits_lt hc n
    rw [lead, leadStep, digits, digits]
    by_cases hlt : s n < c n
    · -- The highest digits differ, and nothing below them counts up to one of their power.
      have hle : (s n + 1) * base ^ n ≤ c n * base ^ n := Nat.mul_le_mul_right _ hlt
      rw [Nat.add_mul, Nat.one_mul] at hle
      rw [if_pos hlt]
      omega
    · rw [if_neg hlt]
      -- They agree, so the rest decides.
      by_cases heq : s n = c n
      · rw [if_pos heq, heq]
        omega
      · have hgt : c n < s n := by omega
        have hle : (c n + 1) * base ^ n ≤ s n * base ^ n := Nat.mul_le_mul_right _ hgt
        rw [Nat.add_mul, Nat.one_mul] at hle
        rw [if_neg heq]
        omega

end Lib
end CircomMpc
