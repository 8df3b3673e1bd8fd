import CircomMpc.Frontend.Fold
import CircomMpc.Modulus
import Mathlib.FieldTheory.Finite.Basic
import Mathlib.Tactic.Ring

/-!
# What circom means by its operators, and where folding agrees

The language's own semantics of a constant expression, stated over canonical representatives, and
the comparison of `fold_binary` and `fold_condition` with it. Every operator but the two shifts
folds to circom's value for all operands. A shift does so exactly under `ShiftExact`, and has the
truth value a branch needs exactly under `ShiftDecides`: the code shifts left by multiplying in the
field, where circom cuts the product to 254 bits, and it has no turned-round shift for amounts above
half the modulus.

Both conditions speak of the operands alone. Their proofs are about powers of two modulo an odd prime:
two residues agree where the integers do, or where both vanish, and a product of a representative with
a power of two vanishes only with the representative. The rest is the table of the other operators,
which are compared case by case.
-/

namespace CircomMpc
namespace Frontend

open Lib

/-! ## circom's values -/

/-- The signed reading of an element: the upper half of the field is negative. -/
def signed (x : Fr) : Int :=
  if toBigint x > modulus / 2 then (toBigint x : Int) - modulus else toBigint x

/-- Shifting up: the product with a power of two, cut to 254 bits and reduced. -/
def shiftUp (x k : Nat) : Nat := (x * 2 ^ k &&& 2 ^ 254 - 1) % modulus

/-- Shifting down: the integer quotient by a power of two. -/
def shiftDown (x k : Nat) : Nat := x / 2 ^ k

/-- `x << k`: an amount in the upper half of the field shifts the other way. -/
def circomShiftL (x k : Nat) : Nat :=
  if k ≤ modulus / 2 then shiftUp x k else shiftDown x (modulus - k)

/-- `x >> k`. -/
def circomShiftR (x k : Nat) : Nat :=
  if k ≤ modulus / 2 then shiftDown x k else shiftUp x (modulus - k)

/-- circom's value of the arithmetic and bit operators; none for a division by zero. -/
def circomArithmetic (op : OperatorType) (a b : Fr) : Option Fr :=
  match op with
  | .add => some (a + b)
  | .sub => some (a - b)
  | .mul => some (a * b)
  | .div => if b = 0 then none else some (a * b⁻¹)
  | .intDiv => if b = 0 then none else some (frFrom (toBigint a / toBigint b))
  | .pow => some (a ^ toBigint b)
  | .shiftL => some (frFrom (circomShiftL (toBigint a) (toBigint b)))
  | .shiftR => some (frFrom (circomShiftR (toBigint a) (toBigint b)))
  | .bitOr => some (frFrom ((toBigint a ||| toBigint b) % modulus))
  | .bitAnd => some (frFrom ((toBigint a &&& toBigint b) % modulus))
  | .bitXor => some (frFrom ((toBigint a ^^^ toBigint b) % modulus))
  | _ => none

/-- circom's verdict of the comparisons and connectives. -/
def circomVerdict (op : OperatorType) (a b : Fr) : Option Bool :=
  match op with
  | .eq (.single 1) => some (decide (a = b))
  | .notEq => some (decide (a ≠ b))
  | .lesser => some (decide (signed a < signed b))
  | .greater => some (decide (signed b < signed a))
  | .lesserEq => some (decide (signed a ≤ signed b))
  | .greaterEq => some (decide (signed b ≤ signed a))
  | .boolAnd => some (decide (a ≠ 0 ∧ b ≠ 0))
  | .boolOr => some (decide (a ≠ 0 ∨ b ≠ 0))
  | _ => none

/-- A verdict as the element circom writes for it. -/
def truthElement (verdict : Bool) : Fr := if verdict then 1 else 0

/-- circom's value of the operators an address has no use for: a comparison or a connective is one or
zero, and may stand inside any other operator. A wider `Eq` belongs to the constraint between two
arrays and has no scalar value. The remainder is with the sums in `circomAddressOperator`. -/
def circomOperator (op : OperatorType) (a b : Fr) : Option Fr :=
  (circomArithmetic op a b).or ((circomVerdict op a b).map truthElement)

/-- The same operators with both shifts uncut: `<<` multiplies in the field, `>>` is the integer
quotient, and no amount turns them round. -/
def uncutOperator (op : OperatorType) (a b : Fr) : Option Fr :=
  match op with
  | .shiftL => some (a * frFrom (2 ^ toBigint b))
  | .shiftR => some (frFrom (shiftDown (toBigint a) (toBigint b)))
  | _ => circomOperator op a b

/-- circom's value of the operators on one scalar. -/
def circomUnary (op : OperatorType) (a : Fr) : Option Fr :=
  match op with
  | .prefixSub => some (-a)
  | .boolNot => some (truthElement (decide (a = 0)))
  | .complement => some (frFrom ((toBigint a ^^^ 2 ^ 254 - 1) % modulus))
  | _ => none

/-- The operators folding is for. -/
def Folded (op : OperatorType) : Prop :=
  op ∈ [.add, .sub, .mul, .div, .intDiv, .pow, .shiftL, .shiftR, .bitOr, .bitAnd, .bitXor]

/-- The operators that decide a branch: those of `Folded`, the comparisons and the connectives. -/
def Deciding (op : OperatorType) : Prop :=
  Folded op ∨ op ∈ [.eq (.single 1), .notEq, .lesser, .greater, .lesserEq, .greaterEq, .boolAnd,
    .boolOr]

/-! ## The agreement, and its conditions -/

/-- Whatever `fold_binary` returns is circom's value. -/
def FoldsAsCircom (op : OperatorType) (a b : Fr) : Prop :=
  ∀ v, foldBinary op a b = some v → circomArithmetic op a b = some v

/-- Whatever `fold_binary` returns is zero exactly when circom's value is. -/
def DecidesAsCircom (op : OperatorType) (a b : Fr) : Prop :=
  ∀ v, foldBinary op a b = some v → ∃ w, circomArithmetic op a b = some w ∧ (v = 0 ↔ w = 0)

/-- Where a shift folds to circom's value. -/
def ShiftExact (op : OperatorType) (a b : Fr) : Prop :=
  match op with
  | .shiftL => a = 0 ∨ (toBigint b ≤ modulus / 2 ∧ toBigint a * 2 ^ toBigint b < 2 ^ 254)
  | .shiftR => toBigint b ≤ modulus / 2 ∨ 2 ^ 254 ∣ toBigint a * 2 ^ (modulus - toBigint b)
  | _ => True

/-- Where a shift folds to zero exactly when circom's value is zero. -/
def ShiftDecides (op : OperatorType) (a b : Fr) : Prop :=
  match op with
  | .shiftL => a = 0 ∨ (toBigint b ≤ modulus / 2 ∧ ¬ 2 ^ 254 ∣ toBigint a * 2 ^ toBigint b) ∨
      (modulus / 2 < toBigint b ∧ 2 ^ (modulus - toBigint b) ≤ toBigint a)
  | .shiftR => toBigint b ≤ modulus / 2 ∨ 2 ^ 254 ∣ toBigint a * 2 ^ (modulus - toBigint b)
  | _ => True

/-! ## The modulus and powers of two -/

theorem modulus_bounds : 2 ^ 253 < modulus ∧ modulus < 2 ^ 254 ∧ modulus % 2 = 1 := by decide

theorem toBigint_lt (x : Fr) : toBigint x < modulus := intoBigint_lt x

@[simp] theorem toBigint_eq_zero {x : Fr} : toBigint x = 0 ↔ x = 0 := ZMod.val_eq_zero x

theorem frFrom_toBigint (x : Fr) : frFrom (toBigint x) = x := ZMod.natCast_zmod_val x

theorem toBigint_frFrom {n : Nat} (h : n < modulus) : toBigint (frFrom n) = n :=
  ZMod.val_cast_of_lt h

theorem frFrom_mod (n : Nat) : frFrom (n % modulus) = frFrom n := ZMod.natCast_mod n modulus

theorem frFrom_mul (m n : Nat) : frFrom (m * n) = frFrom m * frFrom n := Nat.cast_mul m n

theorem frFrom_add (m n : Nat) : frFrom (m + n) = frFrom m + frFrom n := Nat.cast_add m n

theorem frFrom_two_pow (k : Nat) : frFrom (2 ^ k) = 2 ^ k := by
  rw [frFrom, Nat.cast_pow, Nat.cast_ofNat]

theorem modpow_eq (base exponent : Nat) : frFrom (modpow base exponent modulus) = (base : Fr) ^ exponent := by
  rw [modpow, frFrom_mod]
  exact powMod_cast modulus (Nat.lt_size_self exponent)

theorem bits_le {n k : Nat} : bits n ≤ k ↔ n < 2 ^ k := Nat.size_le

theorem two_ne_zero_fr : (2 : Fr) ≠ 0 := by decide

/-- Powers of two vanish nowhere in the field. -/
theorem mul_two_pow_eq_zero {a : Fr} {k : Nat} : a * 2 ^ k = 0 ↔ a = 0 := by
  have : Fact modulus.Prime := ⟨modulus_prime⟩
  rw [mul_eq_zero, or_iff_left (pow_ne_zero k two_ne_zero_fr)]

/-- Fermat: shifting up by an amount counted back from the modulus halves all but once. -/
theorem two_pow_back {j : Nat} (hj : j ≤ modulus) : (2 : Fr) ^ (modulus - j) * 2 ^ j = 2 := by
  have : Fact modulus.Prime := ⟨modulus_prime⟩
  rw [← pow_add, Nat.sub_add_cancel hj]
  exact ZMod.pow_card 2

/-! ## What the shifts compute -/

/-- A left shift multiplies in the field. -/
theorem foldBinary_shiftL (a b : Fr) : foldBinary .shiftL a b = some (a * 2 ^ toBigint b) := by
  rw [foldBinary, frFrom_mod, frFrom_mul, frFrom_toBigint, modpow_eq, Nat.cast_ofNat]

/-- A right shift is the integer quotient, whichever of its three exits it takes. -/
theorem foldBinary_shiftR (a b : Fr) :
    foldBinary .shiftR a b = some (frFrom (shiftDown (toBigint a) (toBigint b))) := by
  have hzero : ∀ k, toBigint a < 2 ^ k → (0 : Fr) = frFrom (shiftDown (toBigint a) k) := by
    intro k hk
    rw [shiftDown, Nat.div_eq_of_lt hk, frFrom, Nat.cast_zero]
  have hval : toBigint a < 2 ^ 254 := lt_trans (toBigint_lt a) modulus_bounds.2.1
  simp only [foldBinary]
  split
  next hlong =>
    -- More than 64 bits shift every representative away.
    rw [gt_iff_lt, ← not_le, bits_le, not_lt] at hlong
    have hk : 254 ≤ toBigint b := le_trans (by decide) hlong
    rw [← hzero _ (lt_of_lt_of_le hval (Nat.pow_le_pow_right (by decide) hk))]
  next hshort =>
    rw [gt_iff_lt, not_lt, bits_le] at hshort
    rw [usizeBits] at hshort
    rw [firstDigit, Nat.mod_eq_of_lt hshort]
    split
    next hfar => rw [← hzero _ (bits_le.mp hfar)]
    next => rw [shiftDown, Nat.shiftRight_eq_div_pow]

/-- Half the modulus is more than any representative has bits. -/
theorem far_shiftDown {a b : Fr} (hb : ¬ toBigint b ≤ modulus / 2) :
    frFrom (shiftDown (toBigint a) (toBigint b)) = 0 := by
  have hfar : 254 ≤ toBigint b := by
    have hhalf : 254 ≤ modulus / 2 := by decide
    omega
  have hlt : toBigint a < 2 ^ toBigint b :=
    calc toBigint a < 2 ^ 254 := lt_trans (toBigint_lt a) modulus_bounds.2.1
      _ ≤ 2 ^ toBigint b := Nat.pow_le_pow_right (by decide) hfar
  rw [shiftDown, Nat.div_eq_of_lt hlt, frFrom, Nat.cast_zero]

/-- Cutting to 254 bits is a remainder. -/
theorem shiftUp_eq (x k : Nat) : shiftUp x k = x * 2 ^ k % 2 ^ 254 % modulus := by
  rw [shiftUp, Nat.and_two_pow_sub_one_eq_mod]

theorem frFrom_eq_zero {n : Nat} : frFrom n = 0 ↔ modulus ∣ n :=
  ZMod.natCast_eq_zero_iff n modulus

/-- An even number below twice the modulus vanishes only when it is zero: the modulus is odd. -/
theorem even_vanishes {n : Nat} (heven : n % 2 = 0) (hlt : n < 2 * modulus)
    (h : modulus ∣ n) : n = 0 := by
  obtain ⟨c, rfl⟩ := h
  have hc : c < 2 := by
    rw [Nat.mul_comm] at hlt
    exact Nat.lt_of_mul_lt_mul_right hlt
  obtain rfl | rfl : c = 0 ∨ c = 1 := by omega
  · exact Nat.mul_zero _
  · rw [Nat.mul_one, modulus_bounds.2.2] at heven
    exact absurd heven (by decide)

/-- Cutting a shifted representative changes its residue as soon as it cuts anything. -/
theorem cut_agrees {a : Fr} {k : Nat} :
    frFrom (toBigint a * 2 ^ k % 2 ^ 254) = a * 2 ^ k ↔ a = 0 ∨ toBigint a * 2 ^ k < 2 ^ 254 := by
  have hprod : a * 2 ^ k = frFrom (toBigint a * 2 ^ k) := by
    rw [frFrom_mul, frFrom_toBigint, frFrom_two_pow]
  constructor
  · intro h
    have hquot : frFrom (toBigint a * 2 ^ k / 2 ^ 254) = 0 := by
      have hsplit := Nat.mod_add_div (toBigint a * 2 ^ k) (2 ^ 254)
      rw [hprod, ← hsplit, Nat.add_mul_mod_self_left, Nat.mod_mod] at h
      rw [frFrom_add, eq_comm, add_eq_left, Nat.mul_comm, frFrom_mul, frFrom_two_pow] at h
      exact mul_two_pow_eq_zero.mp h
    rcases Nat.lt_or_ge k 254 with hk | hk
    · -- A short shift cuts a quotient below the modulus.
      have hlt : toBigint a * 2 ^ k / 2 ^ 254 < modulus := by
        rw [Nat.div_lt_iff_lt_mul (by decide)]
        exact Nat.mul_lt_mul'' (toBigint_lt a) (Nat.pow_lt_pow_right (by decide) hk)
      have hnone := Nat.eq_zero_of_dvd_of_lt (frFrom_eq_zero.mp hquot) hlt
      exact .inr (Nat.lt_of_div_eq_zero (by decide) hnone)
    · -- A long one cuts a multiple of the representative by a power of two.
      have hpow : toBigint a * 2 ^ k / 2 ^ 254 = toBigint a * 2 ^ (k - 254) := by
        obtain ⟨j, rfl⟩ := Nat.exists_eq_add_of_le hk
        rw [Nat.add_sub_cancel_left, Nat.pow_add, Nat.mul_left_comm]
        exact Nat.mul_div_cancel_left _ (by decide)
      rw [hpow, frFrom_mul, frFrom_toBigint, frFrom_two_pow, mul_two_pow_eq_zero] at hquot
      exact .inl hquot
  · rintro (rfl | hlt)
    · rw [toBigint_eq_zero.mpr rfl, Nat.zero_mul, Nat.zero_mod, zero_mul, frFrom, Nat.cast_zero]
    · rw [Nat.mod_eq_of_lt hlt, ← hprod]

/-- Multiplying never turns a shift round, except for zero. -/
theorem turned_agrees {a : Fr} {j : Nat} (hpos : 0 < j) (hj : j ≤ modulus) :
    frFrom (toBigint a / 2 ^ j) = a * 2 ^ (modulus - j) ↔ a = 0 := by
  constructor
  · intro h
    have hdiv := Nat.div_add_mod (toBigint a) (2 ^ j)
    have hrest : toBigint a % 2 ^ j ≤ toBigint a := Nat.mod_le _ _
    have hdouble : frFrom (2 ^ j * (toBigint a / 2 ^ j)) = a * 2 := by
      rw [frFrom_mul, h, frFrom_two_pow, mul_comm, mul_assoc, two_pow_back hj]
    have hsum : frFrom (toBigint a + toBigint a % 2 ^ j) = 0 := by
      have hcast := congrArg frFrom hdiv
      rw [frFrom_add, hdouble, frFrom_toBigint, mul_two, add_assoc, add_eq_left] at hcast
      rw [frFrom_add, frFrom_toBigint]
      exact hcast
    have heven : (toBigint a + toBigint a % 2 ^ j) % 2 = 0 := by
      obtain ⟨i, rfl⟩ := Nat.exists_eq_add_of_le hpos
      rw [Nat.pow_add, Nat.pow_one] at *
      have hassoc := Nat.mul_assoc 2 (2 ^ i) (toBigint a / (2 * 2 ^ i))
      omega
    have hlt : toBigint a + toBigint a % 2 ^ j < 2 * modulus := by
      have := toBigint_lt a
      omega
    have hzero := even_vanishes heven hlt (frFrom_eq_zero.mp hsum)
    exact toBigint_eq_zero.mp (by omega)
  · rintro rfl
    rw [toBigint_eq_zero.mpr rfl, Nat.zero_div, zero_mul, frFrom, Nat.cast_zero]

/-- A turned-round shift that cuts a bit is not zero: what is left is even. -/
theorem cut_vanishes {x k : Nat} (hpos : 0 < k) :
    frFrom (x * 2 ^ k % 2 ^ 254) = 0 ↔ 2 ^ 254 ∣ x * 2 ^ k := by
  rw [frFrom_eq_zero]
  constructor
  · intro h
    have heven : x * 2 ^ k % 2 ^ 254 % 2 = 0 := by
      obtain ⟨i, rfl⟩ := Nat.exists_eq_add_of_le hpos
      rw [Nat.mod_mod_of_dvd _ (by decide), Nat.pow_add, Nat.pow_one, Nat.mul_left_comm]
      exact Nat.mul_mod_right 2 _
    have hlt : x * 2 ^ k % 2 ^ 254 < 2 * modulus := by
      have hmod := Nat.mod_lt (x * 2 ^ k) (y := 2 ^ 254) (by decide)
      have hbig : 2 ^ 254 < 2 * modulus := by decide
      omega
    exact Nat.dvd_of_mod_eq_zero (even_vanishes heven hlt h)
  · intro h
    rw [Nat.mod_eq_zero_of_dvd h]
    exact dvd_zero _

/-! ## Exactly where the shifts are circom's -/

theorem upper_half {b : Fr} (hb : ¬ toBigint b ≤ modulus / 2) :
    0 < modulus - toBigint b ∧ modulus - toBigint b ≤ modulus ∧
      modulus - (modulus - toBigint b) = toBigint b := by
  have := toBigint_lt b
  omega

theorem shiftL_exact (a b : Fr) : FoldsAsCircom .shiftL a b ↔ ShiftExact .shiftL a b := by
  have hfold : FoldsAsCircom .shiftL a b ↔
      frFrom (circomShiftL (toBigint a) (toBigint b)) = a * 2 ^ toBigint b := by
    simp only [FoldsAsCircom, foldBinary_shiftL, circomArithmetic, Option.some.injEq]
    exact ⟨fun h => h _ rfl, fun h v hv => h.trans hv⟩
  rw [hfold, circomShiftL, ShiftExact]
  split
  next hb =>
    rw [shiftUp_eq, frFrom_mod, cut_agrees]
    exact or_congr_right (and_iff_right hb).symm
  next hb =>
    obtain ⟨hpos, hle, hback⟩ := upper_half hb
    have hturned := turned_agrees (a := a) hpos hle
    rw [hback] at hturned
    rw [shiftDown, hturned]
    exact (or_iff_left fun h => hb h.1).symm

theorem shiftR_exact (a b : Fr) : FoldsAsCircom .shiftR a b ↔ ShiftExact .shiftR a b := by
  have hfold : FoldsAsCircom .shiftR a b ↔ frFrom (circomShiftR (toBigint a) (toBigint b)) =
      frFrom (shiftDown (toBigint a) (toBigint b)) := by
    simp only [FoldsAsCircom, foldBinary_shiftR, circomArithmetic, Option.some.injEq]
    exact ⟨fun h => h _ rfl, fun h v hv => h.trans hv⟩
  rw [hfold, circomShiftR, ShiftExact]
  split
  next hb => exact ⟨fun _ => .inl hb, fun _ => rfl⟩
  next hb =>
    rw [far_shiftDown hb, shiftUp_eq, frFrom_mod, cut_vanishes (upper_half hb).1]
    exact (or_iff_right hb).symm

/-- The operators without a shift in them are circom's for all operands: the value is the same, and
so is a division by zero. -/
theorem foldBinary_eq_circomArithmetic {op : OperatorType} (hL : op ≠ .shiftL) (hR : op ≠ .shiftR)
    (a b : Fr) : foldBinary op a b = circomArithmetic op a b := by
  cases op with
  | div => by_cases hb : b = 0 <;> simp [foldBinary, circomArithmetic, inverse, hb]
  | intDiv => by_cases hb : b = 0 <;> simp [foldBinary, circomArithmetic, hb]
  | bitOr | bitAnd | bitXor => rw [circomArithmetic, frFrom_mod, foldBinary]
  | shiftL => exact absurd rfl hL
  | shiftR => exact absurd rfl hR
  | _ => rfl

theorem foldBinary_of_not_shift {op : OperatorType} (hL : op ≠ .shiftL) (hR : op ≠ .shiftR)
    (a b : Fr) : FoldsAsCircom op a b := fun _ hv =>
  (foldBinary_eq_circomArithmetic hL hR a b).symm.trans hv

/-- **Folding is circom's arithmetic exactly under `ShiftExact`.** -/
theorem foldBinary_exact (op : OperatorType) (a b : Fr) :
    FoldsAsCircom op a b ↔ ShiftExact op a b := by
  by_cases hL : op = .shiftL
  · subst hL
    exact shiftL_exact a b
  by_cases hR : op = .shiftR
  · subst hR
    exact shiftR_exact a b
  refine iff_of_true (foldBinary_of_not_shift hL hR a b) ?_
  cases op with
  | shiftL => exact absurd rfl hL
  | shiftR => exact absurd rfl hR
  | _ => exact trivial

/-- Folding gives up on its own operators only where circom has no value. -/
theorem foldBinary_eq_none {op : OperatorType} (hop : Folded op) {a b : Fr} :
    foldBinary op a b = none ↔ (op = .div ∨ op = .intDiv) ∧ b = 0 := by
  simp only [Folded, List.mem_cons, List.not_mem_nil, or_false] at hop
  rcases hop with rfl | rfl | rfl | rfl | rfl | rfl | rfl | rfl | rfl | rfl | rfl
  case inr.inr.inr.inr.inr.inr.inr.inl =>
    rw [foldBinary_shiftR]
    simp
  all_goals simp [foldBinary]

/-! ### The truth value of a shift -/

theorem shiftUp_eq_zero {a : Fr} (k : Nat) :
    frFrom (shiftUp (toBigint a) k) = 0 ↔ 2 ^ 254 ∣ toBigint a * 2 ^ k := by
  rw [shiftUp_eq, frFrom_mod]
  rcases Nat.eq_zero_or_pos k with rfl | hpos
  · -- An amount of zero cuts nothing.
    have hlt : toBigint a < 2 ^ 254 := lt_trans (toBigint_lt a) modulus_bounds.2.1
    rw [Nat.pow_zero, Nat.mul_one, Nat.mod_eq_of_lt hlt, frFrom_toBigint]
    constructor
    · intro h
      rw [toBigint_eq_zero.mpr h]
      exact dvd_zero _
    · intro h
      exact toBigint_eq_zero.mp (Nat.eq_zero_of_dvd_of_lt h hlt)
  · exact cut_vanishes hpos

theorem shiftDown_eq_zero {a : Fr} (k : Nat) :
    frFrom (shiftDown (toBigint a) k) = 0 ↔ toBigint a < 2 ^ k := by
  have hlt : toBigint a / 2 ^ k < modulus := lt_of_le_of_lt (Nat.div_le_self _ _) (toBigint_lt a)
  rw [shiftDown, frFrom_eq_zero]
  constructor
  · intro h
    exact Nat.lt_of_div_eq_zero (Nat.two_pow_pos k) (Nat.eq_zero_of_dvd_of_lt h hlt)
  · intro h
    rw [Nat.div_eq_of_lt h]
    exact dvd_zero _

theorem shiftL_decides (a b : Fr) : DecidesAsCircom .shiftL a b ↔ ShiftDecides .shiftL a b := by
  have hfold : DecidesAsCircom .shiftL a b ↔
      (a = 0 ↔ frFrom (circomShiftL (toBigint a) (toBigint b)) = 0) := by
    simp only [DecidesAsCircom, foldBinary_shiftL, circomArithmetic, Option.some.injEq,
      forall_eq', exists_eq_left', mul_two_pow_eq_zero]
  rw [hfold, circomShiftL, ShiftDecides]
  split
  next hb =>
    rw [shiftUp_eq_zero]
    have hzero : a = 0 → 2 ^ 254 ∣ toBigint a * 2 ^ toBigint b := by
      rintro rfl
      rw [toBigint_eq_zero.mpr rfl, Nat.zero_mul]
      exact dvd_zero _
    have hhigh : ¬ modulus / 2 < toBigint b := not_lt.mpr hb
    tauto
  next hb =>
    rw [shiftDown_eq_zero]
    have hzero : a = 0 → toBigint a < 2 ^ (modulus - toBigint b) := by
      rintro rfl
      rw [toBigint_eq_zero.mpr rfl]
      exact Nat.two_pow_pos _
    have hhigh : modulus / 2 < toBigint b := not_le.mp hb
    rw [← not_lt (a := toBigint a)]
    tauto

theorem shiftR_decides (a b : Fr) : DecidesAsCircom .shiftR a b ↔ ShiftDecides .shiftR a b := by
  have hfold : DecidesAsCircom .shiftR a b ↔
      (frFrom (shiftDown (toBigint a) (toBigint b)) = 0 ↔
        frFrom (circomShiftR (toBigint a) (toBigint b)) = 0) := by
    simp only [DecidesAsCircom, foldBinary_shiftR, circomArithmetic, Option.some.injEq,
      forall_eq', exists_eq_left']
  rw [hfold, circomShiftR, ShiftDecides]
  split
  next hb => exact iff_of_true Iff.rfl (.inl hb)
  next hb =>
    rw [far_shiftDown hb, shiftUp_eq_zero, eq_self, true_iff]
    exact (or_iff_right hb).symm

/-- **A folded operator has circom's truth value exactly under `ShiftDecides`.** -/
theorem foldBinary_decides (op : OperatorType) (a b : Fr) :
    DecidesAsCircom op a b ↔ ShiftDecides op a b := by
  by_cases hL : op = .shiftL
  · subst hL
    exact shiftL_decides a b
  by_cases hR : op = .shiftR
  · subst hR
    exact shiftR_decides a b
  refine iff_of_true (fun v hv => ⟨v, foldBinary_of_not_shift hL hR a b v hv, Iff.rfl⟩) ?_
  cases op with
  | shiftL => exact absurd rfl hL
  | shiftR => exact absurd rfl hR
  | _ => exact trivial

/-! ## The order -/

/-- Two comparisons agree when both sides are ordered alike. -/
theorem compare_congr {m n : Nat} {i j : Int} (hlt : m < n ↔ i < j) (hgt : n < m ↔ j < i) :
    compare m n = compare i j := by
  rcases lt_trichotomy m n with h | rfl | h
  · rw [compare_lt_iff_lt.mpr h, compare_lt_iff_lt.mpr (hlt.mp h)]
  · have heq : i = j := by omega
    rw [compare_eq_iff_eq.mpr rfl, compare_eq_iff_eq.mpr heq]
  · rw [compare_gt_iff_gt.mpr h, compare_gt_iff_gt.mpr (hgt.mp h)]

/-- **circom's order is the order of the signed readings.** -/
theorem circomCmp_eq (a b : Fr) : circomCmp a b = compare (signed a) (signed b) := by
  have ha := toBigint_lt a
  have hb := toBigint_lt b
  simp only [circomCmp, signed]
  by_cases hna : toBigint a ≥ modulus / 2 + 1 <;> by_cases hnb : toBigint b ≥ modulus / 2 + 1 <;>
    simp only [hna, hnb, decide_true, decide_false]
  · rw [if_pos (by omega), if_pos (by omega)]
    exact compare_congr (by omega) (by omega)
  · rw [if_pos (by omega), if_neg (by omega), eq_comm, compare_lt_iff_lt]
    omega
  · rw [if_neg (by omega), if_pos (by omega), eq_comm, compare_gt_iff_gt]
    omega
  · rw [if_neg (by omega), if_neg (by omega)]
    exact compare_congr (by omega) (by omega)

theorem signed_injective : Function.Injective signed := by
  intro a b h
  have ha := toBigint_lt a
  have hb := toBigint_lt b
  have hval : toBigint a = toBigint b := by
    rw [signed, signed] at h
    split at h <;> split at h <;> omega
  rw [← frFrom_toBigint a, hval, frFrom_toBigint]

/-- The four tests of a comparison's outcome. -/
theorem compare_decides (i j : Int) :
    (compare i j).isLT = decide (i < j) ∧ (compare i j).isGT = decide (j < i) ∧
      (compare i j).isLE = decide (i ≤ j) ∧ (compare i j).isGE = decide (j ≤ i) := by
  rcases lt_trichotomy i j with h | rfl | h
  · rw [compare_lt_iff_lt.mpr h]
    simp [h, h.le, h.not_ge, h.not_gt]
  · rw [compare_eq_iff_eq.mpr rfl]
    simp
  · rw [compare_gt_iff_gt.mpr h]
    simp [h, h.le, h.not_ge, h.not_gt]

/-- **`fold_condition` is circom's verdict, for every operator and all operands.** -/
theorem foldCondition_eq (op : OperatorType) (a b : Fr) :
    foldCondition op a b = circomVerdict op a b := by
  obtain ⟨hlt, hgt, hle, hge⟩ := compare_decides (signed a) (signed b)
  rw [← circomCmp_eq] at hlt hgt hle hge
  cases op with
  | lesser => rw [foldCondition, circomVerdict, hlt]
  | greater => rw [foldCondition, circomVerdict, hgt]
  | lesserEq => rw [foldCondition, circomVerdict, hle]
  | greaterEq => rw [foldCondition, circomVerdict, hge]
  | notEq | boolAnd | boolOr => simp [foldCondition, circomVerdict, bne, beq_eq_decide]
  | eq size =>
    cases size with
    | multiple => rfl
    | single n => rcases n with _ | _ | n <;> rfl
  | _ => rfl

end Frontend
end CircomMpc
