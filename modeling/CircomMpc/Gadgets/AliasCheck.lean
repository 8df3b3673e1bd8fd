import CircomMpc.Gadgets.Traces
import CircomMpc.Lib.Bits

/-!
# `AliasCheck`'s comparator is exact

The comparator reads the 254 bits in pairs and adds up one *part* a pair: `2 ^ i` when the pair is
below the modulus' own, nothing when it is equal, `2 ^ 128 - 2 ^ i` when it is above. Everything
happens in the field, but no sum ever reaches the modulus, so the sum is the sum of the integers;
and that integer is a multiple of `2 ^ 128` plus the running sign of the comparison (`lead`), so its
bit `127` is the borrow: set exactly when the bits spell more than `modulus - 1`.
-/

namespace CircomMpc
namespace AliasCheck

open Lib

/-! ## The two numbers compared -/

/-- The integer the first `n` inputs spell, least significant first. -/
def bitsValue (input : List Fr) (n : Nat) : Nat :=
  digits 2 (fun i => intoBigint (input.getD i 0)) n

/-- A pair of inputs, as one digit. -/
def inputPair (input : List Fr) (i : Nat) : Nat :=
  intoBigint (input.getD (2 * i) 0) + 2 * intoBigint (input.getD (2 * i + 1) 0)

/-- A pair of the constant's bits, as one digit. -/
def constantPair (i : Nat) : Nat :=
  (ctBitsMinusOne.getD (2 * i) false).toNat + 2 * (ctBitsMinusOne.getD (2 * i + 1) false).toNat

/-- The table is right: it spells `modulus - 1`. -/
theorem constantPair_value : digits 4 constantPair 127 = modulus - 1 := by decide +kernel

theorem constantPair_lt (i : Nat) : constantPair i < 4 := by
  unfold constantPair
  have h := Bool.toNat_le (ctBitsMinusOne.getD (2 * i) false)
  have h' := Bool.toNat_le (ctBitsMinusOne.getD (2 * i + 1) false)
  omega

/-- Every element is a bit. -/
def IsBits (input : List Fr) : Prop := ∀ x ∈ input, x = 0 ∨ x = 1

theorem intoBigint_zero : intoBigint 0 = 0 := ZMod.val_zero

theorem intoBigint_one : intoBigint 1 = 1 := ZMod.val_one _

theorem IsBits.getD {input : List Fr} (h : IsBits input) (i : Nat) :
    input.getD i 0 = 0 ∨ input.getD i 0 = 1 := by
  rw [List.getD_eq_getElem?_getD]
  cases hx : input[i]? with
  | none => exact .inl rfl
  | some x => exact h x (List.mem_of_getElem? hx)

theorem IsBits.le_one {input : List Fr} (h : IsBits input) (i : Nat) :
    intoBigint (input.getD i 0) ≤ 1 := by
  rcases h.getD i with hbit | hbit
  · rw [hbit, intoBigint_zero]
    exact Nat.zero_le 1
  · rw [hbit, intoBigint_one]

theorem inputPair_lt {input : List Fr} (h : IsBits input) (i : Nat) : inputPair input i < 4 := by
  unfold inputPair
  have hlow := h.le_one (2 * i)
  have hhigh := h.le_one (2 * i + 1)
  omega

theorem inputPair_value (input : List Fr) (n : Nat) :
    digits 4 (inputPair input) n = bitsValue input (2 * n) :=
  digits_pairs (fun i => intoBigint (input.getD i 0)) n

/-! ## One part -/

/-- **The four formulas are one case split.** On bits, a pair's part says how the pair compares. -/
theorem comparatorPart_eq {a b high low : Fr} (highBit lowBit : Bool) (hhigh : high = 0 ∨ high = 1)
    (hlow : low = 0 ∨ low = 1) :
    comparatorPart a b highBit lowBit high low =
      if intoBigint low + 2 * intoBigint high < lowBit.toNat + 2 * highBit.toNat then a
      else if intoBigint low + 2 * intoBigint high = lowBit.toNat + 2 * highBit.toNat then 0
      else b := by
  rcases hhigh with rfl | rfl <;> rcases hlow with rfl | rfl <;> cases highBit <;> cases lowBit <;>
    simp [comparatorPart, intoBigint_zero, intoBigint_one]

/-! ## The sum of the parts -/

/-- A pair's part, as the natural number it stands for. -/
def partValue (top : Nat) (s c : Nat → Nat) (i : Nat) : Nat :=
  if s i < c i then 2 ^ i else if s i = c i then 0 else top - 2 ^ i

/-- The sum of the first parts. -/
def sumValue (top : Nat) (s c : Nat → Nat) : Nat → Nat
  | 0 => 0
  | n + 1 => sumValue top s c n + partValue top s c n

/-- Every part is at most `top`. -/
theorem sumValue_le {top : Nat} (s c : Nat → Nat) :
    ∀ {n : Nat}, (∀ i < n, 2 ^ i < top) → sumValue top s c n ≤ n * top
  | 0, _ => Nat.zero_le _
  | n + 1, hn => by
    have ih := sumValue_le s c fun i hi => hn i (Nat.lt_succ_of_lt hi)
    have hlt := hn n (Nat.lt_succ_self n)
    have hpart : partValue top s c n ≤ top := by
      unfold partValue
      split
      · exact Nat.le_of_lt hlt
      · split
        · exact Nat.zero_le top
        · exact Nat.sub_le top _
    rw [sumValue, Nat.add_mul, Nat.one_mul]
    exact Nat.add_le_add ih hpart

/-- How many of the first pairs are above the constant's. -/
def above (s c : Nat → Nat) : Nat → Nat
  | 0 => 0
  | n + 1 => above s c n + if c n < s n then 1 else 0

/-- The sum is a multiple of `top` and the sign of the comparison. -/
theorem sumValue_eq {top : Nat} (s c : Nat → Nat) : ∀ {n : Nat}, (∀ i < n, 2 ^ i < top) →
    (sumValue top s c n : Int) = top * above s c n + lead s c n
  | 0, _ => by simp [sumValue, above, lead]
  | n + 1, hn => by
    have ih := sumValue_eq s c fun i hi => hn i (Nat.lt_succ_of_lt hi)
    have hlt := hn n (Nat.lt_succ_self n)
    rw [sumValue, above, lead, leadStep, partValue]
    by_cases hbelow : s n < c n
    · -- Below: the part is a power, and the sign gains it.
      rw [if_pos hbelow, if_pos hbelow, if_neg (by omega), Nat.add_zero, Nat.cast_add, ih]
      push_cast
      ring
    · rw [if_neg hbelow, if_neg hbelow]
      by_cases hequal : s n = c n
      · -- Equal: no part, no change of the sign.
        rw [if_pos hequal, if_pos hequal, if_neg (by omega), Nat.add_zero, Nat.add_zero, ih,
          add_zero]
      · -- Above: the part is what the power is short of `top`, so one `top` more and the sign drops.
        rw [if_neg hequal, if_neg hequal, if_pos (by omega), Nat.cast_add, ih,
          Nat.cast_sub (Nat.le_of_lt hlt)]
        push_cast
        ring

/-- **The bit above every power is the borrow.** -/
theorem sumValue_testBit (s c : Nat → Nat) {k : Nat} :
    (sumValue (2 ^ (k + 1)) s c k).testBit k = decide (lead s c k < 0) := by
  have hpowers : ∀ i < k, 2 ^ i < 2 ^ (k + 1) :=
    fun i hi => Nat.pow_lt_pow_right Nat.one_lt_two (by omega)
  have heq := sumValue_eq s c hpowers
  obtain ⟨hlow, hhigh⟩ := lead_bound s c k
  have hpow : ((2 ^ k : Nat) : Int) = 2 ^ k := by push_cast; rfl
  have htop : 2 ^ (k + 1) = 2 * 2 ^ k := by rw [Nat.pow_succ, Nat.mul_comm]
  rw [Nat.testBit_eq_decide_div_mod_eq]
  rw [htop] at heq ⊢
  rw [← hpow] at hlow hhigh
  generalize 2 ^ k = p at heq hlow hhigh ⊢
  generalize sumValue (2 * p) s c k = sum at heq ⊢
  generalize above s c k = g at heq
  generalize lead s c k = sign at heq hlow hhigh ⊢
  -- Everything is opaque from here but the bounds, so that the arithmetic is about five numbers.
  have hproduct : ((2 * p : Nat) : Int) * g = 2 * ((g * p : Nat) : Int) := by push_cast; ring
  rw [hproduct] at heq
  by_cases hneg : sign < 0
  · -- The sign borrows one `p` from the multiple of `2 * p` below the sum.
    have hpositive : 0 < g := by
      apply Nat.pos_of_ne_zero
      intro hzero
      rw [hzero, Nat.zero_mul] at heq
      omega
    obtain ⟨g', rfl⟩ : ∃ g', g = g' + 1 := ⟨g - 1, by omega⟩
    have hdiv : sum / p = 2 * g' + 1 := by
      apply Nat.div_eq_of_lt_le
      · rw [Nat.add_mul, Nat.mul_assoc, Nat.one_mul]
        rw [Nat.add_mul, Nat.one_mul] at heq
        omega
      · rw [Nat.add_mul, Nat.add_mul, Nat.mul_assoc, Nat.one_mul]
        rw [Nat.add_mul, Nat.one_mul] at heq
        omega
    rw [hdiv, decide_eq_true hneg]
    exact decide_eq_true (by omega)
  · -- No borrow: the sign is the remainder, and the quotient is even.
    have hdiv : sum / p = 2 * g := by
      apply Nat.div_eq_of_lt_le
      · rw [Nat.mul_assoc]
        omega
      · rw [Nat.add_mul, Nat.mul_assoc, Nat.one_mul]
        omega
    rw [hdiv, decide_eq_false hneg]
    exact decide_eq_false (by omega)

/-! ## The loop in the field -/

/-- The loop's state after `n` pairs: the coefficients and the sum are the field's images of the
    integers they stand for. -/
structure Comparator.At (input : List Fr) (n : Nat) (c : Comparator) : Prop where
  a : c.a = ((2 ^ n : Nat) : Fr)
  e : c.e = ((2 ^ n : Nat) : Fr)
  b : c.b = ((2 ^ 128 : Nat) : Fr) - ((2 ^ n : Nat) : Fr)
  sum : c.sum = ((sumValue (2 ^ 128) (inputPair input) constantPair n : Nat) : Fr)

theorem Comparator.start_at (input : List Fr) : Comparator.start.At input 0 := by
  constructor
  · rw [Nat.pow_zero, Nat.cast_one]; rfl
  · rw [Nat.pow_zero, Nat.cast_one]; rfl
  · unfold Comparator.start
    rw [Nat.cast_sub Nat.one_le_two_pow, Nat.pow_zero]
  · rw [sumValue, Nat.cast_zero]; rfl

/-- One turn of the loop, on bits. -/
theorem Comparator.At.step {input : List Fr} {n : Nat} {c : Comparator} (hbits : IsBits input)
    (hn : n < 127) (h : c.At input n) : (c.step input n).At input (n + 1) := by
  have hdouble : ((2 ^ (n + 1) : Nat) : Fr) = ((2 ^ n : Nat) : Fr) + ((2 ^ n : Nat) : Fr) := by
    rw [Nat.pow_succ, Nat.mul_two, Nat.cast_add]
  -- No power reaches `top` in the 127 turns, which is what keeps the sum below the modulus.
  have hlt : 2 ^ n < 2 ^ 128 := Nat.pow_lt_pow_right Nat.one_lt_two (by omega)
  constructor
  · rw [hdouble, Comparator.step, h.a, h.e]
  · rw [hdouble, Comparator.step, h.e]
  · rw [hdouble, Comparator.step, h.b, h.e]
    ring
  · have hpart := comparatorPart_eq (a := c.a) (b := c.b) (ctBitsMinusOne.getD (n * 2 + 1) false)
      (ctBitsMinusOne.getD (n * 2) false) (hbits.getD (n * 2 + 1)) (hbits.getD (n * 2))
    rw [sumValue, Nat.cast_add, ← h.sum, Comparator.step]
    simp only [hpart]
    congr 1
    rw [partValue, inputPair, constantPair, Nat.mul_comm 2 n, h.a, h.b]
    split
    · rfl
    · split
      · exact Nat.cast_zero.symm
      · exact (Nat.cast_sub (Nat.le_of_lt hlt)).symm

/-- The whole loop. -/
theorem comparator_at {input : List Fr} (hbits : IsBits input) :
    (comparator input).At input 127 := by
  have hloop : ∀ n, n ≤ 127 →
      ((List.range n).foldl (Comparator.step input) Comparator.start).At input n := by
    intro n
    induction n with
    | zero => intro _; exact Comparator.start_at input
    | succ n ih =>
      intro hn
      rw [List.range_succ, List.foldl_append]
      exact (ih (by omega)).step hbits (by omega)
  exact hloop 127 (Nat.le_refl _)

/-! ## The comparator is exact -/

/-- The field's sum is the integers' sum. -/
theorem intoBigint_sum {input : List Fr} (hbits : IsBits input) :
    intoBigint (comparator input).sum =
      sumValue (2 ^ 128) (inputPair input) constantPair 127 := by
  have hpowers : ∀ i < 127, 2 ^ i < 2 ^ 128 :=
    fun i hi => Nat.pow_lt_pow_right Nat.one_lt_two (by omega)
  have hle : sumValue (2 ^ 128) (inputPair input) constantPair 127 ≤ 127 * 2 ^ 128 :=
    sumValue_le _ _ hpowers
  have hlt : 127 * 2 ^ 128 < modulus := by decide
  rw [(comparator_at hbits).sum]
  exact ZMod.val_cast_of_lt (Nat.lt_of_le_of_lt hle hlt)

/-- Bit `127` of the sum says whether the inputs spell the modulus or more. -/
theorem sum_testBit {input : List Fr} (hbits : IsBits input) :
    (intoBigint (comparator input).sum).testBit 127 = decide (modulus ≤ bitsValue input 254) := by
  have hsign := (lead_sign (inputPair_lt hbits) constantPair_lt 127).2
  have hvalue : digits 4 (inputPair input) 127 = bitsValue input 254 := inputPair_value input 127
  rw [constantPair_value, hvalue] at hsign
  have hmodulus : 0 < modulus := by decide
  rw [intoBigint_sum hbits, sumValue_testBit, decide_eq_decide, hsign]
  omega

/-- Slot `0` of a trace on bits. -/
theorem plainTrace_out {input : List Fr} (hlen : input.length = 254) (hbits : IsBits input) :
    ∃ trace, plainTrace input = .ok trace ∧
      trace.getD 0 0 = if modulus ≤ bitsValue input 254 then 1 else 0 := by
  have hborrow := sum_testBit hbits
  unfold plainTrace
  rw [ensure_of hlen, ok_bind]
  generalize comparator input = c at hborrow ⊢
  refine ⟨_, rfl, ?_⟩
  rw [List.append_assoc, List.append_assoc, List.append_assoc, List.append_assoc,
    List.singleton_append, List.getD_cons_zero, Num2Bits.bits_getD _ (by decide), hborrow]
  simp only [decide_eq_true_eq]

theorem isBits_bits (x : Fr) (n : Nat) : IsBits (Num2Bits.bits x n) := by
  intro bit hbit
  obtain ⟨i, _, rfl⟩ := List.mem_map.mp hbit
  cases (intoBigint x).testBit i
  · exact .inl rfl
  · exact .inr rfl

/-- A decomposition spells the element it decomposes. -/
theorem bitsValue_bits (x : Fr) : bitsValue (Num2Bits.bits x 254) 254 = intoBigint x := by
  have hdigits : bitsValue (Num2Bits.bits x 254) 254 =
      digits 2 (fun i => ((intoBigint x).testBit i).toNat) 254 := by
    apply digits_congr
    intro i hi
    rw [Num2Bits.bits_getD x hi]
    cases (intoBigint x).testBit i
    · exact intoBigint_zero
    · exact intoBigint_one
  rw [hdigits, digits_testBit]
  have hbits : modulus < 2 ^ 254 := by decide
  exact Nat.mod_eq_of_lt (Nat.lt_trans (intoBigint_lt x) hbits)

/-- **`AliasCheck` rejects exactly the aliased decompositions.** On 254 bits, slot `0` is `1` when
    they spell the modulus or more and `0` when they spell less; so it is `0` on the canonical
    decomposition of any element. -/
theorem aliasCheck_exact :
    (∀ input : List Fr, input.length = 254 → IsBits input →
      ∃ trace, plainTrace input = .ok trace ∧
        trace.getD 0 0 = if modulus ≤ bitsValue input 254 then 1 else 0) ∧
    ∀ x : Fr, ∃ trace, plainTrace (Num2Bits.bits x 254) = .ok trace ∧
      trace.getD 0 0 = 0 := by
  refine ⟨fun input hlen hbits => plainTrace_out hlen hbits, ?_⟩
  intro x
  obtain ⟨trace, htrace, hslot⟩ :=
    plainTrace_out (Num2Bits.bits_length x 254) (isBits_bits x 254)
  refine ⟨trace, htrace, ?_⟩
  rw [hslot, bitsValue_bits, if_neg (Nat.not_le.mpr (intoBigint_lt x))]

/-- 254 bits, whether or not they spell a canonical representative. -/
def spelled (n : Nat) : List Fr :=
  (List.range 254).map fun i => if n.testBit i then 1 else 0

theorem spelled_length (n : Nat) : (spelled n).length = 254 := by simp [spelled]

theorem isBits_spelled (n : Nat) : IsBits (spelled n) := by
  intro x hx
  obtain ⟨i, _, rfl⟩ := List.mem_map.mp hx
  split
  · exact .inr rfl
  · exact .inl rfl

/-- The two numbers the check has to keep apart: the modulus is refused, the one below it is not. -/
theorem aliasCheck_exact_modulus :
    (∃ trace, plainTrace (spelled modulus) = .ok trace ∧ trace.getD 0 0 = 1) ∧
      ∃ trace, plainTrace (spelled (modulus - 1)) = .ok trace ∧ trace.getD 0 0 = 0 := by
  have hvalue : bitsValue (spelled modulus) 254 = modulus := by decide +kernel
  have hbelow : bitsValue (spelled (modulus - 1)) 254 = modulus - 1 := by decide +kernel
  constructor
  · obtain ⟨trace, htrace, hslot⟩ :=
      aliasCheck_exact.1 (spelled modulus) (spelled_length _) (isBits_spelled _)
    rw [hvalue, if_pos (Nat.le_refl _)] at hslot
    exact ⟨trace, htrace, hslot⟩
  · obtain ⟨trace, htrace, hslot⟩ :=
      aliasCheck_exact.1 (spelled (modulus - 1)) (spelled_length _) (isBits_spelled _)
    rw [hbelow, if_neg (by decide)] at hslot
    exact ⟨trace, htrace, hslot⟩

end AliasCheck
end CircomMpc
