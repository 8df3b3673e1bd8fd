import CircomMpc.Frontend.Build
import CircomMpc.Frontend.Operators

/-!
# Addresses

An index expression has a value in circom: `+`, `-` and `%` are the field's, on canonical
representatives, and the `*Address` operators are those of the naturals. `getConstantValue` computes
the same expression in `usize`. An operator agrees with circom's wherever both operands and the
result fit (`addressOperator_exact`), so an expression does exactly when every one of its
subexpressions has a value that fits.

`circomAddress` is the semantics, stated over numbers without a bound; `IntermediatesFit` is the bound,
stated over the semantics. The two together are `Resolved`, and that an address is computed exactly
when it is resolved is the one induction of this file (`getConstantValue_eq_ok`). A difference that
wraps round the field is where the two part: it is a number near the modulus in circom, and a panic or
a number near `2^64` in the code.
-/

namespace CircomMpc
namespace Frontend

open Lib

/-! ## circom's value of an address -/

/-- The operators of an address as circom means them. A remainder by zero has no value. -/
def circomAddressOperator : OperatorType → Option (Nat → Nat → Option Nat)
  | .mulAddress => some fun a b => some (a * b)
  | .addAddress => some fun a b => some (a + b)
  | .add => some fun a b => some (toBigint (frFrom a + frFrom b))
  | .sub => some fun a b => some (toBigint (frFrom a - frFrom b))
  | .mod => some fun a b =>
    if frFrom b = 0 then none else some (toBigint (frFrom a) % toBigint (frFrom b))
  | _ => none

/-- The constant a variable is bound to. -/
def GraphCompiler.constantVariable (c : GraphCompiler) (i : Nat) : Option Fr := do
  let id ← c.varToValue i
  (c.constantAt id).toOption.join

/-- circom's value of an index expression. -/
def circomAddress (c : GraphCompiler) : Instruction → Option Nat
  | .value .u32 v => some v
  | .value .bigInt v => c.constantTable[v.val]?.map toBigint
  | .load _ .variable (.indexed location) => do
    let i ← circomAddress c location
    (c.constantVariable i).map toBigint
  | .compute _ op [a, b] => do
    let f ← circomAddressOperator op
    f (← circomAddress c a) (← circomAddress c b)
  | .compute _ .toAddress [a] => circomAddress c a
  | _ => none

/-- Every proper subexpression's value fits `usize`. -/
def IntermediatesFit (c : GraphCompiler) : Instruction → Prop
  | .load _ _ (.indexed location) =>
    (∀ v ∈ circomAddress c location, v < 2 ^ 64) ∧ IntermediatesFit c location
  | .compute _ _ [a, b] =>
    ((∀ v ∈ circomAddress c a, v < 2 ^ 64) ∧ IntermediatesFit c a) ∧
      (∀ v ∈ circomAddress c b, v < 2 ^ 64) ∧ IntermediatesFit c b
  | .compute _ _ [a] => (∀ v ∈ circomAddress c a, v < 2 ^ 64) ∧ IntermediatesFit c a
  | _ => True

/-! ## One operator -/

theorem toUsize_eq_ok {x : Fr} {v : Nat} : toUsize x = .ok v ↔ toBigint x = v ∧ v < 2 ^ 64 := by
  rw [toUsize, seq_eq_ok, ensure_eq_ok, pure_eq_ok]
  constructor
  · rintro ⟨hlt, rfl⟩
    exact ⟨rfl, hlt⟩
  · rintro ⟨rfl, hlt⟩
    exact ⟨hlt, rfl⟩

theorem toBigint_add {a b : Nat} (ha : a < 2 ^ 64) (hb : b < 2 ^ 64) :
    toBigint (frFrom a + frFrom b) = a + b := by
  rw [← frFrom_add]
  exact toBigint_frFrom (lt_trans (by omega : a + b < 2 ^ 253) modulus_bounds.1)

theorem toBigint_sub_of_le {a b : Nat} (ha : a < 2 ^ 64) (hba : b ≤ a) :
    toBigint (frFrom a - frFrom b) = a - b := by
  have hsub : frFrom a - frFrom b = frFrom (a - b) := (Nat.cast_sub hba).symm
  rw [hsub]
  exact toBigint_frFrom (lt_trans (by omega : a - b < 2 ^ 253) modulus_bounds.1)

/-- A difference below zero wraps round the field, far out of `usize`. -/
theorem toBigint_sub_of_lt {a b : Nat} (hb : b < 2 ^ 64) (hab : a < b) :
    2 ^ 64 ≤ toBigint (frFrom a - frFrom b) := by
  have hmod := modulus_bounds.1
  have hle : b - a ≤ modulus := by omega
  have hsub : frFrom a - frFrom b = frFrom (modulus - (b - a)) := by
    have hzero : frFrom modulus = 0 := ZMod.natCast_self modulus
    have hcast : frFrom (modulus - (b - a)) = frFrom modulus - (frFrom b - frFrom a) := by
      rw [frFrom, Nat.cast_sub hle, Nat.cast_sub hab.le]
      rfl
    rw [hcast, hzero, zero_sub, neg_sub]
  rw [hsub, toBigint_frFrom (by omega)]
  omega

/-- **An operator of an address, on operands that fit, returns circom's value exactly when that fits
too.** -/
theorem addressOperator_exact {op : OperatorType} {f : Nat → Nat → Except Panic Nat}
    {g : Nat → Nat → Option Nat} (hf : addressOperator op = some f)
    (hg : circomAddressOperator op = some g) {a b v : Nat} (ha : a < 2 ^ 64) (hb : b < 2 ^ 64) :
    f a b = .ok v ↔ g a b = some v ∧ v < 2 ^ 64 := by
  have hbig : (2 : Nat) ^ 64 < modulus := by decide
  have hsmall : ∀ n < 2 ^ 64, toBigint (frFrom n) = n := fun n hn =>
    toBigint_frFrom (lt_trans hn hbig)
  -- Only the five operators of the table are left; a sum or a product is the same number on both
  -- sides, and the field's is below the modulus where the operands fit.
  cases op with
  | mulAddress =>
    obtain rfl : usizeMul = f := Option.some.inj hf
    obtain rfl := Option.some.inj hg
    simp only [usizeMul, seq_eq_ok, ensure_eq_ok, pure_eq_ok, Option.some.injEq]
    exact ⟨fun ⟨hlt, h⟩ => ⟨h, h ▸ hlt⟩, fun ⟨h, hlt⟩ => ⟨h ▸ hlt, h⟩⟩
  | addAddress =>
    obtain rfl : usizeAdd = f := Option.some.inj hf
    obtain rfl := Option.some.inj hg
    simp only [usizeAdd, seq_eq_ok, ensure_eq_ok, pure_eq_ok, Option.some.injEq]
    omega
  | add =>
    obtain rfl : usizeAdd = f := Option.some.inj hf
    obtain rfl := Option.some.inj hg
    simp only [usizeAdd, seq_eq_ok, ensure_eq_ok, pure_eq_ok, Option.some.injEq,
      toBigint_add ha hb]
    omega
  | sub =>
    obtain rfl : usizeSub = f := Option.some.inj hf
    obtain rfl := Option.some.inj hg
    simp only [usizeSub, seq_eq_ok, ensure_eq_ok, pure_eq_ok, Option.some.injEq]
    -- Below zero the code refuses, and circom's value does not fit.
    rcases Nat.lt_or_ge a b with hab | hba
    · have hwrap := toBigint_sub_of_lt hb hab
      omega
    · rw [toBigint_sub_of_le ha hba]
      omega
  | mod =>
    obtain rfl : usizeRem = f := Option.some.inj hf
    obtain rfl := Option.some.inj hg
    have hzero : frFrom b = 0 ↔ b = 0 := by rw [← toBigint_eq_zero, hsmall b hb]
    simp only [usizeRem, seq_eq_ok, ensure_eq_ok, pure_eq_ok, hsmall a ha, hsmall b hb, hzero]
    have hle : a % b ≤ a := Nat.mod_le a b
    split
    next h => simp [h]
    next h =>
      simp only [Option.some.injEq]
      omega
  | _ => cases hf

/-- The two tables list the same operators. -/
theorem addressOperator_iff (op : OperatorType) :
    (addressOperator op).isSome = (circomAddressOperator op).isSome := by
  cases op <;> rfl

/-! ## Whole expressions -/

/-- What a resolved address says: it is circom's, it fits, and so did every step on the way. -/
def Resolved (c : GraphCompiler) (e : Instruction) (v : Nat) : Prop :=
  circomAddress c e = some v ∧ v < 2 ^ 64 ∧ IntermediatesFit c e

theorem constantVariable_eq_some {c : GraphCompiler} {i : Nat} {x : Fr} :
    c.constantVariable i = some x ↔
      ∃ id, c.varToValue i = some id ∧ c.constantAt id = .ok (some x) := by
  rw [GraphCompiler.constantVariable]
  cases c.varToValue i with
  | none => simp
  | some id => cases h : c.constantAt id with
    | error => simp [Except.toOption, h]
    | ok o => cases o <;> simp [Except.toOption, h]

theorem Resolved.fits {c : GraphCompiler} {e : Instruction} {v : Nat} (h : Resolved c e v) :
    (∀ w ∈ circomAddress c e, w < 2 ^ 64) ∧ IntermediatesFit c e := by
  refine ⟨fun w hw => ?_, h.2.2⟩
  rw [Option.mem_def, h.1, Option.some.injEq] at hw
  exact hw ▸ h.2.1

theorem resolved_load {c : GraphCompiler} {line : Nat} {location : Instruction}
    (ih : ∀ i, getConstantValue c location = .ok i ↔ Resolved c location i) (v : Nat) :
    getConstantValue c (.load line .variable (.indexed location)) = .ok v ↔
      Resolved c (.load line .variable (.indexed location)) v := by
  simp only [getConstantValue, bind_eq_ok, orElse_eq_ok, ih]
  simp only [Resolved, circomAddress, IntermediatesFit, Option.bind_eq_bind,
    Option.bind_eq_some_iff, Option.map_eq_some_iff]
  constructor
  · -- The variable's constant is read as a number, which is the only check of its own a load makes.
    rintro ⟨i, hi, id, hid, o, ho, hv⟩
    cases o with
    | none => cases hv
    | some x =>
      obtain ⟨hx, hlt⟩ := toUsize_eq_ok.mp hv
      exact ⟨⟨i, hi.1, x, constantVariable_eq_some.mpr ⟨id, hid, ho⟩, hx⟩, hlt, Resolved.fits hi⟩
  · rintro ⟨⟨i, hi, x, hx, hv⟩, hlt, hfits⟩
    obtain ⟨id, hid, ho⟩ := constantVariable_eq_some.mp hx
    exact ⟨i, ⟨hi, hfits.1 i hi, hfits.2⟩, id, hid, some x, ho, toUsize_eq_ok.mpr ⟨hv, hlt⟩⟩

theorem resolved_binary {c : GraphCompiler} {line : Nat} {op : OperatorType} {a b : Instruction}
    (iha : ∀ x, getConstantValue c a = .ok x ↔ Resolved c a x)
    (ihb : ∀ y, getConstantValue c b = .ok y ↔ Resolved c b y) (v : Nat) :
    getConstantValue c (.compute line op [a, b]) = .ok v ↔
      Resolved c (.compute line op [a, b]) v := by
  have htable := addressOperator_iff op
  simp only [getConstantValue, Resolved, circomAddress, IntermediatesFit]
  cases hf : addressOperator op with
  -- An operator neither table knows.
  | none =>
    rw [hf, Option.isSome_none, eq_comm, Option.isSome_eq_false_iff, Option.isNone_iff_eq_none]
      at htable
    simp [htable]
  | some f =>
    rw [hf, Option.isSome_some, eq_comm, Option.isSome_iff_exists] at htable
    obtain ⟨g, hg⟩ := htable
    simp only [hg, bind_eq_ok, Option.bind_eq_bind, Option.bind_some, Option.bind_eq_some_iff, iha,
      ihb]
    constructor
    · -- Both operands fit because they were resolved, so the operator is exact on them.
      rintro ⟨x, hx, y, hy, hv⟩
      obtain ⟨hgv, hlt⟩ := (addressOperator_exact hf hg hx.2.1 hy.2.1).mp hv
      exact ⟨⟨x, hx.1, y, hy.1, hgv⟩, hlt, hx.fits, hy.fits⟩
    · rintro ⟨⟨x, hx, y, hy, hgv⟩, hlt, hfa, hfb⟩
      exact ⟨x, ⟨hx, hfa.1 x hx, hfa.2⟩, y, ⟨hy, hfb.1 y hy, hfb.2⟩,
        (addressOperator_exact hf hg (hfa.1 x hx) (hfb.1 y hy)).mpr ⟨hgv, hlt⟩⟩

/-- **`get_constant_value` returns a number exactly when it is circom's and every step fits.** -/
theorem getConstantValue_eq_ok (c : GraphCompiler) :
    ∀ (e : Instruction) (v : Nat), getConstantValue c e = .ok v ↔ Resolved c e v
  | .value .u32 n, v => by
    simp only [getConstantValue, Resolved, circomAddress, IntermediatesFit, pure_eq_ok,
      Option.some.injEq, and_true]
    exact ⟨fun h => ⟨h, h ▸ n.isLt⟩, And.left⟩
  | .value .bigInt n, v => by
    simp only [getConstantValue, Resolved, circomAddress, IntermediatesFit, bind_eq_ok, index,
      orElse_eq_ok, Option.map_eq_some_iff, toUsize_eq_ok, and_true, ← and_assoc, exists_and_right]
  | .load _ .variable (.indexed location), v =>
    resolved_load (getConstantValue_eq_ok c location) v
  | .load _ .signal (.indexed location), v => by
    simp [getConstantValue, Resolved, circomAddress, bind_eq_ok]
  | .load _ (.subcmpSignal _ _) (.indexed location), v => by
    simp [getConstantValue, Resolved, circomAddress, bind_eq_ok]
  | .load _ _ .mapped, v => by simp [getConstantValue, Resolved, circomAddress]
  | .compute _ op [a, b], v =>
    resolved_binary (getConstantValue_eq_ok c a) (getConstantValue_eq_ok c b) v
  | .compute _ op [a], v => by
    by_cases hop : op = .toAddress
    · subst hop
      simp only [getConstantValue, Resolved, circomAddress, IntermediatesFit]
      rw [getConstantValue_eq_ok c a v]
      exact ⟨fun h => ⟨h.1, h.2.1, h.fits⟩, fun h => ⟨h.1, h.2.1, h.2.2.2⟩⟩
    · cases op with
      | toAddress => exact absurd rfl hop
      | _ => simp [getConstantValue, Resolved, circomAddress]
  | .compute _ op [], v => by simp [getConstantValue, Resolved, circomAddress]
  | .compute _ op (_ :: _ :: _ :: _), v => by simp [getConstantValue, Resolved, circomAddress]
  | .store .., v | .branch .., v | .loop .., v | .ret _, v | .assert, v | .log _, v => by
    simp [getConstantValue, Resolved, circomAddress]

/-- **Where circom's value fits, `get_constant_value` returns it exactly when every intermediate
value fits.** -/
theorem getConstantValue_exact {c : GraphCompiler} {e : Instruction} {v : Nat}
    (hv : circomAddress c e = some v) (hfit : v < 2 ^ 64) :
    getConstantValue c e = .ok v ↔ IntermediatesFit c e := by
  rw [getConstantValue_eq_ok]
  exact ⟨fun h => h.2.2, fun h => ⟨hv, hfit, h⟩⟩

end Frontend
end CircomMpc
