import Mathlib.Data.ZMod.Basic

/-!
# The scalar field

`Fr` is BN254's scalar field, the integers modulo `modulus`. Arithmetic is Mathlib's own on
`ZMod`; what the program adds to it is the *canonical representative* of an element
(`into_bigint`), which the bit decompositions read.
-/

namespace CircomMpc

/-- The BN254 scalar modulus. -/
def modulus : Nat :=
  21888242871839275222246405745257275088548364400416034343698204186575808495617

instance : NeZero modulus := ⟨by decide⟩

/-- `ark_bn254::Fr`. -/
abbrev Fr : Type := ZMod modulus

/-- `into_bigint`: the canonical representative, a natural number below the modulus. -/
def intoBigint (x : Fr) : Nat := x.val

theorem intoBigint_lt (x : Fr) : intoBigint x < modulus := ZMod.val_lt x

instance : Fact (1 < modulus) := ⟨by decide⟩

instance : Nontrivial Fr := ZMod.nontrivial modulus

/-- `x.inverse()` with zero sent to zero, the convention of `ark_ff::batch_inversion`. -/
def inverse (x : Fr) : Fr := x⁻¹

end CircomMpc
