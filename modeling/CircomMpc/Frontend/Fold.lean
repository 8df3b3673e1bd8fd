import Mathlib.Data.Nat.Size
import CircomMpc.Field
import CircomMpc.Frontend.Bucket
import CircomMpc.Lib.Pratt

/-!
# Compile-time folding

The front end's constant arithmetic: the binary operators that have no run-time node, the
comparisons of a branch condition, and circom's order on field elements. Big integers are natural
numbers here; `bits` and the 64-bit digits of a `BigUint` are the functions the shifts consult.

The definitions are the source's, slips included: a left shift is a product in the field with no cut
to 254 bits, and a right shift by an amount of more than 64 bits is zero. What they should be is in
`Frontend.Operators`.
-/

namespace CircomMpc
namespace Frontend

open Lib

/-- `to_bigint`: the canonical representative. -/
def toBigint (f : Fr) : Nat := intoBigint f

/-- `Fr::from(BigUint)`: reduced modulo the modulus. -/
def frFrom (n : Nat) : Fr := n

/-- `BigUint::modpow`. -/
def modpow (base exponent m : Nat) : Nat := powMod m exponent.size base exponent % m

/-- `BigUint::bits`: how many bits the number needs, zero for zero. -/
def bits (n : Nat) : Nat := n.size

/-- `usize::BITS`. -/
def usizeBits : Nat := 64

/-- `n.to_u64_digits().first().copied().unwrap_or(0)`. -/
def firstDigit (n : Nat) : Nat := n % 2 ^ 64

/-- `fold_binary`. `none` for an operator with no constant arithmetic, and for a division by zero. -/
def foldBinary (op : OperatorType) (lhs rhs : Fr) : Option Fr :=
  match op with
  | .add => some (lhs + rhs)
  | .sub => some (lhs - rhs)
  | .mul => some (lhs * rhs)
  | .div => if rhs ≠ 0 then some (lhs * inverse rhs) else none
  | .intDiv =>
    let lhs := toBigint lhs
    let rhs := toBigint rhs
    if rhs ≠ 0 then some (frFrom (lhs / rhs)) else none
  | .pow => some (lhs ^ toBigint rhs)
  | .shiftL =>
    let val := toBigint lhs
    let shift := toBigint rhs
    let factor := modpow 2 shift modulus
    some (frFrom (val * factor % modulus))
  | .shiftR =>
    let val := toBigint lhs
    let shift := toBigint rhs
    if bits shift > usizeBits then some 0
    else
      let shift := firstDigit shift
      if shift ≥ bits val then some 0 else some (frFrom (val >>> shift))
  | .bitOr => some (frFrom (toBigint lhs ||| toBigint rhs))
  | .bitAnd => some (frFrom (toBigint lhs &&& toBigint rhs))
  | .bitXor => some (frFrom (toBigint lhs ^^^ toBigint rhs))
  | _ => none

/-- `circom_cmp`: the representatives above half the modulus come first. -/
def circomCmp (lhs rhs : Fr) : Ordering :=
  let lhs := toBigint lhs
  let rhs := toBigint rhs
  let negativeThreshold := modulus / 2 + 1
  match decide (lhs ≥ negativeThreshold), decide (rhs ≥ negativeThreshold) with
  | true, false => .lt
  | false, true => .gt
  | _, _ => compare lhs rhs

/-- `fold_condition`. -/
def foldCondition (op : OperatorType) (lhs rhs : Fr) : Option Bool :=
  match op with
  -- A wider `Eq` compares arrays element by element, which is refused rather than cut short.
  | .eq (.single 1) => some (lhs == rhs)
  | .notEq => some (lhs != rhs)
  | .lesser => some (circomCmp lhs rhs).isLT
  | .greater => some (circomCmp lhs rhs).isGT
  | .lesserEq => some (circomCmp lhs rhs).isLE
  | .greaterEq => some (circomCmp lhs rhs).isGE
  | .boolAnd => some (lhs != 0 && rhs != 0)
  | .boolOr => some (lhs != 0 || rhs != 0)
  | _ => none

/-- `fold_unary_condition`. -/
def foldUnaryCondition (op : OperatorType) (operand : Fr) : Option Bool :=
  match op with
  | .boolNot => some (operand == 0)
  | _ => none

end Frontend
end CircomMpc
