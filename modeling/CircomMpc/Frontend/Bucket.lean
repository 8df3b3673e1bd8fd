import Mathlib.Algebra.Order.Ring.Nat
import Mathlib.Data.Fin.Basic

/-!
# circom's bucket language

What the front end reads: the instruction trees circom's own compiler emits for a template body.
They are a third party's types, listed here with the data the lowering reads. An instruction is an
expression (`value`, `load`, `compute`) or a statement, and circom's typing keeps statements out of
operand positions; the lowering checks that at run time.

Two kinds of instruction have no constructor. `CreateCmp` instantiates another template, whose body
is lowered by its own run; `Call` is refused before any of it is read.
-/

namespace CircomMpc
namespace Frontend

/-- `usize` of a 64-bit target. -/
abbrev Usize : Type := Fin (2 ^ 64)

/-- How a `ValueBucket` is read: an index into the constant table, or the number itself. -/
inductive ValueType where
  | bigInt
  | u32
deriving DecidableEq, Repr

/-- How many elements a store or a comparison spans. -/
inductive SizeOption where
  | single (n : Nat)
  | multiple (sizes : List (Nat × Nat))
deriving DecidableEq, Repr

/-- `OperatorType`. -/
inductive OperatorType where
  | mul
  | div
  | add
  | sub
  | pow
  | intDiv
  | mod
  | shiftL
  | shiftR
  | lesserEq
  | greaterEq
  | lesser
  | greater
  | eq (size : SizeOption)
  | notEq
  | boolOr
  | boolAnd
  | bitOr
  | bitAnd
  | bitXor
  | prefixSub
  | boolNot
  | complement
  | toAddress
  | mulAddress
  | addAddress
deriving DecidableEq, Repr

/-- What a load or a store addresses; `ι` is the type of instructions. -/
inductive AddressType (ι : Type) where
  | variable
  | signal
  | subcmpSignal (cmpAddress : ι) (isOutput : Bool)

/-- Where in it. -/
inductive LocationRule (ι : Type) where
  | indexed (location : ι)
  | mapped

/-- `Instruction`, every bucket with its source line. -/
inductive Instruction where
  | value (parseAs : ValueType) (value : Usize)
  | load (line : Nat) (addressType : AddressType Instruction) (src : LocationRule Instruction)
  | compute (line : Nat) (op : OperatorType) (stack : List Instruction)
  | store (line : Nat) (size : SizeOption) (destAddressType : AddressType Instruction)
      (dest : LocationRule Instruction) (src : Instruction)
  | branch (line : Nat) (cond : Instruction) (ifBranch elseBranch : List Instruction)
  | loop (line : Nat) (continueCondition : Instruction) (body : List Instruction)
  | ret (line : Nat)
  | assert
  | log (line : Nat)

end Frontend
end CircomMpc
