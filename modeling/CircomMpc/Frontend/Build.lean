import CircomMpc.Frontend.Fold
import CircomMpc.Ir.Graph
import CircomMpc.Lib.Outcome

/-!
# Lowering one template

The per-template walk over a body's instructions. Reading a variable is a lookup of the node its
last store produced; every other instruction appends nodes. Addresses, loop bounds and branch
conditions are evaluated on the way, at compile time: `getConstantValue` in `usize`, and
`evalConstantNode` in the field, over nodes already built.

`usize` arithmetic is natural-number arithmetic with the checks of a debug build: a step that leaves
the type is a panic. A refused operand of a constant expression may have left nodes behind; every
caller of `evalConstantOperand` then gives up on the whole template, so they are dropped at once.
-/

namespace CircomMpc
namespace Frontend

open Lib

/-! ## Template nodes and the compiler's state -/

/-- `TemplateOp`. -/
inductive TemplateOp where
  | localSignal (signal : Nat)
  | localSignalWrite (signal : Nat)
  | subCmpInput (subCmp port : Nat)
  | subCmpOutput (subCmp port : Nat)
  | real (op : Op)
deriving DecidableEq, Repr

/-- `TemplateOp::arity`. The build pass wraps no gadget and no lowered operation. -/
def TemplateOp.arity : TemplateOp → Except Panic Nat
  | .localSignal _ | .subCmpOutput .. => pure 0
  | .localSignalWrite _ | .subCmpInput .. => pure 1
  | .real op =>
    orElse (.expect "TemplateOp::Real never wraps a gadget or MPC-lowering op") op.fixedArity

abbrev TemplateNode := Cell TemplateOp

/-- What lowering a body reads and writes. -/
structure GraphCompiler where
  nodes : List TemplateNode
  varToValue : Nat → Option ValueId
  constantTable : List Fr

/-- Why a construct is refused. -/
inductive Unsupported where
  | operator (op : OperatorType)
  | nonConstantOperator (op : OperatorType)
  | addressOperator (op : OperatorType)
  | instruction (kind : String)
  | mappedLocation
  | bulkCopyInstances
  | bulkCopyShape
  | loopShape (message : String)
deriving DecidableEq, Repr

/-- How lowering stops: a panic, or an error that names the construct and its line. -/
inductive BuildError where
  | panic (p : Panic)
  | unsupported (what : Unsupported) (line : Nat)
deriving DecidableEq, Repr

/-- A step of the lowering. -/
abbrev Lower (α : Type) : Type := GraphCompiler → Except BuildError (α × GraphCompiler)

/-- A panic inside a fallible step. -/
def panicking {α : Type} : Except Panic α → Except BuildError α
  | .ok a => .ok a
  | .error p => .error (.panic p)

@[simp] theorem panicking_eq_ok {α : Type} {x : Except Panic α} {a : α} :
    panicking x = .ok a ↔ x = .ok a := by
  cases x <;> simp [panicking]

namespace GraphCompiler

/-- `push`, with its debug assertion. -/
def push (op : TemplateOp) (inputs : List ValueId) : Lower ValueId := fun c => do
  let arity ← panicking op.arity
  ensure (inputs.length = arity) (.panic (.assertion "template node arity mismatch"))
  pure (c.nodes.length, { c with nodes := c.nodes ++ [⟨op, inputs⟩] })

/-- `push_constant_value`. -/
def pushConstantValue (constant : Fr) : Lower ValueId := push (.real (.constant constant)) []

/-- `push_constant`. -/
def pushConstant (i : Nat) : Lower ValueId := fun c => do
  pushConstantValue (← panicking (index c.constantTable i)) c

/-- `var_to_value.insert`. -/
def setVariable (c : GraphCompiler) (i : Nat) (value : ValueId) : GraphCompiler :=
  { c with varToValue := Function.update c.varToValue i (some value) }

@[simp] theorem setVariable_self {c : GraphCompiler} {i : Nat} {value : ValueId} :
    (c.setVariable i value).varToValue i = some value := Function.update_self ..

@[simp] theorem setVariable_of_ne {c : GraphCompiler} {i j : Nat} {value : ValueId} (h : j ≠ i) :
    (c.setVariable i value).varToValue j = c.varToValue j := Function.update_of_ne h ..

end GraphCompiler

/-! ## Constants at compile time -/

/-- `to_usize`. What `expect` shows behind its message is the conversion's own error, with the
    number it was given. -/
def toUsize (c : Fr) : Except Panic Nat := do
  ensure (toBigint c < 2 ^ 64) (.expect (s!"field element does not fit into usize: " ++
    s!"TryFromBigIntError \x7b original: {toBigint c} \x7d"))
  pure (toBigint c)

def usizeAdd (a b : Nat) : Except Panic Nat := do
  ensure (a + b < 2 ^ 64) (.assertion "attempt to add with overflow")
  pure (a + b)

def usizeSub (a b : Nat) : Except Panic Nat := do
  ensure (b ≤ a) (.assertion "attempt to subtract with overflow")
  pure (a - b)

def usizeMul (a b : Nat) : Except Panic Nat := do
  ensure (a * b < 2 ^ 64) (.assertion "attempt to multiply with overflow")
  pure (a * b)

def usizeRem (a b : Nat) : Except Panic Nat := do
  ensure (b ≠ 0) (.assertion "attempt to calculate the remainder with a divisor of zero")
  pure (a % b)

/-- A binary node's constant: the second operand is not looked at when the first is not constant. -/
def bothConstant (f : Fr → Fr → Fr) (lhs rhs : Except Panic (Option Fr)) :
    Except Panic (Option Fr) := do
  match ← lhs with
  | none => pure none
  | some l =>
    match ← rhs with
    | none => pure none
    | some r => pure (some (f l r))

/-- The constant of one node, from its operands' constants. -/
def nodeConstant (node : TemplateNode) (operand : Nat → Except Panic (Option Fr)) :
    Except Panic (Option Fr) :=
  match node.op with
  | .real (.constant c) => pure (some c)
  | .real .add => bothConstant (· + ·) (operand 0) (operand 1)
  | .real .sub => bothConstant (· - ·) (operand 0) (operand 1)
  | .real .mul => bothConstant (· * ·) (operand 0) (operand 1)
  | _ => pure none

/-- `eval_constant_node`. A node that reads itself, directly or not, would recurse forever; `fuel`
bounds the depth, and a list of nodes that read only earlier ones needs no more than its length. -/
def evalConstantNode (nodes : List TemplateNode) : (fuel : Nat) → ValueId →
    Except Panic (Option Fr)
  | 0, _ => .error (.expect "stack overflow")
  | fuel + 1, id => do
    let node ← index nodes id
    nodeConstant node fun i => do evalConstantNode nodes fuel (← index node.inputs i)

/-- The constant a node of the template holds. -/
def GraphCompiler.constantAt (c : GraphCompiler) (id : ValueId) : Except Panic (Option Fr) :=
  evalConstantNode c.nodes c.nodes.length id

/-- The binary operators of an address, in `usize`. -/
def addressOperator : OperatorType → Option (Nat → Nat → Except Panic Nat)
  | .mulAddress => some usizeMul
  | .sub => some usizeSub
  | .addAddress | .add => some usizeAdd
  | .mod => some usizeRem
  | _ => none

/-- How an address operator on the wrong number of operands, or another operator, stops. -/
def addressPanic : OperatorType → Panic
  | .mulAddress => .assertion "mul is a bin op"
  | .toAddress => .assertion "to address is a unary op"
  | .sub => .assertion "sub is a bin op"
  | .addAddress | .add => .assertion "add is a bin op"
  | .mod => .assertion "mod is a bin op"
  | _ => .expect "compute for constant must be add/mul address"

/-- `get_constant_value`. -/
def getConstantValue (c : GraphCompiler) : Instruction → Except Panic Nat
  | .value .u32 v => pure v
  | .value .bigInt v => do toUsize (← index c.constantTable v)
  | .load _ addressType (.indexed location) => do
    let i ← getConstantValue c location
    match addressType with
    | .variable => do
      let id ← orElse (.expect "must be there") (c.varToValue i)
      match ← c.constantAt id with
      | some x => toUsize x
      | none => .error (.expect "non constant loading in get constant value")
    | _ => .error (.expect "non variable loading in get constant value")
  | .load _ _ .mapped => .error (.expect "get_constant_load not indexed")
  | .compute _ op [a, b] =>
    match addressOperator op with
    | some f => do f (← getConstantValue c a) (← getConstantValue c b)
    | none => .error (addressPanic op)
  | .compute _ op [a] =>
    match op with
    | .toAddress => getConstantValue c a
    | op => .error (addressPanic op)
  | .compute _ op _ => .error (addressPanic op)
  | _ => .error (.expect "cannot get constant of a statement")

end Frontend
end CircomMpc
