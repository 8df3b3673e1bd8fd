import CircomMpc.Frontend.Build

/-!
# Instructions to nodes

`handleInst` and what it calls: loads and stores by address, the operators, branches on a constant
condition, and loops, which are unrolled. A loop is not interpreted. Its last instruction is read
as the step of a counter, the two sides of its condition are evaluated once, and the body without
that instruction is lowered for each value of the resulting progression.

The four functions of the source that call each other (`handle_inst`, the loop over an operand stack,
the loop over a branch's arm, and a loop's body) are one mutual recursion on the instruction. The
helpers they pass their results to take a lowered operand, not an instruction, so that the recursion
stays structural.
-/

namespace CircomMpc
namespace Frontend

open Lib

/-! ## Reading and writing -/

/-- `read_value_at`. -/
def readValueAt (addressType : AddressType Instruction) (i : Nat) : Lower ValueId := fun c =>
  match addressType with
  | .variable => do
    let value ← panicking (orElse (.expect "variable read before it was stored") (c.varToValue i))
    pure (value, c)
  | .signal => GraphCompiler.push (.localSignal i) [] c
  | .subcmpSignal cmpAddress isOutput => do
    ensure (isOutput = true)
      (.panic (.assertion "a subcomponent read must target one of its outputs"))
    let cmpIndex ← panicking (getConstantValue c cmpAddress)
    GraphCompiler.push (.subCmpOutput cmpIndex i) [] c

/-- `write_value_at`. -/
def writeValueAt (addressType : AddressType Instruction) (i : Nat) (value : ValueId)
    (c : GraphCompiler) : Except BuildError GraphCompiler :=
  match addressType with
  | .variable => pure (c.setVariable i value)
  | .signal => do
    let (_, c) ← GraphCompiler.push (.localSignalWrite i) [value] c
    pure c
  | .subcmpSignal cmpAddress isOutput => do
    ensure (isOutput = false)
      (.panic (.assertion "a subcomponent write must target one of its inputs"))
    let cmpIndex ← panicking (getConstantValue c cmpAddress)
    let (_, c) ← GraphCompiler.push (.subCmpInput cmpIndex i) [value] c
    pure c

/-- The loop of `handle_bulk_store_bucket`, `n` elements from the `i`-th on. -/
def copyElements (srcAddressType destAddressType : AddressType Instruction)
    (srcBase destBase : Nat) : (n i : Nat) → GraphCompiler → Except BuildError GraphCompiler
  | 0, _, c => pure c
  | n + 1, i, c => do
    let (value, c) ← readValueAt srcAddressType (srcBase + i) c
    let c ← writeValueAt destAddressType (destBase + i) value c
    copyElements srcAddressType destAddressType srcBase destBase n (i + 1) c

/-- `handle_bulk_store_bucket`. -/
def handleBulkStoreBucket (line size : Nat) (destAddressType : AddressType Instruction)
    (dest : LocationRule Instruction) (src : Instruction) (c : GraphCompiler) :
    Except BuildError GraphCompiler :=
  match src with
  | .load _ srcAddressType (.indexed srcLocation) => do
    let srcBase ← panicking (getConstantValue c srcLocation)
    match dest with
    | .indexed destLocation => do
      let destBase ← panicking (getConstantValue c destLocation)
      copyElements srcAddressType destAddressType srcBase destBase size 0 c
    | .mapped => .error (.unsupported .mappedLocation line)
  | _ => .error (.unsupported .bulkCopyShape line)

/-- The scalar half of `handle_store_bucket`, after the source's value. -/
def storeValue (line : Nat) (destAddressType : AddressType Instruction)
    (dest : LocationRule Instruction) (value : ValueId) (c : GraphCompiler) :
    Except BuildError GraphCompiler :=
  match dest with
  | .indexed location => do
    let i ← panicking (getConstantValue c location)
    writeValueAt destAddressType i value c
  | .mapped => .error (.unsupported .mappedLocation line)

/-! ## Operands

The steps below take the lowering of an operand, not the operand: `handleInst` recurses on operands
by itself. -/

/-- `expect_value`: a statement in operand position is a panic. -/
def expectValue (operand : Lower (Option ValueId)) : Lower ValueId := fun c => do
  let (value, c) ← operand c
  let value ← panicking (orElse (.expect "instruction was expected to produce a value") value)
  pure (value, c)

/-- `eval_constant_operand`. -/
def evalConstantOperand (operand : Lower (Option ValueId)) : Lower (Option Fr) := fun c =>
  match expectValue operand c with
  | .error (.panic p) => .error (.panic p)
  | .error (.unsupported _ _) => pure (none, c)
  | .ok (id, c) => do
    let constant ← panicking (c.constantAt id)
    pure (constant, c)

/-- The operators with a node of their own. -/
def runtimeOp : OperatorType → Option Op
  | .add => some .add
  | .sub => some .sub
  | .mul => some .mul
  | _ => none

/-- The operators only an address may use. -/
def isAddressOperator : OperatorType → Bool
  | .toAddress | .mulAddress | .addAddress => true
  | _ => false

/-- The operators that survive only on constants. -/
def isRemoved : OperatorType → Bool
  | .div | .intDiv | .pow | .shiftL | .shiftR | .bitOr | .bitAnd | .bitXor => true
  | _ => false

/-- An instruction that produced a node. -/
def produced (x : Except BuildError (ValueId × GraphCompiler)) :
    Except BuildError (Option ValueId × GraphCompiler) := do
  let (id, c) ← x
  pure (some id, c)

/-- The node of a run-time operator, on its lowered operands. -/
def pushRuntime (runtime : Op) (x : Except BuildError (List ValueId × GraphCompiler)) :
    Except BuildError (ValueId × GraphCompiler) := do
  let (operands, c) ← x
  GraphCompiler.push (.real runtime) operands c

/-- A removed operator: both operands folded, and the result with them. -/
def foldRemoved (line : Nat) (op : OperatorType) (lhs rhs : Lower (Option ValueId)) :
    Lower ValueId := fun c => do
  let (l, c) ← evalConstantOperand lhs c
  let (r, c) ← evalConstantOperand rhs c
  match l, r with
  | some l, some r =>
    match foldBinary op l r with
    | some folded => GraphCompiler.pushConstantValue folded c
    | none => .error (.unsupported (.nonConstantOperator op) line)
  | _, _ => .error (.unsupported (.nonConstantOperator op) line)

/-- The two-operand arm of `fold_branch_condition`: a comparison, or arithmetic read as a truth
value. -/
def foldBinaryCondition (op : OperatorType) (lhs rhs : Lower (Option ValueId)) :
    Lower (Option Bool) := fun c => do
  let (l, c) ← evalConstantOperand lhs c
  match l with
  | none => pure (none, c)
  | some l => do
    let (r, c) ← evalConstantOperand rhs c
    match r with
    | none => pure (none, c)
    | some r =>
      match foldCondition op l r with
      | some folded => pure (some folded, c)
      | none => pure ((foldBinary op l r).map (· != 0), c)

/-- The one-operand arm. -/
def foldNegatedCondition (op : OperatorType) (operand : Lower (Option ValueId)) :
    Lower (Option Bool) := fun c => do
  let (x, c) ← evalConstantOperand operand c
  pure (x.bind (foldUnaryCondition op), c)

/-- The last arm: a plain value, true when it is not zero. -/
def foldTruth (operand : Lower (Option ValueId)) : Lower (Option Bool) := fun c => do
  let (x, c) ← evalConstantOperand operand c
  pure (x.map (· != 0), c)

/-! ## Loops -/

/-- `Step`. -/
inductive Step where
  | up (n : Nat)
  | down (n : Nat)
deriving DecidableEq, Repr

/-- `eyre::bail!`. -/
def bail {α : Type} (line : Nat) (message : String) : Except BuildError α :=
  .error (.unsupported (.loopShape message) line)

/-- `eyre::ensure!`. -/
def ensureLoop (line : Nat) (c : Prop) [Decidable c] (message : String) : Except BuildError Unit :=
  ensure c (.unsupported (.loopShape message) line)

/-- Whether an instruction is a `Value`. -/
def Instruction.isValue : Instruction → Bool
  | .value .. => true
  | _ => false

/-- The step a binary update of the counter makes. -/
def computeStep (c : GraphCompiler) (line : Nat) (op : OperatorType) (lhs rhs : Instruction) :
    Except BuildError Step := do
  let stepSize ←
    if lhs.isValue then panicking (getConstantValue c lhs)
    else if rhs.isValue then panicking (getConstantValue c rhs)
    else bail line "loop induction step must contain a constant"
  let step ← match op with
    | .add => pure (.up stepSize)
    | .sub => pure (.down stepSize)
    | _ => bail line "unsupported loop induction operator"
  ensureLoop line (stepSize ≠ 0) "loop induction step must be nonzero"
  pure step

/-- `get_step_size`: the variable the last instruction stores, and the step it makes. -/
def getStepSize (c : GraphCompiler) (line : Nat) : Instruction → Except BuildError (Nat × Step)
  | .store _ _ destAddressType (.indexed location) src => do
    match destAddressType with
    | .variable => pure ()
    | _ => bail line "loop induction step must store a variable"
    let i ← panicking (getConstantValue c location)
    match src with
    | .compute _ op [lhs, rhs] => do
      let step ← computeStep c line op lhs rhs
      pure (i, step)
    | .compute .. => bail line "loop induction step must be binary"
    | .value parseAs v => do
      let step ← panicking (getConstantValue c (.value parseAs v))
      ensureLoop line (step ≠ 0) "loop induction step must be nonzero"
      pure (i, .up step)
    | _ => bail line "unsupported loop induction expression"
  | .store _ _ _ .mapped _ => bail line "loop induction step must use an indexed variable store"
  | _ => bail line "loop induction step must be a top-level store"

/-- The counter's next value, if it stays in `usize`. -/
def Step.next (value : Nat) : Step → Option Nat
  | .up n => if value + n < 2 ^ 64 then some (value + n) else none
  | .down n => if n ≤ value then some (value - n) else none

/-- The loop condition on a counter's value. -/
def inductionCondition (op : OperatorType) (value rhs : Nat) : Bool :=
  match op with
  | .lesser => value < rhs
  | .lesserEq => value ≤ rhs
  | .greater => value > rhs
  | .greaterEq => value ≥ rhs
  | _ => false

/-- The condition and the step move towards each other. -/
def loopShape : OperatorType → Step → Bool
  | .lesser, .up _ | .lesserEq, .up _ | .greater, .down _ | .greaterEq, .down _ => true
  | _, _ => false

/-- The `while` of `induction_values`. Every step moves the counter, so as many rounds as there are
values of the type are enough. -/
def inductionLoop (op : OperatorType) (rhs : Nat) (step : Step) : (fuel value : Nat) → List Nat
  | 0, _ => []
  | fuel + 1, value =>
    if inductionCondition op value rhs then
      value :: match step.next value with
        | some next => inductionLoop op rhs step fuel next
        | none => []
    else []

/-- `induction_values`. -/
def inductionValues (line : Nat) (op : OperatorType) (lhs rhs : Nat) (step : Step) :
    Except BuildError (List Nat) := do
  ensureLoop line (loopShape op step = true) "unsupported loop shape"
  pure (inductionLoop op rhs step (lhs + rhs + 2) lhs)

/-- `add_induction_variable_node`. -/
def addInductionVariableNode (varIndex value : Nat) (c : GraphCompiler) :
    Except BuildError GraphCompiler := do
  let (id, c) ← GraphCompiler.pushConstantValue (frFrom value) c
  pure (c.setVariable varIndex id)

/-- `stores_variable`. -/
def storesVariable (c : GraphCompiler) (varIndex : Nat) : Instruction → Except Panic Bool
  | .store _ _ .variable (.indexed location) _ => do
    pure (decide ((← getConstantValue c location) = varIndex))
  | _ => pure false

/-- What the counter holds after the last round. -/
def addTerminalNode (varIndex : Nat) (roundTrips : List Nat) (step : Step) (c : GraphCompiler) :
    Except BuildError GraphCompiler :=
  match roundTrips.getLast? with
  | none => pure c
  | some value =>
    match step.next value, step with
    | some next, _ => addInductionVariableNode varIndex next c
    | none, .down n => do
      let (id, c) ← GraphCompiler.pushConstantValue (frFrom value - frFrom n) c
      pure (c.setVariable varIndex id)
    | none, .up _ => pure c

/-- The counter's progression, from the last instruction and the condition. -/
def getRoundTrips (c : GraphCompiler) (line : Nat) (continueCondition : Instruction)
    (last : Option Instruction) : Except BuildError (Nat × Step × List Nat) := do
  match last with
  | none => bail line "loop body must not be empty"
  | some last => do
    let (varIndex, step) ← getStepSize c line last
    match continueCondition with
    | .compute _ op [a, b] => do
      let lhs ← panicking (getConstantValue c a)
      let rhs ← panicking (getConstantValue c b)
      let roundTrips ← inductionValues line op lhs rhs step
      pure (varIndex, step, roundTrips)
    | .compute .. => bail line "loop condition must be binary"
    | _ => bail line "loop condition must be a comparison"

/-! ## Instructions -/

mutual

/-- `handle_inst`. -/
def handleInst : Instruction → Lower (Option ValueId)
  | .value .bigInt v, c => produced (GraphCompiler.pushConstant v c)
  | .value .u32 _, _ => .error (.panic (.unreachable "ValueBucket parse as U32"))
  | .load _ addressType (.indexed location), c => do
    let i ← panicking (getConstantValue c location)
    produced (readValueAt addressType i c)
  | .load line _ .mapped, _ => .error (.unsupported .mappedLocation line)
  | .compute line op stack, c =>
    match runtimeOp op with
    | some runtime => produced (pushRuntime runtime (expectValues stack c))
    | none =>
      if isAddressOperator op then .error (.unsupported (.addressOperator op) line)
      else if isRemoved op then
        match stack with
        | [a, b] => produced (foldRemoved line op (handleInst a) (handleInst b) c)
        | _ => .error (.panic (.assertion "is a bin op"))
      else .error (.unsupported (.operator op) line)
  | .store line size destAddressType dest src, c =>
    match size with
    | .multiple _ => .error (.unsupported .bulkCopyInstances line)
    | .single n => do
      if n > 1 then
        let c ← handleBulkStoreBucket line n destAddressType dest src c
        pure (none, c)
      else
        let (value, c) ← expectValue (handleInst src) c
        let c ← storeValue line destAddressType dest value c
        pure (none, c)
  | .branch line cond ifBranch elseBranch, c => do
    -- `foldBranchCondition`, in place: its calls recurse on parts of this instruction.
    let (taken, c) ← (match cond with
      | .compute _ op [a, b] => foldBinaryCondition op (handleInst a) (handleInst b) c
      | .compute _ op [a] => foldNegatedCondition op (handleInst a) c
      | .compute .. => pure (none, c)
      | cond => foldTruth (handleInst cond) c)
    match taken with
    | none =>
      .error (.unsupported (.instruction "branch (if/else on a non-constant condition)") line)
    | some true => do
      let c ← handleAll ifBranch c
      pure (none, c)
    | some false => do
      let c ← handleAll elseBranch c
      pure (none, c)
  | .loop line continueCondition body, c => do
    let (varIndex, step, roundTrips) ← getRoundTrips c line continueCondition body.getLast?
    let c ← roundTrips.foldlM (fun c value => do
      let c ← addInductionVariableNode varIndex value c
      handleBody line varIndex body c) c
    let c ← addTerminalNode varIndex roundTrips step c
    pure (none, c)
  | .ret line, _ => .error (.unsupported (.instruction "return") line)
  | .assert, c => pure (none, c)
  | .log line, _ => .error (.unsupported (.instruction "log") line)

/-- The operands of a run-time operator, left to right. -/
def expectValues : List Instruction → Lower (List ValueId)
  | [], c => pure ([], c)
  | inst :: insts, c => do
    let (id, c) ← expectValue (handleInst inst) c
    let (ids, c) ← expectValues insts c
    pure (id :: ids, c)

/-- An arm of a branch, or the body of the template. -/
def handleAll : List Instruction → GraphCompiler → Except BuildError GraphCompiler
  | [], c => pure c
  | inst :: insts, c => do
    let (_, c) ← handleInst inst c
    handleAll insts c

/-- One round of a loop: its body without the last instruction. -/
def handleBody (line varIndex : Nat) : List Instruction → GraphCompiler →
    Except BuildError GraphCompiler
  | [], c => pure c
  | [_], c => pure c
  | inst :: next :: insts, c => do
    let stores ← panicking (storesVariable c varIndex inst)
    ensureLoop line (stores = false) "loop body writes to induction variable"
    let (_, c) ← handleInst inst c
    handleBody line varIndex (next :: insts) c

end

/-- `fold_branch_condition`. -/
def foldBranchCondition (cond : Instruction) : Lower (Option Bool) := fun c =>
  match cond with
  | .compute _ op [a, b] => foldBinaryCondition op (handleInst a) (handleInst b) c
  | .compute _ op [a] => foldNegatedCondition op (handleInst a) c
  | .compute .. => pure (none, c)
  | cond => foldTruth (handleInst cond) c

end Frontend
end CircomMpc
