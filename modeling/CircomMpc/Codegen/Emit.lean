import CircomMpc.Codegen.Reserve

/-!
# The forward walk

`Emitter`: one pass over the nodes, which are in topological order. An arithmetic node takes a slot
and gives back those of the operands it is the last to read; a round gives back its operands' slots
and takes one for every result; a gadget node only notes where its inputs are, and the batches due
behind a node are serviced there.

A round is emitted together with its results, so a step may skip nodes; the index the source's loop
jumps to is part of what `emitNode` returns.
-/

namespace CircomMpc

open Lib CircomMpc.Graph

namespace Codegen

/-- `Emitter`, with the fields of `Emission`. A value's entry in `slot` is there from its definition
    to its last use. -/
structure Emitter where
  arena : Arena
  slot : List (Option Loc)
  instructions : List Instruction
  rounds : List RoundEntry
  roundOperands : List Slot
  roundResults : List Slot
  siteInputs : List (List SiteInput)

/-- `Emitter::new`. -/
def Emitter.new (g : Graph) (reservation : Reservation) (lastUse : List Nat) : Emitter where
  arena :=
    { p := .startingAt reservation.next.p
      s := .startingAt reservation.next.s
      l := .startingAt 0
      pReservedEnd := reservation.next.p
      sReservedEnd := reservation.next.s
      lastUse }
  slot := reservation.slot
  instructions := []
  rounds := List.replicate g.numRounds ⟨0, 0, 0⟩
  roundOperands := []
  roundResults := []
  siteInputs := List.replicate g.gadgetSites.length []

namespace Emitter

/-- `self.slot[v].expect(message)`. -/
def resolve (message : String) (slot : List (Option Loc)) (v : ValueId) : Except Panic Loc := do
  orElse (.expect message) (← index slot v)

/-- `free_if_dead`, as a step of the walk. -/
def freeIfDead (e : Emitter) (current : Nat) (value : ValueId) : Except Panic Emitter := do
  let (arena, slot) ← e.arena.freeIfDead e.slot value current
  pure { e with arena, slot }

/-- A fresh slot for a node's value. -/
def define (e : Emitter) (bank : Bank) (i : ValueId) : Except Panic (Nat × Emitter) := do
  let (dst, arena) := e.arena.alloc bank
  pure (dst, { e with arena, slot := ← setIndex e.slot i (some ⟨bank, dst⟩) })

def push (e : Emitter) (instruction : Instruction) : Emitter :=
  { e with instructions := e.instructions ++ [instruction] }

/-- What `emit_arith` and `emit_mul_local` share: the result gets its slot while the operands still
    have theirs. -/
def emitBinary (e : Emitter) (node : Node) (i : ValueId) (op : Opcode) (bank : Bank) (a b : Nat) :
    Except Panic Emitter := do
  let (dst, e) ← e.define bank i
  let e := e.push (.arith op ⟨dst⟩ ⟨a⟩ ⟨b⟩)
  let e ← e.freeIfDead i (← index node.inputs 0)
  e.freeIfDead i (← index node.inputs 1)

/-- `emit_arith`. -/
def emitArith (e : Emitter) (domain : List Domain) (node : Node) (i : ValueId) :
    Except CodegenError Emitter := do
  let x ← lift (index node.inputs 0)
  let y ← lift (index node.inputs 1)
  let (op, bank, swap) ← selectOpcode node.op (← lift (index domain x)) (← lift (index domain y))
  let a ← lift (resolve "operand not yet resolved" e.slot x)
  let b ← lift (resolve "operand not yet resolved" e.slot y)
  let (a, b) := if swap then (b.index, a.index) else (a.index, b.index)
  lift (e.emitBinary node i op bank a b)

/-- `emit_mul_local`. -/
def emitMulLocal (e : Emitter) (domain : List Domain) (node : Node) (i : ValueId) :
    Except CodegenError Emitter := do
  let x ← lift (index node.inputs 0)
  let y ← lift (index node.inputs 1)
  let a ← lift (resolve "operand not yet resolved" e.slot x)
  let b ← lift (resolve "operand not yet resolved" e.slot y)
  let da ← lift (index domain x)
  let db ← lift (index domain y)
  ensure (da = .shared ∧ db = .shared) (.mulLocalOperands da db)
  lift (e.emitBinary node i .mulLocal .local a.index b.index)

/-- One operand of a round: its slot is free at once. -/
def takeOperand (e : Emitter) (input : ValueId) : Except CodegenError Emitter := do
  let loc ← lift (resolve "round operand not yet resolved" e.slot input)
  ensure (loc.bank = .local) (.roundOperand loc.bank)
  pure { e with
    roundOperands := e.roundOperands ++ [⟨loc.index⟩]
    arena := { e.arena with l := e.arena.l.free loc.index 0 } }

/-- One result of the round at node `i`. -/
def giveResult (nodes : List Node) (round : RoundId) (i : ValueId) (e : Emitter) (k : Nat) :
    Except CodegenError Emitter := do
  let resultIdx := i + 1 + k
  let found := nodes[resultIdx]?.map Cell.op
  ensure (found = some (.roundResult k)) (.roundNotFollowed round k resultIdx found)
  let (dst, e) ← lift (e.define .shared resultIdx)
  pure { e with roundResults := e.roundResults ++ [⟨dst⟩] }

/-- `emit_round`. -/
def emitRound (e : Emitter) (nodes : List Node) (node : Node) (i : ValueId) (round : RoundId) :
    Except CodegenError Emitter := do
  let operandStart := e.roundOperands.length
  let e ← node.inputs.foldlM takeOperand e
  let len := node.inputs.length
  let resultStart := e.roundResults.length
  let e ← (List.range len).foldlM (giveResult nodes round i) e
  let rounds ← lift (setIndex e.rounds round ⟨operandStart, len, resultStart⟩)
  let e := { e with rounds }.push (.reshare ⟨round⟩)
  lift ((List.range len).foldlM (fun e k => e.freeIfDead (i + 1 + k) (i + 1 + k)) e)

/-- One input of a gadget site. -/
def siteInput (e : Emitter) (site : GadgetId) (input : ValueId) : Except CodegenError SiteInput := do
  let loc ← lift (resolve "gadget input not yet resolved" e.slot input)
  ensure (loc.bank ≠ .local) (.siteReadsLocal site)
  pure ⟨loc.bank, ⟨loc.index⟩⟩

/-- `collect_site_inputs`. -/
def collectSiteInputs (e : Emitter) (node : Node) (site : GadgetId) :
    Except CodegenError Emitter := do
  let inputs ← node.inputs.mapM (e.siteInput site)
  let siteInputs ← lift (setIndex e.siteInputs site inputs)
  pure { e with siteInputs }

/-- A gadget result already has its slot. -/
def bindResult (e : Emitter) (nodes : List Node) (gadgets : GadgetResultLayout) (node : Node)
    (i : ValueId) : Except Panic Emitter := do
  match (← index nodes (← index node.inputs 0)).op with
  | .gadget site => do
    let base ← index gadgets.siteResultBase site
    let phys ← orElse
      (.expect "every GadgetResult node that survives to codegen was counted into live_slots")
      (← index gadgets.resultPhys i)
    pure { e with slot := ← setIndex e.slot i (some ⟨base.bank, phys⟩) }
  | _ => throw (.unreachable "a GadgetResult's input is always its Gadget node")

/-- One batch. -/
def serviceBatch (nodes : List Node) (schedule : BatchSchedule) (i : ValueId) (e : Emitter)
    (batchIdx : Nat) : Except Panic Emitter := do
  let plan ← index schedule.plans batchIdx
  (← batchInputs nodes plan).foldlM (fun e input => e.freeIfDead i input)
    (e.push (.gadget ⟨batchIdx⟩))

/-- `service_batches`. -/
def serviceBatches (e : Emitter) (nodes : List Node) (schedule : BatchSchedule) (i : ValueId) :
    Except Panic Emitter := do
  (← index schedule.batchesAt i).foldlM (serviceBatch nodes schedule i) e

/-- One node of `run`: the walk behind it, and how many more nodes it has dealt with. -/
def emitNode (e : Emitter) (g : Graph) (domain : List Domain) (gadgets : GadgetResultLayout)
    (node : Node) (i : ValueId) : Except CodegenError (Emitter × Nat) :=
  match node.op with
  | .constant _ | .input _ => pure (e, 0)
  | .add | .sub | .mul => do pure (← e.emitArith domain node i, 0)
  | .mulLocal => do pure (← e.emitMulLocal domain node i, 0)
  | .round round => do pure (← e.emitRound g.nodes node i round, node.inputs.length)
  | .roundResult _ =>
    throw (.panic (.unreachable "every RoundResult is consumed by its Round's own arm above"))
  | .gadget site => do pure (← e.collectSiteInputs node site, 0)
  | .gadgetResult _ => do pure (← lift (e.bindResult g.nodes gadgets node i), 0)

/-- `run`, from node `i` on. -/
def run (e : Emitter) (g : Graph) (domain : List Domain) (schedule : BatchSchedule)
    (gadgets : GadgetResultLayout) (i : Nat) : Except CodegenError Emitter :=
  if i < g.nodes.length then do
    let node ← lift (index g.nodes i)
    let (e, skipped) ← e.emitNode g domain gadgets node i
    let e ← lift (e.serviceBatches g.nodes schedule (i + skipped))
    e.run g domain schedule gadgets (i + 1 + skipped)
  else pure e
termination_by g.nodes.length - i

end Emitter

end Codegen
end CircomMpc
