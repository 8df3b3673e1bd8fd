import CircomMpc.Passes.Mpc.GadgetSchedule
import CircomMpc.Program.Validate

/-!
# Slots and how long they are needed

The bottom of `codegen`: an allocator for each bank, the table of last uses that says when a slot is
given back, and the choice of an opcode by its operands' domains. An allocator knows nothing of the
graph; what keeps a value's slot its own is when `freeIfDead` is called, and with what.

The last uses count the outputs as reads behind the end, so that nothing the witness needs is freed.
-/

namespace CircomMpc

open Lib CircomMpc.Graph

namespace Codegen

/-- How code generation fails. -/
inductive CodegenError where
  /-- An index past the end, an `expect`, an `unreachable!`. -/
  | panic (p : Panic)
  | localOperand (op : Op)
  | secretProduct
  | localGadgetInput
  | precomputedPublic (kind : GadgetKind)
  | mulLocalOperands (da db : Domain)
  | roundOperand (bank : Bank)
  | roundNotFollowed (round : RoundId) (expected node : Nat) (found : Option Op)
  | siteReadsLocal (site : GadgetId)
  | noConstantOne
  | outputSignal (signal numSignals : Nat)
  | localOutput
  | inputSignal (signal numSignals : Nat)
  | noInputSignal (name : String)
  | malformed (e : EncodingError)

/-- A `Debug` name of a domain. -/
def domainName : Domain → String
  | .public => "Public"
  | .shared => "Shared"
  | .local => "Local"

/-- The name of an operation's variant. -/
def opName : Op → String
  | .input _ => "Input"
  | .constant _ => "Constant"
  | .add => "Add"
  | .sub => "Sub"
  | .mul => "Mul"
  | .gadget _ => "Gadget"
  | .gadgetResult _ => "GadgetResult"
  | .mulLocal => "MulLocal"
  | .round _ => "Round"
  | .roundResult _ => "RoundResult"

/-- The text of each error, up to the fields a `Debug` text adds to a variant's name. A panic has its
    own. -/
def CodegenError.text : CodegenError → Option String
  | .panic _ => none
  | .localOperand op => some <|
    s!"codegen: a Local-domain value reached {opName op} directly - it must only ever feed a " ++
    "Round (rep3's reshare); this is a lowering invariant violation, not a supported circuit shape"
  | .secretProduct => some <|
    "codegen: a secret x secret Mul survived MPC lowering - mul_split should have split every " ++
    "one of these into MulLocal + Round before codegen ever runs"
  | .localGadgetInput => some <|
    "codegen: a gadget site reads a Local (un-reshared MulLocal) value - it must be reshared " ++
    "first; this is a lowering invariant violation"
  | .precomputedPublic _ => some <|
    "codegen: a host-precomputed site is all-Public - the caller should have downgraded it to an " ++
    "ordinary gadget site before calling gadget_result_bank"
  | .mulLocalOperands da db => some <|
    "codegen: MulLocal's operands must both be Shared (rep3's local_mul_vec needs two genuine " ++
    s!"shares) - got {domainName da}/{domainName db}"
  | .roundOperand bank => some
    s!"codegen: a Round's operand must be a Local (MulLocal) value, got {bank.name}"
  | .roundNotFollowed round expected node found =>
    let found := (found.map opName).getD "None"
    some <| s!"codegen: Round {round} expected RoundResult({expected}) at node {node}, " ++
      s!"found {found} - round_schedule's adjacency invariant was violated"
  | .siteReadsLocal site => some <|
    s!"codegen: gadget site {site} reads a Local (un-reshared MulLocal) value - it must be " ++
    "reshared first; this is a lowering invariant violation"
  | .noConstantOne => some "codegen: witness-bearing graph has no constant-one signal"
  | .outputSignal signal numSignals => some
    s!"codegen: output signal {signal} exceeds num_signals={numSignals}"
  | .localOutput => some <|
    "codegen: a Local (MulLocal) value reached a circuit output directly - it must be reshared " ++
    "(Op::Round) first; this is a lowering invariant violation"
  | .inputSignal signal numSignals => some
    s!"codegen: input signal {signal} exceeds num_signals={numSignals}"
  | .noInputSignal name => some
    s!"declared public input `{name}` has no matching circuit input signal"
  | .malformed _ => some
    "codegen: emitted a malformed Program - this is a compiler bug, not a bad input"

/-- A computation that can only panic. -/
def lift {α : Type} : Except Panic α → Except CodegenError α
  | .ok a => .ok a
  | .error p => .error (.panic p)

@[simp] theorem lift_ok {α : Type} (a : α) : lift (.ok a) = .ok a := rfl

/-! ## The allocator -/

/-- `BankAlloc`: a bump allocator with a free list, the most recently freed slot first. A slot that
    was never used is handed out only when the list is empty. -/
structure BankAlloc where
  freeList : List Nat
  next : Nat
deriving DecidableEq, Repr

namespace BankAlloc

/-- `starting_at`. -/
def startingAt (next : Nat) : BankAlloc := ⟨[], next⟩

/-- `alloc`. -/
def alloc (a : BankAlloc) : Nat × BankAlloc :=
  match a.freeList with
  | slot :: rest => (slot, { a with freeList := rest })
  | [] => (a.next, { a with next := a.next + 1 })

/-- `free`: nothing happens to a slot of the reserved region. -/
def free (a : BankAlloc) (slot reservedBelow : Nat) : BankAlloc :=
  if reservedBelow ≤ slot then { a with freeList := slot :: a.freeList } else a

end BankAlloc

/-- `Loc`: where a value lives. -/
structure Loc where
  bank : Bank
  index : Nat
deriving DecidableEq, Repr

/-- `Arena`: an allocator for each bank, the ends of the reserved regions, and the last use of every
    value. -/
structure Arena where
  p : BankAlloc
  s : BankAlloc
  l : BankAlloc
  pReservedEnd : Nat
  sReservedEnd : Nat
  lastUse : List Nat
deriving DecidableEq, Repr

namespace Arena

/-- `alloc`. -/
def alloc (arena : Arena) : Bank → Nat × Arena
  | .public => let (slot, p) := arena.p.alloc; (slot, { arena with p })
  | .shared => let (slot, s) := arena.s.alloc; (slot, { arena with s })
  | .local => let (slot, l) := arena.l.alloc; (slot, { arena with l })

/-- `free_if_dead`, once the mapping is taken. -/
def release (arena : Arena) (loc : Loc) : Arena :=
  match loc.bank with
  | .public => { arena with p := arena.p.free loc.index arena.pReservedEnd }
  | .shared => { arena with s := arena.s.free loc.index arena.sReservedEnd }
  -- A round frees its operands itself.
  | .local => arena

/-- `free_if_dead`: a value's mapping is taken with its last use, so a second mention of the value
    frees nothing. -/
def freeIfDead (arena : Arena) (slot : List (Option Loc)) (value : ValueId) (current : Nat) :
    Except Panic (Arena × List (Option Loc)) := do
  let last ← index arena.lastUse value
  if last ≠ current then return (arena, slot)
  match ← index slot value with
  | none => return (arena, slot)
  | some loc => return (arena.release loc, slot.set value none)

end Arena

/-- `compute_last_use`. A value nothing reads keeps its own index, and one an output names is needed
    to the end. -/
def computeLastUse (g : Graph) : Except Panic (List Nat) := do
  let lastUse ← g.nodes.zipIdx.foldlM (fun lastUse (node, i) =>
    node.inputs.foldlM (fun lastUse input => setIndex lastUse input i) lastUse)
    (List.range g.nodes.length)
  g.outputs.foldlM (fun lastUse (_, value) => setIndex lastUse value g.nodes.length) lastUse

/-! ## Opcodes and result banks -/

/-- `select_opcode`: the opcode, the bank of its result, and whether the operands are swapped. -/
def selectOpcode (op : Op) (da db : Domain) : Except CodegenError (Opcode × Bank × Bool) :=
  if da = .local ∨ db = .local then throw (.localOperand op)
  else match op, da, db with
  | .add, .public, .public => pure (.addPP, .public, false)
  | .add, .shared, .shared => pure (.addSS, .shared, false)
  | .add, .shared, .public => pure (.addSP, .shared, false)
  | .add, .public, .shared => pure (.addSP, .shared, true)
  | .sub, .public, .public => pure (.subPP, .public, false)
  | .sub, .shared, .shared => pure (.subSS, .shared, false)
  | .sub, .shared, .public => pure (.subSP, .shared, false)
  | .sub, .public, .shared => pure (.subPS, .shared, false)
  | .mul, .public, .public => pure (.mulPP, .public, false)
  | .mul, .shared, .public => pure (.mulSP, .shared, false)
  | .mul, .public, .shared => pure (.mulSP, .shared, true)
  | .mul, .shared, .shared => throw .secretProduct
  | _, _, _ => throw (.panic (.unreachable "select_opcode only ever called for Op::Add/Sub/Mul"))

/-- `gadget_result_bank`: the domain's own bank, but that of an opened value is public. -/
def gadgetResultBank (kind : GadgetKind) (domain : Domain) (precomputed : Bool) :
    Except CodegenError Bank := do
  ensure (domain ≠ .local) .localGadgetInput
  if precomputed then
    ensure (domain = .shared) (.precomputedPublic kind)
    return .shared
  match kind, domain with
  | .reveal _, _ => return .public
  | _, .public => return .public
  | _, .shared => return .shared
  | _, .local => throw (.panic (.unreachable "checked above"))

end Codegen
end CircomMpc
