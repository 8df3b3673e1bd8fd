import CircomMpc.Lib.Dag
import CircomMpc.Program.Types

/-!
# The value graph

The single IR shared by every stage of the compiler: a flat list of nodes in topological order. A
node's position *is* the identifier of the one value it produces, so a pass that drops or inserts a
node renumbers everything behind it. The two ways passes do that live here: `rewrite`, which walks
the nodes in order and asks a callback what to emit for each, and `gc`, which drops what no output
and no gadget site needs.

Identifiers are natural numbers. The source stores them in a `u32` and aborts when a graph outgrows
it; every other way these functions abort — an index past the end, an `expect`, an assertion — is a
`Panic` of the model.
-/

namespace CircomMpc

open Lib

abbrev ValueId := Nat

/-- A global circuit signal index: circom's own flat numbering. -/
abbrev SignalIdx := Nat

/-- One entry of `Graph::gadget_sites`. -/
abbrev GadgetId := Nat

/-- One batched network round. -/
abbrev RoundId := Nat

/-- How a pass aborts. -/
inductive Panic where
  /-- `v[i]` with `i` past the end. -/
  | outOfBounds
  | expect (message : String)
  | assertion (message : String)
  | unreachable (message : String)
deriving DecidableEq, Repr

/-- `xs[i]`. -/
def index {α : Type} (xs : List α) (i : Nat) : Except Panic α :=
  orElse .outOfBounds xs[i]?

/-- `xs[i] = x`. -/
def setIndex {α : Type} (xs : List α) (i : Nat) (x : α) : Except Panic (List α) :=
  if i < xs.length then .ok (xs.set i x) else .error .outOfBounds

theorem index_eq_ok {α : Type} {xs : List α} {i : Nat} {x : α} :
    index xs i = .ok x ↔ xs[i]? = some x := orElse_eq_ok

theorem setIndex_eq_ok {α : Type} {xs ys : List α} {i : Nat} {x : α} :
    setIndex xs i x = .ok ys ↔ i < xs.length ∧ ys = xs.set i x := by
  unfold setIndex
  split
  · next h => simp [h, eq_comm]
  · next h => simp [h]

/-- `buckets[d].push(x)`. -/
def pushAt {α : Type} (buckets : List (List α)) (d : Nat) (x : α) :
    Except Panic (List (List α)) := do
  let bucket ← index buckets d
  setIndex buckets d (bucket ++ [x])

/-! ## Nodes -/

/-- One recognized-gadget component instance. -/
structure GadgetSite where
  kind : GadgetKind
  /-- Whether its trace comes from the host rather than from the driver. -/
  precomputed : Bool
deriving DecidableEq, Repr

/-- One operation. Every variant produces exactly one value. -/
inductive Op where
  | input (signal : SignalIdx)
  | constant (c : Fr)
  | add
  | sub
  | mul
  /-- Invokes a gadget site; its value is only read through `gadgetResult`. -/
  | gadget (site : GadgetId)
  | gadgetResult (slot : Nat)
  /-- The local half of a secret product, not a share until a round reshares it. -/
  | mulLocal
  /-- One batched network round; its value is only read through `roundResult`. -/
  | round (id : RoundId)
  | roundResult (slot : Nat)
deriving DecidableEq, Repr

/-- `Op::fixed_arity`. -/
def Op.fixedArity : Op → Option Nat
  | .input _ | .constant _ => some 0
  | .add | .sub | .mul | .mulLocal => some 2
  | .gadgetResult _ | .roundResult _ => some 1
  | .gadget _ | .round _ => none

/-- `Op::is_pure`. -/
def Op.isPure : Op → Bool
  | .gadget _ | .gadgetResult _ | .mulLocal | .round _ | .roundResult _ => false
  | _ => true

/-- `Node`: an operation and the values it reads. -/
abbrev Node := Cell Op

/-- `Node::new`, with its debug assertion. -/
def Node.new (op : Op) (inputs : List ValueId) : Except Panic Node := do
  ensure (∀ arity ∈ op.fixedArity, inputs.length = arity)
    (.assertion "node input count does not match op arity")
  pure ⟨op, inputs⟩

/-! ## Graphs -/

/-- (name, witness offset, size) of every circuit input. -/
abbrev InputList := List (String × Nat × Nat)

/-- The flattened circuit: its nodes in topological order, what is bound to its signals, its gadget
    sites, and what circom's producer says about main's signals. -/
structure Graph where
  nodes : List Node
  /-- Which signal each output value is written to; the last binding of a signal wins. -/
  outputs : List (SignalIdx × ValueId)
  gadgetSites : List GadgetSite
  numRounds : Nat
  /-- One entry per witness position: the signal that lands there, counting the constant `1` as
      signal zero. -/
  signalToWitness : List Nat
  inputList : InputList
  publicInputs : List String
  mpcPublicInputs : List String
  numInputs : Nat
  numOutputs : Nat
  numSignals : Nat

namespace Graph

def len (g : Graph) : Nat := g.nodes.length

/-- `retain_outputs`: the relative order of the kept bindings stays. -/
def retainOutputs (g : Graph) (keep : SignalIdx → ValueId → Bool) : Graph × Bool :=
  let outputs := g.outputs.filter fun (signal, value) => keep signal value
  ({ g with outputs }, outputs.length != g.outputs.length)

def setNumRounds (g : Graph) (numRounds : Nat) : Graph := { g with numRounds }

/-- `remap[v].expect(message)`. -/
def remapped (message : String) (remap : List (Option ValueId)) (v : ValueId) :
    Except Panic ValueId := do
  orElse (.expect message) (← index remap v)

/-- Every output binding, through `remap`. -/
def remapOutputs (message : String) (remap : List (Option ValueId))
    (outputs : List (SignalIdx × ValueId)) : Except Panic (List (SignalIdx × ValueId)) :=
  outputs.mapM fun (signal, value) => do
    pure (signal, ← remapped message remap value)

/-- `rebuild_nodes`: the whole node list at once. -/
def rebuildNodes (g : Graph) (nodes : List Node) (remap : List (Option ValueId)) :
    Except Panic Graph := do
  let outputs ← remapOutputs "rebuild_nodes dropped a node an output depends on" remap g.outputs
  pure { g with nodes, outputs }

/-! ## `gc` -/

/-- `keep[v] = true` for every `v`. -/
def markAll (keep : List Bool) (vs : List ValueId) : Except Panic (List Bool) :=
  vs.foldlM (fun keep v => setIndex keep v true) keep

/-- The reverse sweep over the first `n` nodes: a kept node keeps its inputs. -/
def sweep (nodes : List Node) : Nat → List Bool → Except Panic (List Bool)
  | 0, keep => pure keep
  | i + 1, keep => do
    if ← index keep i then
      let node ← index nodes i
      sweep nodes i (← markAll keep node.inputs)
    else
      sweep nodes i keep

/-- The outputs' producers and every gadget site's node. -/
def roots (g : Graph) : List ValueId :=
  g.outputs.map Prod.snd ++ g.nodes.zipIdx.filterMap fun (node, i) =>
    match node.op with
    | .gadget _ => some i
    | _ => none

/-- One node of the compaction: a kept node goes to the end of the new list, its inputs still those
    of the old one. -/
def compactStep (keep : List Bool) (acc : List (Option ValueId) × List Node) (node : Node)
    (i : ValueId) : Except Panic (List (Option ValueId) × List Node) := do
  if ← index keep i then
    pure (acc.1.set i (some acc.2.length), acc.2 ++ [node])
  else
    pure acc

/-- `gc`: drops every node that neither an output nor a gadget site needs. -/
def gc (g : Graph) : Except Panic (Graph × List (Option ValueId)) := do
  let keep ← markAll (List.replicate g.nodes.length false) g.roots
  let keep ← sweep g.nodes g.nodes.length keep
  let (remap, kept) ← g.nodes.zipIdx.foldlM (fun acc (node, i) => compactStep keep acc node i)
    (List.replicate g.nodes.length none, [])
  let nodes ← kept.mapM fun node => do
    pure { node with
      inputs := ← node.inputs.mapM (remapped "gc kept a node whose input was dropped" remap) }
  let outputs ← remapOutputs "gc dropped a node an output depends on" remap g.outputs
  pure ({ g with nodes, outputs }, remap)

/-! ## `rewrite` -/

/-- What a callback decides to do with one node. The inputs of what it emits are those of the new
    list. -/
inductive RewriteAction where
  | keep
  /-- An alias for a value already emitted. -/
  | replaceWith (target : ValueId)
  | emit (node : Node)
  /-- Several nodes; the last one is the original node's value. -/
  | emitMany (group : List Node)

/-- A callback: the node's old id, the node with its inputs renamed, and what is emitted so far. Its
    captured variables are threaded through as a state. -/
abbrev Callback (σ : Type) := σ → ValueId → Node → List Node → Except Panic (σ × RewriteAction)

/-- The variables of the rewriting loop. `remap` has an entry for every old node that has been dealt
    with, the value that stands for it now. -/
structure Rewriting (σ : Type) where
  state : σ
  remap : List (Option ValueId)
  nodes : List Node
  changed : Bool

/-- The variables before the first of `n` nodes. -/
def Rewriting.start {σ : Type} (n : Nat) (state : σ) : Rewriting σ where
  state := state
  remap := List.replicate n none
  nodes := []
  changed := false

/-- Does what the callback decided for node `i`, whose inputs are already renamed. -/
def Rewriting.apply {σ : Type} (w : Rewriting σ) (i : ValueId) (node : Node) :
    RewriteAction → Except Panic (Rewriting σ)
  | .keep =>
    pure { w with remap := w.remap.set i (some w.nodes.length), nodes := w.nodes ++ [node] }
  | .replaceWith target =>
    pure { w with remap := w.remap.set i (some target), changed := true }
  | .emit new =>
    pure { w with
      remap := w.remap.set i (some w.nodes.length), nodes := w.nodes ++ [new], changed := true }
  | .emitMany group => do
    ensure (group ≠ []) (.assertion "EmitMany must emit at least one node")
    pure { w with
      remap := w.remap.set i (some ((w.nodes ++ group).length - 1)), nodes := w.nodes ++ group,
      changed := true }

/-- One turn of the rewriting loop. -/
def rewriteStep {σ : Type} (f : Callback σ) (w : Rewriting σ) (node : Node) (i : ValueId) :
    Except Panic (Rewriting σ) := do
  let inputs ← node.inputs.mapM (remapped "rewrite visited a node before its input" w.remap)
  let node := { node with inputs }
  let (state, action) ← f w.state i node w.nodes
  { w with state }.apply i node action

/-- `rewrite`: node by node, in the original order. Returns the graph, the callback's final state
    and whether anything changed. -/
def rewrite {σ : Type} (g : Graph) (f : Callback σ) (state : σ) :
    Except Panic (Graph × σ × Bool) := do
  let w ← g.nodes.zipIdx.foldlM (fun w (node, i) => rewriteStep f w node i)
    (Rewriting.start g.nodes.length state)
  let outputs ← remapOutputs "rewrite dropped a node an output depends on" w.remap g.outputs
  pure ({ g with nodes := w.nodes, outputs }, w.state,
    w.changed || w.nodes.length != g.nodes.length)

end Graph
end CircomMpc
