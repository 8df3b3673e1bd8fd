import CircomMpc.Ir.Rewrite
import CircomMpc.Gadgets.Site

/-!
# What a graph means

A graph is evaluated under an `Interp`: a value for every input signal and, for every gadget site, a
trace — the result slots as a function of the site's input values. Nothing is assumed of the trace
but that it is a function, so what is proved for every `Interp` holds in particular of the plain
traces (`Interp.plain`).

Every node gets a `Value`, which is read by slot. An arithmetic node has the same field element in
every slot; a gadget site has its trace, and a round the values it reshares, one a slot.
-/

namespace CircomMpc

open Lib

/-- The inputs, and what every gadget site computes: a function of its inputs' values, of which
    nothing else is assumed. -/
structure Interp where
  input : SignalIdx → Fr
  trace : GadgetId → List Fr → Nat → Fr

instance : Inhabited Interp := ⟨⟨fun _ => 0, fun _ _ _ => 0⟩⟩

/-- What a node produces, by slot. -/
abbrev Value := Nat → Fr

/-- The `k`-th operand's value. -/
def operand (operands : List Value) (k : Nat) : Value := operands.getD k default

/-- What a node produces from what its operands produced. Arithmetic works slot by slot. -/
def evalRule (I : Interp) : Op → List Value → Value
  | .input signal, _ => fun _ => I.input signal
  | .constant c, _ => fun _ => c
  | .add, xs => fun k => operand xs 0 k + operand xs 1 k
  | .sub, xs => fun k => operand xs 0 k - operand xs 1 k
  | .mul, xs | .mulLocal, xs => fun k => operand xs 0 k * operand xs 1 k
  | .gadget site, xs => I.trace site (xs.map (· 0))
  | .gadgetResult slot, xs | .roundResult slot, xs => fun _ => operand xs 0 slot
  | .round _, xs => fun k => operand xs k 0

/-- A node's invocation of a gadget site: the site and the values it reads. -/
def Node.call? (node : Node) : Option (GadgetId × List ValueId) :=
  match node.op with
  | .gadget site => some (site, node.inputs)
  | _ => none

namespace Graph

/-- Every gadget node, in graph order: its site and its operands. -/
def invocations (nodes : List Node) : List (GadgetId × List ValueId) :=
  nodes.filterMap Node.call?

/-- The field element node `v` evaluates to. -/
def eval (g : Graph) (I : Interp) (v : ValueId) : Fr :=
  value (evalRule I) g.nodes v 0

/-- Every gadget site's invocation, in graph order, with its input values. -/
def calls (g : Graph) (I : Interp) : List (GadgetId × List Fr) :=
  (invocations g.nodes).map fun c => (c.1, c.2.map (g.eval I))

/-- The value bound to a signal, counting the constant `1` as signal zero: that of the last output
    binding that names it. -/
def binding (g : Graph) (I : Interp) (signal : Nat) : Option Fr :=
  ((g.outputs.filter fun o => o.1 + 1 == signal).getLast?).map fun o => g.eval I o.2

end Graph

/-- The inputs with every site computing its kind's plain trace. -/
def Interp.plain (g : Graph) (host : Poseidon2.Host) (input : SignalIdx → Fr) : Interp where
  input := input
  trace site inputs slot :=
    match g.gadgetSites[site]? with
    | some s => (s.kind.plainTrace host inputs).getD slot 0
    | none => 0

/-! ## Well-formed frontend graphs -/

/-- The operations a graph has before it is lowered. -/
def Op.isFrontend : Op → Bool
  | .mulLocal | .round _ | .roundResult _ => false
  | _ => true

/-- Whether a node is a gadget site's. -/
def Node.invokes (node : Node) : Bool := node.call?.isSome

/-- Whether a node reads a slot of a gadget site. -/
def Op.isResult : Op → Bool
  | .gadgetResult _ => true
  | _ => false

/-- What the frontend builds: a topologically ordered graph over the frontend's operations, in which
    a gadget node is read by gadget results only and they read nothing else, every site has one
    gadget node, and every output binds a signal of the circuit to a node of the graph. -/
structure Graph.Frontend (g : Graph) : Prop where
  ordered : Ordered g.nodes
  frontend : ∀ node ∈ g.nodes, node.op.isFrontend = true
  arity : ∀ node ∈ g.nodes, ∀ arity ∈ node.op.fixedArity, node.inputs.length = arity
  results : ∀ node ∈ g.nodes, ∀ slot, node.op = .gadgetResult slot →
    ∀ v ∈ node.inputs, ∃ site inputs, g.nodes[v]? = some ⟨.gadget site, inputs⟩
  unread : ∀ node ∈ g.nodes, node.op.isResult = false →
    ∀ v ∈ node.inputs, ∀ source, g.nodes[v]? = some source → source.invokes = false
  sites : ((Graph.invocations g.nodes).map Prod.fst).Perm (List.range g.gadgetSites.length)
  outputs : ∀ o ∈ g.outputs, o.2 < g.nodes.length
  signals : ∀ o ∈ g.outputs, o.1 + 1 < g.numSignals

/-- `Frontend.results` of one node, as a check. -/
def Node.resultCheck (nodes : List Node) (node : Node) : Bool :=
  match node.op with
  | .gadgetResult _ => node.inputs.all fun v => (nodes[v]?.bind Node.call?).isSome
  | _ => true

theorem Node.resultCheck_iff {nodes : List Node} {node : Node} :
    node.resultCheck nodes = true ↔ ∀ slot, node.op = .gadgetResult slot →
      ∀ v ∈ node.inputs, ∃ site inputs, nodes[v]? = some ⟨.gadget site, inputs⟩ := by
  have hcall : ∀ v : ValueId, (nodes[v]?.bind Node.call?).isSome = true ↔
      ∃ site inputs, nodes[v]? = some ⟨.gadget site, inputs⟩ := by
    intro v
    cases nodes[v]? with
    | none => simp
    | some source =>
      obtain ⟨op, inputs⟩ := source
      cases op <;> simp [Node.call?]
  unfold Node.resultCheck
  obtain ⟨op, inputs⟩ := node
  cases op <;> simp [hcall]

/-- `Frontend.unread` of one node, as a check. -/
def Node.unreadCheck (nodes : List Node) (node : Node) : Bool :=
  node.op.isResult || node.inputs.all fun v => !(nodes[v]?.any Node.invokes)

theorem Node.unreadCheck_iff {nodes : List Node} {node : Node} :
    node.unreadCheck nodes = true ↔ (node.op.isResult = false →
      ∀ v ∈ node.inputs, ∀ source, nodes[v]? = some source → source.invokes = false) := by
  have hsource : ∀ v : ValueId, (!(nodes[v]?.any Node.invokes)) = true ↔
      ∀ source, nodes[v]? = some source → source.invokes = false := by
    intro v
    cases nodes[v]? <;> simp
  unfold Node.unreadCheck
  rw [Bool.or_eq_true, List.all_eq_true]
  cases node.op.isResult with
  | true => simp
  | false => simp only [Bool.false_eq_true, false_or, forall_const, hsource]

/-- Being a frontend graph can be checked. -/
instance (g : Graph) : Decidable g.Frontend :=
  decidable_of_iff
    (Ordered g.nodes ∧ (∀ node ∈ g.nodes, node.op.isFrontend = true) ∧
      (∀ node ∈ g.nodes, ∀ arity ∈ node.op.fixedArity, node.inputs.length = arity) ∧
      (∀ node ∈ g.nodes, node.resultCheck g.nodes = true) ∧
      (∀ node ∈ g.nodes, node.unreadCheck g.nodes = true) ∧
      ((Graph.invocations g.nodes).map Prod.fst).Perm (List.range g.gadgetSites.length) ∧
      (∀ o ∈ g.outputs, o.2 < g.nodes.length) ∧ ∀ o ∈ g.outputs, o.1 + 1 < g.numSignals)
    ⟨fun ⟨ho, hf, ha, hr, hu, hs, hout, hsig⟩ =>
      ⟨ho, hf, ha, fun node hnode => Node.resultCheck_iff.mp (hr node hnode),
        fun node hnode => Node.unreadCheck_iff.mp (hu node hnode), hs, hout, hsig⟩,
    fun h => ⟨h.ordered, h.frontend, h.arity,
      fun node hnode => Node.resultCheck_iff.mpr (h.results node hnode),
      fun node hnode => Node.unreadCheck_iff.mpr (h.unread node hnode), h.sites, h.outputs,
      h.signals⟩⟩

/-! ## Renamed graphs -/

namespace Graph

theorem invocations_append (xs ys : List Node) :
    invocations (xs ++ ys) = invocations xs ++ invocations ys :=
  List.filterMap_append

theorem invocations_take_succ {nodes : List Node} {i : Nat} {node : Node}
    (h : nodes[i]? = some node) :
    invocations (nodes.take (i + 1)) = invocations (nodes.take i) ++ invocations [node] := by
  rw [List.take_add_one, h, invocations_append]
  rfl

/-- Two lists of invocations, the second with its operands renamed. -/
def Reinvoked (remap : List (Option ValueId)) (calls calls' : List (GadgetId × List ValueId)) :
    Prop :=
  List.Forall₂ (fun c c' => c'.1 = c.1 ∧ Renamed remap c.2 c'.2) calls calls'

theorem sites_of_reinvoked {remap : List (Option ValueId)}
    {calls calls' : List (GadgetId × List ValueId)} (h : Reinvoked remap calls calls') :
    calls'.map Prod.fst = calls.map Prod.fst := by
  induction h with
  | nil => rfl
  | cons hc _ ih => rw [List.map_cons, List.map_cons, ih, hc.1]

variable {I : Interp} {old new : List Node} {remap : List (Option ValueId)}

theorem eval_of_placed {g g' : Graph} (h : Placed (evalRule I) g.nodes remap g'.nodes)
    {v u : ValueId} (hvu : remap[v]? = some (some u)) : g'.eval I u = g.eval I v := by
  unfold eval
  rw [(h.valid v u hvu).2]

/-- Renamed operands have the values they had. -/
theorem operands_of_placed {g g' : Graph} (h : Placed (evalRule I) g.nodes remap g'.nodes)
    {refs refs' : List ValueId} (hren : Renamed remap refs refs') :
    refs'.map (g'.eval I) = refs.map (g.eval I) := by
  have hslot := congrArg (List.map fun x : Value => x 0) (h.renamed hren).2
  rw [List.map_map, List.map_map] at hslot
  exact hslot

/-- Renamed invocations read the values they read. -/
theorem invocations_of_placed {g g' : Graph} (h : Placed (evalRule I) g.nodes remap g'.nodes)
    {cs cs' : List (GadgetId × List ValueId)} (hcalls : Reinvoked remap cs cs') :
    (cs'.map fun c => (c.1, c.2.map (g'.eval I))) = cs.map fun c => (c.1, c.2.map (g.eval I)) := by
  induction hcalls with
  | nil => rfl
  | @cons c c' cs cs' hc _ ih =>
    obtain ⟨hsite, hren⟩ := hc
    rw [List.map_cons, List.map_cons, ih, hsite, operands_of_placed h hren]

/-- A graph with renamed invocations makes the calls it made. -/
theorem calls_of_placed {g g' : Graph} (h : Placed (evalRule I) g.nodes remap g'.nodes)
    (hcalls : Reinvoked remap (invocations g.nodes) (invocations g'.nodes)) :
    g'.calls I = g.calls I :=
  invocations_of_placed h hcalls

/-- Renamed outputs bind the values they bound. -/
theorem binding_of_placed {g g' : Graph} (h : Placed (evalRule I) g.nodes remap g'.nodes)
    (hout : Rebound remap g.outputs g'.outputs) (signal : Nat) :
    g'.binding I signal = g.binding I signal := by
  -- Outputs keep their signals, so both graphs choose among the same ones.
  have hfilter : List.Forall₂ (fun o o' => g'.eval I o'.2 = g.eval I o.2)
      (g.outputs.filter fun o => o.1 + 1 == signal)
      (g'.outputs.filter fun o => o.1 + 1 == signal) := by
    generalize g.outputs = outs at hout
    generalize g'.outputs = outs' at hout
    induction hout with
    | nil => exact .nil
    | @cons o o' outs outs' ho _ ih =>
      obtain ⟨hsignal, hren⟩ := ho
      rw [List.filter_cons, List.filter_cons, hsignal]
      split
      · exact .cons (eval_of_placed h hren) ih
      · exact ih
  unfold binding
  generalize (g.outputs.filter fun o => o.1 + 1 == signal) = outs at hfilter
  generalize (g'.outputs.filter fun o => o.1 + 1 == signal) = outs' at hfilter
  have hvalues : outs'.map (fun o => g'.eval I o.2) = outs.map (fun o => g.eval I o.2) := by
    induction hfilter with
    | nil => rfl
    | cons ho _ ih => rw [List.map_cons, List.map_cons, ho, ih]
  rw [← List.getLast?_map, ← List.getLast?_map, hvalues]

end Graph
end CircomMpc
