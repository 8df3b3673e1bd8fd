import CircomMpc.Frontend.Inline
import CircomMpc.Gadgets.Site

/-!
# What a template tree means

The circuit before it is flattened. A template is executed on the values its caller stored into its
input ports: node by node, an instance's outputs computed from the values stored into *its* ports, a
gadget's by its plain trace. Nothing here is ever numbered or placed: an instance is a function of its
inputs, and tells its father the values of the signals it uses. A signal is known by the offsets on
the way to its instance and its number there; its address is their sum.

Where the circuit makes no sense — a port read that nobody stored, or stored after the instance was
read — the execution is undefined.
-/

namespace CircomMpc
namespace Frontend

open Lib

/-- A signal of an instance: the offsets on the way there, each in its father's signals, and the
    signal's number in the instance. -/
structure Place where
  path : List Nat
  signal : SignalIdx
deriving DecidableEq, Repr

def Place.address (place : Place) : SignalIdx := place.path.sum + place.signal

/-- What an instance comes to: the values of its output ports, and of every signal it uses, as often
    as it uses it. -/
structure Extension where
  ports : Nat → Option Fr
  signals : List (Place × Fr)

/-- An instance, as a function of what is stored into its input ports. -/
abbrev Behaviour := (Nat → Option Fr) → Option Extension

/-- Seen from a father that has the instance's signals at `offset`. -/
def Extension.below (offset : Nat) (ext : Extension) : Extension :=
  { ext with signals := ext.signals.map fun s => (⟨offset :: s.1.path, s.1.signal⟩, s.2) }

/-- An instance's own signals. -/
def own (signals : List (SignalIdx × Fr)) : List (Place × Fr) :=
  signals.map fun s => (⟨[], s.1⟩, s.2)

/-- Signals by address, seen from where they start at `offset`: the offsets on the way are added up,
    and only the sum is kept. -/
def addressed (offset : Nat) (signals : List (Place × Fr)) : List (SignalIdx × Fr) :=
  signals.map fun s => (s.1.address + offset, s.2)

/-- Own signals, seen from where they start at `offset`. -/
def shifted (offset : Nat) (signals : List (SignalIdx × Fr)) : List (SignalIdx × Fr) :=
  signals.map fun s => (s.1 + offset, s.2)

theorem addressed_own (offset : Nat) (signals : List (SignalIdx × Fr)) :
    addressed offset (own signals) = shifted offset signals := by
  unfold addressed own shifted
  rw [List.map_map]
  apply List.map_congr_left
  intro s _
  have haddress : Place.address ⟨[], s.1⟩ = s.1 := Nat.zero_add s.1
  exact Prod.ext (congrArg (· + offset) haddress) rfl

theorem addressed_below (offset offset' : Nat) (ext : Extension) :
    addressed offset (ext.below offset').signals = addressed (offset + offset') ext.signals := by
  unfold addressed Extension.below
  rw [List.map_map]
  apply List.map_congr_left
  intro s _
  have haddress : (offset' :: s.1.path).sum + s.1.signal + offset =
      s.1.path.sum + s.1.signal + (offset + offset') := by
    rw [List.sum_cons]
    omega
  exact Prod.ext haddress rfl

theorem addressed_append (offset : Nat) (signals signals' : List (Place × Fr)) :
    addressed offset (signals ++ signals') = addressed offset signals ++ addressed offset signals' :=
  List.map_append

theorem addressed_flatMap {α : Type} (offset : Nat) (f : α → List (Place × Fr)) (xs : List α) :
    addressed offset (xs.flatMap f) = xs.flatMap fun x => addressed offset (f x) :=
  List.map_flatMap

/-! ## Gadgets -/

namespace GadgetInstance

/-- The signals of a gadget instance: outputs first, then inputs, then intermediates. -/
def signals (site : GadgetInstance) (args trace : List Fr) : List (SignalIdx × Fr) :=
  (List.range site.numInputs).map (fun k => (site.numOutputs + k, args.getD k 0)) ++
  (List.range (site.numOutputs + site.numIntermediates)).map fun slot =>
    (if slot < site.numOutputs then slot
      else site.numOutputs + site.numInputs + (slot - site.numOutputs), trace.getD slot 0)

/-- A gadget instance computes its plain trace, which fills the slots it declares. -/
def behaviour (host : Poseidon2.Host) (site : GadgetInstance) : Behaviour := fun inputs => do
  guard (site.numOutputs + site.numIntermediates = site.kind.expectedResults)
  let args ← (List.range site.numInputs).mapM fun k => inputs (site.numOutputs + k)
  let trace := site.kind.plainTrace host args
  pure {
    ports := fun slot => if slot < site.numOutputs then some (trace.getD slot 0) else none
    signals := own (site.signals args trace) }

end GadgetInstance

/-- A list of things that may be missing, all of them there. -/
theorem mapM_eq_some {α β : Type} {f : α → Option β} : ∀ {xs : List α} {ys : List β},
    xs.mapM f = some ys → List.Forall₂ (fun x y => f x = some y) xs ys
  | [], ys, h => by
    cases h
    exact .nil
  | x :: xs, ys, h => by
    rw [List.mapM_cons] at h
    obtain ⟨y, hy, h⟩ := Option.bind_eq_some_iff.mp h
    obtain ⟨rest, hrest, h⟩ := Option.bind_eq_some_iff.mp h
    cases h
    exact .cons hy (mapM_eq_some hrest)

theorem GadgetInstance.behaviour_eq_some {host : Poseidon2.Host} {site : GadgetInstance}
    {inputs : Nat → Option Fr} {ext : Extension} (h : site.behaviour host inputs = some ext) :
    site.numOutputs + site.numIntermediates = site.kind.expectedResults ∧
      ∃ args : List Fr, args.length = site.numInputs ∧
        (∀ k < site.numInputs, inputs (site.numOutputs + k) = some (args.getD k 0)) ∧
        ext = ⟨fun slot => if slot < site.numOutputs then
          some ((site.kind.plainTrace host args).getD slot 0) else none,
          own (site.signals args (site.kind.plainTrace host args))⟩ := by
  unfold behaviour at h
  obtain ⟨_, hguard, h⟩ := Option.bind_eq_some_iff.mp h
  obtain ⟨args, hargs, h⟩ := Option.bind_eq_some_iff.mp h
  cases h
  have hall := mapM_eq_some hargs
  have hlen : args.length = site.numInputs := by
    rw [← hall.length_eq, List.length_range]
  refine ⟨by simpa using hguard, args, hlen, ?_, rfl⟩
  intro k hk
  have hget := hall.get (by simpa using hk) (by rw [hlen]; exact hk)
  rw [List.getD_eq_getElem _ _ (by rw [hlen]; exact hk)]
  simpa using hget

/-! ## Templates -/

/-- How far a template has been executed, node by node and in the order of its list: the values so
    far, what the ports of its instances were given, and which instances have been run by a read. -/
structure Execution where
  /-- The value of every node so far that has one. -/
  values : List (Option Fr)
  writes : Nat → Option Fr
  /-- What every instance's ports have been given. -/
  stores : List (Nat → Option Fr)
  /-- The instances with an output that has been read. -/
  read : List Nat
  signals : List (SignalIdx × Fr)

/-- The arithmetic a template may contain. -/
def arithmetic (input : SignalIdx → Fr) : Op → List Fr → Option Fr
  | .input signal, [] => some (input signal)
  | .constant c, [] => some c
  | .add, [a, b] => some (a + b)
  | .sub, [a, b] => some (a - b)
  | .mul, [a, b] => some (a * b)
  | _, _ => none

namespace Execution

def start (instances : List Behaviour) : Execution where
  values := []
  writes := fun _ => none
  stores := instances.map fun _ _ => none
  read := []
  signals := []

def valueOf (e : Execution) (v : ValueId) : Option Fr := e.values[v]?.join

/-- The value a node has, or that it has none. -/
def produce (e : Execution) (value : Option Fr) : Execution :=
  { e with values := e.values ++ [value] }

/-- One node. `reads` are the signals the template does not write itself: its ports, or for main the
    circuit's inputs, which `recorded` leaves to the circuit. -/
def step (input : SignalIdx → Fr) (instances : List Behaviour) (recorded : Bool)
    (reads : Nat → Option Fr) (e : Execution) (node : TemplateNode) : Option Execution :=
  match node.op with
  | .real op => do
    let args ← node.inputs.mapM e.valueOf
    let value ← arithmetic input op args
    pure (e.produce (some value))
  | .localSignal signal => do
    let value ← (e.writes signal).or (reads signal)
    pure { e.produce (some value) with
      signals := if recorded then e.signals ++ [(signal, value)] else e.signals }
  | .localSignalWrite signal => do
    let value ← e.valueOf (← node.inputs[0]?)
    pure { e.produce none with
      writes := Function.update e.writes signal (some value)
      signals := e.signals ++ [(signal, value)] }
  | .subCmpInput subCmp port => do
    let value ← e.valueOf (← node.inputs[0]?)
    let inputs ← e.stores[subCmp]?
    guard (subCmp ∉ e.read)
    pure { e.produce none with
      stores := e.stores.set subCmp (Function.update inputs port (some value)) }
  | .subCmpOutput subCmp port => do
    let inst ← instances[subCmp]?
    let ext ← inst (← e.stores[subCmp]?)
    let value ← ext.ports port
    pure { e.produce (some value) with
      read := if subCmp ∈ e.read then e.read else e.read ++ [subCmp] }

end Execution

/-- A template's body, on its instances: its own signals, and behind them the instances'. Every
    instance is run on what its ports have been given at the end. -/
def bodyBehaviour (input : SignalIdx → Fr) (nodes : List TemplateNode) (instances : List Behaviour)
    (recorded : Bool) (reads : Nat → Option Fr) : Option Extension := do
  let e ← nodes.foldlM (Execution.step input instances recorded reads) (.start instances)
  let exts ← (instances.zip e.stores).mapM fun entry => entry.1 entry.2
  pure { ports := e.writes, signals := own e.signals ++ exts.flatMap (·.signals) }

section Tree

variable (host : Poseidon2.Host) (input : SignalIdx → Fr)

mutual

/-- What a template does with the signals it reads. -/
def TemplateGraph.behaviour : TemplateGraph → Bool → (Nat → Option Fr) → Option Extension
  | .mk nodes subGraphs => bodyBehaviour input nodes (behaviours subGraphs)

/-- What an instance does, seen from its father. -/
def SubGraphInstance.behaviour : SubGraphInstance → Behaviour
  | .compiled template signalOffset => fun inputs =>
    (template.behaviour true inputs).map (·.below signalOffset)
  | .gadget site => fun inputs => (site.behaviour host inputs).map (·.below site.signalOffset)

def behaviours : List SubGraphInstance → List Behaviour
  | [] => []
  | inst :: insts => inst.behaviour :: behaviours insts

end

/-- Every signal the circuit uses, with its value. -/
def TemplateGraph.signals (main : TemplateGraph) : Option (List (Place × Fr)) :=
  (main.behaviour host input false fun signal => some (input signal)).map (·.signals)

end Tree

/-! ## The gadgets of a tree -/

/-- What every recognized gadget's instance is: it has its kind's inputs, and only a Poseidon2 leaves
    its trace to the host. -/
structure GadgetInstance.Canonical (site : GadgetInstance) : Prop where
  numInputs : site.numInputs = site.kind.arity
  host : site.precomputed = true → ∃ t, site.kind = .poseidon2 t

def GadgetInstance.site (site : GadgetInstance) : GadgetSite := ⟨site.kind, site.precomputed⟩

mutual

/-- The gadget instances of a tree. -/
def TemplateGraph.gadgets : TemplateGraph → List GadgetInstance
  | .mk _ subGraphs => gadgetsOf subGraphs

def SubGraphInstance.gadgets : SubGraphInstance → List GadgetInstance
  | .compiled template _ => template.gadgets
  | .gadget site => [site]

def gadgetsOf : List SubGraphInstance → List GadgetInstance
  | [] => []
  | inst :: insts => inst.gadgets ++ gadgetsOf insts

end

end Frontend
end CircomMpc
