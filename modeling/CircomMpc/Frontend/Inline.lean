import CircomMpc.Frontend.Build

/-!
# Inlining

`inline_template` flattens a tree of templates, main and everything it instantiates, into one node
list. References across templates are resolved on the way: a map carries what the caller stored into
an instance's input ports, another what the instance's output ports resolve to. An instance is inlined
when one of its outputs is first read, and behind the body if none is.

A map from signals or ports to nodes is a function here, and an insertion an update of it. Two bounds
of the source are left out: offsets are natural numbers here, where the source adds them in `usize`
without a check, and a signal index is any natural number, where `SignalIdx::new` panics on one that
does not fit a `u32`. A tree for which neither matters has no more signals than a `u32` counts.
-/

namespace CircomMpc
namespace Frontend

open Lib CircomMpc.Graph

/-! ## Template trees -/

/-- `GadgetInstance`: what a recognized gadget's instance is cut into a site by. -/
structure GadgetInstance where
  kind : GadgetKind
  header : String
  /-- Relative to the father's signals, like every instance's. -/
  signalOffset : Nat
  numInputs : Nat
  numOutputs : Nat
  numIntermediates : Nat
  precomputed : Bool
deriving DecidableEq, Repr

mutual

/-- `TemplateGraph`: one template's nodes, and the instances they refer to by position. -/
inductive TemplateGraph where
  | mk (nodes : List TemplateNode) (subGraphs : List SubGraphInstance)

/-- `SubGraphInstance`. -/
inductive SubGraphInstance where
  | compiled (template : TemplateGraph) (signalOffset : Nat)
  | gadget (site : GadgetInstance)

end

/-! ## What inlining appends to -/

/-- The three lists `inline_template` is handed. -/
structure Flat where
  nodes : List Node
  outputs : List (SignalIdx × ValueId)
  gadgetSites : List GadgetSite
deriving DecidableEq, Repr

/-- Nodes by signal or port. -/
abbrev Ports := Nat → Option ValueId

namespace Flat

/-- `nodes.push`, and the identifier of what was pushed. -/
def push (op : Op) (inputs : List ValueId) (flat : Flat) : Except Panic (ValueId × Flat) := do
  let node ← Node.new op inputs
  pure (flat.nodes.length, { flat with nodes := flat.nodes ++ [node] })

/-- `outputs.push`. -/
def bind (signal : SignalIdx) (value : ValueId) (flat : Flat) : Flat :=
  { flat with outputs := flat.outputs ++ [(signal, value)] }

end Flat

/-- How an instance is inlined, into a father at an absolute offset and with the nodes stored into its
    input ports. Returns the nodes of its output ports. -/
abbrev Inliner := Flat → (parentOffset : Nat) → Ports → Except Panic (Ports × Flat)

/-! ## Gadget instances -/

/-- One input of a gadget site: the caller's node, bound to the signal behind the site's outputs. It
    is an argument of the gadget's node, which is pushed when all are there. -/
def gadgetInput (site : GadgetInstance) (signalOffset : Nat) (subCmpInputs : Ports)
    (acc : List ValueId × Flat) (k : Nat) : Except Panic (List ValueId × Flat) := do
  let localSignal := site.numOutputs + k
  let value ← orElse
    (.expect s!"gadget component input signal {localSignal} read before it was provided")
    (subCmpInputs localSignal)
  pure (acc.1 ++ [value], acc.2.bind (signalOffset + localSignal) value)

/-- One result slot of a gadget site, a node of its own. An output slot is a port and a signal of the
    same number; the intermediates' signals come behind the inputs. -/
def gadgetResult (site : GadgetInstance) (signalOffset : Nat) (gadgetId : ValueId)
    (acc : Ports × Flat) (slot : Nat) : Except Panic (Ports × Flat) := do
  let (resultId, flat) ← acc.2.push (.gadgetResult slot) [gadgetId]
  if slot < site.numOutputs then
    pure (Function.update acc.1 slot (some resultId), flat.bind (signalOffset + slot) resultId)
  else
    pure (acc.1, flat.bind
      (signalOffset + site.numOutputs + site.numInputs + (slot - site.numOutputs)) resultId)

/-- `inline_gadget`. -/
def inlineGadget (site : GadgetInstance) : Inliner := fun flat parentOffset subCmpInputs => do
  let signalOffset := parentOffset + site.signalOffset
  let actualResults := site.numOutputs + site.numIntermediates
  ensure (actualResults = site.kind.expectedResults)
    (.assertion s!"gadget component {site.header} has {actualResults} result slots")
  let siteId := flat.gadgetSites.length
  let flat := { flat with gadgetSites := flat.gadgetSites ++ [⟨site.kind, site.precomputed⟩] }
  let (inputs, flat) ← (List.range site.numInputs).foldlM
    (gadgetInput site signalOffset subCmpInputs) ([], flat)
  let (gadgetId, flat) ← flat.push (.gadget siteId) inputs
  (List.range actualResults).foldlM (gadgetResult site signalOffset gadgetId) (fun _ => none, flat)

/-! ## Templates -/

/-- The variables of `inline_template`: the graph under construction, what the template's ports and
    signals resolve to so far, and the instances that are still to be inlined. -/
structure Inlining where
  flat : Flat
  portOutputs : Ports
  localWrites : Ports
  alreadyInlined : Nat → Option Ports
  subCmpInputs : List Ports
  subGraphs : List (Option Inliner)
  localRemap : List (Option ValueId)

namespace Inlining

def start (flat : Flat) (nodes : List TemplateNode) (subGraphs : List Inliner) : Inlining where
  flat
  portOutputs := fun _ => none
  localWrites := fun _ => none
  alreadyInlined := fun _ => none
  subCmpInputs := subGraphs.map fun _ _ => none
  subGraphs := subGraphs.map some
  localRemap := nodes.map fun _ => none

/-- `local_remap[v].expect("value used before it was resolved")`. -/
def resolved (w : Inlining) (v : ValueId) : Except Panic ValueId :=
  remapped "value used before it was resolved" w.localRemap v

/-- `local_remap[local_idx] = Some(value)`. -/
def resolve (w : Inlining) (i : Nat) (value : ValueId) : Inlining :=
  { w with localRemap := w.localRemap.set i (some value) }

/-- A signal's node: what the template wrote, what its caller stored, or main's own input. -/
def readSignal (isRoot : Bool) (inputMapping : Ports) (signal : Nat) (w : Inlining) :
    Except Panic (ValueId × Inlining) :=
  match w.localWrites signal with
  | some v => pure (v, w)
  | none =>
    if isRoot then do
      let (v, flat) ← w.flat.push (.input signal) []
      pure (v, { w with flat })
    else do
      let v ← orElse
        (.expect s!"subcomponent input signal {signal} read before it was provided")
        (inputMapping signal)
      pure (v, w)

/-- The output ports of an instance, which is inlined when they are first asked for. -/
def outputsOf (offset subCmp : Nat) (w : Inlining) : Except Panic (Ports × Inlining) :=
  match w.alreadyInlined subCmp with
  | some ports => pure (ports, w)
  | none => do
    let inline ← orElse (.expect "subcomponent instance consumed twice")
      (← index w.subGraphs subCmp)
    let inputs ← index w.subCmpInputs subCmp
    let (ports, flat) ← inline w.flat offset inputs
    pure (ports, { w with
      flat
      subGraphs := w.subGraphs.set subCmp none
      alreadyInlined := Function.update w.alreadyInlined subCmp (some ports) })

/-- One node of the template. -/
def visit (offset : Nat) (isRoot : Bool) (inputMapping : Ports) (w : Inlining) (node : TemplateNode)
    (i : Nat) : Except Panic Inlining :=
  match node.op with
  | .real op => do
    let inputs ← node.inputs.mapM w.resolved
    let (v, flat) ← w.flat.push op inputs
    pure ({ w with flat }.resolve i v)
  | .localSignal signal => do
    let (v, w) ← w.readSignal isRoot inputMapping signal
    -- Main's own signals are bound where they are written, and its inputs by `build_graph`.
    let flat := if isRoot then w.flat else w.flat.bind (signal + offset) v
    pure ({ w with flat }.resolve i v)
  | .localSignalWrite signal => do
    let value ← w.resolved (← index node.inputs 0)
    pure { w with
      localWrites := Function.update w.localWrites signal (some value)
      portOutputs := if isRoot then w.portOutputs
        else Function.update w.portOutputs signal (some value)
      flat := w.flat.bind (signal + offset) value }
  | .subCmpInput subCmp port => do
    let value ← w.resolved (← index node.inputs 0)
    let inputs ← index w.subCmpInputs subCmp
    pure { w with subCmpInputs :=
      w.subCmpInputs.set subCmp (Function.update inputs port (some value)) }
  | .subCmpOutput subCmp port => do
    let (ports, w) ← w.outputsOf offset subCmp
    let v ← orElse (.expect s!"subcomponent output port {port} read before it was produced")
      (ports port)
    pure (w.resolve i v)

end Inlining

/-- An instance nobody has read. -/
def inlineUnread (offset : Nat) (flat : Flat) (entry : Option Inliner × Ports) :
    Except Panic Flat :=
  match entry.1 with
  | none => pure flat
  | some inline => do
    let (_, flat) ← inline flat offset entry.2
    pure flat

/-- `inline_template` of a template with these instances. -/
def inlineBody (nodes : List TemplateNode) (subGraphs : List Inliner) (flat : Flat)
    (signalOffset : Nat) (isRoot : Bool) (inputMapping : Ports) : Except Panic (Ports × Flat) := do
  let w ← nodes.zipIdx.foldlM
    (fun (w : Inlining) (node, i) => w.visit signalOffset isRoot inputMapping node i)
    (.start flat nodes subGraphs)
  let flat ← (w.subGraphs.zip w.subCmpInputs).foldlM (inlineUnread signalOffset) w.flat
  pure (w.portOutputs, flat)

mutual

/-- `inline_template`. -/
def inlineTemplate : TemplateGraph → Flat → (signalOffset : Nat) → (isRoot : Bool) → Ports →
    Except Panic (Ports × Flat)
  | .mk nodes subGraphs => inlineBody nodes (inlineInstances subGraphs)

/-- `inline_sub_graph_instance`: the offset of a compiled instance is relative to its father's. -/
def inlineSubGraphInstance : SubGraphInstance → Inliner
  | .compiled template signalOffset => fun flat parentOffset subCmpInputs =>
    inlineTemplate template flat (parentOffset + signalOffset) false subCmpInputs
  | .gadget site => inlineGadget site

def inlineInstances : List SubGraphInstance → List Inliner
  | [] => []
  | inst :: insts => inlineSubGraphInstance inst :: inlineInstances insts

end

end Frontend
end CircomMpc
