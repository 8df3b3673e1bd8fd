import CircomMpc.Codegen.Arena

/-!
# What is decided before the walk

`plan_batches` and `reserve_slots`: which gadget batch runs at which node, how long its inputs have to
stay alive for it, and the region in front of each bank that is never recycled. Constants, gadget
results and the inputs a graph still reads have their slots there.

The three kinds are reserved one after the other, by a loop each, and a bank's cursor runs through all
of them.
-/

namespace CircomMpc

open Lib CircomMpc.Graph

namespace Codegen

open GadgetSchedule

/-! ## The batches -/

/-- `BatchSchedule`: the batches, and for each node those serviced right behind it, in the order
    they are serviced in. -/
structure BatchSchedule where
  plans : List ScheduledBatch
  batchesAt : List (List Nat)
deriving DecidableEq, Repr

/-- The values one batch reads. -/
def batchInputs (nodes : List Node) : ScheduledBatch → Except Panic (List ValueId)
  | .gadget plan => do
    let inputs ← plan.sites.mapM fun (_, siteNode) => do
      pure (← index nodes siteNode).inputs
    pure inputs.flatten
  | .isZeroReveal fusion => pure (fusion.sites.map (·.input))

/-- A batch's inputs are needed until it runs. -/
def extendUses (nodes : List Node) (lastUse : List Nat) (plan : ScheduledBatch) :
    Except Panic (List Nat) := do
  (← batchInputs nodes plan).foldlM (fun lastUse input => do
    setIndex lastUse input (max (← index lastUse input) plan.anchor)) lastUse

/-- `plan_batches`. -/
def planBatches (g : Graph) (domain : List Domain) (lastUse : List Nat) :
    Except Panic (BatchSchedule × List Nat) := do
  let plans ← planGadgetBatches g domain
  let lastUse ← plans.foldlM (extendUses g.nodes) lastUse
  let batchesAt ← plans.zipIdx.foldlM (fun batchesAt (plan, batchIdx) =>
    pushAt batchesAt plan.anchor batchIdx) (List.replicate g.nodes.length [])
  pure (⟨plans, batchesAt⟩, lastUse)

/-! ## Reserved slots -/

/-- The next slot of each bank. -/
structure Cursors where
  p : Nat
  s : Nat
deriving DecidableEq, Repr

/-- The next slot of a bank, and the cursor behind `count` of them. -/
def Cursors.take (next : Cursors) (count : Nat) : Bank → Except CodegenError (Nat × Cursors)
  | .public => pure (next.p, { next with p := next.p + count })
  | .shared => pure (next.s, { next with s := next.s + count })
  | .local => throw (.panic (.unreachable "gadget_result_bank never returns Local"))

/-- `GadgetResultLayout`: for every site the logical slots that are left, with their nodes, and where
    the physical ones are. -/
structure GadgetResultLayout where
  liveSlots : List (List Nat)
  liveNodes : List (List ValueId)
  resultPhys : List (Option Nat)
  siteResultBase : List Loc
deriving DecidableEq, Repr

/-- `Reservation`. -/
structure Reservation where
  slot : List (Option Loc)
  constants : List Fr
  gadgets : GadgetResultLayout
  inputDomains : List Bank
  inputBindings : List InputBinding
  inputSignals : List InputSignal
  next : Cursors

/-- The constants, in graph order, from the front of the public bank. -/
def reserveConstants (g : Graph) : Except Panic (List (Option Loc) × List Fr) :=
  g.nodes.zipIdx.foldlM (fun (slot, constants) (node, i) =>
    match node.op with
    | .constant c => do
      pure (← setIndex slot i (some ⟨.public, constants.length⟩), constants ++ [c])
    | _ => pure (slot, constants))
    (List.replicate g.nodes.length none, [])

/-- The domain of every site's node. -/
def siteDomains (g : Graph) (domain : List Domain) : Except Panic (List Domain) :=
  g.nodes.zipIdx.foldlM (fun domains (node, i) =>
    match node.op with
    | .gadget site => do setIndex domains site (← index domain i)
    | _ => pure domains) (List.replicate g.gadgetSites.length .public)

/-- `push` onto both tables of one site. -/
def noteResult (g : Graph) (live : List (List Nat) × List (List ValueId)) (node : Node)
    (i : ValueId) : Except Panic (List (List Nat) × List (List ValueId)) :=
  match node.op with
  | .gadgetResult k => do
    match (← index g.nodes (← index node.inputs 0)).op with
    | .gadget site => do pure (← pushAt live.1 site k, ← pushAt live.2 site i)
    | _ => throw (.unreachable "a GadgetResult's input is always its Gadget node")
  | _ => pure live

/-- The results that are left of every site: slots and nodes. -/
def liveResults (g : Graph) : Except Panic (List (List Nat) × List (List ValueId)) :=
  g.nodes.zipIdx.foldlM (fun live (node, i) => noteResult g live node i)
    (List.replicate g.gadgetSites.length [], List.replicate g.gadgetSites.length [])

/-- The variables of the loop over the sites. -/
structure Reserving where
  resultPhys : List (Option Nat)
  siteResultBase : List Loc
  next : Cursors

/-- One site of `reserve_gadget_results`. -/
def reserveSite (siteDomains : List Domain) (liveNodes : List (List ValueId)) (w : Reserving)
    (site : GadgetSite) (siteId : GadgetId) : Except CodegenError Reserving := do
  let domain ← lift (index siteDomains siteId)
  -- A precomputed site that turns out public is an ordinary one.
  let precomputed := site.precomputed && domain == .shared
  let bank ← gadgetResultBank site.kind domain precomputed
  let nodes ← lift (index liveNodes siteId)
  let (base, next) ← w.next.take nodes.length bank
  let resultPhys ← lift (nodes.zipIdx.foldlM (fun resultPhys (node, pos) =>
    setIndex resultPhys node (some (base + pos))) w.resultPhys)
  pure { resultPhys, siteResultBase := w.siteResultBase ++ [⟨bank, base⟩], next }

/-- `reserve_gadget_results`. -/
def reserveGadgetResults (g : Graph) (domain : List Domain) (next : Cursors) :
    Except CodegenError (GadgetResultLayout × Cursors) := do
  let siteDomains ← lift (siteDomains g domain)
  let (liveSlots, liveNodes) ← lift (liveResults g)
  ensure (∀ slots ∈ liveSlots, (windows slots).all fun w => decide (w.1 < w.2))
    (.panic (.assertion "a site's surviving GadgetResult nodes must stay in ascending slot order"))
  let w ← g.gadgetSites.zipIdx.foldlM
    (fun w (site, siteId) => reserveSite siteDomains liveNodes w site siteId)
    ⟨List.replicate g.nodes.length none, [], next⟩
  pure (⟨liveSlots, liveNodes, w.resultPhys, w.siteResultBase⟩, w.next)

/-- The bank of an input's domain. -/
def inputDomain (g : Graph) (inputIndex : Nat) : Except Panic Bank :=
  match signalDomain g (g.numOutputs + inputIndex) with
  | .public => pure .public
  | .shared => pure .shared
  | .local => throw (.unreachable "signal_domain never returns Local")

/-- The variables of the loop over the input nodes. -/
structure ReservingInputs where
  slot : List (Option Loc)
  bindings : List InputBinding
  next : Cursors

/-- One node of `reserve_inputs`. -/
def reserveInput (g : Graph) (inputDomains : List Bank) (w : ReservingInputs) (node : Node)
    (i : ValueId) : Except CodegenError ReservingInputs :=
  match node.op with
  | .input signal => do
    ensure (g.numOutputs ≤ signal) (.panic (.assertion "attempt to subtract with overflow"))
    let inputIndex := signal - g.numOutputs
    let bank ← lift (index inputDomains inputIndex)
    let (slotIndex, next) ← w.next.take 1 bank
    let slot ← lift (setIndex w.slot i (some ⟨bank, slotIndex⟩))
    pure { slot, bindings := w.bindings ++ [⟨bank, ⟨slotIndex⟩, ⟨inputIndex⟩⟩], next }
  | _ => pure w

/-- `reserve_inputs`. -/
def reserveInputs (g : Graph) (slot : List (Option Loc)) (next : Cursors) :
    Except CodegenError (List Bank × ReservingInputs) := do
  let inputDomains ← lift ((List.range g.numInputs).mapM (inputDomain g))
  let w ← g.nodes.zipIdx.foldlM (fun w (node, i) => reserveInput g inputDomains w node i)
    ⟨slot, [], next⟩
  pure (inputDomains, w)

/-- `reserve_slots`. -/
def reserveSlots (g : Graph) (domain : List Domain) : Except CodegenError Reservation := do
  let (slot, constants) ← lift (reserveConstants g)
  let (gadgets, next) ← reserveGadgetResults g domain ⟨constants.length, 0⟩
  let (inputDomains, w) ← reserveInputs g slot next
  pure {
    slot := w.slot
    constants
    gadgets
    inputDomains
    inputBindings := w.bindings
    inputSignals := g.inputList.map fun (name, offset, size) => ⟨name, offset, size⟩
    next := w.next }

end Codegen
end CircomMpc
