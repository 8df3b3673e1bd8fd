import CircomMpc.Codegen.Emit

/-!
# From the walk to a program

The batches' tables follow the sites of each plan and, within a site, the slots that are left; the
witness is read off where the values ended up, the last binding of a signal standing. What comes out
is validated like any program that is read from a file.

So `compile` may refuse what it has built, and that it does not is no assumption of the results here:
they are about the programs it returns.
-/

namespace CircomMpc

open Lib CircomMpc.Graph

namespace Codegen

open GadgetSchedule

/-! ## Batches -/

/-- The variables of one batch's tables. -/
structure Rows where
  inputSlots : List SiteInput
  requests : List ResultSlot
  offsets : List Nat
  targets : List ResultTarget
deriving DecidableEq, Repr

def Rows.start : Rows := ⟨[], [], [0], []⟩

/-- The results of one site, `shift` slots up, into `bank`. -/
def siteTargets (gadgets : GadgetResultLayout) (site : GadgetId) (bank : Bank) (shift : Nat) :
    Except Panic (List (ResultSlot × ResultTarget)) := do
  let slots ← index gadgets.liveSlots site
  slots.zipIdx.mapM fun (logical, pos) => do
    let node ← index (← index gadgets.liveNodes site) pos
    let phys ← orElse (.expect "every live gadget result has a physical slot")
      (← index gadgets.resultPhys node)
    pure (⟨shift + logical⟩, ⟨bank, ⟨phys⟩⟩)

/-- One site's row. -/
def Rows.push (w : Rows) (inputs : List SiteInput) (row : List (ResultSlot × ResultTarget)) : Rows where
  inputSlots := w.inputSlots ++ inputs
  requests := w.requests ++ row.map Prod.fst
  offsets := w.offsets ++ [w.requests.length + row.length]
  targets := w.targets ++ row.map Prod.snd

/-- One site of `assemble_fused_batch`: the zero test's results, then the opened one behind them. -/
def fusedSite (gadgets : GadgetResultLayout) (siteInputs : List (List SiteInput)) (w : Rows)
    (site : IsZeroRevealSite) : Except Panic Rows := do
  let source ← index gadgets.siteResultBase site.zeroTestSite
  ensure (source.bank = .shared)
    (.assertion "an IsZero fused into IsZeroReveal must have Shared results")
  let zeroTest ← siteTargets gadgets site.zeroTestSite .shared 0
  ensure (∀ r ∈ zeroTest, r.1.index ≤ 1) (.assertion "IsZero has exactly two result slots")
  let opened ← index gadgets.siteResultBase site.revealSite
  ensure (opened.bank = .public)
    (.assertion "the Reveal half of an IsZeroReveal fusion must have Public results")
  let reveal ← siteTargets gadgets site.revealSite .public 2
  ensure (∀ r ∈ reveal, r.1.index = 2)
    (.assertion "a fused Reveal(1) site has exactly one logical result slot")
  let input ← index (← index siteInputs site.zeroTestSite) 0
  pure (w.push [input] (zeroTest ++ reveal))

/-- `assemble_fused_batch`. -/
def assembleFusedBatch (gadgets : GadgetResultLayout) (siteInputs : List (List SiteInput))
    (fusion : IsZeroRevealPlan) : Except Panic GadgetBatch := do
  let w ← fusion.sites.foldlM (fusedSite gadgets siteInputs) .start
  pure {
    kind := .isZeroReveal
    sites := fusion.sites.length
    inputSlots := w.inputSlots
    resultRequests := w.requests
    resultOffsets := w.offsets
    resultTargets := w.targets }

/-- One site of `assemble_normal_batch`. -/
def normalSite (gadgets : GadgetResultLayout) (siteInputs : List (List SiteInput)) (plan : BatchPlan)
    (w : Rows) (site : GadgetId × ValueId) : Except Panic Rows := do
  let inputs ← index siteInputs site.1
  let base ← index gadgets.siteResultBase site.1
  let bank ← orElse (.expect "already validated while reserving site_result_base")
    (gadgetResultBank plan.kind plan.domain plan.precomputed).toOption
  ensure (base.bank = bank)
    (.assertion "a site's result bank must not change between reservation and assembly")
  pure (w.push inputs (← siteTargets gadgets site.1 base.bank 0))

/-- The service of a plan. -/
def planKind (plan : BatchPlan) : Except Panic BatchKind :=
  if plan.precomputed then
    match plan.kind with
    | .poseidon2 t => pure (.precomputedPoseidon2 t)
    | _ => throw (.unreachable "a precomputed plan is always Poseidon2")
  else pure (.gadget plan.kind)

/-- `assemble_normal_batch`. -/
def assembleNormalBatch (gadgets : GadgetResultLayout) (siteInputs : List (List SiteInput))
    (plan : BatchPlan) : Except Panic GadgetBatch := do
  let w ← plan.sites.foldlM (normalSite gadgets siteInputs plan) .start
  let kind ← planKind plan
  pure {
    kind
    sites := plan.sites.length
    inputSlots := w.inputSlots
    resultRequests := w.requests
    resultOffsets := w.offsets
    resultTargets := w.targets }

/-- One batch of `assemble_batches`. -/
def assembleBatch (gadgets : GadgetResultLayout) (siteInputs : List (List SiteInput)) :
    ScheduledBatch → Except Panic GadgetBatch
  | .isZeroReveal fusion => assembleFusedBatch gadgets siteInputs fusion
  | .gadget plan => assembleNormalBatch gadgets siteInputs plan

/-! ## The witness -/

/-- Writes one entry of the table of signal sources. -/
def setSource (sources : List (Option WitnessSource)) (signal : Nat) (source : WitnessSource)
    (error : CodegenError) : Except CodegenError (List (Option WitnessSource)) :=
  if signal < sources.length then pure (sources.set signal (some source)) else throw error

/-- One output binding. -/
def outputSource (g : Graph) (slot : List (Option Loc)) (sources : List (Option WitnessSource))
    (output : SignalIdx × ValueId) : Except CodegenError (List (Option WitnessSource)) := do
  let loc ← lift (Emitter.resolve "output value not yet resolved" slot output.2)
  ensure (loc.bank ≠ .local) .localOutput
  setSource sources (output.1 + 1) (.slot loc.bank ⟨loc.index⟩)
    (.outputSignal (output.1 + 1) g.numSignals)

/-- One input. -/
def inputSource (g : Graph) (sources : List (Option WitnessSource)) (inputIndex : Nat) :
    Except CodegenError (List (Option WitnessSource)) :=
  setSource sources (g.numOutputs + inputIndex + 1) (.input ⟨inputIndex⟩)
    (.inputSignal (g.numOutputs + inputIndex + 1) g.numSignals)

/-- `build_witness_sources`. A graph without a witness projection has no witness. -/
def buildWitnessSources (g : Graph) (slot : List (Option Loc)) :
    Except CodegenError (List WitnessSource) :=
  if g.signalToWitness.isEmpty then pure []
  else do
    let sources ← setSource (List.replicate g.numSignals none) 0 .one .noConstantOne
    let sources ← g.outputs.foldlM (outputSource g slot) sources
    let sources ← (List.range g.numInputs).foldlM (inputSource g) sources
    pure (g.signalToWitness.map fun signal => sources[signal]?.join.getD .zero)

/-- `num_public_witness`: the constant one, the circuit's outputs, and its declared public inputs. -/
def numPublicWitness (g : Graph) (inputSignals : List InputSignal) : Except CodegenError Nat :=
  g.publicInputs.foldlM (fun count name => do
    let signal ← orElse (.noInputSignal name) (inputSignals.find? fun signal => signal.name == name)
    pure (count + signal.size)) (1 + g.numOutputs)

/-! ## The compiler's back end -/

/-- What `compile` hands to `Program::new`. -/
def emit (g : Graph) : Except CodegenError ProgramParts := do
  let domain ← lift (computeDomains g)
  let lastUse ← lift (computeLastUse g)
  let (schedule, lastUse) ← lift (planBatches g domain lastUse)
  let reservation ← reserveSlots g domain
  let e ← (Emitter.new g reservation lastUse).run g domain schedule reservation.gadgets 0
  let batches ← lift (schedule.plans.mapM (assembleBatch reservation.gadgets e.siteInputs))
  let witnessSources ← buildWitnessSources g e.slot
  let numPublicWitness ← numPublicWitness g reservation.inputSignals
  pure {
    instructions := e.instructions
    constants := reservation.constants
    inputDomains := reservation.inputDomains
    inputs := reservation.inputBindings
    inputSignals := reservation.inputSignals
    rounds := e.rounds
    roundOperands := e.roundOperands
    roundResults := e.roundResults
    gadgetBatches := batches
    witnessSources
    numInputs := g.numInputs
    slots := ⟨e.arena.p.next, e.arena.s.next, e.arena.l.next⟩
    numPublicWitness }

/-- `compile`. -/
def compile (g : Graph) : Except CodegenError Program := do
  match Program.new (← emit g) with
  | .ok program => pure program
  | .error e => throw (.malformed e)

end Codegen
end CircomMpc
