import CircomMpc.Passes.Mpc.Level

/-!
# Placing the gadget batches

`gadget_schedule`: which gadget sites are serviced in one call, and at which node of the graph. Sites
join the open batch of their key while the batch can still wait for them: its *anchor*, the last of
its sites' nodes, has to stay in front of its *deadline*, the first node that reads a result. A batch
that cannot wait any longer is left as it is and a new one is opened. Afterwards every shared batch
of one-value reveals that does nothing but open the results of a whole zero-test batch takes over
that batch's work.
-/

namespace CircomMpc

open Lib CircomMpc.Graph

namespace GadgetSchedule

/-- `usize::MAX`: a table entry nothing has been written to. -/
def usizeMax : Nat := 2 ^ 64 - 1

structure BatchPlan where
  kind : GadgetKind
  domain : Domain
  /-- Every site with its gadget node. -/
  sites : List (GadgetId × ValueId)
  anchor : Nat
  stage : Nat
  precomputed : Bool
  deadline : Nat
deriving DecidableEq, Repr

structure IsZeroRevealSite where
  zeroTestSite : GadgetId
  revealSite : GadgetId
  input : ValueId
deriving DecidableEq, Repr

structure IsZeroRevealPlan where
  anchor : Nat
  sites : List IsZeroRevealSite
deriving DecidableEq, Repr

inductive ScheduledBatch where
  | gadget (plan : BatchPlan)
  | isZeroReveal (plan : IsZeroRevealPlan)
deriving DecidableEq, Repr

/-- `ScheduledBatch::anchor`. -/
def ScheduledBatch.anchor : ScheduledBatch → Nat
  | .gadget plan => plan.anchor
  | .isZeroReveal plan => plan.anchor

/-! ## The index -/

/-- `ScheduleIndex`: for every site its node, the first reader of its results and whether a result
    other than slot zero is read; for every node how often it is read as a result. -/
structure ScheduleIndex where
  siteNode : List ValueId
  firstReader : List Nat
  resultReaders : List Nat
  auxiliaryResultRead : List Bool

namespace ScheduleIndex

/-- One input of the node at `reader`. -/
def read (g : Graph) (ix : ScheduleIndex) (reader : Nat) (input : ValueId) :
    Except Panic ScheduleIndex := do
  let result ← index g.nodes input
  match result.op with
  | .gadgetResult slot =>
    let producer ← index g.nodes (← index result.inputs 0)
    match producer.op with
    | .gadget site =>
      let resultReaders ← setIndex ix.resultReaders input ((← index ix.resultReaders input) + 1)
      let firstReader ← setIndex ix.firstReader site (min (← index ix.firstReader site) reader)
      let auxiliaryResultRead ← setIndex ix.auxiliaryResultRead site
        ((← index ix.auxiliaryResultRead site) || slot != 0)
      pure { ix with resultReaders, firstReader, auxiliaryResultRead }
    | _ => throw (.unreachable "a GadgetResult's input is always its Gadget node")
  | _ => pure ix

/-- Notes where a site's node is. -/
def noteSite (ix : ScheduleIndex) (node : Node) (reader : Nat) : Except Panic ScheduleIndex :=
  match node.op with
  | .gadget site => do
    let siteNode ← setIndex ix.siteNode site reader
    pure { ix with siteNode }
  | _ => pure ix

/-- `ScheduleIndex::new`. -/
def new (g : Graph) : Except Panic ScheduleIndex :=
  g.nodes.zipIdx.foldlM (fun ix (node, reader) => do
    let ix ← ix.noteSite node reader
    node.inputs.foldlM (fun ix input => ix.read g reader input) ix)
    { siteNode := List.replicate g.gadgetSites.length usizeMax
      firstReader := List.replicate g.gadgetSites.length g.nodes.length
      resultReaders := List.replicate g.nodes.length 0
      auxiliaryResultRead := List.replicate g.gadgetSites.length false }

end ScheduleIndex

/-! ## Plain batches -/

/-- What the sites of one batch have in common: kind, stage, domain and whether the host supplies
    the traces. -/
abbrev BatchKey := GadgetKind × Nat × Domain × Bool

/-- A site's key, its node being at `node` and on level `stage`. -/
def batchKey (site : GadgetSite) (stage : Nat) (domain : Domain) : BatchKey :=
  (site.kind, stage, domain, site.precomputed && domain == .shared)

def BatchPlan.key (plan : BatchPlan) : BatchKey :=
  (plan.kind, plan.stage, plan.domain, plan.precomputed)

/-- The variables of the planning loop. `active` is the source's hash map, newest entry first. -/
structure Planning where
  plans : List BatchPlan
  active : List (BatchKey × Nat)

/-- `active.get(&key)`. -/
def Planning.get (w : Planning) (key : BatchKey) : Option Nat :=
  (w.active.find? fun entry => entry.1 == key).map Prod.snd

/-- Whether a plan can wait for a site at `node` whose results are first read at `reader`: the later
    of the anchors has to stay in front of the earlier of the deadlines. -/
def BatchPlan.waits (plan : BatchPlan) (node reader : Nat) : Bool :=
  max plan.anchor node < min plan.deadline reader

/-- The open batch a site can join. -/
def Planning.appendTo (w : Planning) (key : BatchKey) (node reader : Nat) :
    Except Panic (Option Nat) :=
  match w.get key with
  | some idx => do
    let plan ← index w.plans idx
    pure (if plan.waits node reader then some idx else none)
  | none => pure none

/-- One site: it joins the open batch of its key if that can wait, and otherwise opens the next one,
    which the key's entry then points at. -/
def planSite (g : Graph) (domains : List Domain) (stages : List Nat) (ix : ScheduleIndex)
    (w : Planning) (siteId : GadgetId) : Except Panic Planning := do
  let site ← index g.gadgetSites siteId
  let node ← index ix.siteNode siteId
  let stage ← index stages siteId
  let domain ← index domains node
  -- A precomputed site that turns out public is an ordinary one.
  let key := batchKey site stage domain
  let reader ← index ix.firstReader siteId
  match ← w.appendTo key node reader with
  | some idx => do
    let plan ← index w.plans idx
    let plans ← setIndex w.plans idx { plan with
      sites := plan.sites ++ [(siteId, node)]
      anchor := max plan.anchor node
      deadline := min plan.deadline reader }
    pure { w with plans }
  | none =>
    pure {
      plans := w.plans ++ [{
        kind := site.kind
        domain
        sites := [(siteId, node)]
        anchor := node
        stage
        precomputed := site.precomputed && domain == .shared
        deadline := reader }]
      active := (key, w.plans.length) :: w.active }

/-- The sort key of a finished plan: its stage, then its first site. -/
def BatchPlan.before (a b : BatchPlan) : Bool :=
  let first := fun plan : BatchPlan => (plan.sites.map Prod.fst).headD 0
  a.stage < b.stage || (a.stage == b.stage && first a ≤ first b)

/-- `plan_plain_batches`. Every site has an entry in `siteNode`, and every plan a first site, so no
    sort key is past the end. -/
def planPlainBatches (g : Graph) (domains : List Domain) (ix : ScheduleIndex) :
    Except Panic (List BatchPlan) := do
  if g.gadgetSites.isEmpty then pure []
  else
    let stages ← siteStages g domains
    let order := (List.range g.gadgetSites.length).mergeSort fun a b =>
      ix.siteNode.getD a usizeMax ≤ ix.siteNode.getD b usizeMax
    let w ← order.foldlM (planSite g domains stages ix) ⟨[], []⟩
    pure (w.plans.mergeSort BatchPlan.before)

/-! ## Fusion -/

/-- `match_fusion_site`. -/
def matchFusionSite (nodes : List Node) (ix : ScheduleIndex) (sitePlan : List Nat)
    (revealSite : GadgetId) (revealNode : ValueId) :
    Except Panic (Option (Nat × IsZeroRevealSite)) := do
  match (← index nodes revealNode).inputs with
  | [zeroTestResult] =>
    let result ← index nodes zeroTestResult
    if result.op ≠ .gadgetResult 0 then return none
    if (← index ix.resultReaders zeroTestResult) ≠ 1 then return none
    let zeroTestNode ← index nodes (← index result.inputs 0)
    match zeroTestNode.op, zeroTestNode.inputs with
    | .gadget zeroTestSite, [input] =>
      if ← index ix.auxiliaryResultRead zeroTestSite then return none
      let sourcePlan ← index sitePlan zeroTestSite
      if sourcePlan = usizeMax then return none
      return some (sourcePlan, { zeroTestSite, revealSite, input })
    | _, _ => return none
  | _ => return none

/-- One site of `match_fusion_batch`: it has to come from the plan the sites before it came from. -/
def matchFusionStep (nodes : List Node) (ix : ScheduleIndex) (sitePlan : List Nat)
    (found : Option (Option Nat × List IsZeroRevealSite)) (entry : GadgetId × ValueId) :
    Except Panic (Option (Option Nat × List IsZeroRevealSite)) :=
  match found with
  | none => pure none
  | some (sourcePlan, sites) => do
    match ← matchFusionSite nodes ix sitePlan entry.1 entry.2 with
    | none => pure none
    | some (source, site) =>
      if sourcePlan.any (· != source) then pure none
      else pure (some (some source, sites ++ [site]))

/-- `match_fusion_batch`. -/
def matchFusionBatch (g : Graph) (plan : BatchPlan) (ix : ScheduleIndex) (sitePlan : List Nat) :
    Except Panic (Option (Nat × List IsZeroRevealSite)) := do
  let found ← plan.sites.foldlM (matchFusionStep g.nodes ix sitePlan) (some (none, []))
  pure (found.bind fun (sourcePlan, sites) => sourcePlan.map (·, sites))

/-- Which plan every site is in. -/
def sitePlans (sites : Nat) (plans : List BatchPlan) : Except Panic (List Nat) :=
  plans.zipIdx.foldlM (fun sitePlan (plan, planIdx) =>
    plan.sites.foldlM (fun sitePlan entry => setIndex sitePlan entry.1 planIdx) sitePlan)
    (List.replicate sites usizeMax)

/-- The variables of the fusion loop. -/
structure Fusing where
  replacedSources : List Bool
  replacements : List (Option IsZeroRevealPlan)

/-- One plan of the fusion loop. Only a shared batch of one-value reveals is looked at, and the
    source asserts that no two of them claim one batch of zero tests. -/
def fuseStep (g : Graph) (plans : List BatchPlan) (ix : ScheduleIndex) (sitePlan : List Nat)
    (w : Fusing) (revealPlan : BatchPlan) (revealPlanIdx : Nat) : Except Panic Fusing := do
  if revealPlan.domain ≠ .shared ∨ revealPlan.kind ≠ .reveal 1 then return w
  match ← matchFusionBatch g revealPlan ix sitePlan with
  | none => return w
  | some (sourcePlan, sites) =>
    let source ← index plans sourcePlan
    if source.domain ≠ .shared ∨ source.kind ≠ .isZero ∨ source.sites.length ≠ sites.length then
      return w
    ensure (¬ (← index w.replacedSources sourcePlan))
      (.assertion "a result cannot have two sole readers")
    let replacedSources ← setIndex w.replacedSources sourcePlan true
    let replacements ← setIndex w.replacements revealPlanIdx
      (some { anchor := revealPlan.anchor, sites })
    return { replacedSources, replacements }

/-- What becomes of one plan. -/
def fused (w : Fusing) (plan : BatchPlan) (idx : Nat) : Except Panic (Option ScheduledBatch) := do
  if ← index w.replacedSources idx then pure none
  else
    match ← index w.replacements idx with
    | some fusion => pure (some (.isZeroReveal fusion))
    | none => pure (some (.gadget plan))

/-- What becomes of every plan. -/
def outcomes (w : Fusing) (plans : List BatchPlan) : Except Panic (List (Option ScheduledBatch)) :=
  plans.zipIdx.mapM fun (plan, idx) => fused w plan idx

/-- `fuse_zero_test_reveals`. -/
def fuseZeroTestReveals (g : Graph) (plans : List BatchPlan) (ix : ScheduleIndex) :
    Except Panic (List ScheduledBatch) := do
  let sitePlan ← sitePlans g.gadgetSites.length plans
  let w ← plans.zipIdx.foldlM (fun w (plan, idx) => fuseStep g plans ix sitePlan w plan idx)
    { replacedSources := List.replicate plans.length false
      replacements := List.replicate plans.length none }
  pure ((← outcomes w plans).filterMap id)

end GadgetSchedule

/-- `plan_gadget_batches`. -/
def planGadgetBatches (g : Graph) (domains : List Domain) :
    Except Panic (List GadgetSchedule.ScheduledBatch) := do
  let ix ← GadgetSchedule.ScheduleIndex.new g
  let plans ← GadgetSchedule.planPlainBatches g domains ix
  GadgetSchedule.fuseZeroTestReveals g plans ix

end CircomMpc
