import CircomMpc.Passes.Optimize
import CircomMpc.Passes.Mpc.WideMeaning
import CircomMpc.Passes.Mpc.GadgetIndex

/-!
# The lowering

The three passes in a row. Each hands the next what it relies on — a frontend graph, a split one, a
lowered one — and preserves what the graph means: the outputs keep their signals and their values, and
every site is invoked once, on the values it was invoked on. What the lowering adds is the shape code
generation depends on.
-/

namespace CircomMpc

open Lib CircomMpc.Graph

namespace PassManager

/-- `mpc::pipeline`. -/
def pipeline : List PassFn := [MulSplit.run, RoundSchedule.run, WideSchedule.run]

/-- One lowering pass. Whether it changed anything does not matter: the pipeline runs once. -/
def lowerStep (g : Graph) (pass : PassFn) : Except Panic Graph := do
  let (g, _) ← pass g
  pure g

/-- `PassManager::run` from the lowering on. -/
def runLower (g : Graph) : Except Panic Graph := pipeline.foldlM lowerStep g

theorem lowerStep_returns {P : Graph → Prop} {g : Graph} {pass : PassFn}
    (h : Returns (fun r => P r.1) (pass g)) : Returns P (lowerStep g pass) :=
  Meets.bind h fun _ hr => hr

end PassManager

namespace Graph

/-- `g'` means what `g` means: it differs in its nodes, its outputs' values and its round count only,
    binds the same signals to the same values in the same order, and invokes every site on the
    values it was invoked on. -/
structure Implements (g g' : Graph) : Prop where
  graph : g' = { g with nodes := g'.nodes, outputs := g'.outputs, numRounds := g'.numRounds }
  outputs : List.Forall₂ (fun o o' => o'.1 = o.1 ∧ ∀ I, g'.eval I o'.2 = g.eval I o.2)
    g.outputs g'.outputs
  calls : ∀ I, (g'.calls I).Perm (g.calls I)

theorem Implements.trans {g h k : Graph} (hgh : Implements g h) (hhk : Implements h k) :
    Implements g k := by
  refine ⟨?_, ?_, fun I => (hhk.calls I).trans (hgh.calls I)⟩
  · rw [hhk.graph, hgh.graph]
  · have hout := hgh.outputs
    have hout' := hhk.outputs
    generalize g.outputs = outs at hout
    generalize h.outputs = outs' at hout hout'
    generalize k.outputs = outs'' at hout'
    induction hout generalizing outs'' with
    | nil =>
      cases hout'
      exact .nil
    | cons ho _ ih =>
      cases hout' with
      | cons ho' hrest =>
        refine .cons ⟨ho'.1.trans ho.1, fun I => ?_⟩ (ih _ hrest)
        rw [ho'.2 I, ho.2 I]

/-- Every site is still invoked once. -/
theorem Implements.sites_perm {g g' : Graph} (h : Implements g g') :
    ((invocations g'.nodes).map Prod.fst).Perm ((invocations g.nodes).map Prod.fst) := by
  have hcalls := (h.calls default).map Prod.fst
  rw [Graph.calls, Graph.calls, List.map_map, List.map_map] at hcalls
  exact hcalls

/-- Renamed outputs and reordered invocations. -/
theorem implements_of_placed {g g' : Graph} {remap : List (Option ValueId)}
    (hgraph : g' = { g with nodes := g'.nodes, outputs := g'.outputs, numRounds := g'.numRounds })
    (hplaced : ∀ I, Placed (evalRule I) g.nodes remap g'.nodes)
    (hout : Rebound remap g.outputs g'.outputs) (hcalls : ∀ I, (g'.calls I).Perm (g.calls I)) :
    Implements g g' := by
  refine ⟨hgraph, ?_, hcalls⟩
  apply List.Forall₂.imp _ hout
  rintro o o' ⟨hsignal, hren⟩
  exact ⟨hsignal, fun I => eval_of_placed (hplaced I) hren⟩

theorem Splitted.implements {g g' : Graph} {remap : List (Option ValueId)} (hg : g.Frontend)
    (h : Splitted g g' remap) : Implements g g' :=
  implements_of_placed h.graph (fun I => h.built.placed_eval hg h.bound I) h.outputs fun I => by
    rw [calls_of_placed (h.built.placed_eval hg h.bound I) h.calls]

theorem Scheduled.implements {g g' : Graph} {remap : List (Option ValueId)} (hg : g.IsSplit)
    (h : Scheduled g g' remap) : Implements g g' :=
  implements_of_placed h.graph (fun I => h.placed_eval hg I) h.outputs fun I => h.calls_perm hg I

theorem Widened.implements {g g' : Graph} {remap : List (Option ValueId)}
    {us : List WideSchedule.NodeRange} (hg : g.IsLowered) (h : Widened g g' remap us) :
    Implements g g' := by
  apply implements_of_placed _ (fun I => h.placed hg) h.outputs fun I => h.calls_perm hg I
  rw [h.graph]

/-! ## The three passes -/

/-- The graphs on the way from `g` to `g'`: the split one and the batched one, each with the
    renaming that led to it. -/
structure Lowers (g h k g' : Graph) : Prop where
  split : ∃ remap, Splitted g h remap
  batched : ∃ remap, Scheduled h k remap
  widened : ∃ remap us, Widened k g' remap us

theorem runLower_returns {g : Graph} (hg : g.Frontend) :
    Returns (fun g' => ∃ h k, Lowers g h k g') (PassManager.runLower g) := by
  unfold PassManager.runLower PassManager.pipeline
  rw [List.foldlM_cons]
  apply Meets.bind (@PassManager.lowerStep_returns (fun h => ∃ remap, Splitted g h remap) _ _
    (mulSplit_returns hg))
  rintro h ⟨remap, hs⟩
  rw [List.foldlM_cons]
  apply Meets.bind (@PassManager.lowerStep_returns (fun k => ∃ remap, Scheduled h k remap) _ _
    (roundSchedule_returns (hs.isSplit hg)))
  rintro k ⟨remap', hr⟩
  rw [List.foldlM_cons]
  apply Meets.bind (@PassManager.lowerStep_returns (fun g' => ∃ remap us, Widened k g' remap us) _ _
    (wideSchedule_returns (hr.isLowered (hs.isSplit hg))))
  rintro g' ⟨remap'', us, hw⟩
  exact ⟨h, k, ⟨remap, hs⟩, ⟨remap', hr⟩, remap'', us, hw⟩

namespace Lowers

variable {g h k g' : Graph}

theorem isSplit (hg : g.Frontend) (hl : Lowers g h k g') : h.IsSplit := by
  obtain ⟨_, hs⟩ := hl.split
  exact hs.isSplit hg

theorem isLowered_batched (hg : g.Frontend) (hl : Lowers g h k g') : k.IsLowered := by
  obtain ⟨_, hr⟩ := hl.batched
  exact hr.isLowered (hl.isSplit hg)

theorem isLowered (hg : g.Frontend) (hl : Lowers g h k g') : g'.IsLowered := by
  obtain ⟨_, _, hw⟩ := hl.widened
  exact hw.isLowered (hl.isLowered_batched hg)

theorem implements (hg : g.Frontend) (hl : Lowers g h k g') : Implements g g' := by
  obtain ⟨_, hs⟩ := hl.split
  obtain ⟨_, hr⟩ := hl.batched
  obtain ⟨_, _, hw⟩ := hl.widened
  exact ((hs.implements hg).trans (hr.implements (hl.isSplit hg))).trans
    (hw.implements (hl.isLowered_batched hg))

end Lowers

/-! ## The shape of the result -/

/-- A local product is one slot of one round, and nothing else reads it. -/
theorem IsLowered.sole_reader {g : Graph} (hg : g.IsLowered) {q : Nat} {args : List ValueId}
    (hlocal : g.nodes[q]? = some ⟨.mulLocal, args⟩) :
    ∃ r, (∃ id slots, g.nodes[r]? = some ⟨.round id, slots⟩ ∧ slots.count q = 1) ∧
      ∀ reader, g.Reads reader q → reader = r := by
  -- The slots are the local products, each once.
  have hnodup : (Graph.slots g.nodes).Nodup := hg.slots.nodup_iff.mpr (localProducts_nodup _)
  have hmem := hg.slots.mem_iff.mpr (mem_localProducts.mpr ⟨args, hlocal⟩)
  obtain ⟨id, refs, hround, hq⟩ := mem_slots.mp hmem
  obtain ⟨r, hr, hget⟩ := List.getElem_of_mem hround
  have hnode : g.nodes[r]? = some ⟨.round id, refs⟩ := hget ▸ List.getElem?_eq_getElem hr
  have hrefs : refs.Nodup := (List.nodup_flatMap.mp hnodup).1 _ hround
  refine ⟨r, ⟨id, refs, hnode, List.count_eq_one_of_mem hrefs hq⟩, ?_⟩
  rintro reader ⟨⟨op, inputs⟩, hreader, hread⟩
  -- Only a round may read an additive sharing.
  have hplain : op.isPlain = true → False := by
    intro hplain
    have hraw := hg.unread _ (List.mem_of_getElem? hreader) hplain q hread _ hlocal
    cases hraw
  cases op
  case round id' => exact index_unique_of_nodup hnodup hreader hnode hread hq
  case roundResult slot =>
    obtain ⟨r', id', refs', rfl, hslot, hround'⟩ := hg.result reader slot inputs hreader
    have hblock := hg.block r' id' refs' hround' slot hslot
    rw [hreader] at hblock
    cases hblock
    rw [List.mem_singleton.mp hread, hround'] at hlocal
    cases hlocal
  all_goals exact (hplain rfl).elim

/-- **The lowering preserves meaning and establishes its invariants.** For every well-formed
    frontend graph it returns one in topological order, with the same signals bound to the same
    values and the same calls; no product of two shares is left, every local product is one slot of
    one round and read by nothing else, and a round is followed by its results. -/
theorem lowering_preserves {g : Graph} (hg : g.Frontend) :
    ∃ g', PassManager.runLower g = .ok g' ∧ Ordered g'.nodes ∧
      List.Forall₂ (fun o o' => o'.1 = o.1 ∧ ∀ I, g'.eval I o'.2 = g.eval I o.2)
        g.outputs g'.outputs ∧
      ((invocations g'.nodes).map Prod.fst).Perm (List.range g.gadgetSites.length) ∧
      (∀ I, (g'.calls I).Perm (g.calls I)) ∧
      (∀ node ∈ g'.nodes, node.op = .mul → ∃ v ∈ node.inputs, (g'.facts v).domain ≠ .shared) ∧
      (∀ (q : Nat) (args : List ValueId), g'.nodes[q]? = some ⟨.mulLocal, args⟩ →
        ∃ r, (∃ id slots, g'.nodes[r]? = some ⟨.round id, slots⟩ ∧ slots.count q = 1) ∧
          (∀ reader, g'.Reads reader q → reader = r) ∧ ∀ o ∈ g'.outputs, o.2 ≠ q) ∧
      (∀ (r : Nat) (id : RoundId) (slots : List ValueId), g'.nodes[r]? = some ⟨.round id, slots⟩ →
        ∀ k < slots.length, g'.nodes[r + 1 + k]? = some ⟨.roundResult k, [r]⟩) ∧
      (roundIds g'.nodes).Perm (List.range g'.numRounds) := by
  obtain ⟨g', hrun, h, k, hl⟩ := (runLower_returns hg).ok_of_never
  have hlowered := hl.isLowered hg
  have himplements := hl.implements hg
  refine ⟨g', hrun, hlowered.indexed.ordered, himplements.outputs,
    himplements.sites_perm.trans hg.sites, himplements.calls, hlowered.products, ?_, hlowered.block,
    hlowered.ids⟩
  · -- An output that names a local product would be a reader other than the round.
    intro q args hlocal
    obtain ⟨r, hround, hsole⟩ := hlowered.sole_reader hlocal
    refine ⟨r, hround, hsole, ?_⟩
    rintro o ho rfl
    obtain ⟨source, hsource, hraw⟩ := hlowered.outputs o ho
    rw [hlocal] at hsource
    cases hsource
    cases hraw

theorem lowering_preserves_sample :
    ∃ g', PassManager.runLower sampleGraph = .ok g' ∧ Ordered g'.nodes ∧
      List.Forall₂ (fun o o' => o'.1 = o.1 ∧ ∀ I, g'.eval I o'.2 = sampleGraph.eval I o.2)
        sampleGraph.outputs g'.outputs ∧
      ((invocations g'.nodes).map Prod.fst).Perm (List.range sampleGraph.gadgetSites.length) ∧
      (∀ I, (g'.calls I).Perm (sampleGraph.calls I)) ∧
      (∀ node ∈ g'.nodes, node.op = .mul → ∃ v ∈ node.inputs, (g'.facts v).domain ≠ .shared) ∧
      (∀ (q : Nat) (args : List ValueId), g'.nodes[q]? = some ⟨.mulLocal, args⟩ →
        ∃ r, (∃ id slots, g'.nodes[r]? = some ⟨.round id, slots⟩ ∧ slots.count q = 1) ∧
          (∀ reader, g'.Reads reader q → reader = r) ∧ ∀ o ∈ g'.outputs, o.2 ≠ q) ∧
      (∀ (r : Nat) (id : RoundId) (slots : List ValueId), g'.nodes[r]? = some ⟨.round id, slots⟩ →
        ∀ k < slots.length, g'.nodes[r + 1 + k]? = some ⟨.roundResult k, [r]⟩) ∧
      (roundIds g'.nodes).Perm (List.range g'.numRounds) :=
  lowering_preserves (by decide)

end Graph
end CircomMpc
