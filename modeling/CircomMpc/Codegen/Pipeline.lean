import CircomMpc.Codegen.Correct
import CircomMpc.Codegen.LineUp
import CircomMpc.Codegen.Optimized

/-!
# From the frontend's graph to the witness

The passes keep what code generation asks of a graph, so a circuit goes from the frontend's graph to
its witness in one piece: optimized, lowered, compiled and run, it has the values the frontend's graph
means, or it is stopped at a round, and which of the two is decided by the order of its products
alone.

What is assumed of the frontend's graph (`Compilable`) is a statement about that graph, not about any
stage behind it: it is well formed, no slot of a site has two results, its sites have the inputs their
kinds read, and the host supplies the traces of hashes only.
-/

namespace CircomMpc

open Lib

namespace Graph

/-! ## Rounds of a lowered graph -/

/-- The lowering, stage by stage: behind the batching the rounds line up, and behind the widening they
    do if the batching left every round's products in the order of their full levels. -/
theorem lowering_rounds {g : Graph} (hg : g.Frontend) : ∃ h k g', lowerRounds g = .ok k ∧
    PassManager.runLower g = .ok g' ∧ Lowers g h k g' ∧ k.LinedUp ∧ (g'.LinedUp ↔ k.Ascending) ∧
      (g.SecretSites → k.Ascending) := by
  -- The three passes, each on what the last one left.
  obtain ⟨⟨h, c⟩, hsplit, remap, hs⟩ := (mulSplit_returns hg).ok_of_never
  have hh := hs.isSplit hg
  obtain ⟨⟨k, c'⟩, hround, remap', hr⟩ := (roundSchedule_returns hh).ok_of_never
  have hk := hr.isLowered hh
  obtain ⟨⟨g', c''⟩, hwide, remap'', us, hw, hstable⟩ := (wideSchedule_stable hk).ok_of_never
  refine ⟨h, k, g', ?_, ?_, ⟨⟨remap, hs⟩, ⟨remap', hr⟩, remap'', us, hw⟩, hr.linedUp hh,
    hw.linedUp_iff hk (hr.layered hh) (fun _ _ _ => hr.slots_pairwise hh) hstable, ?_⟩
  · unfold lowerRounds
    rw [hsplit, ok_bind]
    dsimp only
    rw [hround, ok_bind]
    rfl
  · unfold PassManager.runLower PassManager.pipeline PassManager.lowerStep
    simp only [List.foldlM_cons, List.foldlM_nil, hsplit, hround, hwide, ok_bind, pure_bind]
    rfl
  · intro hsecret
    exact (hr.secretSites hh (hs.secretSites hg hsecret)).ascending hk
      (hr.resultsRead hh (hs.resultsRead hg)) (hr.layered hh)

/-- **When the rounds of a lowered graph line up.** `round_schedule` lines them up, and
    `wide_schedule` leaves them so exactly if every round's products have ascending full levels, as
    they have where no gadget works on public values alone. -/
theorem lowered_linedUp {g : Graph} (hg : g.Frontend) : ∃ k g', lowerRounds g = .ok k ∧
    PassManager.runLower g = .ok g' ∧ k.LinedUp ∧ (g'.LinedUp ↔ k.Ascending) ∧
      (g.SecretSites → g'.LinedUp) := by
  obtain ⟨_, k, g', hrounds, hlower, _, hlined, hiff, hsecret⟩ := lowering_rounds hg
  exact ⟨k, g', hrounds, hlower, hlined, hiff, fun h => hiff.mpr (hsecret h)⟩

/-- Two secret products, of the values `x` and `y` with a secret: nodes `0` and `1` are secrets, and
    node `5` waits for a public value to be tested for zero. -/
def twoProducts (x y : ValueId) : Graph where
  nodes := [⟨.input 1, []⟩, ⟨.input 2, []⟩, ⟨.input 3, []⟩, ⟨.gadget 0, [2]⟩, ⟨.gadgetResult 0, [3]⟩,
    ⟨.add, [0, 4]⟩, ⟨.mul, [x, 1]⟩, ⟨.mul, [y, 1]⟩, ⟨.add, [6, 7]⟩]
  outputs := [(0, 8)]
  gadgetSites := [⟨.isZero, false⟩]
  numRounds := 0
  signalToWitness := [0, 1, 2, 3, 4]
  inputList := [("a", 0, 2), ("p", 2, 1)]
  publicInputs := ["p"]
  mpcPublicInputs := []
  numInputs := 3
  numOutputs := 1
  numSignals := 5

theorem lowered_linedUp_crossed : ∃ k g', lowerRounds (twoProducts 5 0) = .ok k ∧
    PassManager.runLower (twoProducts 5 0) = .ok g' ∧ k.LinedUp ∧ ¬ g'.LinedUp := by
  obtain ⟨k, g', hk, hg', hlined, hiff, _⟩ := lowered_linedUp (g := twoProducts 5 0) (by decide)
  have hcrossed : ((lowerRounds (twoProducts 5 0)).toOption.any fun k => !decide k.Ascending) = true := by
    decide +kernel
  rw [hk] at hcrossed
  refine ⟨k, g', hk, hg', hlined, fun h => ?_⟩
  simp [Except.toOption, hiff.mp h] at hcrossed

/-! ## From the inputs to the witness -/

/-- What the output bindings bind: signals and values. -/
def bound (g : Graph) (I : Interp) : List (SignalIdx × Fr) :=
  g.outputs.map fun o => (o.1, g.eval I o.2)

theorem binding_eq (g : Graph) (I : Interp) (signal : Nat) : g.binding I signal =
    ((g.bound I).filter fun b => b.1 + 1 == signal).getLast?.map Prod.snd := by
  unfold binding bound
  rw [List.filter_map, List.getLast?_map, Option.map_map]
  rfl

theorem Implements.bound_eq {g g' : Graph} (h : Implements g g') (I : Interp) :
    g'.bound I = g.bound I := by
  unfold bound
  have hout := h.outputs
  generalize g.outputs = outs at hout
  generalize g'.outputs = outs' at hout
  induction hout with
  | nil => rfl
  | cons ho _ ih => rw [List.map_cons, List.map_cons, ih, ho.1, ho.2 I]

/-- Bindings of the same signals to the same values give the signals the same values. -/
theorem Implements.signalValue {g g' : Graph} (h : Implements g g') (I : Interp) (signal : Nat) :
    g'.signalValue I signal = g.signalValue I signal := by
  have hbinding : g'.binding I signal = g.binding I signal := by
    rw [binding_eq, binding_eq, h.bound_eq]
  have hcounts : g'.numOutputs = g.numOutputs ∧ g'.numInputs = g.numInputs := by
    rw [h.graph]
    exact ⟨rfl, rfl⟩
  unfold Graph.signalValue
  rw [hbinding, hcounts.1, hcounts.2]

/-- A simplification gives the signals of the witness the same values. -/
theorem Refines.signalValue {g g' : Graph} (h : Refines g g') (I : Interp) {signal : Nat}
    (hsignal : signal ∈ g.signalToWitness) : g'.signalValue I signal = g.signalValue I signal := by
  have hcounts : g'.numOutputs = g.numOutputs ∧ g'.numInputs = g.numInputs := by
    rw [h.metadata]
    exact ⟨rfl, rfl⟩
  unfold Graph.signalValue
  rw [h.binding I signal hsignal, hcounts.1, hcounts.2]

/-- The witness a graph means, on some inputs. -/
def witnessOf (g : Graph) (host : Poseidon2.Host) (inputs : List (InputValue Fr)) : List Fr :=
  g.signalToWitness.map (g.signalValue (.plain g host (g.inputOf inputs)))

theorem Implements.witnessOf {g g' : Graph} (h : Implements g g') (host : Poseidon2.Host)
    (inputs : List (InputValue Fr)) : g'.witnessOf host inputs = g.witnessOf host inputs := by
  have hinterp : Interp.plain g' host (g'.inputOf inputs) = .plain g host (g.inputOf inputs) := by
    rw [h.graph]
    rfl
  unfold Graph.witnessOf
  rw [hinterp, show g'.signalToWitness = g.signalToWitness by rw [h.graph]]
  exact List.map_congr_left fun signal _ => h.signalValue _ signal

theorem Refines.witnessOf {g g' : Graph} (h : Refines g g') (host : Poseidon2.Host)
    (inputs : List (InputValue Fr)) : g'.witnessOf host inputs = g.witnessOf host inputs := by
  have hinterp : Interp.plain g' host (g'.inputOf inputs) = .plain g host (g.inputOf inputs) := by
    rw [h.metadata]
    rfl
  unfold Graph.witnessOf
  rw [hinterp, show g'.signalToWitness = g.signalToWitness by rw [h.metadata]]
  exact List.map_congr_left fun signal hsignal => h.signalValue _ hsignal

end Graph

namespace PassManager

/-- `PassManager::for_opt_level(opt).run`: the classical passes, then the lowering once. -/
def run (opt : OptLevel) (g : Graph) : Except Panic Graph := do
  let g ← runOptimize opt g
  runLower g

/-- The passes never panic, and leave a graph codegen takes: its rounds line up if the products of
    each have ascending full levels behind the batching, and it means the witness `g` means. -/
theorem run_ok {g : Graph} (hg : g.Compilable) (opt : OptLevel) : ∃ o k g',
    runOptimize opt g = .ok o ∧ lowerRounds o = .ok k ∧ run opt g = .ok g' ∧ g'.Emittable ∧
      (g'.LinedUp ↔ k.Ascending) ∧ (o.SecretSites → k.Ascending) ∧
        ∀ host inputs, g'.witnessOf host inputs = g.witnessOf host inputs := by
  obtain ⟨o, hoptimize, ho⟩ := (runOptimize_optimizes hg.frontend hg.slots opt).ok_of_never
  have hcompilable := hg.optimized ho
  obtain ⟨h, k, g', hrounds, hlower, hl, _, hiff, hsecret⟩ := Graph.lowering_rounds ho.refines.frontend
  refine ⟨o, k, g', hoptimize, hrounds, ?_, hl.emittable hcompilable, hiff, hsecret, ?_⟩
  · unfold run
    rw [hoptimize, ok_bind, hlower]
  · intro host inputs
    rw [(hl.implements ho.refines.frontend).witnessOf, ho.refines.witnessOf]

end PassManager

namespace Graph

/-- **From the frontend's graph to its witness.** Optimized, lowered, compiled and run on inputs of the
    declared variants, a circuit gives the witness its graph means, if the products of every round
    come in the order of their full levels; otherwise no run gets past the round where they do not. -/
theorem pipeline_runs {g : Graph} (hg : g.Compilable) (opt : OptLevel) : ∃ o k g',
    PassManager.runOptimize opt g = .ok o ∧ lowerRounds o = .ok k ∧ PassManager.run opt g = .ok g' ∧
      (o.SecretSites → k.Ascending) ∧ ∀ program, Codegen.compile g' = .ok program →
        ∀ (host : Poseidon2.Host) (inputs : List (InputValue Fr)) (queue : List (List (SiteTrace Fr))),
          program.parts.TracesFit host → program.parts.InputsMatch inputs →
            QueueMatches host program queue inputs →
            (k.Ascending → ∃ w, Vm.runPlain host program queue inputs = .ok w ∧
              w.intoFull = g.witnessOf host inputs) ∧
            (¬ k.Ascending → Vm.runPlain host program queue inputs = .error .roundMismatch) := by
  obtain ⟨o, k, g', hoptimize, hrounds, hrun, hemittable, hiff, hsecret, hwitness⟩ :=
    PassManager.run_ok hg opt
  refine ⟨o, k, g', hoptimize, hrounds, hrun, hsecret, ?_⟩
  intro program hprogram host inputs queue hfits hinputs hqueue
  obtain ⟨t, fin, hcompiled⟩ := Codegen.compile_eq_ok hemittable hprogram
  rw [← hiff, ← hwitness]
  exact hcompiled.runs hfits hinputs hqueue

/-- The optimiser has nothing to do on the chained products. -/
theorem runOptimize_chained : PassManager.runOptimize .O1 chainedProducts = .ok chainedProducts := by
  rfl

theorem secretSites_chained : chainedProducts.SecretSites := by
  intro v site args hnode
  have hmem := List.mem_of_getElem? hnode
  simp [chainedProducts] at hmem

theorem pipeline_runs_chained : ∃ g' program w, PassManager.run .O1 chainedProducts = .ok g' ∧
    Codegen.compile g' = .ok program ∧
      Vm.runPlain default program [] [.secret 2, .secret 3, .secret 5] = .ok w ∧
        w.intoFull = chainedProducts.witnessOf default [.secret 2, .secret 3, .secret 5] := by
  obtain ⟨g', program, hlower, hcompile, _, hmatch, hbatches⟩ := Codegen.chainedProducts_compiles
  obtain ⟨o, k, g'', hoptimize, _, hrun, hsecret, hruns⟩ :=
    pipeline_runs Codegen.chainedProducts_compilable .O1
  have hsame : PassManager.run .O1 chainedProducts = .ok g' := by
    unfold PassManager.run
    rw [runOptimize_chained, ok_bind, hlower]
  rw [runOptimize_chained] at hoptimize
  cases hoptimize
  rw [hsame] at hrun
  cases hrun
  obtain ⟨w, hw, hvalues⟩ := (hruns program hcompile default _ [] (.of_nil hbatches) hmatch
    (Codegen.queueMatches_nil (by simp [hbatches]))).1 (hsecret secretSites_chained)
  exact ⟨g', program, w, hsame, hcompile, hw, hvalues⟩

end Graph
end CircomMpc
