import CircomMpc.Passes.ConstFold
import CircomMpc.Passes.Cse
import CircomMpc.Passes.DeadCode

/-!
# The optimisation loop

`PassManager` runs the classical passes of its level in order, again and again until none of them
changes anything, four times at most. Each pass is a simplification, so the loop is one, however
often it turns and whichever passes the level has.

The bound is a constant of the source, so the loop is a recursion on it. That it is never reached
before the loop has settled is no part of this module.
-/

namespace CircomMpc

open Lib CircomMpc.Graph

/-- Which classical passes run: dead code at every level, constant folding from one on, common
    subexpressions at two. -/
inductive OptLevel where
  /-- Dead code elimination only. -/
  | O0
  /-- Dead code elimination and constant folding. -/
  | O1
  /-- Adds common subexpressions. -/
  | O2
deriving DecidableEq, Repr

namespace PassManager

/-- One pass: the new graph, and whether it changed anything. -/
abbrev PassFn := Graph → Except Panic (Graph × Bool)

/-- `PassManager::for_opt_level`, the optimising half. -/
def optimize : OptLevel → List PassFn
  | .O0 => [DeadCode.run]
  | .O1 => [DeadCode.run, ConstFold.run]
  | .O2 => [DeadCode.run, ConstFold.run, Cse.run]

/-- `PassManager::max_iterations`. -/
def maxIterations : Nat := 4

/-- One turn of the loop: every pass once. -/
def iteration (passes : List PassFn) (g : Graph) : Except Panic (Graph × Bool) :=
  passes.foldlM (fun acc pass => do
    let (g, changed) ← pass acc.1
    pure (g, acc.2 || changed)) (g, false)

/-- At most `n` turns, stopping behind the first that changes nothing. The bound is the source's; a
    loop that runs into it returns what it has. -/
def fixpoint (passes : List PassFn) : Nat → Graph → Except Panic Graph
  | 0, g => pure g
  | n + 1, g => do
    let (g, changed) ← iteration passes g
    if changed then fixpoint passes n g else pure g

/-- `PassManager::run` up to the lowering. -/
def runOptimize (opt : OptLevel) (g : Graph) : Except Panic Graph :=
  fixpoint (optimize opt) maxIterations g

/-! ## The loop simplifies -/

/-- A pass that simplifies every well-formed graph it is given. -/
def Simplifies (pass : PassFn) : Prop :=
  ∀ g : Graph, g.Frontend → Returns (fun r => Refines g r.1) (pass g)

theorem optimize_simplifies (opt : OptLevel) : ∀ pass ∈ optimize opt, Simplifies pass := by
  have hdead : Simplifies DeadCode.run := fun _ hg => DeadCode.run_returns hg
  have hfold : Simplifies ConstFold.run := fun _ hg => ConstFold.run_returns hg
  have hcse : Simplifies Cse.run := fun _ hg => Cse.run_returns hg
  cases opt with
  | O0 => simpa [optimize] using hdead
  | O1 => simpa [optimize] using ⟨hdead, hfold⟩
  | O2 => simpa [optimize] using ⟨hdead, hfold, hcse⟩

theorem iteration_returns {passes : List PassFn} (hpasses : ∀ pass ∈ passes, Simplifies pass)
    {g : Graph} (hg : g.Frontend) : Returns (fun r => Refines g r.1) (iteration passes g) := by
  have hstart : Refines g (g, false).1 := Refines.refl hg
  unfold iteration
  refine Meets.foldlM hstart ?_
  intro pass hpass acc hacc
  apply Meets.bind (hpasses pass hpass acc.1 hacc.frontend)
  intro r hr
  exact hacc.trans hr

theorem fixpoint_returns {passes : List PassFn} (hpasses : ∀ pass ∈ passes, Simplifies pass) :
    ∀ (n : Nat) {g : Graph}, g.Frontend → Returns (Refines g) (fixpoint passes n g) := by
  intro n
  induction n with
  | zero =>
    intro g hg
    exact Refines.refl hg
  | succ n ih =>
    intro g hg
    apply Meets.bind (iteration_returns hpasses hg)
    intro r hr
    show Returns (Refines g) (if r.2 then fixpoint passes n r.1 else pure r.1)
    split
    · apply (ih hr.frontend).post
      intro g' hg'
      exact hr.trans hg'
    · exact hr

end PassManager

/-- **The classical passes preserve the witness.** On a well-formed frontend graph, at every
    optimisation level, the loop returns a graph that is well formed — ordered, with one gadget node
    for every site — that invokes the same sites in the same order with the same input values, and
    that binds the same value, or none where there was none, at every witness position. -/
theorem optimize_preserves_witness {g : Graph} (hg : g.Frontend) (opt : OptLevel) :
    ∃ g', PassManager.runOptimize opt g = .ok g' ∧ g'.Frontend ∧
      g' = { g with nodes := g'.nodes, outputs := g'.outputs } ∧
      ∀ I : Interp, g'.calls I = g.calls I ∧
        ∀ (j signal : Nat), g.signalToWitness[j]? = some signal →
          g'.binding I signal = g.binding I signal := by
  have hloop := PassManager.fixpoint_returns (PassManager.optimize_simplifies opt)
    PassManager.maxIterations hg
  obtain ⟨g', hrun, hrefines⟩ := hloop.ok_of_never
  refine ⟨g', hrun, hrefines.frontend, hrefines.metadata, ?_⟩
  intro I
  refine ⟨hrefines.calls I, ?_⟩
  intro j signal hsignal
  exact hrefines.binding I signal (List.mem_of_getElem? hsignal)

/-- `a + 0` with a constant zero, a dead product, an unread site, and one signal bound twice. -/
def sampleGraph : Graph where
  nodes := [⟨.input 1, []⟩, ⟨.constant 0, []⟩, ⟨.add, [0, 1]⟩, ⟨.mul, [0, 0]⟩,
    ⟨.gadget 0, [2]⟩, ⟨.gadgetResult 0, [4]⟩, ⟨.add, [1, 0]⟩]
  outputs := [(0, 0), (0, 6), (2, 3)]
  gadgetSites := [⟨.isZero, false⟩]
  numRounds := 0
  signalToWitness := [0, 1, 2]
  inputList := [("a", 0, 1)]
  publicInputs := []
  mpcPublicInputs := []
  numInputs := 1
  numOutputs := 1
  numSignals := 4

theorem optimize_preserves_witness_sample :
    ∃ g', PassManager.runOptimize .O2 sampleGraph = .ok g' ∧ g'.Frontend ∧
      g' = { sampleGraph with nodes := g'.nodes, outputs := g'.outputs } ∧
      ∀ I : Interp, g'.calls I = sampleGraph.calls I ∧
        ∀ (j signal : Nat), sampleGraph.signalToWitness[j]? = some signal →
          g'.binding I signal = sampleGraph.binding I signal :=
  optimize_preserves_witness (by decide) .O2

end CircomMpc
