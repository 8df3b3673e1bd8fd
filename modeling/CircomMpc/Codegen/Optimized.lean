import CircomMpc.Codegen.Kept
import CircomMpc.Passes.Optimize

/-!
# What codegen relies on survives the optimiser

The classical passes keep every result node of a gadget site, or drop it: none of them makes one. So
a site's slots stay apart, and a graph codegen can take through the lowering is still one when the
optimiser is done with it.

The loop is followed by one more fact than for its meaning: every impure node of the new graph is an
old one's (`Sourced`).
-/

namespace CircomMpc

open Lib

namespace Graph

section Rewrite

variable {σ : Type} {g : Graph}

/-- The impure nodes of what the loop has built come from the old graph. -/
def Sourced (g : Graph) (w : Rewriting σ) : Prop :=
  ∀ (t : Nat) (new : Node), w.nodes[t]? = some new → new.op.isPure = false →
    ∃ (j : Nat) (old : Node), w.remap[j]? = some (some t) ∧ g.nodes[j]? = some old ∧
      new.op = old.op ∧ Renamed w.remap old.inputs new.inputs

theorem Sourced.after {i : Nat} {node : Node} {w : Rewriting σ} {inputs : List ValueId} {s : σ}
    {action : RewriteAction} (hnode : g.nodes[i]? = some node)
    (hreached : Reached g.nodes.length i w.remap) (hren : Renamed w.remap node.inputs inputs)
    (hanswer : Answers w.nodes ⟨node.op, inputs⟩ action) (h : Sourced g w) :
    Sourced g (w.after i ⟨node.op, inputs⟩ s action) := by
  have hstays : ∀ {olds news : List ValueId} {t : Option ValueId}, Renamed w.remap olds news →
      Renamed (w.remap.set i t) olds news :=
    fun hold => List.Forall₂.imp (fun _ _ hvu => hreached.stays hvu) hold
  intro t new hget himpure
  by_cases ht : t < w.nodes.length
  · have hold : w.nodes[t]? = some new := by
      rw [← List.getElem?_append_left ht]
      exact hget
    obtain ⟨j, old, hjt, hj, hop, hrenamed⟩ := h t new hold himpure
    exact ⟨j, old, hreached.stays hjt, hj, hop, hstays hrenamed⟩
  · have hpushed : (action.pushed ⟨node.op, inputs⟩)[t - w.nodes.length]? = some new := by
      rw [← List.getElem?_append_right (Nat.le_of_not_lt ht)]
      exact hget
    cases hanswer with
    | keep =>
      have hlt := (List.getElem?_eq_some_iff.mp hpushed).1
      have heq : t = w.nodes.length := by
        have : ([⟨node.op, inputs⟩] : List Node).length = 1 := rfl
        simp only [RewriteAction.pushed, List.length_cons, List.length_nil] at hlt
        omega
      subst heq
      rw [Nat.sub_self] at hpushed
      cases hpushed
      have hi : i < w.remap.length := by
        rw [hreached.length]
        exact (List.getElem?_eq_some_iff.mp hnode).1
      exact ⟨i, node, List.getElem?_set_self hi, hnode, rfl, hstays hren⟩
    | same target _ _ _ _ => cases hpushed
    | constant c _ _ =>
      have hmem := List.mem_of_getElem? hpushed
      rw [List.mem_singleton.mp hmem] at himpure
      cases himpure

/-- A callback that only simplifies keeps a site's slots apart. -/
theorem classical_slots {f : Callback σ} {state : σ} (hg : g.Frontend)
    (P : σ → List Node → Prop) (hstart : P state [])
    (hf : ∀ (s : σ) (i : ValueId) (node : Node) (emitted : List Node),
      (∀ arity ∈ node.op.fixedArity, node.inputs.length = arity) →
      (∀ u ∈ node.inputs, u < emitted.length) →
      (node.op.isResult = false → ∀ u ∈ node.inputs, ∀ source, emitted[u]? = some source →
        source.invokes = false) →
      Ordered emitted → P s emitted →
      Returns (fun r => Answers emitted node r.2 ∧ P r.1 (emitted ++ r.2.pushed node))
        (f s i node emitted)) :
    Returns (fun r => g.SlotsApart → r.1.SlotsApart) (g.rewrite f state) := by
  have hloop := classical_walk hg P hstart (fun _ w => Sourced g w)
    (fun t _ hget _ => nomatch hget)
    (fun _ _ _ _ _ _ hnode hreached hren hanswer h => h.after hnode hreached hren hanswer) hf
  apply hloop.post
  rintro ⟨g', s', changed⟩ ⟨w, _, ⟨hw, hsourced⟩, hrewritten⟩ hold
  have hgraph : g' = { g with nodes := w.nodes, outputs := g'.outputs } := hrewritten.graph
  have hnodes : g'.nodes = w.nodes := by rw [hgraph]
  apply SlotsApart.of_moved w.remap hold hg.results
  · intro q slot args hget
    rw [hnodes] at hget
    obtain ⟨j, ⟨op, refs⟩, hjq, hj, hop, hren⟩ := hsourced q _ hget rfl
    cases hop
    exact ⟨j, refs, hjq, hj, hren⟩
  · intro i t site refs hi hit
    rw [hnodes]
    exact hw.impure i t _ hit hi rfl

end Rewrite

theorem gc_slots {g : Graph} (hg : g.Frontend) :
    Returns (fun r => g.SlotsApart → r.1.SlotsApart) g.gc := by
  apply (gc_returns hg.ordered hg.outputs).post
  rintro ⟨g', remap⟩ hr hold
  apply SlotsApart.of_moved remap hold hg.results
  · intro q slot args hget
    obtain ⟨j, hjq⟩ := hr.source q (List.getElem?_eq_some_iff.mp hget).1
    obtain ⟨⟨op, refs⟩, inputs, hj, hnew, hren⟩ := hr.entry j q hjq
    rw [hget] at hnew
    cases hnew
    exact ⟨j, refs, hjq, hj, hren⟩
  · intro i t site refs hi hit
    obtain ⟨node, inputs, hnode, hnew, _⟩ := hr.entry i t hit
    rw [hi] at hnode
    cases hnode
    exact ⟨inputs, hnew⟩

end Graph

/-! ## The passes and their loop -/

namespace PassManager

open CircomMpc.Graph

/-- A simplification of `g` in which a site's slots are apart: what the classical passes keep of a
    graph, as far as code generation goes. -/
structure Optimized (g g' : Graph) : Prop where
  refines : Refines g g'
  slots : g'.SlotsApart

/-- A pass that optimizes what has been optimized. -/
def Optimizes (pass : PassFn) : Prop :=
  ∀ g : Graph, g.Frontend → g.SlotsApart → Returns (fun r => Optimized g r.1) (pass g)

theorem optimizes_of {pass : PassFn} (hsimplifies : Simplifies pass)
    (hslots : ∀ g : Graph, g.Frontend → Returns (fun r => g.SlotsApart → r.1.SlotsApart) (pass g)) :
    Optimizes pass := by
  intro g hg hold
  apply (Meets.both (hsimplifies g hg) (hslots g hg)).post
  rintro r ⟨hrefines, hkeeps⟩
  exact ⟨hrefines, hkeeps hold⟩

theorem optimize_optimizes (opt : OptLevel) : ∀ pass ∈ optimize opt, Optimizes pass := by
  have hdead : Optimizes DeadCode.run := by
    apply optimizes_of fun _ hg => DeadCode.run_returns hg
    intro g hg
    have hpruned := DeadCode.prune_refines hg
    have hsame : g.SlotsApart → (DeadCode.prune g).1.SlotsApart := by
      unfold DeadCode.prune
      split
      · exact id
      · exact id
    unfold DeadCode.run
    apply Meets.bind (gc_slots hpruned.frontend)
    intro r hr hold
    exact hr (hsame hold)
  have hfold : Optimizes ConstFold.run := by
    apply optimizes_of fun _ hg => ConstFold.run_returns hg
    intro g hg
    unfold ConstFold.run
    apply Meets.bind (classical_slots hg (fun _ _ => True) trivial ?_)
    · exact fun r hr => hr
    · intro s i node emitted harity hin hscalars hord _
      apply Meets.bind (ConstFold.foldNode_returns harity hin hscalars hord)
      exact fun action haction => ⟨haction, trivial⟩
  have hcse : Optimizes Cse.run := by
    apply optimizes_of fun _ hg => Cse.run_returns hg
    intro g hg
    unfold Cse.run
    apply Meets.bind (classical_slots hg Cse.Consed (fun _ hentry => absurd hentry List.not_mem_nil) ?_)
    · exact fun r hr => hr
    · exact fun seen i node emitted harity _ _ hord hseen => Cse.visit_returns harity hord hseen
  cases opt with
  | O0 => simpa [optimize] using hdead
  | O1 => simpa [optimize] using ⟨hdead, hfold⟩
  | O2 => simpa [optimize] using ⟨hdead, hfold, hcse⟩

theorem fixpoint_optimizes {passes : List PassFn} (hpasses : ∀ pass ∈ passes, Optimizes pass)
    {g : Graph} : ∀ (n : Nat) {h : Graph}, Optimized g h → Returns (Optimized g) (fixpoint passes n h) := by
  intro n
  induction n with
  | zero => exact fun hh => hh
  | succ n ih =>
    intro h hh
    have hturn : Returns (fun r => Optimized g r.1) (iteration passes h) := by
      have hstart : Optimized g (h, false).1 := hh
      unfold iteration
      refine Meets.foldlM hstart ?_
      intro pass hpass acc hacc
      apply Meets.bind (hpasses pass hpass acc.1 hacc.refines.frontend hacc.slots)
      intro r hr
      exact ⟨hacc.refines.trans hr.refines, hr.slots⟩
    apply Meets.bind hturn
    intro r hr
    show Returns _ (if r.2 then fixpoint passes n r.1 else pure r.1)
    split
    · exact ih hr
    · exact hr

theorem runOptimize_optimizes {g : Graph} (hg : g.Frontend) (hslots : g.SlotsApart)
    (opt : OptLevel) : Returns (Optimized g) (runOptimize opt g) :=
  fixpoint_optimizes (optimize_optimizes opt) maxIterations ⟨Refines.refl hg, hslots⟩

end PassManager

/-- **The optimiser's graph is one codegen can take through the lowering.** -/
theorem Graph.Compilable.optimized {g g' : Graph} (hg : g.Compilable)
    (h : PassManager.Optimized g g') : g'.Compilable where
  frontend := h.refines.frontend
  slots := h.slots
  arity := by
    intro v site inputs s hnode hsite
    have hsites : g'.gadgetSites = g.gadgetSites := by rw [h.refines.metadata]
    have hmem := Graph.mem_calls default hnode
    rw [h.refines.calls default] at hmem
    obtain ⟨⟨site', inputs'⟩, hinvoked, heq⟩ := List.mem_map.mp hmem
    obtain ⟨node, hnode', hcall⟩ := List.mem_filterMap.mp hinvoked
    obtain ⟨u, hu⟩ := List.mem_iff_getElem?.mp hnode'
    obtain ⟨op, refs⟩ := node
    cases op <;> cases hcall
    obtain ⟨rfl, hvalues⟩ := Prod.mk.inj heq
    have hlen := congrArg List.length hvalues
    rw [List.length_map, List.length_map] at hlen
    rw [← hlen]
    exact hg.arity u _ _ s hu (hsites ▸ hsite)
  host := by
    have hsites : g'.gadgetSites = g.gadgetSites := by rw [h.refines.metadata]
    rw [hsites]
    exact hg.host

end CircomMpc
