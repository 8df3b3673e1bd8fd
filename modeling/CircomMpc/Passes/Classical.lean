import CircomMpc.Ir.Collect

/-!
# What a classical pass may do to a graph

The passes in front of the lowering only ever simplify: a node is kept, replaced by an earlier value
it is equal to, or replaced by the constant it is equal to. `Refines` says what that preserves — a
well-formed graph, every gadget site's invocation in order with equal input values, and the value
bound to every signal the witness addresses, for every interpretation. It composes, so a loop over
passes needs nothing but one `Refines` for each.
-/

namespace CircomMpc

open Lib

namespace Graph

/-- `g'` is a simplification of `g`: well formed again, with the same sites called on the same
    values in the same order, and the same value bound to every signal the witness addresses.
    Everything but the nodes and the outputs is `g`'s. -/
structure Refines (g g' : Graph) : Prop where
  frontend : g'.Frontend
  metadata : g' = { g with nodes := g'.nodes, outputs := g'.outputs }
  calls : ∀ I : Interp, g'.calls I = g.calls I
  binding : ∀ I : Interp, ∀ signal ∈ g.signalToWitness, g'.binding I signal = g.binding I signal

theorem Refines.refl {g : Graph} (h : g.Frontend) : Refines g g :=
  ⟨h, rfl, fun _ => rfl, fun _ _ _ => rfl⟩

theorem Refines.trans {g g' g'' : Graph} (h : Refines g g') (h' : Refines g' g'') :
    Refines g g'' := by
  refine ⟨h'.frontend, ?_, ?_, ?_⟩
  · rw [h'.metadata, h.metadata]
  · intro I
    rw [h'.calls, h.calls]
  · intro I signal hsignal
    have hsignal' : signal ∈ g'.signalToWitness := by
      rw [h.metadata]
      exact hsignal
    rw [h'.binding I signal hsignal', h.binding I signal hsignal]

/-! ## What a callback may answer -/

/-- A simplification of `node`, in front of which `emitted` stands: keep it, alias it to an earlier
    value that is equal under every interpretation, or put a constant in its place. Only pure nodes
    are ever replaced. -/
inductive Answers (emitted : List Node) (node : Node) : RewriteAction → Prop
  | keep : Answers emitted node .keep
  | same (target : ValueId) (hpure : node.op.isPure = true) (htarget : target < emitted.length)
      (hscalar : ∀ source, emitted[target]? = some source → source.invokes = false)
      (hvalue : ∀ I, value (evalRule I) emitted target =
        evalRule I node.op (node.inputs.map (value (evalRule I) emitted))) :
      Answers emitted node (.replaceWith target)
  | constant (c : Fr) (hpure : node.op.isPure = true)
      (hvalue : ∀ I, (fun _ => c) =
        evalRule I node.op (node.inputs.map (value (evalRule I) emitted))) :
      Answers emitted node (.emit ⟨.constant c, []⟩)

theorem Answers.proper {emitted : List Node} {node : Node} {action : RewriteAction}
    (h : Answers emitted node action) : action.Proper := by
  cases h <;> exact RewriteAction.noConfusion

theorem Answers.sound {emitted : List Node} {node : Node} {action : RewriteAction}
    (h : Answers emitted node action) (hord : Ordered emitted)
    (hin : ∀ u ∈ node.inputs, u < emitted.length) (I : Interp) :
    action.Sound (evalRule I) emitted node := by
  cases h with
  | keep =>
    refine ⟨hord.push hin, ?_, ?_⟩
    · simp [RewriteAction.target, RewriteAction.pushed]
    · exact value_push emitted node
  | same target hpure htarget _ hvalue =>
    refine ⟨?_, ?_, ?_⟩
    · simpa [RewriteAction.pushed] using hord
    · simpa [RewriteAction.pushed, RewriteAction.target] using htarget
    · simpa [RewriteAction.pushed, RewriteAction.target] using hvalue I
  | constant c hpure hvalue =>
    refine ⟨hord.push (by simp), ?_, ?_⟩
    · simp [RewriteAction.target, RewriteAction.pushed]
    · exact (value_push emitted ⟨.constant c, []⟩).trans (hvalue I)

/-- Whether a node invokes a site is a matter of its operation. -/
theorem invokes_moved (node : Node) (inputs : List ValueId) :
    Node.invokes ⟨node.op, inputs⟩ = node.invokes := by
  obtain ⟨op, args⟩ := node
  cases op <;> rfl

/-- A pure node invokes no site. -/
theorem invokes_pure {node : Node} (h : node.op.isPure = true) : node.invokes = false := by
  obtain ⟨op, inputs⟩ := node
  cases op <;> first | rfl | cases h

theorem invocations_pure {node : Node} (h : node.op.isPure = true) : invocations [node] = [] := by
  obtain ⟨op, inputs⟩ := node
  cases op <;> first | rfl | cases h

theorem Answers.invocations {emitted : List Node} {node : Node} {action : RewriteAction}
    (h : Answers emitted node action) :
    Graph.invocations (action.pushed node) = Graph.invocations [node] := by
  cases h with
  | keep => rfl
  | same target hpure _ _ _ => rw [invocations_pure hpure]; rfl
  | constant c hpure _ => rw [invocations_pure hpure]; rfl

/-! ## The rewriting loop of a classical pass -/

section Loop

variable {σ : Type}

/-- What the loop has built in front of node `i`. The values are those of the old nodes (`placed`),
    impure nodes are there with their operations, and no site was lost or moved past another
    (`calls`). `P` is the pass's own invariant of its state. -/
structure Walk (g : Graph) (P : σ → List Node → Prop) (i : Nat) (w : Rewriting σ) : Prop where
  placed : ∀ I, Placed (evalRule I) g.nodes w.remap w.nodes
  ops : ∀ node ∈ w.nodes, node.op.isFrontend = true ∧
    ∀ arity ∈ node.op.fixedArity, node.inputs.length = arity
  impure : ∀ (j t : Nat) (node : Node), w.remap[j]? = some (some t) → g.nodes[j]? = some node →
    node.op.isPure = false → ∃ inputs, w.nodes[t]? = some ⟨node.op, inputs⟩
  results : ∀ node ∈ w.nodes, ∀ slot, node.op = .gadgetResult slot →
    ∀ v ∈ node.inputs, ∃ site inputs, w.nodes[v]? = some ⟨.gadget site, inputs⟩
  scalars : ∀ (j t : Nat) (node source : Node), w.remap[j]? = some (some t) →
    g.nodes[j]? = some node → node.invokes = false → w.nodes[t]? = some source →
    source.invokes = false
  unread : ∀ node ∈ w.nodes, node.op.isResult = false →
    ∀ v ∈ node.inputs, ∀ source, w.nodes[v]? = some source → source.invokes = false
  calls : Reinvoked w.remap (invocations (g.nodes.take i)) (invocations w.nodes)
  state : P w.state w.nodes

theorem Reinvoked.stays {n i : Nat} {t : Option ValueId} {remap : List (Option ValueId)}
    {calls calls' : List (GadgetId × List ValueId)} (hreached : Reached n i remap)
    (h : Reinvoked remap calls calls') : Reinvoked (remap.set i t) calls calls' := by
  apply List.Forall₂.imp _ h
  rintro c c' ⟨hsite, hren⟩
  refine ⟨hsite, List.Forall₂.imp ?_ hren⟩
  intro v u hvu
  exact hreached.stays hvu

/-- A node that is kept invokes what it invoked. -/
theorem reinvoked_moved {n i : Nat} {t : Option ValueId} {remap : List (Option ValueId)}
    {node : Node} {inputs : List ValueId} (hreached : Reached n i remap)
    (hren : Renamed remap node.inputs inputs) :
    Reinvoked (remap.set i t) (invocations [node]) (invocations [⟨node.op, inputs⟩]) := by
  have hrenamed : Renamed (remap.set i t) node.inputs inputs :=
    List.Forall₂.imp (fun v u hvu => hreached.stays hvu) hren
  obtain ⟨op, args⟩ := node
  cases op
  case gadget site => exact .cons ⟨rfl, hrenamed⟩ .nil
  all_goals exact .nil

/-- One turn keeps the walk. -/
theorem Walk.after {g : Graph} {P : σ → List Node → Prop} {i : Nat} {w : Rewriting σ}
    {node : Node} {inputs : List ValueId} {state : σ} {action : RewriteAction} (hg : g.Frontend)
    (hnode : g.nodes[i]? = some node) (hreached : Reached g.nodes.length i w.remap)
    (hw : Walk g P i w) (hren : Renamed w.remap node.inputs inputs)
    (hanswer : Answers w.nodes ⟨node.op, inputs⟩ action)
    (hstate : P state (w.nodes ++ action.pushed ⟨node.op, inputs⟩)) :
    Walk g P (i + 1) (w.after i ⟨node.op, inputs⟩ state action) := by
  have hmem : node ∈ g.nodes := List.mem_of_getElem? hnode
  have hi : i < g.nodes.length := (List.getElem?_eq_some_iff.mp hnode).1
  have hrange := ((hw.placed default).renamed hren).1
  have hord := (hw.placed default).ordered
  have hnew : ∀ {v : ValueId} {source : Node}, v < w.nodes.length →
      (w.nodes ++ action.pushed ⟨node.op, inputs⟩)[v]? = some source →
      w.nodes[v]? = some source := by
    intro v source hv hget
    rw [List.getElem?_append_left hv] at hget
    exact hget
  refine ⟨?_, ?_, ?_, ?_, ?_, ?_, ?_, hstate⟩
  · intro I
    exact w.after_placed hg.ordered hnode (hw.placed I) hren (hanswer.sound hord hrange I)
  · intro new hmemNew
    rcases List.mem_append.mp hmemNew with hold | hpushed
    · exact hw.ops new hold
    · cases hanswer with
      | keep =>
        rw [List.mem_singleton.mp hpushed]
        refine ⟨hg.frontend node hmem, ?_⟩
        intro arity harity
        show inputs.length = arity
        rw [hren.length]
        exact hg.arity node hmem arity harity
      | same target _ _ _ _ => cases hpushed
      | constant c _ _ =>
        rw [List.mem_singleton.mp hpushed]
        refine ⟨rfl, ?_⟩
        intro arity harity
        cases harity
        rfl
  · intro j t old hjt hold himpure
    rcases hreached.entry hjt with ⟨rfl, rfl⟩ | hjt
    · rw [hnode] at hold
      cases hold
      cases hanswer with
      | keep =>
        refine ⟨inputs, ?_⟩
        show (w.nodes ++ [⟨node.op, inputs⟩])[w.nodes.length]? = _
        simp
      | same target hpure _ _ _ => rw [himpure] at hpure; cases hpure
      | constant c hpure _ => rw [himpure] at hpure; cases hpure
    · obtain ⟨inputs', hget⟩ := hw.impure j t old hjt hold himpure
      exact ⟨inputs', getElem?_append_of_some hget⟩
  · intro new hmemNew slot hslot v hv
    rcases List.mem_append.mp hmemNew with hold | hpushed
    · obtain ⟨site, inputs', hget⟩ := hw.results new hold slot hslot v hv
      exact ⟨site, inputs', getElem?_append_of_some hget⟩
    · cases hanswer with
      | keep =>
        rw [List.mem_singleton.mp hpushed] at hslot hv
        -- The result's old input is a gadget node, which is impure and so was kept.
        obtain ⟨v', hv', hvu⟩ := hren.source hv
        obtain ⟨site, args, hgadget⟩ := hg.results node hmem slot hslot v' hv'
        obtain ⟨inputs', hget⟩ := hw.impure v' v ⟨.gadget site, args⟩ hvu hgadget rfl
        exact ⟨site, inputs', getElem?_append_of_some hget⟩
      | same target _ _ _ _ => cases hpushed
      | constant c _ _ =>
        rw [List.mem_singleton.mp hpushed] at hslot
        cases hslot
  · intro j t old source hjt hold hscalar hget
    rcases hreached.entry hjt with ⟨rfl, rfl⟩ | hjt
    · rw [hnode] at hold
      cases hold
      cases hanswer with
      | keep =>
        have hlast : some ⟨node.op, inputs⟩ = some source := by
          rw [← hget]
          show _ = (w.nodes ++ [(⟨node.op, inputs⟩ : Node)])[w.nodes.length]?
          simp
        cases hlast
        exact (invokes_moved node inputs).trans hscalar
      | same target _ htarget hsource _ => exact hsource source (hnew htarget hget)
      | constant c _ _ =>
        have hlast : some (⟨.constant c, []⟩ : Node) = some source := by
          rw [← hget]
          show _ = (w.nodes ++ [(⟨.constant c, []⟩ : Node)])[w.nodes.length]?
          simp
        cases hlast
        rfl
    · have ht := ((hw.placed default).valid j t hjt).1
      exact hw.scalars j t old source hjt hold hscalar (hnew ht hget)
  · intro new hmemNew hplain v hv source hget
    rcases List.mem_append.mp hmemNew with hold | hpushed
    · have hlt : v < w.nodes.length := by
        obtain ⟨q, hq, hgetq⟩ := List.getElem_of_mem hold
        exact (hord q new (hgetq ▸ List.getElem?_eq_getElem hq) v hv).trans hq
      exact hw.unread new hold hplain v hv source (hnew hlt hget)
    · cases hanswer with
      | keep =>
        rw [List.mem_singleton.mp hpushed] at hplain hv
        obtain ⟨v', hv', hvu⟩ := hren.source hv
        have hlt : v' < g.nodes.length := (hg.ordered i node hnode v' hv').trans hi
        have hsource : g.nodes[v']? = some g.nodes[v'] := List.getElem?_eq_getElem hlt
        exact hw.scalars v' v _ source hvu hsource
          (hg.unread node hmem hplain v' hv' _ hsource) (hnew (hrange v hv) hget)
      | same target _ _ _ _ => cases hpushed
      | constant c _ _ =>
        rw [List.mem_singleton.mp hpushed] at hv
        cases hv
  · show Reinvoked _ (invocations (g.nodes.take (i + 1))) (invocations (w.nodes ++ _))
    rw [invocations_take_succ hnode, invocations_append, hanswer.invocations]
    apply List.rel_append (hw.calls.stays hreached)
    exact reinvoked_moved hreached hren

/-- The loop of a callback that only simplifies: what it walks through, and whatever else of the
    loop's variables every turn keeps. -/
theorem classical_walk {g : Graph} {f : Callback σ} {state : σ} (hg : g.Frontend)
    (P : σ → List Node → Prop) (hstart : P state []) (Q : Nat → Rewriting σ → Prop)
    (hfirst : Q 0 (Rewriting.start g.nodes.length state))
    (hturn : ∀ (i : Nat) (node : Node) (w : Rewriting σ) (inputs : List ValueId) (s : σ)
      (action : RewriteAction), g.nodes[i]? = some node → Reached g.nodes.length i w.remap →
      Renamed w.remap node.inputs inputs → Answers w.nodes ⟨node.op, inputs⟩ action → Q i w →
      Q (i + 1) (w.after i ⟨node.op, inputs⟩ s action))
    (hf : ∀ (s : σ) (i : ValueId) (node : Node) (emitted : List Node),
      (∀ arity ∈ node.op.fixedArity, node.inputs.length = arity) →
      (∀ u ∈ node.inputs, u < emitted.length) →
      (node.op.isResult = false → ∀ u ∈ node.inputs, ∀ source, emitted[u]? = some source →
        source.invokes = false) →
      Ordered emitted → P s emitted →
      Returns (fun r => Answers emitted node r.2 ∧ P r.1 (emitted ++ r.2.pushed node))
        (f s i node emitted)) :
    Returns (fun r => ∃ w, Reached g.nodes.length g.nodes.length w.remap ∧
      (Walk g P g.nodes.length w ∧ Q g.nodes.length w) ∧ Rewritten g w r) (g.rewrite f state) := by
  apply @rewrite_returns _ _ _ _ (fun i w => Walk g P i w ∧ Q i w) hg.ordered hg.outputs
  · refine ⟨⟨fun I => Placed.start _ _, ?_, ?_, ?_, ?_, ?_, .nil, hstart⟩, hfirst⟩
    · intro node hnode
      cases hnode
    · intro j t node hjt
      cases List.eq_of_mem_replicate (List.mem_of_getElem? hjt)
    · intro node hnode
      cases hnode
    · intro j t node source hjt
      cases List.eq_of_mem_replicate (List.mem_of_getElem? hjt)
    · intro node hnode
      cases hnode
  · -- A turn: what the callback answered is one of the three simplifications.
    rintro i node w inputs hnode hreached ⟨hw, hq⟩ hren
    have hmem : node ∈ g.nodes := List.mem_of_getElem? hnode
    have harity : ∀ arity ∈ node.op.fixedArity, inputs.length = arity := by
      intro arity h
      rw [hren.length]
      exact hg.arity node hmem arity h
    -- The renamed operands still carry one value each, since renaming keeps operations.
    have hscalars : node.op.isResult = false → ∀ u ∈ inputs, ∀ source,
        w.nodes[u]? = some source → source.invokes = false := by
      intro hplain u hu source hget
      obtain ⟨v, hv, hvu⟩ := hren.source hu
      have hi : i < g.nodes.length := (List.getElem?_eq_some_iff.mp hnode).1
      have hlt : v < g.nodes.length := (hg.ordered i node hnode v hv).trans hi
      have hsource : g.nodes[v]? = some g.nodes[v] := List.getElem?_eq_getElem hlt
      exact hw.scalars v u _ source hvu hsource
        (hg.unread node hmem hplain v hv _ hsource) hget
    apply (hf w.state i ⟨node.op, inputs⟩ w.nodes harity ((hw.placed default).renamed hren).1
      hscalars (hw.placed default).ordered hw.state).post
    intro r hr
    exact ⟨hr.1.proper, hw.after hg hnode hreached hren hr.1 hr.2,
      hturn i node w inputs r.1 r.2 hnode hreached hren hr.1 hq⟩

/-- **A classical pass.** A callback that only simplifies, under an invariant of its own state,
    yields a simplification of the graph. -/
theorem classical_rewrite {g : Graph} {f : Callback σ} {state : σ} (hg : g.Frontend)
    (P : σ → List Node → Prop) (hstart : P state [])
    (hf : ∀ (s : σ) (i : ValueId) (node : Node) (emitted : List Node),
      (∀ arity ∈ node.op.fixedArity, node.inputs.length = arity) →
      (∀ u ∈ node.inputs, u < emitted.length) →
      (node.op.isResult = false → ∀ u ∈ node.inputs, ∀ source, emitted[u]? = some source →
        source.invokes = false) →
      Ordered emitted → P s emitted →
      Returns (fun r => Answers emitted node r.2 ∧ P r.1 (emitted ++ r.2.pushed node))
        (f s i node emitted)) :
    Returns (fun r => Refines g r.1) (g.rewrite f state) := by
  have hloop := classical_walk hg P hstart (fun _ _ => True) trivial
    (fun _ _ _ _ _ _ _ _ _ _ _ => trivial) hf
  apply hloop.post
  rintro ⟨g', s', changed⟩ ⟨w, _, ⟨hw, _⟩, hrewritten⟩
  have hgraph : g' = { g with nodes := w.nodes, outputs := g'.outputs } := hrewritten.graph
  have hnodes : g'.nodes = w.nodes := by rw [hgraph]
  -- Every node of the result has the value of the node it came from, under every interpretation.
  have hplaced : ∀ I, Placed (evalRule I) g.nodes w.remap g'.nodes := by
    intro I
    rw [hnodes]
    exact hw.placed I
  -- And no site was dropped or moved past another.
  have hcalls : Reinvoked w.remap (invocations g.nodes) (invocations g'.nodes) := by
    have h := hw.calls
    rw [List.take_length] at h
    rw [hnodes]
    exact h
  refine ⟨?_, ?_, fun I => calls_of_placed (hplaced I) hcalls,
    fun I signal _ => binding_of_placed (hplaced I) hrewritten.outputs signal⟩
  · refine ⟨(hplaced default).ordered, ?_, ?_, ?_, ?_, ?_, ?_, ?_⟩
    · intro node hnode
      exact (hw.ops node (hnodes ▸ hnode)).1
    · intro node hnode
      exact (hw.ops node (hnodes ▸ hnode)).2
    · rw [hnodes]
      exact hw.results
    · rw [hnodes]
      exact hw.unread
    · have hsame : g'.gadgetSites = g.gadgetSites := by rw [hgraph]
      rw [sites_of_reinvoked hcalls, hsame]
      exact hg.sites
    · intro o ho
      obtain ⟨o', ho', hsignal, hren⟩ := rebound_source hrewritten.outputs ho
      exact ((hplaced default).valid o'.2 o.2 hren).1
    · intro o ho
      obtain ⟨o', ho', hsignal, hren⟩ := rebound_source hrewritten.outputs ho
      have hsame : g'.numSignals = g.numSignals := by rw [hgraph]
      rw [hsignal, hsame]
      exact hg.signals o' ho'
  · rw [hnodes]
    exact hgraph

end Loop

end Graph
end CircomMpc
