import CircomMpc.Ir.Graph

/-!
# What a rewriting loop keeps

`rewrite` is a loop whose every turn looks inputs up in `remap`, asks the callback, and pushes. The
rules here say what one turn does (`rewriteStep_returns`) and what the loop as a whole keeps
(`rewrite_returns`), for any callback, any invariant and without a word about what nodes mean. The
meaning comes in through `Sound`: an action is sound for an analysis when the value it leaves behind
is the one the rule computes for the node it replaces.
-/

namespace CircomMpc

open Lib

/-- A node with as many inputs as its operation wants. -/
theorem Node.new_eq_ok {op : Op} {inputs : List ValueId}
    (h : ∀ arity ∈ op.fixedArity, inputs.length = arity) : Node.new op inputs = .ok ⟨op, inputs⟩ := by
  rw [Node.new, ensure_of h]
  rfl

namespace Graph

/-! ## Looking up `remap` -/

theorem remapped_eq_ok {message : String} {remap : List (Option ValueId)} {v u : ValueId} :
    remapped message remap v = .ok u ↔ remap[v]? = some (some u) := by
  unfold remapped index
  cases h : remap[v]? with
  | none => simp [orElse, bind, Except.bind]
  | some entry => simp [orElse_some, ok_bind]

/-- References that all went somewhere can be renamed. -/
theorem mapM_remapped_returns {message : String} {remap : List (Option ValueId)}
    {refs : List ValueId} (h : ∀ v ∈ refs, ∃ u, remap[v]? = some (some u)) :
    Returns (Renamed remap refs) (refs.mapM (remapped message remap)) := by
  apply Meets.mapM_rel
  intro v hv
  obtain ⟨u, hu⟩ := h v hv
  rw [remapped_eq_ok.mpr hu]
  exact hu

/-- The output bindings, renamed. -/
def Rebound (remap : List (Option ValueId)) (outputs outputs' : List (SignalIdx × ValueId)) : Prop :=
  List.Forall₂ (fun o o' => o'.1 = o.1 ∧ remap[o.2]? = some (some o'.2)) outputs outputs'

/-- Every renamed binding comes from an old one. -/
theorem rebound_source {remap : List (Option ValueId)}
    {outputs outputs' : List (SignalIdx × ValueId)} {o' : SignalIdx × ValueId}
    (h : Rebound remap outputs outputs') (ho' : o' ∈ outputs') :
    ∃ o ∈ outputs, o'.1 = o.1 ∧ remap[o.2]? = some (some o'.2) := by
  obtain ⟨i, hi, hget⟩ := List.getElem_of_mem ho'
  obtain ⟨o, ho, hrel⟩ := forall₂_getElem? h (hget ▸ List.getElem?_eq_getElem hi)
  exact ⟨o, List.mem_of_getElem? ho, hrel⟩

/-- Every old binding went somewhere. -/
theorem rebound_target {remap : List (Option ValueId)}
    {outputs outputs' : List (SignalIdx × ValueId)} {o : SignalIdx × ValueId}
    (h : Rebound remap outputs outputs') (ho : o ∈ outputs) :
    ∃ o' ∈ outputs', o'.1 = o.1 ∧ remap[o.2]? = some (some o'.2) := by
  induction h with
  | nil => cases ho
  | @cons p p' _ _ hp _ ih =>
    rcases List.mem_cons.mp ho with rfl | hmem
    · exact ⟨p', List.mem_cons_self, hp⟩
    · obtain ⟨o', ho', hrest⟩ := ih hmem
      exact ⟨o', List.mem_cons_of_mem _ ho', hrest⟩

/-- Renaming the values leaves the signals. -/
theorem Rebound.signals {remap : List (Option ValueId)}
    {outputs outputs' : List (SignalIdx × ValueId)} (h : Rebound remap outputs outputs') :
    outputs'.map Prod.fst = outputs.map Prod.fst := by
  induction h with
  | nil => rfl
  | cons ho _ ih => rw [List.map_cons, List.map_cons, ho.1, ih]

theorem remapOutputs_returns {message : String} {remap : List (Option ValueId)}
    {outputs : List (SignalIdx × ValueId)}
    (h : ∀ o ∈ outputs, ∃ u, remap[o.2]? = some (some u)) :
    Returns (Rebound remap outputs) (remapOutputs message remap outputs) := by
  apply Meets.mapM_rel
  intro o ho
  obtain ⟨u, hu⟩ := h o ho
  show Meets _ _ (remapped message remap o.2 >>= fun value => pure (o.1, value))
  rw [remapped_eq_ok.mpr hu]
  exact ⟨rfl, hu⟩

/-! ## One turn -/

namespace RewriteAction

/-- The nodes an action pushes. -/
def pushed (node : Node) : RewriteAction → List Node
  | .keep => [node]
  | .replaceWith _ => []
  | .emit new => [new]
  | .emitMany group => group

/-- The value an action leaves for the original node, when `emitted` nodes stand in front. -/
def target (emitted : Nat) : RewriteAction → ValueId
  | .keep | .emit _ => emitted
  | .replaceWith target => target
  | .emitMany group => emitted + group.length - 1

/-- Whether an action counts as a change. -/
def changes : RewriteAction → Bool
  | .keep => false
  | _ => true

/-- An action does not pass for a group of nothing. -/
def Proper (action : RewriteAction) : Prop := action ≠ .emitMany []

/-- The value an action leaves behind is the one the rule computes for the node it replaces, and
    what it pushes reads what is in front of it. -/
structure Sound {α : Type} [Inhabited α] (rule : Op → List α → α) (emitted : List Node)
    (node : Node) (action : RewriteAction) : Prop where
  ordered : Ordered (emitted ++ action.pushed node)
  target_lt : action.target emitted.length < (emitted ++ action.pushed node).length
  target_value : value rule (emitted ++ action.pushed node) (action.target emitted.length) =
    rule node.op (node.inputs.map (value rule emitted))

end RewriteAction

section Turn

variable {σ : Type}

/-- The loop's variables after an action. -/
def Rewriting.after (w : Rewriting σ) (i : ValueId) (node : Node) (state : σ)
    (action : RewriteAction) : Rewriting σ where
  state := state
  remap := w.remap.set i (some (action.target w.nodes.length))
  nodes := w.nodes ++ action.pushed node
  changed := w.changed || action.changes

theorem Rewriting.apply_eq (w : Rewriting σ) (i : ValueId) (node : Node) (state : σ)
    {action : RewriteAction} (h : action.Proper) :
    ({ w with state } : Rewriting σ).apply i node action = .ok (w.after i node state action) := by
  cases action with
  | keep => simp [apply, after, RewriteAction.target, RewriteAction.pushed, RewriteAction.changes,
      pure, Except.pure]
  | replaceWith target => simp [apply, after, RewriteAction.target, RewriteAction.pushed,
      RewriteAction.changes, pure, Except.pure]
  | emit new => simp [apply, after, RewriteAction.target, RewriteAction.pushed,
      RewriteAction.changes, pure, Except.pure]
  | emitMany group =>
    -- The value of a group is its last node, so there has to be one.
    have hgroup : group ≠ [] := by
      intro hnil
      exact h (by rw [hnil])
    simp [apply, after, RewriteAction.target, RewriteAction.pushed, RewriteAction.changes,
      ensure_of hgroup, ok_bind, pure, Except.pure]

/-- **One turn.** When the inputs went somewhere and the callback answers, the turn renames the
    inputs and does what the callback says. -/
theorem rewriteStep_returns {f : Callback σ} {w : Rewriting σ} {node : Node} {i : ValueId}
    {Post : Rewriting σ → Prop} (hin : ∀ v ∈ node.inputs, ∃ u, w.remap[v]? = some (some u))
    (hf : ∀ inputs, Renamed w.remap node.inputs inputs →
      Returns (fun r => r.2.Proper ∧ Post (w.after i ⟨node.op, inputs⟩ r.1 r.2))
        (f w.state i ⟨node.op, inputs⟩ w.nodes)) :
    Returns Post (rewriteStep f w node i) := by
  unfold rewriteStep
  apply Meets.bind (mapM_remapped_returns hin)
  intro inputs hren
  apply Meets.bind (hf inputs hren)
  intro r hr
  obtain ⟨hproper, hpost⟩ := hr
  show Meets _ _ (Rewriting.apply { w with state := r.1 } i ⟨node.op, inputs⟩ r.2)
  rw [w.apply_eq i ⟨node.op, inputs⟩ r.1 hproper]
  exact hpost

/-- A sound action keeps the placement, for the analysis it is sound for. -/
theorem Rewriting.after_placed {α : Type} [Inhabited α] {rule : Op → List α → α}
    {old : List Node} {w : Rewriting σ} {i : ValueId} {node : Node} {inputs : List ValueId}
    {state : σ} {action : RewriteAction} (hold : Ordered old) (hnode : old[i]? = some node)
    (hw : Placed rule old w.remap w.nodes) (hren : Renamed w.remap node.inputs inputs)
    (hsound : action.Sound rule w.nodes ⟨node.op, inputs⟩) :
    Placed rule old (w.after i ⟨node.op, inputs⟩ state action).remap
      (w.after i ⟨node.op, inputs⟩ state action).nodes := by
  -- Pushing keeps every place, and then the node's own place is the action's target.
  have hgrown : Placed rule old w.remap (w.nodes ++ action.pushed ⟨node.op, inputs⟩) := by
    refine ⟨hsound.ordered, ?_⟩
    intro j t hjt
    obtain ⟨ht, hval⟩ := hw.valid j t hjt
    refine ⟨?_, ?_⟩
    · rw [List.length_append]
      omega
    · rw [value_append _ ht, hval]
  apply hgrown.record hsound.target_lt
  rw [hsound.target_value]
  exact hw.moved_fact hold hnode hren

/-! ## The whole loop -/

/-- Exactly the first `i` of `n` nodes have been dealt with: they have a place, and the others have
    none. -/
structure Reached (n i : Nat) (remap : List (Option ValueId)) : Prop where
  length : remap.length = n
  done : ∀ j < i, ∃ t : Nat, remap[j]? = some (some t)
  fresh : ∀ j t : Nat, remap[j]? = some (some t) → j < i

theorem Reached.start (n : Nat) : Reached n 0 (List.replicate n none) := by
  refine ⟨List.length_replicate, ?_, ?_⟩
  · intro j hj
    exact absurd hj (Nat.not_lt_zero j)
  · intro j t h
    cases List.eq_of_mem_replicate (List.mem_of_getElem? h)

theorem Reached.set {n i t : Nat} {remap : List (Option ValueId)} (h : Reached n i remap)
    (hi : i < n) : Reached n (i + 1) (remap.set i (some t)) := by
  refine ⟨by rw [List.length_set]; exact h.length, ?_, ?_⟩
  · intro j hj
    by_cases hij : i = j
    · subst hij
      exact ⟨t, List.getElem?_set_self (by rw [h.length]; exact hi)⟩
    · rw [List.getElem?_set_ne hij]
      exact h.done j (by omega)
  · intro j u hju
    by_cases hij : i = j
    · subst hij
      exact Nat.lt_succ_self i
    · rw [List.getElem?_set_ne hij] at hju
      exact Nat.lt_succ_of_lt (h.fresh j u hju)

/-- Where a node went once it is dealt with, it stays. -/
theorem Reached.stays {n i j u : Nat} {t : Option ValueId} {remap : List (Option ValueId)}
    (h : Reached n i remap) (hju : remap[j]? = some (some u)) :
    (remap.set i t)[j]? = some (some u) := by
  have hij : i ≠ j := by
    intro heq
    subst heq
    exact absurd (h.fresh i u hju) (Nat.lt_irrefl i)
  rw [List.getElem?_set_ne hij]
  exact hju

/-- The entries of `remap` after one turn. -/
theorem Reached.entry {n i j t u : Nat} {remap : List (Option ValueId)} (_ : Reached n i remap)
    (hju : (remap.set i (some t))[j]? = some (some u)) :
    (j = i ∧ u = t) ∨ remap[j]? = some (some u) := by
  by_cases hij : i = j
  · subst hij
    rw [List.getElem?_set] at hju
    simp only [if_true] at hju
    split at hju
    · cases hju
      exact .inl ⟨rfl, rfl⟩
    · cases hju
  · rw [List.getElem?_set_ne hij] at hju
    exact .inr hju

/-- What `rewrite` returns, from the loop's final variables: their nodes, the outputs renamed, and
    the callback's state. -/
structure Rewritten (g : Graph) (w : Rewriting σ) (r : Graph × σ × Bool) : Prop where
  graph : r.1 = { g with nodes := w.nodes, outputs := r.1.outputs }
  outputs : Rebound w.remap g.outputs r.1.outputs
  state : r.2.1 = w.state

/-- **The loop.** An invariant every turn keeps holds of what `rewrite` returns, and the loop does
    not abort. A change is reported when an action was one, or when the length is another. -/
theorem rewrite_reports {g : Graph} {f : Callback σ} {state : σ}
    {Inv : Nat → Rewriting σ → Prop} (hord : Ordered g.nodes)
    (hout : ∀ o ∈ g.outputs, o.2 < g.nodes.length)
    (hstart : Inv 0 (Rewriting.start g.nodes.length state))
    (hstep : ∀ (i : Nat) (node : Node) (w : Rewriting σ) (inputs : List ValueId),
      g.nodes[i]? = some node → Reached g.nodes.length i w.remap → Inv i w →
      Renamed w.remap node.inputs inputs →
      Returns (fun r => r.2.Proper ∧ Inv (i + 1) (w.after i ⟨node.op, inputs⟩ r.1 r.2))
        (f w.state i ⟨node.op, inputs⟩ w.nodes)) :
    Returns (fun r => ∃ w, Reached g.nodes.length g.nodes.length w.remap ∧
      Inv g.nodes.length w ∧ Rewritten g w r ∧
      r.2.2 = (w.changed || w.nodes.length != g.nodes.length)) (g.rewrite f state) := by
  -- One turn: the inputs are renamed, the callback answers, and the answer is applied.
  have hloop : Returns
      (fun w => Reached g.nodes.length (0 + g.nodes.length) w.remap ∧ Inv (0 + g.nodes.length) w)
      (g.nodes.zipIdx.foldlM (fun w p => rewriteStep f w p.1 p.2)
        (Rewriting.start g.nodes.length state)) := by
    refine Meets.foldlM_zipIdx (fun i w => Reached g.nodes.length i w.remap ∧ Inv i w)
      ⟨Reached.start _, hstart⟩ ?_
    intro i node w hnode hw
    rw [Nat.zero_add] at hw ⊢
    obtain ⟨hreached, hinv⟩ := hw
    have hi : i < g.nodes.length := (List.getElem?_eq_some_iff.mp hnode).1
    apply rewriteStep_returns
    · intro v hv
      exact hreached.done v (hord i node hnode v hv)
    · intro inputs hren
      apply (hstep i node w inputs hnode hreached hinv hren).post
      intro r hr
      exact ⟨hr.1, hreached.set hi, hr.2⟩
  rw [Nat.zero_add] at hloop
  unfold rewrite
  apply Meets.bind hloop
  intro w hw
  obtain ⟨hreached, hinv⟩ := hw
  apply Meets.bind (remapOutputs_returns ?_)
  · -- The outputs are renamed when the loop is through.
    intro outputs houtputs
    exact ⟨w, hreached, hinv, ⟨rfl, houtputs, rfl⟩, rfl⟩
  · intro o ho
    exact hreached.done o.2 (hout o ho)

theorem rewrite_returns {g : Graph} {f : Callback σ} {state : σ}
    {Inv : Nat → Rewriting σ → Prop} (hord : Ordered g.nodes)
    (hout : ∀ o ∈ g.outputs, o.2 < g.nodes.length)
    (hstart : Inv 0 (Rewriting.start g.nodes.length state))
    (hstep : ∀ (i : Nat) (node : Node) (w : Rewriting σ) (inputs : List ValueId),
      g.nodes[i]? = some node → Reached g.nodes.length i w.remap → Inv i w →
      Renamed w.remap node.inputs inputs →
      Returns (fun r => r.2.Proper ∧ Inv (i + 1) (w.after i ⟨node.op, inputs⟩ r.1 r.2))
        (f w.state i ⟨node.op, inputs⟩ w.nodes)) :
    Returns (fun r => ∃ w, Reached g.nodes.length g.nodes.length w.remap ∧
      Inv g.nodes.length w ∧ Rewritten g w r) (g.rewrite f state) :=
  (rewrite_reports hord hout hstart hstep).post fun _ ⟨w, hreached, hinv, hr, _⟩ =>
    ⟨w, hreached, hinv, hr⟩

end Turn

end Graph
end CircomMpc
