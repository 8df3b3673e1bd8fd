import CircomMpc.Passes.Mpc.MulSplit

/-!
# What the splitting leaves

`SplitOf` describes the new node list completely, entry by entry: where every old node went, and
that nothing else is there. The rewriting loop builds it one turn at a time; everything the later
passes rely on — the order, the meaning, the levels, the shape of a split graph — is read off it.

`Standing` is the description seen from the new list: a node there is a kept one, or the product, the
round or the result that a secret product was split into.
-/

namespace CircomMpc

open Lib CircomMpc.Graph

/-- Operations whose value only the reshare reads. -/
def Op.isRaw : Op → Bool
  | .mulLocal | .round _ => true
  | _ => false

/-- Operations outside the groups of a round and its results. -/
def Op.isPlain : Op → Bool
  | .round _ | .roundResult _ => false
  | _ => true

/-- A node's round id, if it is a round. -/
def Node.roundId? (node : Node) : Option RoundId :=
  match node.op with
  | .round id => some id
  | _ => none

namespace Graph

/-- The ids of the rounds, in graph order. -/
def roundIds (nodes : List Node) : List RoundId := nodes.filterMap Node.roundId?

/-- The new list, from the old one: a node is kept, or it is a product and three nodes stand for it,
    the last of which carries its value on. -/
structure SplitOf (g : Graph) (remap : List (Option ValueId)) (nodes : List Node) : Prop where
  increasing : ∀ j k t u : Nat, remap[j]? = some (some t) → remap[k]? = some (some u) → j < k → t < u
  kept : ∀ (j t : Nat) (node : Node), remap[j]? = some (some t) → g.nodes[j]? = some node →
    g.sharedProduct node = false →
    ∃ refs, nodes[t]? = some ⟨node.op, refs⟩ ∧ Renamed remap node.inputs refs
  split : ∀ (j t : Nat) (node : Node), remap[j]? = some (some t) → g.nodes[j]? = some node →
    g.sharedProduct node = true →
    ∃ s refs id, t = s + 2 ∧ nodes[s]? = some ⟨.mulLocal, refs⟩ ∧ Renamed remap node.inputs refs ∧
      nodes[s + 1]? = some ⟨.round id, [s]⟩ ∧ nodes[s + 2]? = some ⟨.roundResult 0, [s + 1]⟩
  source : ∀ q < nodes.length, ∃ (j t : Nat) (node : Node), remap[j]? = some (some t) ∧
    g.nodes[j]? = some node ∧
    (t = q ∨ g.sharedProduct node = true ∧ (t = q + 1 ∨ t = q + 2))

/-- What the loop has built, with the callback's count: the rounds emitted so far are numbered in
    their order. -/
structure SplitWalk (g : Graph) (i : Nat) (w : Rewriting Nat) : Prop where
  built : SplitOf g w.remap w.nodes
  calls : Reinvoked w.remap (invocations (g.nodes.take i)) (invocations w.nodes)
  ids : roundIds w.nodes = List.range w.state

theorem roundIds_append (xs ys : List Node) : roundIds (xs ++ ys) = roundIds xs ++ roundIds ys :=
  List.filterMap_append

/-- Every position the loop has assigned is in range. -/
theorem SplitOf.target_lt {g : Graph} {remap : List (Option ValueId)} {nodes : List Node}
    (h : SplitOf g remap nodes) {j t : Nat} {node : Node} (hjt : remap[j]? = some (some t))
    (hnode : g.nodes[j]? = some node) : t < nodes.length := by
  cases hproduct : g.sharedProduct node with
  | false =>
    obtain ⟨refs, hget, _⟩ := h.kept j t node hjt hnode hproduct
    exact (List.getElem?_eq_some_iff.mp hget).1
  | true =>
    obtain ⟨s, refs, id, rfl, _, _, _, hget⟩ := h.split j t node hjt hnode hproduct
    exact (List.getElem?_eq_some_iff.mp hget).1

/-- A turn that pushes `pushed` and leaves the last of it as the node's value. -/
theorem SplitOf.grow {g : Graph} {n i : Nat} {remap : List (Option ValueId)}
    {nodes pushed : List Node} {node : Node} (hn : n = g.nodes.length)
    (h : SplitOf g remap nodes) (hreached : Reached n i remap) (hnode : g.nodes[i]? = some node)
    (hpushed : 0 < pushed.length)
    (hkept : g.sharedProduct node = false → ∃ refs, pushed = [⟨node.op, refs⟩] ∧
      Renamed remap node.inputs refs)
    (hsplit : g.sharedProduct node = true → ∃ refs id,
      pushed = [⟨.mulLocal, refs⟩, ⟨.round id, [nodes.length]⟩,
        ⟨.roundResult 0, [nodes.length + 1]⟩] ∧ Renamed remap node.inputs refs) :
    SplitOf g (remap.set i (some (nodes.length + pushed.length - 1))) (nodes ++ pushed) := by
  have hi : i < n := by
    rw [hn]
    exact (List.getElem?_eq_some_iff.mp hnode).1
  have hrenamed : ∀ {refs us : List ValueId}, Renamed remap refs us →
      Renamed (remap.set i (some (nodes.length + pushed.length - 1))) refs us :=
    fun hr => List.Forall₂.imp (fun v u hvu => hreached.stays hvu) hr
  have hself : (remap.set i (some (nodes.length + pushed.length - 1)))[i]? =
      some (some (nodes.length + pushed.length - 1)) :=
    List.getElem?_set_self (by rw [hreached.length]; exact hi)
  -- Everything placed before is in front of what is pushed now.
  have hold : ∀ {j t : Nat}, remap[j]? = some (some t) → t < nodes.length := by
    intro j t hjt
    have hj : j < g.nodes.length := by
      have := hreached.fresh j t hjt
      omega
    exact h.target_lt hjt (List.getElem?_eq_getElem hj)
  refine ⟨?_, ?_, ?_, ?_⟩
  · intro j k t u hjt hku hjk
    rcases hreached.entry hjt with ⟨hj, ht⟩ | hjt'
    · rcases hreached.entry hku with ⟨hk, hu⟩ | hku'
      · omega
      · have := hreached.fresh k u hku'
        omega
    · rcases hreached.entry hku with ⟨hk, hu⟩ | hku'
      · have := hold hjt'
        omega
      · exact h.increasing j k t u hjt' hku' hjk
  · intro j t node' hjt hnode' hproduct
    rcases hreached.entry hjt with ⟨rfl, rfl⟩ | hjt
    · rw [hnode] at hnode'
      cases hnode'
      obtain ⟨refs, rfl, hren⟩ := hkept hproduct
      exact ⟨refs, by simp, hrenamed hren⟩
    · obtain ⟨refs, hget, hren⟩ := h.kept j t node' hjt hnode' hproduct
      exact ⟨refs, getElem?_append_of_some hget, hrenamed hren⟩
  · intro j t node' hjt hnode' hproduct
    rcases hreached.entry hjt with ⟨rfl, rfl⟩ | hjt
    · rw [hnode] at hnode'
      cases hnode'
      obtain ⟨refs, id, rfl, hren⟩ := hsplit hproduct
      exact ⟨nodes.length, refs, id, by simp, by simp, hrenamed hren, by simp, by simp⟩
    · obtain ⟨s, refs, id, ht, hlocal, hren, hround, hresult⟩ := h.split j t node' hjt hnode' hproduct
      exact ⟨s, refs, id, ht, getElem?_append_of_some hlocal, hrenamed hren,
        getElem?_append_of_some hround, getElem?_append_of_some hresult⟩
  · intro q hq
    rcases Nat.lt_or_ge q nodes.length with hlt | hge
    · -- A position from before has the origin it had; the new ones come from this node.
      obtain ⟨j, t, node', hjt, hnode', hat⟩ := h.source q hlt
      exact ⟨j, t, node', hreached.stays hjt, hnode', hat⟩
    · refine ⟨i, _, node, hself, hnode, ?_⟩
      rw [List.length_append] at hq
      cases hproduct : g.sharedProduct node with
      | false =>
        obtain ⟨refs, rfl, _⟩ := hkept hproduct
        left
        simp at hq ⊢
        omega
      | true =>
        obtain ⟨refs, id, rfl, _⟩ := hsplit hproduct
        simp at hq ⊢
        omega

theorem Frontend.indexed {g : Graph} (hg : g.Frontend) : g.Indexed := by
  refine ⟨hg.ordered, hg.arity, ?_⟩
  intro node hnode site hop
  have hcall : (site, node.inputs) ∈ invocations g.nodes := by
    rw [invocations, List.mem_filterMap]
    exact ⟨node, hnode, by rw [Node.call?, hop]⟩
  have hmem := hg.sites.mem_iff.mp (List.mem_map_of_mem (f := Prod.fst) hcall)
  exact List.mem_range.mp hmem

/-- The split decision of the pass is `sharedProduct`. -/
theorem shouldSplit_eq_ok {g : Graph} (hg : g.Indexed) {i : Nat} {node : Node}
    (hnode : g.nodes[i]? = some node) :
    MulSplit.shouldSplit ((table (netRule g) g.nodes).map Facts.domain) node =
      .ok (g.sharedProduct node) := by
  have hback := hg.ordered i node hnode
  have harity := hg.arity node (List.mem_of_getElem? hnode)
  have hi : i < g.nodes.length := (List.getElem?_eq_some_iff.mp hnode).1
  -- The domains were computed in advance, so reading one does not fail.
  have hread : ∀ v < i, index ((table (netRule g) g.nodes).map Facts.domain) v =
      .ok (g.splitFacts v).domain := by
    intro v hv
    rw [(splitFacts_sameDomain g v).1]
    exact index_table (hv.trans hi)
  obtain ⟨op, inputs⟩ := node
  cases op
  case mul =>
    obtain ⟨a, b, rfl⟩ := eq_pair (harity 2 rfl)
    have ha := hread a (hback a (by simp))
    have hb := hread b (hback b (by simp))
    simp only [MulSplit.shouldSplit, index_eq (List.getElem?_cons_zero), ok_bind, ha,
      index_eq (show [a, b][1]? = some b from rfl), hb, sharedProduct, beq_self_eq_true,
      Bool.true_and, List.all_cons, List.all_nil, Bool.and_true]
    split
    · rename_i hshared
      simp only [hshared, beq_self_eq_true, Bool.true_and]
      rfl
    · rename_i hshared
      rw [beq_false_of_ne hshared]
      rfl
  all_goals rfl

/-- The three nodes of a product. -/
theorem splitProduct_eq_ok {n : Nat} {node : Node} {emitted : List Node}
    (hlen : node.inputs.length = 2) :
    MulSplit.splitProduct n node emitted =
      .ok (.emitMany [⟨.mulLocal, node.inputs⟩, ⟨.round n, [emitted.length]⟩,
        ⟨.roundResult 0, [emitted.length + 1]⟩]) := by
  have hproduct : Node.new .mulLocal node.inputs = .ok ⟨.mulLocal, node.inputs⟩ :=
    Node.new_eq_ok (by simpa [Op.fixedArity] using hlen)
  have hround : Node.new (.round n) [emitted.length] = .ok ⟨.round n, [emitted.length]⟩ :=
    Node.new_eq_ok (by simp [Op.fixedArity])
  have hresult : Node.new (.roundResult 0) [emitted.length + 1] =
      .ok ⟨.roundResult 0, [emitted.length + 1]⟩ := Node.new_eq_ok (by simp [Op.fixedArity])
  simp only [MulSplit.splitProduct, hproduct, hround, hresult, ok_bind]
  rfl

/-- What `mul_split` returns: the description of its nodes, with every old node and every output
    placed, no site lost, and the rounds numbered from zero. -/
structure Splitted (g g' : Graph) (remap : List (Option ValueId)) : Prop where
  graph : g' = { g with nodes := g'.nodes, outputs := g'.outputs, numRounds := g'.numRounds }
  built : SplitOf g remap g'.nodes
  total : ∀ j < g.nodes.length, ∃ t : Nat, remap[j]? = some (some t)
  bound : ∀ j t : Nat, remap[j]? = some (some t) → j < g.nodes.length
  calls : Reinvoked remap (invocations g.nodes) (invocations g'.nodes)
  ids : roundIds g'.nodes = List.range g'.numRounds
  outputs : Rebound remap g.outputs g'.outputs

/-- **`mul_split`** does not abort on a frontend graph, and splits its secret products. -/
theorem mulSplit_returns {g : Graph} (hg : g.Frontend) :
    Returns (fun r => ∃ remap, Splitted g r.1 remap) (MulSplit.run g) := by
  have hindexed := hg.indexed
  -- The decisions are made for all nodes at once, in front of the rewriting.
  have hsplit : g.nodes.mapM (MulSplit.shouldSplit ((table (netRule g) g.nodes).map Facts.domain)) =
      .ok (g.nodes.map g.sharedProduct) := by
    apply mapM_eq_ok
    intro node hmem
    obtain ⟨i, hi, hget⟩ := List.getElem_of_mem hmem
    exact shouldSplit_eq_ok hindexed (hget ▸ List.getElem?_eq_getElem hi)
  -- A turn keeps the node or pushes its three, and counts the round.
  have hloop : Returns (fun r => ∃ w, Reached g.nodes.length g.nodes.length w.remap ∧
      SplitWalk g g.nodes.length w ∧ Rewritten g w r)
      (g.rewrite (MulSplit.visit (g.nodes.map g.sharedProduct)) 0) := by
    apply rewrite_returns hg.ordered hg.outputs
    · refine ⟨⟨?_, ?_, ?_, ?_⟩, .nil, rfl⟩
      · intro j k t u hjt
        cases List.eq_of_mem_replicate (List.mem_of_getElem? hjt)
      · intro j t node hjt
        cases List.eq_of_mem_replicate (List.mem_of_getElem? hjt)
      · intro j t node hjt
        cases List.eq_of_mem_replicate (List.mem_of_getElem? hjt)
      · intro q hq
        cases hq
    · intro i node w inputs hnode hreached hw hren
      have hmem : node ∈ g.nodes := List.mem_of_getElem? hnode
      have hdecide : index (g.nodes.map g.sharedProduct) i = .ok (g.sharedProduct node) := by
        apply index_eq
        rw [List.getElem?_map, hnode]
        rfl
      unfold MulSplit.visit
      rw [hdecide, ok_bind]
      cases hproduct : g.sharedProduct node with
      | true =>
        have hop : node.op = .mul := by
          rw [sharedProduct, Bool.and_eq_true] at hproduct
          exact eq_of_beq hproduct.1
        have hlen : inputs.length = 2 := by
          rw [hren.length]
          exact hg.arity node hmem 2 (by rw [hop]; rfl)
        rw [if_pos rfl, splitProduct_eq_ok hlen, ok_bind]
        refine ⟨by simp [RewriteAction.Proper], ?_, ?_, ?_⟩
        · apply hw.built.grow rfl hreached hnode (by simp)
          · intro hfalse
            rw [hproduct] at hfalse
            cases hfalse
          · intro _
            exact ⟨inputs, w.state, rfl, hren⟩
        · show Reinvoked _ (invocations (g.nodes.take (i + 1))) (invocations (w.nodes ++ _))
          have hnone : invocations [node] = [] := invocations_pure (by rw [hop]; rfl)
          rw [invocations_take_succ hnode, invocations_append, hnone, List.append_nil]
          have hpushed : invocations (RewriteAction.pushed ⟨node.op, inputs⟩
              (.emitMany [⟨.mulLocal, inputs⟩, ⟨.round w.state, [w.nodes.length]⟩,
                ⟨.roundResult 0, [w.nodes.length + 1]⟩])) = [] := rfl
          rw [hpushed, List.append_nil]
          exact hw.calls.stays hreached
        · show roundIds (w.nodes ++ _) = List.range (w.state + 1)
          rw [roundIds_append, hw.ids, List.range_succ]
          rfl
      | false =>
        refine ⟨by simp [RewriteAction.Proper], ?_, ?_, ?_⟩
        · have hgrown : SplitOf g (w.remap.set i (some (w.nodes.length +
              [(⟨node.op, inputs⟩ : Node)].length - 1))) (w.nodes ++ [⟨node.op, inputs⟩]) := by
            refine hw.built.grow rfl hreached hnode (by simp) ?_ ?_
            · intro _
              exact ⟨inputs, rfl, hren⟩
            · intro htrue
              rw [hproduct] at htrue
              cases htrue
          exact hgrown
        · show Reinvoked _ (invocations (g.nodes.take (i + 1))) (invocations (w.nodes ++ _))
          rw [invocations_take_succ hnode, invocations_append]
          apply List.rel_append (hw.calls.stays hreached)
          exact reinvoked_moved hreached hren
        · show roundIds (w.nodes ++ _) = List.range w.state
          rw [roundIds_append, hw.ids]
          have hnone : roundIds [(⟨node.op, inputs⟩ : Node)] = [] := by
            have hfront := hg.frontend node hmem
            cases hop : node.op with
            | round id =>
              rw [hop] at hfront
              cases hfront
            | _ => rfl
          show _ ++ roundIds [(⟨node.op, inputs⟩ : Node)] = _
          rw [hnone, List.append_nil]
  unfold MulSplit.run
  rw [computeDomains_eq_ok hindexed, ok_bind, hsplit, ok_bind]
  apply Meets.bind hloop
  rintro ⟨g', numRounds, changed⟩ ⟨w, hreached, hw, hrewritten⟩
  have hgraph : g' = { g with nodes := w.nodes, outputs := g'.outputs } := hrewritten.graph
  have hnodes : g'.nodes = w.nodes := by rw [hgraph]
  have hstate : numRounds = w.state := hrewritten.state
  refine ⟨w.remap, ?_, ?_, hreached.done, hreached.fresh, ?_, ?_, hrewritten.outputs⟩
  · show g'.setNumRounds numRounds = _
    rw [hgraph]
    rfl
  · show SplitOf g w.remap g'.nodes
    rw [hnodes]
    exact hw.built
  · show Reinvoked w.remap (invocations g.nodes) (invocations g'.nodes)
    rw [hnodes]
    have h := hw.calls
    rw [List.take_length] at h
    exact h
  · show roundIds g'.nodes = List.range numRounds
    rw [hnodes, hstate]
    exact hw.ids

/-! ## The shape of a split graph -/

/-- Every local product stands in front of a round of its own and that round's result, every round
    and every result belongs to such a group, and no other node reads a local product or a round. -/
structure Split (nodes : List Node) : Prop where
  product : ∀ (s : Nat) (args : List ValueId), nodes[s]? = some ⟨.mulLocal, args⟩ →
    (∃ id, nodes[s + 1]? = some ⟨.round id, [s]⟩) ∧
      nodes[s + 2]? = some ⟨.roundResult 0, [s + 1]⟩
  round : ∀ (q : Nat) (id : RoundId) (args : List ValueId), nodes[q]? = some ⟨.round id, args⟩ →
    ∃ s args', q = s + 1 ∧ nodes[s]? = some ⟨.mulLocal, args'⟩
  result : ∀ (q slot : Nat) (args : List ValueId), nodes[q]? = some ⟨.roundResult slot, args⟩ →
    ∃ s args', q = s + 2 ∧ nodes[s]? = some ⟨.mulLocal, args'⟩
  unread : ∀ node ∈ nodes, node.op.isPlain = true → ∀ v ∈ node.inputs, ∀ source,
    nodes[v]? = some source → source.op.isRaw = false

section Shape

variable {g : Graph} {remap : List (Option ValueId)} {nodes : List Node}

/-- What stands at a new position: a kept node, or one of the three of a product, with the other two
    where they have to be. -/
inductive Standing (g : Graph) (remap : List (Option ValueId)) (nodes : List Node) (q : Nat)
    (new : Node) : Prop
  | kept (j : Nat) (node : Node) (hjq : remap[j]? = some (some q)) (hnode : g.nodes[j]? = some node)
      (hproduct : g.sharedProduct node = false) (hop : new.op = node.op)
      (hren : Renamed remap node.inputs new.inputs)
  | product (j : Nat) (node : Node) (id : RoundId) (hjq : remap[j]? = some (some (q + 2)))
      (hnode : g.nodes[j]? = some node) (hproduct : g.sharedProduct node = true)
      (hop : new.op = .mulLocal) (hren : Renamed remap node.inputs new.inputs)
      (hround : nodes[q + 1]? = some ⟨.round id, [q]⟩)
      (hresult : nodes[q + 2]? = some ⟨.roundResult 0, [q + 1]⟩)
  | round (s j : Nat) (node : Node) (id : RoundId) (args : List ValueId) (hs : q = s + 1)
      (hjq : remap[j]? = some (some (q + 1))) (hnew : new = ⟨.round id, [s]⟩)
      (hlocal : nodes[s]? = some ⟨.mulLocal, args⟩)
  | result (s j : Nat) (node : Node) (args : List ValueId) (hs : q = s + 2)
      (hjq : remap[j]? = some (some q)) (hnode : g.nodes[j]? = some node)
      (hproduct : g.sharedProduct node = true) (hnew : new = ⟨.roundResult 0, [s + 1]⟩)
      (hlocal : nodes[s]? = some ⟨.mulLocal, args⟩)

theorem SplitOf.standing (h : SplitOf g remap nodes) {q : Nat} {new : Node}
    (hnew : nodes[q]? = some new) : Standing g remap nodes q new := by
  have hq : q < nodes.length := (List.getElem?_eq_some_iff.mp hnew).1
  obtain ⟨j, t, node, hjt, hnode, hat⟩ := h.source q hq
  cases hproduct : g.sharedProduct node with
  | false =>
    obtain ⟨refs, hget, hren⟩ := h.kept j t node hjt hnode hproduct
    have htq : t = q := by
      -- The last of the three is the node's place; the other two stand in front of it.
      rcases hat with ht | ⟨htrue, _⟩
      · exact ht
      · rw [hproduct] at htrue
        cases htrue
    subst htq
    rw [hnew] at hget
    cases hget
    exact .kept j node hjt hnode hproduct rfl hren
  | true =>
    obtain ⟨s, refs, id, ht, hlocal, hren, hround, hresult⟩ := h.split j t node hjt hnode hproduct
    subst ht
    rcases hat with heq | ⟨_, heq | heq⟩
    · subst heq
      rw [hnew] at hresult
      exact .result s j node refs rfl hjt hnode hproduct (Option.some.inj hresult) hlocal
    · have hqs : q = s + 1 := by omega
      subst hqs
      rw [hnew] at hround
      exact .round s j node id refs rfl hjt (Option.some.inj hround) hlocal
    · have hqs : q = s := by omega
      subst hqs
      rw [hnew] at hlocal
      cases hlocal
      exact .product j node id hjt hnode hproduct rfl hren hround hresult

/-- No alias points at a local product or at a round. -/
theorem SplitOf.carried (hg : g.Frontend) (h : SplitOf g remap nodes) {j t : Nat} {source : Node}
    (hj : j < g.nodes.length) (hjt : remap[j]? = some (some t)) (hget : nodes[t]? = some source) :
    source.op.isRaw = false := by
  have hnode : g.nodes[j]? = some g.nodes[j] := List.getElem?_eq_getElem hj
  cases hproduct : g.sharedProduct g.nodes[j] with
  | false =>
    obtain ⟨refs, hkept, _⟩ := h.kept j t _ hjt hnode hproduct
    rw [hget] at hkept
    cases hkept
    have hfront := hg.frontend _ (List.mem_of_getElem? hnode)
    cases hop : g.nodes[j].op <;> rw [hop] at hfront <;> first | rfl | cases hfront
  | true =>
    obtain ⟨s, refs, id, rfl, _, _, _, hresult⟩ := h.split j t _ hjt hnode hproduct
    rw [hget] at hresult
    cases hresult
    rfl

/-- **A split graph.** -/
theorem SplitOf.shape (hg : g.Frontend) (h : SplitOf g remap nodes)
    (hbound : ∀ j t : Nat, remap[j]? = some (some t) → j < g.nodes.length) : Split nodes := by
  -- A frontend node is none of the three, so only a split product yields one of them.
  have hfrontend : ∀ {j : Nat} {node : Node}, g.nodes[j]? = some node →
      node.op.isFrontend = true := fun hnode => hg.frontend _ (List.mem_of_getElem? hnode)
  refine ⟨?_, ?_, ?_, ?_⟩
  · intro s args hlocal
    cases h.standing hlocal with
    | kept j node _ hnode _ hop _ =>
      have hfront := hfrontend hnode
      rw [← hop] at hfront
      cases hfront
    | product j node id _ _ _ _ _ hround hresult => exact ⟨⟨id, hround⟩, hresult⟩
    | round s' j node id args' _ _ hnew _ => cases hnew
    | result s' j node args' _ _ _ _ hnew _ => cases hnew
  · intro q id args hround
    cases h.standing hround with
    | kept j node _ hnode _ hop _ =>
      have hfront := hfrontend hnode
      rw [← hop] at hfront
      cases hfront
    | product j node id' _ _ _ hop _ _ _ => cases hop
    | round s j node id' args' hs _ _ hlocal => exact ⟨s, args', hs, hlocal⟩
    | result s j node args' _ _ _ _ hnew _ => cases hnew
  · intro q slot args hresult
    cases h.standing hresult with
    | kept j node _ hnode _ hop _ =>
      have hfront := hfrontend hnode
      rw [← hop] at hfront
      cases hfront
    | product j node id' _ _ _ hop _ _ _ => cases hop
    | round s j node id' args' _ _ hnew _ => cases hnew
    | result s j node args' hs _ _ _ _ hlocal => exact ⟨s, args', hs, hlocal⟩
  · intro new hmem hplain v hv source hget
    obtain ⟨q, hq, hgetq⟩ := List.getElem_of_mem hmem
    have hrenamed : ∀ {node : Node}, Renamed remap node.inputs new.inputs →
        source.op.isRaw = false := by
      intro node hren
      obtain ⟨v', _, hvv⟩ := hren.source hv
      exact h.carried hg (hbound v' v hvv) hvv hget
    cases h.standing (hgetq ▸ List.getElem?_eq_getElem hq) with
    | kept j node _ _ _ _ hren => exact hrenamed hren
    | product j node id _ _ _ _ hren _ _ => exact hrenamed hren
    | round s j node id args _ _ hnew _ =>
      rw [hnew] at hplain
      cases hplain
    | result s j node args _ _ _ _ hnew _ =>
      rw [hnew] at hplain
      cases hplain

/-- A split graph is in topological order. -/
theorem SplitOf.ordered (hg : g.Frontend) (h : SplitOf g remap nodes)
    (hbound : ∀ j t : Nat, remap[j]? = some (some t) → j < g.nodes.length) : Ordered nodes := by
  intro q new hnew v hv
  cases h.standing hnew with
  | kept j node hjq hnode _ _ hren =>
    obtain ⟨v', hv', hvv⟩ := hren.source hv
    exact h.increasing v' j v q hvv hjq (hg.ordered j node hnode v' hv')
  | product j node id hjq hnode _ hop hren hround _ =>
    obtain ⟨v', hv', hvv⟩ := hren.source hv
    have hlt := h.increasing v' j v (q + 2) hvv hjq (hg.ordered j node hnode v' hv')
    -- The product's own local part and round are nobody's value.
    have hlocal : v ≠ q := by
      intro heq
      subst heq
      have hraw := h.carried hg (hbound v' v hvv) hvv hnew
      rw [hop] at hraw
      cases hraw
    have hnotRound : v ≠ q + 1 := by
      intro heq
      subst heq
      have hraw := h.carried hg (hbound v' _ hvv) hvv hround
      cases hraw
    omega
  | round s j node id args hs _ hnew' _ =>
    rw [hnew'] at hv
    rw [List.mem_singleton.mp hv, hs]
    exact Nat.lt_succ_self s
  | result s j node args hs _ _ _ hnew' _ =>
    rw [hnew'] at hv
    rw [List.mem_singleton.mp hv, hs]
    exact Nat.lt_succ_self (s + 1)

end Shape

end Graph
end CircomMpc
