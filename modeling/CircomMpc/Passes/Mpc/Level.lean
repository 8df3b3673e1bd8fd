import CircomMpc.Passes.Mpc.Domain

/-!
# The analysis loops return the tables of their rules

On a graph whose references and sites are in range, no index of the two loops is past the end, and
entry by entry they compute what the rules say. From here on a pass's proof reads facts off the
rules and never looks at a loop again.

Both levels grow along every edge of the graph (`net_mono`, `full_mono`): that is all the schedulers
need to know to place a node behind everything it reads.
-/

namespace CircomMpc

open Lib CircomMpc.Graph

/-- Reading an entry of a table's front. -/
theorem index_take {α β : Type} [Inhabited α] {rule : Op → List α → α} {nodes : List Node}
    {project : α → β} {i v : Nat} (hv : v < i) (hi : i ≤ nodes.length) :
    index (((table rule nodes).map project).take i) v = .ok (project (value rule nodes v)) := by
  rw [index, List.getElem?_take_of_lt hv, List.getElem?_map, table_getElem? (by omega)]
  rfl

theorem index_table {α β : Type} [Inhabited α] {rule : Op → List α → α} {nodes : List Node}
    {project : α → β} {v : Nat} (hv : v < nodes.length) :
    index ((table rule nodes).map project) v = .ok (project (value rule nodes v)) := by
  have h : index (((table rule nodes).map project).take nodes.length) v =
      .ok (project (value rule nodes v)) := index_take hv (Nat.le_refl nodes.length)
  rw [List.take_of_length_le (by rw [List.length_map, table_length])] at h
  exact h

theorem index_eq {α : Type} {xs : List α} {i : Nat} {x : α} (h : xs[i]? = some x) :
    index xs i = .ok x := by
  rw [index, h, orElse_some]

/-- Folding over operands that can all be read. -/
theorem foldlM_index {α β γ : Type} {look : ValueId → γ} {read : ValueId → Except Panic β}
    {project : γ → β} {op : α → β → α} {inputs : List ValueId}
    (h : ∀ v ∈ inputs, read v = .ok (project (look v))) (start : α) :
    inputs.foldlM (fun acc v => do pure (op acc (← read v))) start =
      .ok (((inputs.map look).map project).foldl op start) := by
  induction inputs generalizing start with
  | nil => rfl
  | cons v vs ih =>
    rw [List.foldlM_cons, h v (by simp)]
    exact ih (fun w hw => h w (by simp [hw])) _

section Loops

variable {g : Graph}

/-- The rule, read as an equation of the graph's facts. -/
theorem facts_eq (hg : g.Indexed) {i : Nat} {node : Node} (hnode : g.nodes[i]? = some node) :
    g.facts i = netRule g node.op (node.inputs.map g.facts) :=
  value_eq hg.ordered hnode

theorem full_eq (hg : g.Indexed) {i : Nat} {node : Node} (hnode : g.nodes[i]? = some node) :
    g.full i = fullRule node.op (node.inputs.map g.full) :=
  value_eq hg.ordered hnode

theorem nodeDomain_eq_ok (hg : g.Indexed) {i : Nat} {node : Node}
    (hnode : g.nodes[i]? = some node) {domains : List Domain}
    (hread : ∀ v < i, index domains v = .ok (g.facts v).domain) :
    nodeDomain g domains node = .ok (g.facts i).domain := by
  have hback := hg.ordered i node hnode
  have harity := hg.arity node (List.mem_of_getElem? hnode)
  rw [facts_eq hg hnode]
  obtain ⟨op, inputs⟩ := node
  cases op
  case input => rfl
  case constant => rfl
  case mulLocal => rfl
  case round => rfl
  case roundResult => rfl
  case gadget =>
    have hjoin : inputs.foldlM (fun d input => do pure (d.join (← index domains input)))
        Domain.public = .ok (joinAll (inputs.map g.facts)) :=
      foldlM_index (fun v hv => hread v (hback v hv)) Domain.public
    exact hjoin
  -- A result has its site's domain, unless the site opens what it is given.
  case gadgetResult =>
    obtain ⟨v, rfl⟩ := eq_singleton (harity 1 rfl)
    have hv : v < i := hback v (by simp)
    have hlt : v < g.nodes.length := hv.trans (List.getElem?_eq_some_iff.mp hnode).1
    have hsource : g.nodes[v]? = some g.nodes[v] := List.getElem?_eq_getElem hlt
    have hfacts := facts_eq hg hsource
    simp only [nodeDomain, index_eq (List.getElem?_cons_zero), ok_bind, index_eq hsource,
      hread v hv]
    show _ = Except.ok (g.facts v).results
    rw [hfacts]
    generalize hsame : g.nodes[v] = source at hsource hfacts
    obtain ⟨op, inputs⟩ := source
    cases op
    case gadget site =>
      have hsite : site < g.gadgetSites.length :=
        hg.sites _ (List.mem_of_getElem? hsource) site rfl
      have hget : g.gadgetSites[site]? = some g.gadgetSites[site] := List.getElem?_eq_getElem hsite
      simp only [index_eq hget, ok_bind, netRule, Graph.reveals, hget]
      cases g.gadgetSites[site].kind <;> rfl
    all_goals rfl
  all_goals
    obtain ⟨a, b, rfl⟩ := eq_pair (harity 2 rfl)
    have ha : a < i := hback a (by simp)
    have hb : b < i := hback b (by simp)
    show (do
      let a ← index domains a
      let b ← index domains b
      pure (a.join b)) = _
    rw [hread a ha, ok_bind, hread b hb]
    rfl

/-- **`compute_domains`** returns the domains of the rule. -/
theorem computeDomains_eq_ok (hg : g.Indexed) :
    computeDomains g = .ok ((table (netRule g) g.nodes).map Facts.domain) := by
  apply foldlM_push_eq_ok
  · simp [table_length]
  · rfl
  · intro i node domain hnode hdomain
    simp only [List.length_nil, Nat.zero_add] at hdomain ⊢
    have hi : i < g.nodes.length := (List.getElem?_eq_some_iff.mp hnode).1
    rw [List.getElem?_map, table_getElem? hi] at hdomain
    cases hdomain
    apply nodeDomain_eq_ok hg hnode
    intro v hv
    exact index_take hv (Nat.le_of_lt hi)

/-- A loop that fills a preallocated table entry by entry. -/
theorem fill_eq_ok {nodes : List Node} {start target : List Nat}
    {level : List Nat → Node → Except Panic Nat} (hstart : start.length = nodes.length)
    (htarget : target.length = nodes.length)
    (h : ∀ (i : Nat) (node : Node) (filled : List Nat), nodes[i]? = some node →
      (∀ v < i, index filled v = index target v) → level filled node = index target i) :
    nodes.zipIdx.foldlM (fun filled (node, i) => do
      let l ← level filled node
      setIndex filled i l) start = .ok target := by
  -- Below the current node the table is filled with the target's entries.
  have hloop : Returns (fun filled : List Nat => filled.length = nodes.length ∧
      ∀ v < 0 + nodes.length, index filled v = index target v)
      (nodes.zipIdx.foldlM (fun filled (node, i) => do
        let l ← level filled node
        setIndex filled i l) start) := by
    refine Meets.foldlM_zipIdx (fun i (filled : List Nat) => filled.length = nodes.length ∧
      ∀ v < i, index filled v = index target v) ⟨hstart, ?_⟩ ?_
    · intro v hv
      exact absurd hv (Nat.not_lt_zero v)
    · intro i node filled hnode hfilled
      rw [Nat.zero_add] at hfilled ⊢
      obtain ⟨hlen, hread⟩ := hfilled
      have hi : i < nodes.length := (List.getElem?_eq_some_iff.mp hnode).1
      have hget : target[i]? = some target[i] := List.getElem?_eq_getElem (by omega)
      have hlevel : level filled node = .ok target[i] := by
        rw [h i node filled hnode hread, index_eq hget]
      show Returns _ (level filled node >>= fun l => setIndex filled i l)
      rw [hlevel, ok_bind, setIndex, if_pos (by omega)]
      refine ⟨by rw [List.length_set]; exact hlen, ?_⟩
      intro v hv
      by_cases hiv : i = v
      · subst hiv
        rw [index, List.getElem?_set_self (by omega), index, hget]
      · rw [index, List.getElem?_set_ne hiv]
        exact hread v (by omega)
  obtain ⟨filled, hrun, hlen, hread⟩ := hloop.ok_of_never
  rw [hrun]
  congr 1
  apply List.ext_getElem?
  intro v
  rcases Nat.lt_or_ge v nodes.length with hv | hv
  · have hentry := hread v (by omega)
    rw [List.getElem?_eq_getElem (by omega), List.getElem?_eq_getElem (by omega)]
    rw [index_eq (List.getElem?_eq_getElem (by omega)),
      index_eq (List.getElem?_eq_getElem (by omega))] at hentry
    rw [Except.ok.inj hentry]
  · rw [List.getElem?_eq_none (by omega), List.getElem?_eq_none (by omega)]

theorem maxInput_eq_ok {level : List Nat} {inputs : List ValueId} {look : ValueId → Nat}
    (h : ∀ v ∈ inputs, index level v = .ok (look v)) :
    maxInput level inputs = .ok ((inputs.map look).foldl max 0) := by
  unfold maxInput
  rw [mapM_eq_ok h, ok_bind]
  rfl

/-- **`network_levels`**, given the domains, returns the network levels of the rule. -/
theorem networkLevels_eq_ok (hg : g.Indexed) :
    networkLevels g ((table (netRule g) g.nodes).map Facts.domain) =
      .ok ((table (netRule g) g.nodes).map Facts.net) := by
  unfold networkLevels levelsWith
  rw [ensure_of (by rw [List.length_map, table_length]), ok_bind]
  apply fill_eq_ok
  · exact List.length_replicate
  · rw [List.length_map, table_length]
  · intro i node level hnode hlevel
    have hi : i < g.nodes.length := (List.getElem?_eq_some_iff.mp hnode).1
    have hback := hg.ordered i node hnode
    have harity := hg.arity node (List.mem_of_getElem? hnode)
    have hread : ∀ v < i, index level v = .ok (g.facts v).net := by
      intro v hv
      rw [hlevel v hv]
      exact index_table (hv.trans hi)
    have hnet : index ((table (netRule g) g.nodes).map Facts.net) i = .ok (g.facts i).net :=
      index_table hi
    rw [hnet, facts_eq hg hnode]
    -- The source's running maximum is the maximum of the operands' levels.
    have hmax : maxInput level node.inputs = .ok (maxNet (node.inputs.map g.facts)) := by
      rw [maxNet, List.map_map]
      exact maxInput_eq_ok fun v hv => hread v (hback v hv)
    obtain ⟨op, inputs⟩ := node
    cases op
    case input => rfl
    case constant => rfl
    case roundResult =>
      obtain ⟨v, rfl⟩ := eq_singleton (harity 1 rfl)
      show (do pure ((← index level v) + 1)) = _
      rw [hread v (hback v (by simp))]
      rfl
    case gadgetResult =>
      obtain ⟨v, rfl⟩ := eq_singleton (harity 1 rfl)
      have hv : v < i := hback v (by simp)
      have hdomain : index ((table (netRule g) g.nodes).map Facts.domain) v =
          .ok (g.facts v).domain := index_table (hv.trans hi)
      simp only [nodeLevel, index_eq (List.getElem?_cons_zero), ok_bind, hdomain, hread v hv]
      rw [List.map_singleton, netRule_gadgetResult]
      cases (g.facts v).domain <;> rfl
    all_goals exact hmax

/-- **`full_levels`** returns the full levels of the rule. -/
theorem fullLevels_eq_ok (hg : g.Indexed) : fullLevels g = .ok (table fullRule g.nodes) := by
  unfold fullLevels levelsWith
  apply fill_eq_ok
  · exact List.length_replicate
  · exact table_length _
  · intro i node level hnode hlevel
    have hi : i < g.nodes.length := (List.getElem?_eq_some_iff.mp hnode).1
    have hback := hg.ordered i node hnode
    have harity := hg.arity node (List.mem_of_getElem? hnode)
    have htable : ∀ v < g.nodes.length, index (table fullRule g.nodes) v = .ok (g.full v) :=
      fun v hv => index_eq (table_getElem? hv)
    have hread : ∀ v < i, index level v = .ok (g.full v) := by
      intro v hv
      rw [hlevel v hv]
      exact htable v (hv.trans hi)
    rw [htable i hi, full_eq hg hnode]
    have hmax := maxInput_eq_ok fun v hv => hread v (hback v hv)
    obtain ⟨op, inputs⟩ := node
    cases op
    case input => rfl
    case constant => rfl
    case roundResult =>
      obtain ⟨v, rfl⟩ := eq_singleton (harity 1 rfl)
      show (do pure ((← index level v) + 1)) = _
      rw [hread v (hback v (by simp))]
      rfl
    case gadgetResult =>
      obtain ⟨v, rfl⟩ := eq_singleton (harity 1 rfl)
      show (do pure ((← index level v) + 1)) = _
      rw [hread v (hback v (by simp))]
      rfl
    all_goals exact hmax

/-! ## Levels grow along every edge -/

theorem foldl_max_le {xs : List Nat} {start b : Nat} (hstart : start ≤ b) (h : ∀ x ∈ xs, x ≤ b) :
    xs.foldl max start ≤ b := by
  induction xs generalizing start with
  | nil => exact hstart
  | cons x xs ih =>
    rw [List.foldl_cons]
    exact ih (Nat.max_le.mpr ⟨hstart, h x (by simp)⟩) fun y hy => h y (by simp [hy])

theorem le_foldl_max {x : Nat} : ∀ {xs : List Nat} {start : Nat},
    x ≤ start ∨ x ∈ xs → x ≤ xs.foldl max start
  | [], _, h => by
    rcases h with h | h
    · exact h
    · cases h
  | y :: ys, start, h => by
    rw [List.foldl_cons]
    apply le_foldl_max
    rcases h with h | h
    · exact .inl (Nat.le_trans h (Nat.le_max_left _ _))
    · rcases List.mem_cons.mp h with rfl | h
      · exact .inl (Nat.le_max_right _ _)
      · exact .inr h

/-- A node's network level is at least that of everything it reads. -/
theorem net_mono (hg : g.Indexed) {i v : Nat} {node : Node} (hnode : g.nodes[i]? = some node)
    (hv : v ∈ node.inputs) : (g.facts v).net ≤ (g.facts i).net := by
  have hmem : (g.facts v).net ∈ ((node.inputs.map g.facts).map Facts.net) :=
    List.mem_map_of_mem (List.mem_map_of_mem hv)
  -- Every rule is at least the maximum of the operands; only a result charges more.
  have hmax : (g.facts v).net ≤ maxNet (node.inputs.map g.facts) := le_foldl_max (.inr hmem)
  have harity := hg.arity node (List.mem_of_getElem? hnode)
  rw [facts_eq hg hnode]
  obtain ⟨op, inputs⟩ := node
  cases op
  case input =>
    rw [List.length_eq_zero_iff.mp (harity 0 rfl)] at hv
    cases hv
  case constant =>
    rw [List.length_eq_zero_iff.mp (harity 0 rfl)] at hv
    cases hv
  case roundResult =>
    obtain ⟨u, rfl⟩ := eq_singleton (harity 1 rfl)
    rw [List.mem_singleton.mp hv]
    exact Nat.le_succ _
  case gadgetResult =>
    obtain ⟨u, rfl⟩ := eq_singleton (harity 1 rfl)
    rw [List.mem_singleton.mp hv]
    rw [List.map_singleton, netRule_gadgetResult]
    cases (g.facts u).domain
    · exact Nat.le_refl _
    · exact Nat.le_succ _
    · exact Nat.le_succ _
  all_goals exact hmax

/-- A node's full level is at least that of everything it reads. -/
theorem full_mono (hg : g.Indexed) {i v : Nat} {node : Node} (hnode : g.nodes[i]? = some node)
    (hv : v ∈ node.inputs) : g.full v ≤ g.full i := by
  have hmax : g.full v ≤ (node.inputs.map g.full).foldl max 0 :=
    le_foldl_max (.inr (List.mem_map_of_mem hv))
  have harity := hg.arity node (List.mem_of_getElem? hnode)
  rw [full_eq hg hnode]
  obtain ⟨op, inputs⟩ := node
  cases op
  case input =>
    rw [List.length_eq_zero_iff.mp (harity 0 rfl)] at hv
    cases hv
  case constant =>
    rw [List.length_eq_zero_iff.mp (harity 0 rfl)] at hv
    cases hv
  case roundResult =>
    obtain ⟨u, rfl⟩ := eq_singleton (harity 1 rfl)
    rw [List.mem_singleton.mp hv]
    exact Nat.le_succ _
  case gadgetResult =>
    obtain ⟨u, rfl⟩ := eq_singleton (harity 1 rfl)
    rw [List.mem_singleton.mp hv]
    exact Nat.le_succ _
  all_goals exact hmax

end Loops

end CircomMpc
