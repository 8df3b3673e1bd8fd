import CircomMpc.Passes.Mpc.Split

/-!
# What the splitting preserves

The result of a singleton round is the local product it reshares, so three nodes for one product
change no value. Nor do they change a domain, and the level they add is the one `splitRule` charges.
On the graph the pass leaves no product of two shared values is left to charge, so there `splitRule`
and `netRule` say the same.
-/

namespace CircomMpc

open Lib CircomMpc.Graph

namespace Graph

section Meaning

variable {g : Graph} {remap : List (Option ValueId)} {nodes : List Node}

/-- A node that invokes no site has one value, whatever slot is asked for. -/
theorem value_scalar (hg : g.Frontend) (I : Interp) {i : Nat} {node : Node}
    (hnode : g.nodes[i]? = some node) (hscalar : node.invokes = false) (k : Nat) :
    value (evalRule I) g.nodes i k = value (evalRule I) g.nodes i 0 := by
  induction i using Nat.strongRecOn generalizing node k with
  | _ i ih =>
    have hmem := List.mem_of_getElem? hnode
    have hback := hg.ordered i node hnode
    have harity := hg.arity node hmem
    have hunread := hg.unread node hmem
    have hi : i < g.nodes.length := (List.getElem?_eq_some_iff.mp hnode).1
    -- An operand of arithmetic invokes no site, so it is a scalar too.
    have hoperand : node.op.isResult = false → ∀ v ∈ node.inputs, ∀ k,
        value (evalRule I) g.nodes v k = value (evalRule I) g.nodes v 0 := by
      intro hplain v hv k
      rcases List.getElem?_eq_some_iff.mpr ⟨(hback v hv).trans hi, rfl⟩ with hsource
      exact ih v (hback v hv) hsource (hunread hplain v hv _ hsource) k
    have hfront := hg.frontend node hmem
    rw [value_eq hg.ordered hnode]
    obtain ⟨op, inputs⟩ := node
    cases op
    case input => rfl
    case constant => rfl
    case gadgetResult => rfl
    case gadget => cases hscalar
    case mulLocal => cases hfront
    case round => cases hfront
    case roundResult => cases hfront
    all_goals
      obtain ⟨a, b, rfl⟩ := eq_pair (harity 2 rfl)
      have ha := hoperand rfl a (by simp) k
      have hb := hoperand rfl b (by simp) k
      simp [evalRule, operand, ha, hb]

/-- Three nodes for a product keep the placement of any analysis for which the result of a singleton
    round over the local product is the product. -/
theorem SplitOf.placed {α : Type} [Inhabited α] {rule : Op → List α → α} (hg : g.Frontend)
    (h : SplitOf g remap nodes)
    (hbound : ∀ j t : Nat, remap[j]? = some (some t) → j < g.nodes.length)
    (hrule : ∀ (j : Nat) (node : Node) (id : RoundId), g.nodes[j]? = some node →
      g.sharedProduct node = true →
      rule (.roundResult 0) [rule (.round id) [rule .mulLocal
        (node.inputs.map (value rule g.nodes))]] =
      rule node.op (node.inputs.map (value rule g.nodes))) :
    Placed rule g.nodes remap nodes := by
  have hord := h.ordered hg hbound
  apply Placed.of_facts hord
  intro j t hjt hfacts
  have hj := hbound j t hjt
  have hnode : g.nodes[j]? = some g.nodes[j] := List.getElem?_eq_getElem hj
  refine ⟨h.target_lt hjt hnode, ?_⟩
  have hargs : ∀ {refs : List ValueId}, Renamed remap g.nodes[j].inputs refs →
      (∀ u ∈ refs, u < t) →
      refs.map (value rule nodes) = g.nodes[j].inputs.map (value rule g.nodes) := by
    intro refs hren hlt
    exact hren.map_eq fun v u hu hvu => hfacts v u (hlt u hu) hvu
  cases hproduct : g.sharedProduct g.nodes[j] with
  | false =>
    obtain ⟨refs, hget, hren⟩ := h.kept j t _ hjt hnode hproduct
    rw [value_eq hord hget, hargs hren (hord t _ hget), value_eq hg.ordered hnode]
  | true =>
    obtain ⟨s, refs, id, rfl, hlocal, hren, hround, hresult⟩ := h.split j t _ hjt hnode hproduct
    -- Through the three nodes from the local product to the result.
    have hs : value rule nodes s = rule .mulLocal (g.nodes[j].inputs.map (value rule g.nodes)) := by
      have hlt : ∀ u ∈ refs, u < s + 2 := fun u hu =>
        Nat.lt_trans (hord s _ hlocal u hu) (Nat.lt_add_of_pos_right Nat.two_pos)
      rw [value_eq hord hlocal, hargs hren hlt]
    have hs1 : value rule nodes (s + 1) = rule (.round id) [value rule nodes s] :=
      value_eq hord hround
    have hs2 : value rule nodes (s + 2) = rule (.roundResult 0) [value rule nodes (s + 1)] :=
      value_eq hord hresult
    rw [hs2, hs1, hs, hrule j _ id hnode hproduct, value_eq hg.ordered hnode]

theorem sharedProduct_inputs (hg : g.Frontend) {j : Nat} {node : Node}
    (hnode : g.nodes[j]? = some node) (hproduct : g.sharedProduct node = true) :
    ∃ a b, node = ⟨.mul, [a, b]⟩ ∧ (g.splitFacts a).domain = .shared ∧
      (g.splitFacts b).domain = .shared := by
  have harity := hg.arity node (List.mem_of_getElem? hnode)
  obtain ⟨op, inputs⟩ := node
  rw [sharedProduct, Bool.and_eq_true] at hproduct
  have hop : op = .mul := eq_of_beq hproduct.1
  subst hop
  obtain ⟨a, b, rfl⟩ := eq_pair (harity 2 rfl)
  have hall := List.all_eq_true.mp hproduct.2
  exact ⟨a, b, rfl, eq_of_beq (hall a (by simp)), eq_of_beq (hall b (by simp))⟩

/-- Splitting preserves every value. -/
theorem SplitOf.placed_eval (hg : g.Frontend) (h : SplitOf g remap nodes)
    (hbound : ∀ j t : Nat, remap[j]? = some (some t) → j < g.nodes.length) (I : Interp) :
    Placed (evalRule I) g.nodes remap nodes := by
  apply h.placed hg hbound
  intro j node id hnode hproduct
  obtain ⟨a, b, rfl, _, _⟩ := sharedProduct_inputs hg hnode hproduct
  have hmem := List.mem_of_getElem? hnode
  have hj : j < g.nodes.length := (List.getElem?_eq_some_iff.mp hnode).1
  -- The operands carry one value each, so a slot of the round is that product.
  have hscalar : ∀ v ∈ [a, b], ∀ k,
      value (evalRule I) g.nodes v k = value (evalRule I) g.nodes v 0 := by
    intro v hv k
    have hlt : v < g.nodes.length := (hg.ordered j _ hnode v hv).trans hj
    have hsource : g.nodes[v]? = some g.nodes[v] := List.getElem?_eq_getElem hlt
    exact value_scalar hg I hsource (hg.unread _ hmem rfl v hv _ hsource) k
  funext k
  simp [evalRule, operand, hscalar a (by simp) k, hscalar b (by simp) k]

/-- Splitting preserves every fact, with the products charged. -/
theorem SplitOf.placed_facts (hg : g.Frontend) (h : SplitOf g remap nodes)
    (hbound : ∀ j t : Nat, remap[j]? = some (some t) → j < g.nodes.length) :
    Placed (splitRule g) g.nodes remap nodes := by
  apply h.placed hg hbound
  intro j node id hnode hproduct
  obtain ⟨a, b, rfl, ha, hb⟩ := sharedProduct_inputs hg hnode hproduct
  have ha' : (value (splitRule g) g.nodes a).domain = .shared := ha
  have hb' : (value (splitRule g) g.nodes b).domain = .shared := hb
  simp [splitRule, netRule, factsAt, ha', hb', Facts.plain, maxNet]

/-- On a split graph every fact is that of the node in front of the splitting. -/
theorem SplitOf.facts_eq {g' : Graph} (hg : g.Frontend) (h : SplitOf g remap g'.nodes)
    (hgraph : g' = { g with nodes := g'.nodes, outputs := g'.outputs, numRounds := g'.numRounds })
    (hbound : ∀ j t : Nat, remap[j]? = some (some t) → j < g.nodes.length) (i : Nat)
    (hi : i < g'.nodes.length) : g'.facts i = value (splitRule g) g'.nodes i := by
  have hord := h.ordered hg hbound
  have hplaced := h.placed_facts hg hbound
  have hrule : netRule g' = netRule g := by rw [hgraph]; rfl
  apply value_unique hord _ hi
  intro q new hnew
  rw [value_eq hord hnew, hrule]
  cases h.standing hnew with
  | kept j node hjq hnode hproduct hop hren =>
    have hargs : new.inputs.map (value (splitRule g) g'.nodes) =
        node.inputs.map (g.splitFacts) := (hplaced.renamed hren).2
    rw [hargs, hop]
    have harity := hg.arity node (List.mem_of_getElem? hnode)
    obtain ⟨op, inputs⟩ := node
    cases op
    -- A product that was kept has an operand that is not shared, so the rules agree on it.
    case mul =>
      obtain ⟨a, b, rfl⟩ := eq_pair (harity 2 rfl)
      have hnot : ¬ ((g.splitFacts a).domain = .shared ∧ (g.splitFacts b).domain = .shared) := by
        rintro ⟨ha, hb⟩
        simp [sharedProduct, ha, hb] at hproduct
      show (if (g.splitFacts a).domain = .shared ∧ (g.splitFacts b).domain = .shared then _
        else _) = _
      rw [if_neg hnot]
    all_goals rfl
  | product j node id _ _ _ hop _ _ _ => rw [hop]; rfl
  | round s j node id args _ _ hnew' _ => rw [hnew']; rfl
  | result s j node args _ _ _ _ hnew' _ => rw [hnew']; rfl

end Meaning

/-! ## The split graph, as the later passes see it -/

/-- What `round_schedule` relies on: every round has one product, in front of it, and one result,
    behind it; products of two shares are gone, and no output names a local product or a round. -/
structure IsSplit (g : Graph) : Prop where
  indexed : g.Indexed
  split : Split g.nodes
  shares : ∀ node ∈ g.nodes, node.op = .mulLocal → ∀ v ∈ node.inputs, (g.facts v).domain = .shared
  products : ∀ node ∈ g.nodes, node.op = .mul → ∃ v ∈ node.inputs, (g.facts v).domain ≠ .shared
  ids : roundIds g.nodes = List.range g.numRounds
  outputs : ∀ o ∈ g.outputs, ∃ source, g.nodes[o.2]? = some source ∧ source.op.isRaw = false

theorem Splitted.isSplit {g g' : Graph} {remap : List (Option ValueId)} (hg : g.Frontend)
    (h : Splitted g g' remap) : g'.IsSplit := by
  have hord := h.built.ordered hg h.bound
  have hplaced := h.built.placed_facts hg h.bound
  have hfacts : ∀ v < g'.nodes.length, g'.facts v = value (splitRule g) g'.nodes v :=
    fun v hv => h.built.facts_eq hg h.graph h.bound v hv
  -- An operand has the facts it had in front of the splitting.
  have hrenamed : ∀ {refs us : List ValueId}, Renamed remap refs us →
      ∀ u ∈ us, ∃ v ∈ refs, (g'.facts u).domain = (g.splitFacts v).domain := by
    intro refs us hren u hu
    obtain ⟨v, hv, hvu⟩ := hren.source hu
    obtain ⟨hlt, hval⟩ := hplaced.valid v u hvu
    refine ⟨v, hv, ?_⟩
    rw [hfacts u hlt, hval]
    rfl
  have hstanding : ∀ new ∈ g'.nodes, ∃ q, Standing g remap g'.nodes q new := by
    intro new hmem
    obtain ⟨q, hq, hget⟩ := List.getElem_of_mem hmem
    exact ⟨q, h.built.standing (hget ▸ List.getElem?_eq_getElem hq)⟩
  refine ⟨⟨hord, ?_, ?_⟩, h.built.shape hg h.bound, ?_, ?_, h.ids, ?_⟩
  · intro new hmem arity harity
    obtain ⟨q, hstand⟩ := hstanding new hmem
    cases hstand with
    | kept j node _ hnode _ hop hren =>
      rw [hop] at harity
      rw [hren.length]
      exact hg.arity node (List.mem_of_getElem? hnode) arity harity
    | product j node id _ hnode hproduct hop hren _ _ =>
      obtain ⟨a, b, rfl, _, _⟩ := sharedProduct_inputs hg hnode hproduct
      rw [hop] at harity
      cases harity
      exact hren.length
    | round s j node id args _ _ hnew _ =>
      rw [hnew] at harity
      cases harity
    | result s j node args _ _ _ _ hnew _ =>
      rw [hnew] at harity ⊢
      cases harity
      rfl
  · intro new hmem site hsite
    have hsame : g'.gadgetSites = g.gadgetSites := by rw [h.graph]
    rw [hsame]
    obtain ⟨q, hstand⟩ := hstanding new hmem
    cases hstand with
    | kept j node _ hnode _ hop _ =>
      exact hg.indexed.sites node (List.mem_of_getElem? hnode) site (hop ▸ hsite)
    | product j node id _ _ _ hop _ _ _ =>
      rw [hop] at hsite
      cases hsite
    | round s j node id args _ _ hnew _ =>
      rw [hnew] at hsite
      cases hsite
    | result s j node args _ _ _ _ hnew _ =>
      rw [hnew] at hsite
      cases hsite
  · intro new hmem hop u hu
    obtain ⟨q, hstand⟩ := hstanding new hmem
    cases hstand with
    | kept j node _ hnode _ hop' _ =>
      have hfront := hg.frontend node (List.mem_of_getElem? hnode)
      rw [← hop', hop] at hfront
      cases hfront
    | product j node id _ hnode hproduct _ hren _ _ =>
      obtain ⟨a, b, rfl, ha, hb⟩ := sharedProduct_inputs hg hnode hproduct
      obtain ⟨v, hv, hdomain⟩ := hrenamed hren u hu
      rw [hdomain]
      rcases List.mem_cons.mp hv with rfl | hv
      · exact ha
      · rw [List.mem_singleton.mp hv]
        exact hb
    | round s j node id args _ _ hnew _ =>
      rw [hnew] at hop
      cases hop
    | result s j node args _ _ _ _ hnew _ =>
      rw [hnew] at hop
      cases hop
  · intro new hmem hop
    obtain ⟨q, hstand⟩ := hstanding new hmem
    cases hstand with
    | kept j node _ hnode hproduct hop' hren =>
      rw [hop] at hop'
      have hsome : ∃ v ∈ node.inputs, (g.splitFacts v).domain ≠ .shared := by
        by_contra hall
        push Not at hall
        have htrue : g.sharedProduct node = true := by
          rw [sharedProduct, ← hop', Bool.and_eq_true]
          refine ⟨rfl, List.all_eq_true.mpr ?_⟩
          intro v hv
          rw [hall v hv]
          rfl
        rw [hproduct] at htrue
        cases htrue
      obtain ⟨v, hv, hdomain⟩ := hsome
      obtain ⟨k, hk, hget⟩ := List.getElem_of_mem hv
      have hlen : new.inputs.length = node.inputs.length := hren.length
      have hnewlt : k < new.inputs.length := hlen ▸ hk
      have hu : new.inputs[k]? = some new.inputs[k] := List.getElem?_eq_getElem hnewlt
      obtain ⟨v', hv', hvu⟩ := forall₂_getElem? hren hu
      rw [List.getElem?_eq_getElem hk, hget] at hv'
      cases hv'
      obtain ⟨hlt, hval⟩ := hplaced.valid v _ hvu
      refine ⟨_, List.mem_of_getElem? hu, ?_⟩
      rw [hfacts _ hlt, hval]
      exact hdomain
    | product j node id _ _ _ hop' _ _ _ =>
      rw [hop] at hop'
      cases hop'
    | round s j node id args _ _ hnew _ =>
      rw [hnew] at hop
      cases hop
    | result s j node args _ _ _ _ hnew _ =>
      rw [hnew] at hop
      cases hop
  · -- An output points where its node went, and no place is a local product or a round.
    intro o ho
    obtain ⟨o', ho', _, hren⟩ := rebound_source h.outputs ho
    have hlt := (hplaced.valid o'.2 o.2 hren).1
    have hget : g'.nodes[o.2]? = some g'.nodes[o.2] := List.getElem?_eq_getElem hlt
    exact ⟨_, hget, h.built.carried hg (hg.outputs o' ho') hren hget⟩

end Graph
end CircomMpc
