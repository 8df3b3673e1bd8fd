import CircomMpc.Passes.Mpc.WideRun

/-!
# What the widening preserves

A node that only moves keeps what every analysis says of it, so the widened graph has the values, the
domains and both levels of the graph it comes from. A round's results still follow it because their
unit moves as a whole: at the position of a unit's start the order goes through the unit.

Every list of the graph (its invocations, its slots, its round ids) is read off the nodes in their
order, so each comes out permuted by the same permutation.
-/

namespace CircomMpc

open Lib CircomMpc.Graph WideSchedule

namespace Graph

variable {g g' : Graph} {remap : List (Option ValueId)} {us : List NodeRange}

/-- The widening preserves every analysis. -/
theorem Widened.placed {α : Type} [Inhabited α] {rule : Op → List α → α} (hg : g.IsLowered)
    (h : Widened g g' remap us) : Placed rule g.nodes remap g'.nodes := by
  apply Placed.of_moved hg.indexed.ordered h.reordered.ordered
  intro i t hit
  obtain ⟨_, c, refs, hc, hget, hren⟩ := h.reordered.moved t i (h.reordered.source i t hit)
  exact ⟨c, refs, hc, hget, hren⟩

theorem Widened.netRule_eq (h : Widened g g' remap us) : netRule g' = netRule g := by
  rw [h.graph]
  rfl

theorem Widened.facts_eq (hg : g.IsLowered) (h : Widened g g' remap us) {i t : Nat}
    (hit : remap[i]? = some (some t)) : g'.facts t = g.facts i := by
  unfold facts
  rw [h.netRule_eq]
  exact ((h.placed hg).valid i t hit).2

theorem Widened.full_eq (hg : g.IsLowered) (h : Widened g g' remap us) {i t : Nat}
    (hit : remap[i]? = some (some t)) : g'.full t = g.full i :=
  ((h.placed hg).valid i t hit).2

/-- Every node of the new list is one of the old list, with its references renamed. -/
theorem Widened.standing (h : Widened g g' remap us) {q : Nat} {node : Node}
    (hnode : g'.nodes[q]? = some node) : ∃ (i : Nat) (c : Node), remap[i]? = some (some q) ∧
      g.nodes[i]? = some c ∧ node.op = c.op ∧ Renamed remap c.inputs node.inputs := by
  have hq : q < (us.flatMap NodeRange.indices).length := by
    rw [← h.reordered.length]
    exact (List.getElem?_eq_some_iff.mp hnode).1
  obtain ⟨hiq, c, refs, hc, hget, hren⟩ := h.reordered.moved q _ (List.getElem?_eq_getElem hq)
  rw [hnode] at hget
  cases hget
  exact ⟨_, c, hiq, hc, rfl, hren⟩

/-- Every old node is in the new list. -/
theorem Widened.target (h : Widened g g' remap us) {i : Nat} {c : Node}
    (hc : g.nodes[i]? = some c) : ∃ (t : Nat) (refs : List ValueId), remap[i]? = some (some t) ∧
      g'.nodes[t]? = some ⟨c.op, refs⟩ ∧ Renamed remap c.inputs refs := by
  have hi : i ∈ us.flatMap NodeRange.indices := by
    rw [h.perm.mem_iff, List.mem_range]
    exact (List.getElem?_eq_some_iff.mp hc).1
  obtain ⟨q, hq, hget⟩ := List.getElem_of_mem hi
  obtain ⟨hiq, c', refs, hc', hnode, hren⟩ :=
    h.reordered.moved q i (hget ▸ List.getElem?_eq_getElem hq)
  rw [hc] at hc'
  cases hc'
  exact ⟨q, refs, hiq, hnode, hren⟩

theorem Widened.injective (h : Widened g g' remap us) {i j t : Nat}
    (hit : remap[i]? = some (some t)) (hjt : remap[j]? = some (some t)) : i = j := by
  have hi := h.reordered.source i t hit
  rw [h.reordered.source j t hjt] at hi
  exact (Option.some.inj hi).symm

/-- The new list, node by node, beside the order it was emitted in. -/
theorem Widened.emitted (h : Widened g g' remap us) :
    List.Forall₂ (fun i node => ∃ c : Node, g.nodes[i]? = some c ∧ node.op = c.op ∧
      Renamed remap c.inputs node.inputs) (us.flatMap NodeRange.indices) g'.nodes := by
  rw [List.forall₂_iff_get]
  refine ⟨h.reordered.length.symm, ?_⟩
  intro q hq hq'
  rw [List.get_eq_getElem, List.get_eq_getElem]
  obtain ⟨_, c, refs, hc, hget, hren⟩ := h.reordered.moved q _ (List.getElem?_eq_getElem hq)
  have hnode : g'.nodes[q]? = some g'.nodes[q] := List.getElem?_eq_getElem hq'
  have hget' : g'.nodes[q]? = some ⟨c.op, refs⟩ := hget
  rw [hnode] at hget'
  have heq := Option.some.inj hget'
  exact ⟨c, hc, by rw [heq], by rw [heq]; exact hren⟩

/-- The widening keeps every site's invocation, in some order. -/
theorem Widened.calls_perm (hg : g.IsLowered) (h : Widened g g' remap us) (I : Interp) :
    (g'.calls I).Perm (g.calls I) := by
  -- Node by node the invocations are the old ones, in the new order.
  have hreinvoked : Reinvoked remap ((us.flatMap NodeRange.indices).filterMap fun i =>
      g.nodes[i]?.bind Node.call?) (invocations g'.nodes) := by
    apply List.rel_filterMap _ h.emitted
    rintro i node ⟨c, hc, hop, hren⟩
    dsimp only
    rw [hc]
    obtain ⟨op, inputs⟩ := node
    obtain ⟨_, inputs'⟩ := c
    cases hop
    cases op <;> first | exact .none | exact .some ⟨rfl, hren⟩
  have hsame := invocations_of_placed (h.placed hg : Placed (evalRule I) _ _ _) hreinvoked
  have hperm := (h.perm.filterMap fun i => g.nodes[i]?.bind Node.call?).map
    fun c => (c.1, c.2.map (g.eval I))
  rw [range_filterMap, ← hsame] at hperm
  exact hperm

/-- The rounds keep their ids, in some order. -/
theorem Widened.roundIds_perm (h : Widened g g' remap us) :
    (roundIds g'.nodes).Perm (roundIds g.nodes) := by
  have hsame : roundIds g'.nodes = (us.flatMap NodeRange.indices).filterMap fun i =>
      g.nodes[i]?.bind Node.roundId? := by
    have hrel : List.Forall₂ (· = ·) ((us.flatMap NodeRange.indices).filterMap fun i =>
        g.nodes[i]?.bind Node.roundId?) (roundIds g'.nodes) := by
      apply List.rel_filterMap _ h.emitted
      rintro i node ⟨c, hc, hop, _⟩
      dsimp only
      rw [hc]
      obtain ⟨op, inputs⟩ := node
      obtain ⟨_, inputs'⟩ := c
      cases hop
      cases op <;> first | exact .none | exact .some rfl
    exact (List.forall₂_eq_eq_eq ▸ hrel : _ = _).symm
  rw [hsame, roundIds, ← range_filterMap g.nodes]
  exact h.perm.filterMap _

/-! ## Blocks stay together -/

/-- Where the order reaches a unit, it goes through it. -/
theorem indices_consecutive {us : List NodeRange} {u : NodeRange} {q j : Nat}
    (hnodup : (us.flatMap NodeRange.indices).Nodup) (hu : u ∈ us)
    (hq : (us.flatMap NodeRange.indices)[q]? = some u.start) (hj : u.start + j < u.stop) :
    (us.flatMap NodeRange.indices)[q + j]? = some (u.start + j) := by
  obtain ⟨front, back, rfl⟩ := List.append_of_mem hu
  rw [List.flatMap_append, List.flatMap_cons] at hnodup hq ⊢
  generalize front.flatMap NodeRange.indices = A at hnodup hq ⊢
  generalize back.flatMap NodeRange.indices = B at hnodup hq ⊢
  -- The unit's part of the order is the part behind everything in front of it.
  have hat : ∀ k, u.start + k < u.stop →
      (A ++ (u.indices ++ B))[A.length + k]? = some (u.start + k) := by
    intro k hk
    have hlen : k < u.indices.length := by
      rw [NodeRange.indices, List.length_range']
      omega
    rw [List.getElem?_append_right (by omega), Nat.add_sub_cancel_left,
      List.getElem?_append_left hlen, NodeRange.indices, List.getElem?_range' (by omega)]
    simp
  have hfirst := hat 0 (by omega)
  -- No id occurs twice, so the start is where the unit's part begins.
  have hsame : q = A.length := by
    apply (List.getElem?_inj (List.getElem?_eq_some_iff.mp hq).1 hnodup).mp
    rw [hq]
    exact hfirst.symm
  rw [hsame]
  exact hat j hj

theorem Widened.order_nodup (h : Widened g g' remap us) :
    (us.flatMap NodeRange.indices).Nodup :=
  h.perm.nodup_iff.mpr List.nodup_range

/-- A round starts its unit. -/
theorem Widened.round_unit (hg : g.IsLowered) (h : Widened g g' remap us) {s : Nat} {id : RoundId}
    {slots : List ValueId} (hround : g.nodes[s]? = some ⟨.round id, slots⟩) :
    ∃ u ∈ us, u.start = s ∧ u.stop = s + 1 + slots.length := by
  have hs : s ∈ us.flatMap NodeRange.indices := by
    rw [h.perm.mem_iff, List.mem_range]
    exact (List.getElem?_eq_some_iff.mp hround).1
  obtain ⟨u, hu, hsu⟩ := List.mem_flatMap.mp hs
  have hstart : s = u.start := by
    -- Behind a unit's start there are results only.
    by_contra hne
    obtain ⟨_, _, _, _, _, _, _, hresult⟩ := hg.unit_result (h.each u hu) hsu hne
    rw [hround] at hresult
    cases hresult
  obtain ⟨node, hnode, _, hstop⟩ := h.each u hu
  rw [← hstart, hround] at hnode
  cases hnode
  exact ⟨u, hu, hstart.symm, by rw [hstop, ← hstart]; rfl⟩

/-- The results of a round are where the round is, in slot order. -/
theorem Widened.round_block (hg : g.IsLowered) (h : Widened g g' remap us) {s q : Nat}
    {id : RoundId} {slots : List ValueId} (hround : g.nodes[s]? = some ⟨.round id, slots⟩)
    (hsq : remap[s]? = some (some q)) {k : Nat} (hk : k < slots.length) :
    remap[s + 1 + k]? = some (some (q + 1 + k)) ∧
      g'.nodes[q + 1 + k]? = some ⟨.roundResult k, [q]⟩ := by
  obtain ⟨u, hu, hstart, hstop⟩ := h.round_unit hg hround
  have hq : (us.flatMap NodeRange.indices)[q]? = some u.start := by
    rw [hstart]
    exact h.reordered.source s q hsq
  -- The order goes through the unit, so the result is as far behind as it was.
  have hat := indices_consecutive h.order_nodup hu hq
    (show u.start + (1 + k) < u.stop by omega)
  rw [hstart, ← Nat.add_assoc, ← Nat.add_assoc] at hat
  obtain ⟨hiq, c, refs, hc, hget, hren⟩ := h.reordered.moved _ _ hat
  rw [hg.block s id slots hround k hk] at hc
  cases hc
  refine ⟨hiq, ?_⟩
  have hrefs := eq_singleton hren.length
  obtain ⟨u', rfl⟩ := hrefs
  cases hren with
  | cons hsu _ =>
    have hsu' : remap[s]? = some (some u') := hsu
    rw [hsq] at hsu'
    cases hsu'
    exact hget

/-- The slots are still the local products. -/
theorem Widened.slots_perm (hg : g.IsLowered) (h : Widened g g' remap us) :
    (slots g'.nodes).Perm (localProducts g'.nodes) := by
  have hren : Renamed remap ((us.flatMap NodeRange.indices).flatMap fun i =>
      (g.nodes[i]?.map Node.slots).getD []) (slots g'.nodes) := by
    apply List.rel_flatMap h.emitted
    rintro i node ⟨c, hc, hop, hren⟩
    dsimp only
    rw [hc]
    obtain ⟨op, inputs⟩ := node
    obtain ⟨_, inputs'⟩ := c
    cases hop
    cases op <;> first | exact .nil | exact hren
  have hperm := h.perm.flatMap_right fun i => (g.nodes[i]?.map Node.slots).getD []
  rw [range_flatMap] at hperm
  apply slots_perm_of_renamed hren (hperm.trans hg.slots)
  · exact fun i j t hit hjt => h.injective hit hjt
  · intro i t args hlocal hit
    obtain ⟨t', refs, hit', hget, _⟩ := h.target hlocal
    rw [hit] at hit'
    cases hit'
    exact ⟨refs, hget⟩
  · intro q args hget
    obtain ⟨i, ⟨op, refs⟩, hiq, hc, hop, _⟩ := h.standing hget
    cases hop
    exact ⟨i, refs, hiq, hc⟩

/-- **The widening keeps a graph lowered.** -/
theorem Widened.isLowered (hg : g.IsLowered) (h : Widened g g' remap us) : g'.IsLowered := by
  -- Every node has its origin, of the same operation and with renamed inputs.
  have hstanding : ∀ node ∈ g'.nodes, ∃ (i : Nat) (c : Node), g.nodes[i]? = some c ∧
      c ∈ g.nodes ∧ node.op = c.op ∧ Renamed remap c.inputs node.inputs := by
    intro node hmem
    obtain ⟨q, hq, hget⟩ := List.getElem_of_mem hmem
    obtain ⟨i, c, _, hc, hop, hren⟩ := h.standing (hget ▸ List.getElem?_eq_getElem hq)
    exact ⟨i, c, hc, List.mem_of_getElem? hc, hop, hren⟩
  have hraw : ∀ {v u : Nat} {c c' : Node}, remap[v]? = some (some u) → g.nodes[v]? = some c →
      g'.nodes[u]? = some c' → c'.op = c.op := by
    intro v u c c' hvu hc hc'
    obtain ⟨t, refs, hvt, hget, _⟩ := h.target hc
    rw [hvu] at hvt
    cases hvt
    rw [hc'] at hget
    cases hget
    rfl
  have hcarried : ∀ {v u : Nat}, remap[v]? = some (some u) → ∃ c, g.nodes[v]? = some c := by
    intro v u hvu
    obtain ⟨_, c, _, hc, _⟩ := h.reordered.moved u v (h.reordered.source v u hvu)
    exact ⟨c, hc⟩
  refine ⟨⟨h.reordered.ordered, ?_, ?_⟩, ?_, ?_, ?_, ?_, ?_, ?_, ?_, ?_⟩
  · intro node hmem arity harity
    obtain ⟨i, c, _, hc, hop, hren⟩ := hstanding node hmem
    rw [hren.length]
    exact hg.indexed.arity c hc arity (hop ▸ harity)
  · intro node hmem site hop
    have hsites : g'.gadgetSites = g.gadgetSites := by rw [h.graph]
    obtain ⟨i, c, _, hc, hop', _⟩ := hstanding node hmem
    rw [hsites]
    exact hg.indexed.sites c hc site (hop' ▸ hop)
  · intro q id args hround k hk
    obtain ⟨s, ⟨op, slots⟩, hsq, hc, hop, hren⟩ := h.standing hround
    cases hop
    rw [hren.length] at hk
    exact (h.round_block hg hc hsq hk).2
  · intro q k args hresult
    obtain ⟨i, ⟨op, slots⟩, hiq, hc, hop, _⟩ := h.standing hresult
    cases hop
    obtain ⟨r, id, slots, rfl, hk, hround⟩ := hg.result i k _ hc
    obtain ⟨t, refs, hrt, hget, hren⟩ := h.target hround
    obtain ⟨hblock, _⟩ := h.round_block hg hround hrt hk
    rw [hiq] at hblock
    cases hblock
    exact ⟨t, id, refs, rfl, by rw [hren.length]; exact hk, hget⟩
  · intro node hmem hplain u hu source hsource
    obtain ⟨i, c, _, hc, hop, hren⟩ := hstanding node hmem
    obtain ⟨v, hv, hvu⟩ := hren.source hu
    obtain ⟨cv, hcv⟩ := hcarried hvu
    rw [hraw hvu hcv hsource]
    exact hg.unread c hc (hop ▸ hplain) v hv cv hcv
  · intro node hmem hop
    obtain ⟨i, c, _, hc, hop', hren⟩ := hstanding node hmem
    obtain ⟨v, hv, hdomain⟩ := hg.products c hc (hop' ▸ hop)
    obtain ⟨u, hu, hvu⟩ := hren.target hv
    exact ⟨u, hu, by rw [h.facts_eq hg hvu]; exact hdomain⟩
  · intro node hmem hop u hu
    obtain ⟨i, c, _, hc, hop', hren⟩ := hstanding node hmem
    obtain ⟨v, hv, hvu⟩ := hren.source hu
    rw [h.facts_eq hg hvu]
    exact hg.shares c hc (hop' ▸ hop) v hv
  · exact h.slots_perm hg
  · rw [show g'.numRounds = g.numRounds by rw [h.graph]]
    exact h.roundIds_perm.trans hg.ids
  · intro o ho
    obtain ⟨o', ho', _, hren⟩ := rebound_source h.outputs ho
    obtain ⟨c, hc, hnot⟩ := hg.outputs o' ho'
    obtain ⟨t, refs, hot, hget, _⟩ := h.target hc
    rw [hren] at hot
    cases hot
    exact ⟨_, hget, hnot⟩

end Graph
end CircomMpc
