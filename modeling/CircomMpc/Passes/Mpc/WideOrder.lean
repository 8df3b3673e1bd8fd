import CircomMpc.Passes.Mpc.WideSchedule
import CircomMpc.Passes.Mpc.Lowered
import CircomMpc.Passes.Mpc.RoundMeaning

/-!
# The order `wide_schedule` emits

The units of a lowered graph tile its node list, and no unit begins with a round's result. Sorting
them is safe because both levels grow along every edge: what a node reads is in its own unit, in
front of it, or in an earlier unit whose key is no higher, and a stable sort keeps such a unit in
front. So when a node is placed everything it reads has been (`Reordered`), and the new list is the
old one in another order, with the references renamed.
-/

namespace CircomMpc

open Lib CircomMpc.Graph

/-! ## Pairs in order -/

/-- What stands in front in a list without repetitions stands in its front part. -/
theorem mem_front_of_sublist {α : Type} {done rest : List α} {v i : α}
    (hnodup : (done ++ i :: rest).Nodup) (h : [v, i].Sublist (done ++ i :: rest)) : v ∈ done := by
  induction done with
  | nil =>
    have hi : i ∉ rest := (List.nodup_cons.mp hnodup).1
    cases h with
    | cons _ h => exact absurd (h.subset (by simp)) hi
    | cons_cons _ h => exact absurd (h.subset (by simp)) hi
  | cons d done ih =>
    cases h with
    | cons _ h => exact List.mem_cons_of_mem _ (ih (List.nodup_cons.mp hnodup).2 h)
    | cons_cons _ h => exact List.mem_cons_self

/-- Of two members of an ordered list one stands in front, and which is a matter of the order. -/
theorem pair_sublist_of_pairwise {α : Type} {r : α → α → Prop} {xs : List α} {x y : α}
    (hxs : xs.Pairwise r) (hx : x ∈ xs) (hy : y ∈ xs) (hne : x ≠ y) (hnot : ¬ r y x) :
    [x, y].Sublist xs := by
  induction xs with
  | nil => cases hx
  | cons a xs ih =>
    obtain ⟨ha, hrest⟩ := List.pairwise_cons.mp hxs
    rcases List.mem_cons.mp hx with rfl | hx'
    · rcases List.mem_cons.mp hy with rfl | hy'
      · exact absurd rfl hne
      · exact (List.singleton_sublist.mpr hy').cons_cons x
    · rcases List.mem_cons.mp hy with rfl | hy'
      · exact absurd (ha x hx') hnot
      · exact (ih hrest hx' hy').cons a

/-! ## Re-emitting nodes in an order -/

/-- The nodes of `order`, re-emitted one after the other: the `q`-th of them stands at `q`, with its
    references renamed to where those stand. -/
structure Reordered (old : List Node) (order : List ValueId) (p : Placing) : Prop where
  size : p.remap.length = old.length
  length : p.nodes.length = order.length
  ordered : Ordered p.nodes
  moved : ∀ q i : Nat, order[q]? = some i → p.remap[i]? = some (some q) ∧
    ∃ c refs, old[i]? = some c ∧ p.nodes[q]? = some ⟨c.op, refs⟩ ∧ Renamed p.remap c.inputs refs
  source : ∀ i q : Nat, p.remap[i]? = some (some q) → order[q]? = some i

namespace Reordered

variable {old : List Node} {order : List ValueId} {p : Placing}

theorem start (old : List Node) (numRounds : Nat) :
    Reordered old [] ⟨List.replicate old.length none, [], numRounds⟩ := by
  refine ⟨List.length_replicate, rfl, ordered_nil, ?_, ?_⟩
  · intro q i hq
    cases hq
  · intro i q hiq
    cases List.eq_of_mem_replicate (List.mem_of_getElem? hiq)

theorem placed_of_mem (h : Reordered old order p) {v : Nat} (hv : v ∈ order) :
    ∃ u : Nat, p.remap[v]? = some (some u) := by
  obtain ⟨q, hq, hget⟩ := List.getElem_of_mem hv
  exact ⟨q, (h.moved q v (hget ▸ List.getElem?_eq_getElem hq)).1⟩

theorem target_lt (h : Reordered old order p) {i q : Nat} (hiq : p.remap[i]? = some (some q)) :
    q < p.nodes.length := by
  rw [h.length]
  exact (List.getElem?_eq_some_iff.mp (h.source i q hiq)).1

/-- **One node.** -/
theorem placeNode_returns (h : Reordered old order p) {message : String} {i : Nat} {c : Node}
    (hc : old[i]? = some c) (harity : ∀ arity ∈ c.op.fixedArity, c.inputs.length = arity)
    (hnew : i ∉ order) (hin : ∀ v ∈ c.inputs, v ∈ order) :
    Returns (Reordered old (order ++ [i])) (placeNode message old p i) := by
  have hi : i < p.remap.length := by
    rw [h.size]
    exact (List.getElem?_eq_some_iff.mp hc).1
  have hfresh : ∀ u : Nat, p.remap[i]? ≠ some (some u) := by
    intro u hiu
    exact hnew (List.mem_of_getElem? (h.source i u hiu))
  unfold placeNode
  rw [index_eq hc, ok_bind]
  apply Meets.bind (mapM_remapped_returns fun v hv => h.placed_of_mem (hin v hv))
  intro inputs hren
  have harity' : Node.new c.op inputs = .ok ⟨c.op, inputs⟩ := by
    apply Node.new_eq_ok
    intro arity hmem
    rw [hren.length]
    exact harity arity hmem
  rw [setIndex, if_pos hi, ok_bind, harity', ok_bind]
  have hself : (p.remap.set i (some p.nodes.length))[i]? = some (some p.nodes.length) :=
    List.getElem?_set_self hi
  have hentry : ∀ {j q : Nat}, p.remap[j]? = some (some q) →
      (p.remap.set i (some p.nodes.length))[j]? = some (some q) := by
    intro j q hjq
    have hij : i ≠ j := by
      intro heq
      subst heq
      exact hfresh q hjq
    rw [List.getElem?_set_ne hij]
    exact hjq
  refine ⟨by rw [List.length_set]; exact h.size, by simp [h.length], ?_, ?_, ?_⟩
  · apply h.ordered.push
    intro u hu
    obtain ⟨v, _, hvu⟩ := hren.source hu
    exact h.target_lt hvu
  · intro q j hq
    rcases Nat.lt_or_ge q order.length with hlt | hge
    · rw [List.getElem?_append_left hlt] at hq
      obtain ⟨hjq, c', refs, hc', hget, hr⟩ := h.moved q j hq
      exact ⟨hentry hjq, c', refs, hc', getElem?_append_of_some hget, hr.stays hfresh⟩
    · have hlast : q = order.length := by
        have hlt := (List.getElem?_eq_some_iff.mp hq).1
        rw [List.length_append, List.length_singleton] at hlt
        omega
      subst hlast
      have hji : i = j := by simpa using hq
      subst hji
      rw [← h.length]
      exact ⟨hself, c, inputs, hc, by simp, hren.stays hfresh⟩
  · intro j q hjq
    by_cases hij : i = j
    · subst hij
      rw [hself] at hjq
      cases hjq
      rw [h.length]
      simp
    · have hold : p.remap[j]? = some (some q) := by
        rw [← List.getElem?_set_ne hij]
        exact hjq
      exact getElem?_append_of_some (h.source j q hold)

end Reordered

/-- **All nodes**, in an order that has in front of every node what it reads. -/
theorem placeNodes_returns {message : String} {old : List Node} {order : List ValueId}
    {numRounds : Nat} (hperm : order.Perm (List.range old.length))
    (harity : ∀ node ∈ old, ∀ arity ∈ node.op.fixedArity, node.inputs.length = arity)
    (hfront : ∀ (i : Nat) (c : Node), old[i]? = some c → ∀ v ∈ c.inputs, [v, i].Sublist order) :
    Returns (Reordered old order) (order.foldlM (placeNode message old)
      ⟨List.replicate old.length none, [], numRounds⟩) := by
  have hnodup : order.Nodup := hperm.nodup_iff.mpr List.nodup_range
  refine Meets.foldlM_prefix (fun done p => Reordered old done p) (.start old numRounds) ?_
  intro done i rest p hsplit hp
  rw [hsplit] at hnodup
  have hi : i < old.length := by
    rw [← List.mem_range, ← hperm.mem_iff, hsplit]
    simp
  -- The order repeats nothing, so the next node is new, and what it reads has been placed.
  have hnew : i ∉ done := by
    intro hmem
    exact (List.nodup_append.mp hnodup).2.2 i hmem i (by simp) rfl
  have hnode : old[i]? = some old[i] := List.getElem?_eq_getElem hi
  apply hp.placeNode_returns hnode (harity _ (List.getElem_mem hi)) hnew
  intro v hv
  have hsub := hfront i _ hnode v hv
  rw [hsplit] at hsub
  exact mem_front_of_sublist hnodup hsub

/-! ## Units -/

namespace WideSchedule

theorem NodeRange.mem_indices {unit : NodeRange} {v : Nat} :
    v ∈ unit.indices ↔ unit.start ≤ v ∧ v < unit.stop := by
  rw [NodeRange.indices, List.mem_range'_1]
  omega

/-- A node that is no round's result, with the results behind it if it is a round: what the sort
    moves as one piece. -/
def NodeRange.IsUnit (nodes : List Node) (unit : NodeRange) : Prop :=
  ∃ node, nodes[unit.start]? = some node ∧ (∀ k, node.op ≠ .roundResult k) ∧
    unit.stop = unit.start + 1 + node.slots.length

/-- The units from node `i` on. They tile the rest of the list, so every node is in one of them and
    their order is the list's. -/
structure Units (nodes : List Node) (i : Nat) (us : List NodeRange) : Prop where
  each : ∀ u ∈ us, i ≤ u.start ∧ u.IsUnit nodes
  ascending : us.Pairwise fun a b => a.stop ≤ b.start
  tiles : us.flatMap NodeRange.indices = List.range' i (nodes.length - i)

/-- Everything from behind a round to one of its results is a result of it. -/
theorem between_results {g : Graph} (hg : g.IsLowered) {q k : Nat} {args : List ValueId}
    (hresult : g.nodes[q]? = some ⟨.roundResult k, args⟩) :
    ∃ r id slots, g.nodes[r]? = some ⟨.round id, slots⟩ ∧ q = r + 1 + k ∧ k < slots.length ∧
      ∀ p, r < p → p ≤ q → g.nodes[p]? = some ⟨.roundResult (p - r - 1), [r]⟩ := by
  obtain ⟨r, id, slots, hq, hk, hround⟩ := hg.result q k args hresult
  refine ⟨r, id, slots, hround, hq, hk, ?_⟩
  intro p hrp hpq
  have hp : p = r + 1 + (p - r - 1) := by omega
  have hblock := hg.block r id slots hround (p - r - 1) (by omega)
  rw [← hp] at hblock
  exact hblock

/-- Behind a unit another one begins. -/
theorem next_not_result {g : Graph} (hg : g.IsLowered) {i : Nat} {node : Node}
    (hnode : g.nodes[i]? = some node) (hop : ∀ k, node.op ≠ .roundResult k) {k : Nat}
    {args : List ValueId} :
    g.nodes[i + 1 + node.slots.length]? ≠ some ⟨.roundResult k, args⟩ := by
  intro hresult
  obtain ⟨r, id, slots, hround, hq, hk, hbetween⟩ := between_results hg hresult
  rcases Nat.lt_trichotomy r i with hlt | heq | hgt
  · have hat := hbetween i hlt (by omega)
    rw [hnode] at hat
    cases hat
    exact hop _ rfl
  · subst heq
    rw [hnode] at hround
    cases hround
    rw [show Node.slots ⟨.round id, slots⟩ = slots from rfl] at hq
    omega
  · -- A round behind a round's first slot and in front of its last is one of its results.
    obtain ⟨op, inputs⟩ := node
    cases op
    case round id' =>
      have hslots : Node.slots ⟨.round id', inputs⟩ = inputs := rfl
      rw [hslots] at hq
      have hr : r = i + 1 + (r - i - 1) := by omega
      have hat := hg.block i id' inputs hnode (r - i - 1) (by omega)
      rw [← hr, hround] at hat
      cases hat
    all_goals
      rw [show Node.slots _ = [] from rfl, List.length_nil] at hq
      omega

theorem unitResults_eq_ok {g : Graph} (hg : g.IsLowered) {i : Nat} {node : Node}
    (hnode : g.nodes[i]? = some node) (hop : ∀ k, node.op ≠ .roundResult k) :
    unitResults g.nodes i = .ok node.slots.length ∧ i + 1 + node.slots.length ≤ g.nodes.length := by
  have hi : i < g.nodes.length := (List.getElem?_eq_some_iff.mp hnode).1
  unfold unitResults
  rw [index_eq hnode, ok_bind]
  obtain ⟨op, inputs⟩ := node
  cases op
  case round id =>
    have hlast : i + inputs.length < g.nodes.length := by
      rcases Nat.eq_zero_or_pos inputs.length with hzero | hpos
      · omega
      · have hat := hg.block i id inputs hnode (inputs.length - 1) (by omega)
        have := (List.getElem?_eq_some_iff.mp hat).1
        omega
    have hblock : ∀ k < inputs.length,
        g.nodes[i + 1 + k]?.map Cell.op = some (.roundResult k) := by
      intro k hk
      rw [hg.block i id inputs hnode k hk]
      rfl
    dsimp only
    rw [ensure_of ⟨hlast, hblock⟩, ok_bind]
    refine ⟨rfl, ?_⟩
    show i + 1 + inputs.length ≤ _
    omega
  case roundResult k => exact absurd rfl (hop k)
  all_goals exact ⟨rfl, hi⟩

/-- **The units** of a lowered graph tile its node list. -/
theorem units_returns {g : Graph} (hg : g.IsLowered) (i : Nat) (hi : i ≤ g.nodes.length)
    (hstart : ∀ k args, g.nodes[i]? ≠ some ⟨.roundResult k, args⟩) :
    Returns (Units g.nodes i) (units g.nodes i) := by
  -- By induction on what is left of the list; a unit is never empty.
  induction hleft : g.nodes.length - i using Nat.strongRecOn generalizing i with
  | _ left ih =>
    unfold units
    split
    · rename_i hlt
      have hnode : g.nodes[i]? = some g.nodes[i] := List.getElem?_eq_getElem hlt
      generalize g.nodes[i] = node at hnode
      have hop : ∀ k, node.op ≠ .roundResult k := by
        intro k hop
        obtain ⟨op, args⟩ := node
        cases hop
        exact hstart k args hnode
      obtain ⟨hresults, hle⟩ := unitResults_eq_ok hg hnode hop
      rw [hresults, ok_bind]
      apply Meets.bind (ih _ (by omega) (i + 1 + node.slots.length) hle
        (fun k args => next_not_result hg hnode hop) rfl)
      intro us hus
      refine ⟨?_, ?_, ?_⟩
      · intro u hu
        rcases List.mem_cons.mp hu with rfl | hu
        · exact ⟨Nat.le_refl i, node, hnode, hop, rfl⟩
        · obtain ⟨hle', hunit⟩ := hus.each u hu
          exact ⟨by omega, hunit⟩
      · refine List.pairwise_cons.mpr ⟨?_, hus.ascending⟩
        intro u hu
        exact (hus.each u hu).1
      · rw [List.flatMap_cons, hus.tiles, NodeRange.indices]
        have hlen : i + 1 + node.slots.length - i = 1 + node.slots.length := by omega
        have hrest : g.nodes.length - i =
            1 + node.slots.length + (g.nodes.length - (i + 1 + node.slots.length)) := by omega
        rw [hlen, Nat.add_assoc i, List.range'_append_1, hrest, Nat.add_assoc i]
    · have hend : i = g.nodes.length := by omega
      refine ⟨?_, .nil, ?_⟩
      · intro u hu
        cases hu
      · rw [hend, Nat.sub_self]
        rfl

end WideSchedule
end CircomMpc
