import CircomMpc.Passes.Mpc.RoundOrder

/-!
# `round_schedule` as a whole

The reconstruction walks every level, so every value a node or an output can carry has its place in
the new list. A graph without rounds whose levels already ascend is left alone, and that is the same
arrangement: there, the levels one after the other are the old list.

So `Scheduled` describes the result in either case, and no later proof has to ask which it was.
-/

namespace CircomMpc

open Lib CircomMpc.Graph

namespace Graph

variable {g g' : Graph} {remap : List (Option ValueId)}

/-- What `round_schedule` returns: the levels one after the other, each with one round at most. The
    outputs are renamed like every other reference. -/
structure Scheduled (g g' : Graph) (remap : List (Option ValueId)) : Prop where
  graph : g' = { g with nodes := g'.nodes, outputs := g'.outputs, numRounds := g'.numRounds }
  arranged : g.ArrangedBelow (g.maxDepth + 1) ⟨remap, g'.nodes, g'.numRounds⟩
  outputs : Rebound remap g.outputs g'.outputs

/-- Every value that is carried on is placed by the time its level is. -/
theorem IsSplit.carried_placed (hg : g.IsSplit) {levels : Nat} {p : Placing}
    (h : g.ArrangedBelow levels p) {v : ValueId} {source : Node}
    (hsource : g.nodes[v]? = some source) (hraw : source.op.isRaw = false)
    (hlevel : (g.facts v).net < levels) : ∃ u : Nat, p.remap[v]? = some (some u) := by
  rcases hg.carried_source hsource hraw with hmem | ⟨l, k, m, hl, hentry⟩
  · exact Arranged.placed_node h (mem_sourcesBelow_node.mpr ⟨_, hlevel, hmem⟩)
  · apply Arranged.placed_result h _ hentry
    rw [mem_sourcesBelow_result]
    exact ⟨by omega, (List.getElem?_eq_some_iff.mp hentry).1⟩

/-- The walk through all levels. -/
theorem placeLevels_returns (hg : g.IsSplit) (levels : Nat) :
    Returns (g.ArrangedBelow levels)
      (((List.range levels).map fun l =>
        (g.levelNodes g.nodes.length l, g.levelRounds g.nodes.length l)).foldlM
          (RoundSchedule.placeLevel g.nodes) ⟨List.replicate g.nodes.length none, [], 0⟩) := by
  induction levels with
  | zero => exact Arranged.start g.nodes g.allRounds
  | succ levels ih =>
    rw [List.range_succ, List.map_append, List.foldlM_append]
    apply Meets.bind ih
    intro p hp
    show Returns _ (RoundSchedule.placeLevel g.nodes p _ >>= pure)
    rw [bind_pure]
    exact placeLevel_returns hg hp

/-! ## Leaving a graph alone -/

/-- Without rounds no node belongs to one. -/
theorem IsSplit.all_plain (hg : g.IsSplit) (hnone : ∀ l, g.allRounds l = []) :
    ∀ node ∈ g.nodes, node.op.isPlain = true := by
  intro node hmem
  obtain ⟨i, hi, hget⟩ := List.getElem_of_mem hmem
  have hnode : g.nodes[i]? = some node := hget ▸ List.getElem?_eq_getElem hi
  -- A round would be in the bucket of its level.
  have hround : ∀ (s : Nat) (id : RoundId) (args : List ValueId),
      g.nodes[s]? ≠ some ⟨.round id, args⟩ := by
    intro s id args hs
    have hentry : (s - 1, s + 1) ∈ g.allRounds (g.facts s).net := by
      rw [allRounds, mem_levelRounds]
      refine ⟨s, (List.getElem?_eq_some_iff.mp hs).1, ?_, rfl, rfl⟩
      rw [roundAt_of hs]
      rfl
    rw [hnone] at hentry
    cases hentry
  obtain ⟨op, args⟩ := node
  cases op
  case round id => exact absurd hnode (hround i id args)
  case roundResult slot =>
    obtain ⟨s, args', rfl, hlocal⟩ := hg.split.result i slot args hnode
    obtain ⟨⟨id, hs⟩, _⟩ := hg.split.product s args' hlocal
    exact absurd hs (hround (s + 1) id _)
  all_goals rfl

/-- Where levels ascend, the nodes of the levels one after the other are all nodes in order. -/
theorem levels_in_order (hplain : ∀ node ∈ g.nodes, node.op.isPlain = true)
    (hsorted : ∀ i j : Nat, i < j → j < g.nodes.length → (g.facts i).net ≤ (g.facts j).net) :
    (List.range (g.maxDepth + 1)).flatMap (g.levelNodes g.nodes.length) =
      List.range g.nodes.length := by
  have hmem : ∀ i : Nat, i ∈ (List.range (g.maxDepth + 1)).flatMap (g.levelNodes g.nodes.length) ↔
      i ∈ List.range g.nodes.length := by
    intro i
    rw [List.mem_flatMap, List.mem_range]
    constructor
    · rintro ⟨l, _, hl⟩
      exact (mem_levelNodes.mp hl).1
    · intro hi
      have hnode : g.nodes[i]? = some g.nodes[i] := List.getElem?_eq_getElem hi
      refine ⟨(g.facts i).net, ?_, mem_levelNodes.mpr ⟨hi, ?_, rfl⟩⟩
      · exact List.mem_range.mpr (Nat.lt_succ_of_le (net_le_maxDepth hi))
      · rw [plainAt_of hnode]
        exact hplain _ (List.getElem_mem hi)
  -- Within a bucket ids ascend, and between buckets they cannot fall.
  have hascending : ((List.range (g.maxDepth + 1)).flatMap
      (g.levelNodes g.nodes.length)).Pairwise (· < ·) := by
    rw [List.pairwise_flatMap]
    refine ⟨fun l _ => levelNodes_sorted g _ l, ?_⟩
    apply List.pairwise_lt_range.imp
    intro l l' hl i hi j hj
    obtain ⟨hi, _, hneti⟩ := mem_levelNodes.mp hi
    obtain ⟨hj, _, hnetj⟩ := mem_levelNodes.mp hj
    by_contra hge
    rcases Nat.lt_or_eq_of_le (Nat.le_of_not_lt hge) with hji | hji
    · have := hsorted j i hji hi
      omega
    · subst hji
      omega
  -- Two ascending lists with the same elements are one list.
  have hperm := (List.perm_ext_iff_of_nodup (hascending.imp Nat.ne_of_lt)
    List.nodup_range).mpr hmem
  exact hperm.eq_of_pairwise (fun i j _ _ hij hji => absurd hij (Nat.lt_asymm hji)) hascending
    List.pairwise_lt_range

/-- **A graph without rounds whose levels ascend is arranged as it is.** -/
theorem IsSplit.scheduled_refl (hg : g.IsSplit) (hnone : ∀ l, g.allRounds l = [])
    (hsorted : ∀ i j : Nat, i < j → j < g.nodes.length → (g.facts i).net ≤ (g.facts j).net) :
    Scheduled g g ((List.range g.nodes.length).map some) := by
  have hplain := hg.all_plain hnone
  -- Without rounds the sources are the nodes, and these are in order.
  have hsources : g.sourcesBelow (g.maxDepth + 1) =
      (List.range g.nodes.length).map .node := by
    rw [← levels_in_order hplain hsorted, List.map_flatMap]
    unfold sourcesBelow
    congr 1
    funext l
    have hempty : g.levelRounds g.nodes.length l = [] := hnone l
    rw [levelSources, hempty]
    simp
  have hremap : ∀ i q : Nat, ((List.range g.nodes.length).map some)[i]? = some (some q) ↔
      i = q ∧ i < g.nodes.length := by
    intro i q
    rw [List.getElem?_map]
    rcases Nat.lt_or_ge i g.nodes.length with hi | hi
    · rw [List.getElem?_range hi]
      simp [hi]
    · rw [List.getElem?_eq_none (by simpa using hi)]
      simp
      omega
  have hsame : ∀ refs : List ValueId, (∀ v ∈ refs, v < g.nodes.length) →
      Renamed ((List.range g.nodes.length).map some) refs refs := by
    intro refs hrefs
    apply List.forall₂_same.mpr
    intro v hv
    exact (hremap v v).mpr ⟨rfl, hrefs v hv⟩
  -- And every position is a node's.
  have hsource : ∀ (q : Nat) (source : Source),
      ((List.range g.nodes.length).map Source.node)[q]? = some source →
        source = .node q ∧ q < g.nodes.length := by
    intro q source hq
    rw [List.getElem?_map] at hq
    rcases Nat.lt_or_ge q g.nodes.length with hlt | hge
    · rw [List.getElem?_range hlt] at hq
      cases hq
      exact ⟨rfl, hlt⟩
    · rw [List.getElem?_eq_none (by simpa using hge)] at hq
      cases hq
  refine ⟨rfl, ?_, ?_⟩
  · show Arranged _ _ _ (g.sourcesBelow (g.maxDepth + 1))
    rw [hsources]
    refine ⟨by simp, hg.ids, by simp, hg.indexed.ordered, ?_, ?_, ?_, ?_⟩
    · intro q i hq
      obtain ⟨heq, hlt⟩ := hsource q _ hq
      cases heq
      have hnode : g.nodes[q]? = some g.nodes[q] := List.getElem?_eq_getElem hlt
      refine ⟨(hremap q q).mpr ⟨rfl, hlt⟩, g.nodes[q], g.nodes[q].inputs, hnode,
        hplain _ (List.getElem_mem hlt), hnode, hsame _ ?_⟩
      intro v hv
      exact (hg.indexed.ordered q _ hnode v hv).trans hlt
    · intro q l hq
      cases (hsource q _ hq).1
    · intro q l k hq
      cases (hsource q _ hq).1
    · intro i q hiq
      obtain ⟨rfl, hlt⟩ := (hremap i q).mp hiq
      left
      rw [List.getElem?_map, List.getElem?_range hlt]
      rfl
  · apply List.forall₂_same.mpr
    intro o ho
    obtain ⟨source, hsource, _⟩ := hg.outputs o ho
    exact ⟨rfl, (hremap _ _).mpr ⟨rfl, (List.getElem?_eq_some_iff.mp hsource).1⟩⟩

/-! ## The pass -/

/-- Levels that ascend from each node to the next ascend everywhere. -/
theorem net_sorted (hsorted : ((windows ((table (netRule g) g.nodes).map Facts.net)).all
      fun pair => pair.1 ≤ pair.2) = true) (i j : Nat) (hij : i < j) (hj : j < g.nodes.length) :
    (g.facts i).net ≤ (g.facts j).net := by
  have hpairwise := List.isChain_iff_pairwise.mp ((windows_all _).mp hsorted)
  have hnet : ∀ v : Nat, v < g.nodes.length →
      ((table (netRule g) g.nodes).map Facts.net)[v]? = some (g.facts v).net := by
    intro v hv
    rw [List.getElem?_map, table_getElem? hv]
    rfl
  obtain ⟨hi', hneti⟩ := List.getElem?_eq_some_iff.mp (hnet i (hij.trans hj))
  obtain ⟨hj', hnetj⟩ := List.getElem?_eq_some_iff.mp (hnet j hj)
  rw [← hneti, ← hnetj]
  exact List.pairwise_iff_getElem.mp hpairwise i j hi' hj' hij

/-- **`round_schedule`** arranges the levels of a split graph one after the other. -/
theorem roundSchedule_returns (hg : g.IsSplit) :
    Returns (fun r => ∃ remap, Scheduled g r.1 remap) (RoundSchedule.run g) := by
  unfold RoundSchedule.run
  cases hempty : g.nodes.isEmpty with
  | true =>
    have hnil : g.nodes = [] := List.isEmpty_iff.mp hempty
    rw [if_pos rfl]
    refine ⟨_, hg.scheduled_refl ?_ ?_⟩
    · intro l
      rw [allRounds, hnil]
      rfl
    · intro i j _ hj
      rw [hnil] at hj
      exact absurd hj (Nat.not_lt_zero j)
  | false =>
    have hdepth : ((table (netRule g) g.nodes).map Facts.net).foldl max 0 = g.maxDepth := rfl
    rw [if_neg (by simp), computeDomains_eq_ok hg.indexed, ok_bind,
      networkLevels_eq_ok hg.indexed, ok_bind]
    dsimp only
    rw [hdepth, bucketize_eq_ok hg, ok_bind]
    dsimp only
    split
    · rename_i hkeep
      rw [Bool.and_eq_true, Bool.not_eq_true'] at hkeep
      refine ⟨_, hg.scheduled_refl ?_ (net_sorted hkeep.2)⟩
      intro l
      by_contra hne
      obtain ⟨e, he⟩ := List.exists_mem_of_ne_nil _ hne
      obtain ⟨i, hi, _, hnet, _⟩ := mem_levelRounds.mp he
      have hl : l ∈ List.range (g.maxDepth + 1) :=
        List.mem_range.mpr (Nat.lt_succ_of_le (hnet ▸ net_le_maxDepth hi))
      have hempty := List.any_eq_false.mp hkeep.1 _ (List.mem_map_of_mem hl)
      have hnil : g.levelRounds g.nodes.length l = [] := by simpa using hempty
      exact hne hnil
    · rw [List.zip_map']
      apply Meets.bind (placeLevels_returns hg (g.maxDepth + 1))
      intro p hp
      unfold rebuildNodes
      apply Meets.bind (Meets.bind (remapOutputs_returns ?_) fun outputs houtputs => ?_)
      · intro g' hg'
        exact hg'
      · intro o ho
        obtain ⟨source, hsource, hraw⟩ := hg.outputs o ho
        apply hg.carried_placed hp hsource hraw
        exact Nat.lt_succ_of_le (net_le_maxDepth (List.getElem?_eq_some_iff.mp hsource).1)
      · exact ⟨p.remap, rfl, hp, houtputs⟩

end Graph
end CircomMpc
