import CircomMpc.Passes.Mpc.WideOrder

/-!
# `wide_schedule` as a whole

What the pass returns is the graph's units in the order of their keys, whether it had to sort them or
found them in order. Every analysis of the graph survives, because each node keeps its operation and
its renamed references; and a round's results still follow it, because a unit moves as a whole.
-/

namespace CircomMpc

open Lib CircomMpc.Graph

namespace WideSchedule

theorem keyLe_iff {a b : Nat × Nat} :
    keyLe a b = true ↔ a.1 < b.1 ∨ a.1 = b.1 ∧ a.2 ≤ b.2 := by
  simp [keyLe]

theorem keyLe_trans (a b c : Nat × Nat) (hab : keyLe a b = true) (hbc : keyLe b c = true) :
    keyLe a c = true := by
  rw [keyLe_iff] at *
  omega

theorem keyLe_total (a b : Nat × Nat) : (keyLe a b || keyLe b a) = true := by
  rw [Bool.or_eq_true, keyLe_iff, keyLe_iff]
  omega

end WideSchedule

namespace Graph

open WideSchedule

variable {g g' : Graph} {remap : List (Option ValueId)}

/-- The levels a unit is sorted by. -/
def unitKey (g : Graph) (unit : NodeRange) : Nat × Nat :=
  ((g.facts unit.start).net, g.full unit.start)

/-- What `wide_schedule` returns: the units in the order of their keys, each with its nodes in their
    old order and their references renamed. -/
structure Widened (g g' : Graph) (remap : List (Option ValueId)) (us : List NodeRange) : Prop where
  graph : g' = { g with nodes := g'.nodes, outputs := g'.outputs }
  each : ∀ u ∈ us, u.IsUnit g.nodes
  perm : (us.flatMap NodeRange.indices).Perm (List.range g.nodes.length)
  sorted : us.Pairwise fun a b => keyLe (g.unitKey a) (g.unitKey b) = true
  reordered : Reordered g.nodes (us.flatMap NodeRange.indices) ⟨remap, g'.nodes, g'.numRounds⟩
  outputs : Rebound remap g.outputs g'.outputs

/-! ## What is read stands in front -/

/-- Units do not overlap. -/
theorem Units.unique {nodes : List Node} {i : Nat} {us : List NodeRange} (h : Units nodes i us)
    {u u' : NodeRange} (hu : u ∈ us) (hu' : u' ∈ us) {v : Nat} (hv : v ∈ u.indices)
    (hv' : v ∈ u'.indices) : u = u' := by
  by_contra hne
  have hapart : us.Pairwise fun a b => ∀ x, x ∈ a.indices → x ∉ b.indices := by
    apply h.ascending.imp
    intro a b hab x hx hx'
    rw [NodeRange.mem_indices] at hx hx'
    omega
  have hsymm : Std.Symm fun a b : NodeRange => ∀ x, x ∈ a.indices → x ∉ b.indices :=
    ⟨fun a b hab x hx hx' => hab x hx' hx⟩
  exact hapart.forall hu hu' hne v hv hv'

theorem Units.exists_unit {nodes : List Node} {us : List NodeRange} (h : Units nodes 0 us) {v : Nat}
    (hv : v < nodes.length) : ∃ u ∈ us, v ∈ u.indices := by
  rw [← List.mem_flatMap, h.tiles, List.mem_range'_1]
  omega

/-- What a node behind its unit's start is. -/
theorem IsLowered.unit_result (hg : g.IsLowered) {u : NodeRange} (hu : u.IsUnit g.nodes) {v : Nat}
    (hv : v ∈ u.indices) (hne : v ≠ u.start) : ∃ k id slots, v = u.start + 1 + k ∧
      k < slots.length ∧ g.nodes[u.start]? = some ⟨.round id, slots⟩ ∧
      u.stop = u.start + 1 + slots.length ∧ g.nodes[v]? = some ⟨.roundResult k, [u.start]⟩ := by
  obtain ⟨⟨op, inputs⟩, hnode, hop, hstop⟩ := hu
  rw [NodeRange.mem_indices] at hv
  cases op
  case round id =>
    rw [show Node.slots ⟨.round id, inputs⟩ = inputs from rfl] at hstop
    have hv' : v = u.start + 1 + (v - u.start - 1) := by omega
    have hat := hg.block u.start id inputs hnode (v - u.start - 1) (by omega)
    rw [← hv'] at hat
    exact ⟨v - u.start - 1, id, inputs, hv', by omega, hnode, hstop, hat⟩
  all_goals
    rw [show Node.slots _ = [] from rfl, List.length_nil] at hstop
    omega

/-- A unit that is read has no higher key. -/
theorem IsLowered.key_le (hg : g.IsLowered) {us : List NodeRange} (hus : Units g.nodes 0 us)
    {u w : NodeRange} (hu : u ∈ us) (hw : w ∈ us) (hne : w ≠ u) {i v : Nat} {node : Node}
    (hi : i ∈ u.indices) (hv : v ∈ w.indices) (hnode : g.nodes[i]? = some node)
    (hread : v ∈ node.inputs) : keyLe (g.unitKey w) (g.unitKey u) = true := by
  have hstart : i = u.start := by
    by_contra hbehind
    obtain ⟨k, id, slots, _, _, _, hstop, hresult⟩ := hg.unit_result (hus.each u hu).2 hi hbehind
    rw [hnode] at hresult
    cases hresult
    -- A result reads its own unit's round.
    have hown : v ∈ u.indices := by
      rw [List.mem_singleton.mp hread, NodeRange.mem_indices]
      omega
    exact hne (Units.unique hus hw hu hv hown)
  have hnet := net_mono hg.indexed hnode hread
  have hfull := full_mono hg.indexed hnode hread
  rw [keyLe_iff, unitKey, unitKey, ← hstart]
  by_cases hfirst : v = w.start
  · rw [← hfirst]
    dsimp only
    omega
  · obtain ⟨k, _, _, _, _, _, _, hresult⟩ := hg.unit_result (hus.each w hw).2 hv hfirst
    have hlevel : (g.facts v).net = (g.facts w.start).net + 1 := by
      rw [facts_eq hg.indexed hresult]
      rfl
    dsimp only
    omega

/-- A member's indices are part of the whole order. -/
theorem indices_sublist {us : List NodeRange} {u : NodeRange} (hu : u ∈ us) :
    u.indices.Sublist (us.flatMap NodeRange.indices) := by
  have hsub := (List.singleton_sublist.mpr hu).flatMap NodeRange.indices
  simpa using hsub

/-- **What a node reads stands in front of it**, in every order of the units that leaves those with
    ascending keys as they are. -/
theorem IsLowered.read_in_front (hg : g.IsLowered) {us us' : List NodeRange}
    (hus : Units g.nodes 0 us) (hsub : ∀ u ∈ us, u ∈ us')
    (hstable : ∀ u w, [w, u].Sublist us → keyLe (g.unitKey w) (g.unitKey u) = true →
      [w, u].Sublist us') {i v : Nat} {node : Node} (hnode : g.nodes[i]? = some node)
    (hread : v ∈ node.inputs) : [v, i].Sublist (us'.flatMap NodeRange.indices) := by
  have hvi : v < i := hg.indexed.ordered i node hnode v hread
  have hi : i < g.nodes.length := (List.getElem?_eq_some_iff.mp hnode).1
  obtain ⟨u, hu, hiu⟩ := Units.exists_unit hus hi
  obtain ⟨w, hw, hvw⟩ := Units.exists_unit hus (hvi.trans hi)
  -- In one unit the order is the list's own.
  by_cases hsame : w = u
  · subst hsame
    have hpair : [v, i].Sublist w.indices :=
      pair_sublist_of_pairwise List.pairwise_lt_range' hvw hiu (Nat.ne_of_lt hvi)
        (Nat.lt_asymm hvi)
    exact hpair.trans (indices_sublist (hsub w hw))
  · -- Otherwise what is read is in an earlier unit, whose key is no higher.
    have hapart : ¬ u.stop ≤ w.start := by
      rw [NodeRange.mem_indices] at hiu hvw
      omega
    have hpair : [w, u].Sublist us :=
      pair_sublist_of_pairwise hus.ascending hw hu hsame hapart
    have hblocks := (hstable u w hpair
      (hg.key_le hus hu hw hsame hiu hvw hnode hread)).flatMap NodeRange.indices
    have hmembers : [v, i].Sublist ([w, u].flatMap NodeRange.indices) := by
      rw [List.flatMap_cons, List.flatMap_singleton]
      exact (List.singleton_sublist.mpr hvw).append (List.singleton_sublist.mpr hiu)
    exact hmembers.trans hblocks

/-! ## Sorting -/

theorem keyed_eq_ok {us : List NodeRange} (hus : Units g.nodes 0 us) :
    us.mapM (keyed ((table (netRule g) g.nodes).map Facts.net) (table fullRule g.nodes)) =
      .ok (us.map fun u => (g.unitKey u, u)) := by
  apply mapM_eq_ok
  intro u hu
  obtain ⟨node, hnode, _, _⟩ := (hus.each u hu).2
  have hlt : u.start < g.nodes.length := (List.getElem?_eq_some_iff.mp hnode).1
  have hnet : index ((table (netRule g) g.nodes).map Facts.net) u.start =
      .ok (g.facts u.start).net := index_table hlt
  have hfull : index (table fullRule g.nodes) u.start = .ok (g.full u.start) :=
    index_eq (table_getElem? hlt)
  rw [keyed, hnet, ok_bind, hfull, ok_bind]
  rfl

/-- The units, sorted. -/
def sortedUnits (g : Graph) (us : List NodeRange) : List NodeRange :=
  ((us.map fun u => (g.unitKey u, u)).mergeSort fun a b => keyLe a.1 b.1).map Prod.snd

theorem sortedUnits_perm (g : Graph) (us : List NodeRange) : (g.sortedUnits us).Perm us := by
  have hperm := (List.mergeSort_perm (us.map fun u => (g.unitKey u, u))
    fun a b => keyLe a.1 b.1).map Prod.snd
  rw [List.map_map] at hperm
  have hid : us.map (Prod.snd ∘ fun u => (g.unitKey u, u)) = us := List.map_id us
  rw [hid] at hperm
  exact hperm

theorem sortedUnits_sorted (g : Graph) (us : List NodeRange) :
    (g.sortedUnits us).Pairwise fun a b => keyLe (g.unitKey a) (g.unitKey b) = true := by
  rw [sortedUnits, List.pairwise_map]
  have hsorted : ((us.map fun u => (g.unitKey u, u)).mergeSort
      fun a b => keyLe a.1 b.1).Pairwise fun a b => keyLe a.1 b.1 = true :=
    List.pairwise_mergeSort (fun a b c => keyLe_trans a.1 b.1 c.1)
      (fun a b => keyLe_total a.1 b.1) _
  apply hsorted.imp_of_mem
  intro a b ha hb hab
  obtain ⟨u, _, rfl⟩ := List.mem_map.mp (List.mem_mergeSort.mp ha)
  obtain ⟨w, _, rfl⟩ := List.mem_map.mp (List.mem_mergeSort.mp hb)
  exact hab

theorem sortedUnits_stable (g : Graph) {us : List NodeRange} {u w : NodeRange}
    (hpair : [w, u].Sublist us) (hkey : keyLe (g.unitKey w) (g.unitKey u) = true) :
    [w, u].Sublist (g.sortedUnits us) := by
  have hkept : [(g.unitKey w, w), (g.unitKey u, u)].Sublist
      ((us.map fun u => (g.unitKey u, u)).mergeSort fun a b => keyLe a.1 b.1) :=
    List.pair_sublist_mergeSort (fun a b c => keyLe_trans a.1 b.1 c.1)
      (fun a b => keyLe_total a.1 b.1) hkey (hpair.map fun u => (g.unitKey u, u))
  exact hkept.map Prod.snd

/-- Keys that ascend from each unit to the next ascend everywhere. -/
theorem units_sorted {us : List NodeRange}
    (hsorted : ((windows (us.map fun u => (g.unitKey u, u))).all
      fun pair => keyLe pair.1.1 pair.2.1) = true) :
    us.Pairwise fun a b => keyLe (g.unitKey a) (g.unitKey b) = true := by
  have hchain : ((us.map fun u => (g.unitKey u, u)).IsChain
      fun a b => keyLe a.1 b.1 = true) := by
    apply (windows_all _).mp
    simpa using hsorted
  have htrans : IsTrans ((Nat × Nat) × NodeRange) fun a b => keyLe a.1 b.1 = true :=
    ⟨fun a b c => keyLe_trans a.1 b.1 c.1⟩
  exact List.pairwise_map.mp (List.isChain_iff_pairwise.mp hchain)

/-! ## The pass -/

/-- Nodes re-emitted in the order they are in. -/
theorem reordered_refl {nodes : List Node} (hord : Ordered nodes) (numRounds : Nat) :
    Reordered nodes (List.range nodes.length)
      ⟨(List.range nodes.length).map some, nodes, numRounds⟩ := by
  have hremap : ∀ i q : Nat, ((List.range nodes.length).map some)[i]? = some (some q) ↔
      (List.range nodes.length)[q]? = some i := by
    intro i q
    rw [List.getElem?_map]
    constructor
    · intro h
      have hi : i < nodes.length := by
        by_contra hge
        rw [List.getElem?_eq_none (by simpa using hge)] at h
        cases h
      rw [List.getElem?_range hi] at h
      cases h
      exact List.getElem?_range hi
    · intro h
      have hq : q < nodes.length := by
        have := (List.getElem?_eq_some_iff.mp h).1
        simpa using this
      rw [List.getElem?_range hq] at h
      cases h
      rw [List.getElem?_range hq]
      rfl
  refine ⟨by simp, by simp, hord, ?_, fun i q => (hremap i q).mp⟩
  intro q i hq
  have hlt : q < nodes.length := by
    have := (List.getElem?_eq_some_iff.mp hq).1
    simpa using this
  rw [List.getElem?_range hlt] at hq
  cases hq
  have hnode : nodes[q]? = some nodes[q] := List.getElem?_eq_getElem hlt
  refine ⟨(hremap q q).mpr (List.getElem?_range hlt), nodes[q], nodes[q].inputs, hnode, hnode, ?_⟩
  apply List.forall₂_same.mpr
  intro v hv
  have hvq : v < q := hord q _ hnode v hv
  exact (hremap v v).mpr (List.getElem?_range (hvq.trans hlt))

theorem IsLowered.widened_refl (hg : g.IsLowered) {us : List NodeRange}
    (hus : Units g.nodes 0 us)
    (hsorted : us.Pairwise fun a b => keyLe (g.unitKey a) (g.unitKey b) = true) :
    Widened g g ((List.range g.nodes.length).map some) us := by
  have htiles : us.flatMap NodeRange.indices = List.range g.nodes.length := by
    rw [hus.tiles, List.range_eq_range']
    rfl
  refine ⟨rfl, fun u hu => (hus.each u hu).2, by rw [htiles], hsorted, ?_, ?_⟩
  · rw [htiles]
    exact reordered_refl hg.indexed.ordered _
  · apply List.forall₂_same.mpr
    intro o ho
    obtain ⟨source, hsource, _⟩ := hg.outputs o ho
    refine ⟨rfl, ?_⟩
    rw [List.getElem?_map, List.getElem?_range (List.getElem?_eq_some_iff.mp hsource).1]
    rfl

/-- Units with ascending keys are left in the order of the graph. The sort promises it of the whole
    list; it is used of a node and what it reads. -/
def Stable (g : Graph) (us : List NodeRange) : Prop :=
  ∀ u ∈ us, ∀ w ∈ us, w.start < u.start → keyLe (g.unitKey w) (g.unitKey u) = true →
    [w, u].Sublist us

/-- The units in front come first in the list. -/
theorem Units.pair_sublist {us : List NodeRange} (hus : Units g.nodes 0 us) {u w : NodeRange}
    (hu : u ∈ us) (hw : w ∈ us) (hlt : w.start < u.start) : [w, u].Sublist us := by
  apply pair_sublist_of_pairwise hus.ascending hw hu
  · rintro rfl
    exact absurd hlt (Nat.lt_irrefl _)
  · intro hle
    obtain ⟨_, _, _, hstop⟩ := (hus.each u hu).2
    omega

/-- **`wide_schedule`** puts the units of a lowered graph in the order of their keys, and leaves those
    that are in order as they are. -/
theorem wideSchedule_stable (hg : g.IsLowered) :
    Returns (fun r => ∃ remap us, Widened g r.1 remap us ∧ g.Stable us) (WideSchedule.run g) := by
  unfold WideSchedule.run
  cases hempty : g.nodes.isEmpty with
  | true =>
    have hnil : g.nodes = [] := List.isEmpty_iff.mp hempty
    rw [if_pos rfl]
    refine ⟨_, [], hg.widened_refl ⟨?_, .nil, ?_⟩ .nil, fun u hu => by cases hu⟩
    · intro u hu
      cases hu
    · rw [hnil]
      rfl
  | false =>
    have hstart : ∀ k args, g.nodes[0]? ≠ some ⟨.roundResult k, args⟩ := by
      intro k args hresult
      obtain ⟨r, _, _, _, hq, _, _⟩ := between_results hg hresult
      omega
    rw [if_neg (by simp), computeDomains_eq_ok hg.indexed, ok_bind,
      networkLevels_eq_ok hg.indexed, ok_bind, fullLevels_eq_ok hg.indexed, ok_bind]
    apply Meets.bind (units_returns hg 0 (Nat.zero_le _) hstart)
    intro us hus
    rw [keyed_eq_ok hus, ok_bind]
    split
    · rename_i hsorted
      exact ⟨_, us, hg.widened_refl hus (units_sorted hsorted),
        fun u hu w hw hlt _ => Units.pair_sublist hus hu hw hlt⟩
    · have hperm := g.sortedUnits_perm us
      have htiles : us.flatMap NodeRange.indices = List.range g.nodes.length := by
        rw [hus.tiles, List.range_eq_range']
        rfl
      have horder : ((g.sortedUnits us).flatMap NodeRange.indices).Perm
          (List.range g.nodes.length) := by
        rw [← htiles]
        exact hperm.flatMap_right _
      apply Meets.bind (placeNodes_returns horder hg.indexed.arity ?_)
      · intro p hp
        unfold rebuildNodes
        apply Meets.bind (Meets.bind (remapOutputs_returns ?_) fun outputs houtputs => ?_)
        · intro g' hg'
          exact hg'
        · intro o ho
          obtain ⟨source, hsource, _⟩ := hg.outputs o ho
          apply hp.placed_of_mem
          rw [horder.mem_iff, List.mem_range]
          exact (List.getElem?_eq_some_iff.mp hsource).1
        · refine ⟨p.remap, g.sortedUnits us, ⟨rfl, ?_, horder, g.sortedUnits_sorted us, ?_,
            houtputs⟩, ?_⟩
          · intro u hu
            exact (hus.each u (hperm.mem_iff.mp hu)).2
          · exact ⟨hp.size, hp.length, hp.ordered, hp.moved, hp.source⟩
          · intro u hu w hw hlt
            exact g.sortedUnits_stable
              (Units.pair_sublist hus (hperm.mem_iff.mp hu) (hperm.mem_iff.mp hw) hlt)
      · intro i node hnode v hv
        exact hg.read_in_front hus (fun u hu => hperm.mem_iff.mpr hu)
          (fun u w hpair hkey => g.sortedUnits_stable hpair hkey) hnode hv

theorem wideSchedule_returns (hg : g.IsLowered) :
    Returns (fun r => ∃ remap us, Widened g r.1 remap us) (WideSchedule.run g) :=
  (wideSchedule_stable hg).post fun _ ⟨remap, us, h, _⟩ => ⟨remap, us, h⟩

end Graph
end CircomMpc
