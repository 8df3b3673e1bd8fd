import CircomMpc.Ir.Semantics

/-!
# What `gc` keeps

`gc` marks the roots, sweeps the nodes backwards so that a kept node keeps its inputs, and compacts.
The sweep needs one pass because references point strictly back: by the time it decides about a node
it has seen every reader of it. What is left is the old graph with nodes missing: every node that
survives stands where `remap` says, with its references renamed, and no gadget site is lost.
-/

namespace CircomMpc

open Lib

namespace Graph

/-! ## Marking -/

/-- Node `i` is marked. -/
def Kept (keep : List Bool) (i : ValueId) : Prop := keep[i]? = some true

theorem setIndex_returns {keep : List Bool} {v : ValueId} (hv : v < keep.length) :
    Returns (fun keep' => keep'.length = keep.length ∧ ∀ i, Kept keep' i ↔ i = v ∨ Kept keep i)
      (setIndex keep v true) := by
  unfold setIndex
  rw [if_pos hv]
  refine ⟨List.length_set, ?_⟩
  intro i
  unfold Kept
  rw [List.getElem?_set]
  by_cases hi : v = i
  · subst hi
    simp [hv]
  · rw [if_neg hi]
    constructor
    · intro h
      exact .inr h
    · rintro (rfl | h)
      · exact absurd rfl hi
      · exact h

theorem markAll_returns {vs : List ValueId} :
    ∀ {keep : List Bool}, (∀ v ∈ vs, v < keep.length) →
      Returns (fun keep' => keep'.length = keep.length ∧
        ∀ i, Kept keep' i ↔ i ∈ vs ∨ Kept keep i) (markAll keep vs) := by
  induction vs with
  | nil =>
    intro keep _
    refine ⟨rfl, ?_⟩
    intro i
    simp
  | cons v vs ih =>
    intro keep hvs
    show Meets _ _ (setIndex keep v true >>= fun keep => markAll keep vs)
    apply Meets.bind (setIndex_returns (hvs v (by simp)))
    intro keep' hkeep'
    obtain ⟨hlen, hmarked⟩ := hkeep'
    apply (ih fun w hw => by rw [hlen]; exact hvs w (by simp [hw])).post
    intro keep'' hkeep''
    refine ⟨hkeep''.1.trans hlen, ?_⟩
    intro i
    rw [hkeep''.2, hmarked, List.mem_cons]
    tauto

/-- From `n` on, a marked node's inputs are marked. -/
def ClosedFrom (nodes : List Node) (n : Nat) (keep : List Bool) : Prop :=
  ∀ j node, n ≤ j → nodes[j]? = some node → Kept keep j → ∀ v ∈ node.inputs, Kept keep v

/-- The sweep marks more, and what it leaves is closed; it marks nothing outside a set that is
    closed itself. -/
theorem sweep_returns {nodes : List Node} (hord : Ordered nodes) {P : ValueId → Prop}
    (hP : ∀ j node, nodes[j]? = some node → P j → ∀ v ∈ node.inputs, P v) :
    ∀ {n : Nat} {keep : List Bool}, n ≤ nodes.length → keep.length = nodes.length →
      ClosedFrom nodes n keep → (∀ i, Kept keep i → P i) →
      Returns (fun keep' => keep'.length = nodes.length ∧ (∀ i, Kept keep i → Kept keep' i) ∧
        ClosedFrom nodes 0 keep' ∧ ∀ i, Kept keep' i → P i) (sweep nodes n keep) := by
  intro n
  induction n with
  | zero =>
    intro keep _ hlen hclosed hkept
    exact ⟨hlen, fun i hi => hi, hclosed, hkept⟩
  -- By induction on the nodes still to be looked at, from the back.
  | succ i ih =>
    intro keep hn hlen hclosed hP'
    have hi : i < nodes.length := hn
    have hkeep : keep[i]? = some keep[i] := List.getElem?_eq_getElem (by omega)
    have hnode : nodes[i]? = some nodes[i] := List.getElem?_eq_getElem hi
    have hread : index keep i = .ok keep[i] := by rw [index, hkeep, orElse_some]
    rw [sweep, hread, ok_bind]
    split
    · -- A kept node keeps its inputs, which are in front of it and not decided yet.
      rename_i hmarked
      have hget : index nodes i = .ok nodes[i] := by rw [index, hnode, orElse_some]
      rw [hget, ok_bind]
      have hback := hord i nodes[i] hnode
      apply Meets.bind (markAll_returns fun v hv => by rw [hlen]; exact (hback v hv).trans hi)
      intro keep' hkeep'
      obtain ⟨hlen', hmark⟩ := hkeep'
      have hmono : ∀ j, Kept keep j → Kept keep' j := by
        intro j hj
        exact (hmark j).mpr (.inr hj)
      have hclosed' : ClosedFrom nodes i keep' := by
        intro j node hij hj hkept v hv
        rcases Nat.lt_or_ge i j with hlt | hge
        · -- Marking node `i`'s inputs marked nothing from `i` on.
          have hold : Kept keep j := by
            rcases (hmark j).mp hkept with hmem | hold
            · exact absurd (hback j hmem) (by omega)
            · exact hold
          exact hmono v (hclosed j node hlt hj hold v hv)
        · have hji : j = i := by omega
          subst hji
          rw [hnode] at hj
          cases hj
          exact (hmark v).mpr (.inl hv)
      have hinside : ∀ j, Kept keep' j → P j := by
        intro j hj
        rcases (hmark j).mp hj with hmem | hold
        · exact hP i nodes[i] hnode (hP' i (by rw [Kept, hkeep, hmarked])) j hmem
        · exact hP' j hold
      apply (ih (by omega) (hlen'.trans hlen) hclosed' hinside).post
      intro keep'' h''
      exact ⟨h''.1, fun j hj => h''.2.1 j (hmono j hj), h''.2.2⟩
    · rename_i hunmarked
      refine ih (by omega) hlen ?_ hP'
      intro j node hij hj hkept
      rcases Nat.lt_or_ge i j with hlt | hge
      · exact hclosed j node hlt hj hkept
      · have hji : j = i := by omega
        subst hji
        rw [Kept, hkeep] at hkept
        exact absurd (Option.some.inj hkept) hunmarked

/-! ## Compacting -/

/-- What the compaction has done after `i` nodes: the marked ones among them stand in `kept`, in
    their old order. -/
structure Compacted (old : List Node) (keep : List Bool) (i : Nat)
    (acc : List (Option ValueId) × List Node) : Prop where
  length : acc.1.length = old.length
  entry : ∀ j t : Nat, acc.1[j]? = some (some t) →
    j < i ∧ Kept keep j ∧ acc.2[t]? = old[j]? ∧ t < acc.2.length
  marked : ∀ j < i, Kept keep j → ∃ t : Nat, acc.1[j]? = some (some t)
  increasing : ∀ j k t u : Nat, acc.1[j]? = some (some t) → acc.1[k]? = some (some u) → j < k → t < u
  source : ∀ t < acc.2.length, ∃ j : Nat, acc.1[j]? = some (some t)
  invocations : invocations acc.2 = invocations (old.take i)

theorem Compacted.start (old : List Node) (keep : List Bool) :
    Compacted old keep 0 (List.replicate old.length none, []) := by
  have hnone : ∀ j t : Nat, (List.replicate old.length (none : Option ValueId))[j]? ≠ some (some t) := by
    intro j t h
    cases List.eq_of_mem_replicate (List.mem_of_getElem? h)
  refine ⟨List.length_replicate, ?_, ?_, ?_, ?_, rfl⟩
  · intro j t h
    exact absurd h (hnone j t)
  · intro j hj
    exact absurd hj (Nat.not_lt_zero j)
  · intro j k t u h
    exact absurd h (hnone j t)
  · intro t ht
    exact absurd ht (Nat.not_lt_zero t)

theorem compactStep_returns {old : List Node} {keep : List Bool} {i : Nat} {node : Node}
    {acc : List (Option ValueId) × List Node} (hlen : keep.length = old.length)
    (hnode : old[i]? = some node) (hgadget : node.call?.isSome → Kept keep i)
    (h : Compacted old keep i acc) :
    Returns (Compacted old keep (i + 1)) (compactStep keep acc node i) := by
  have hi : i < old.length := (List.getElem?_eq_some_iff.mp hnode).1
  have hkeep : keep[i]? = some keep[i] := List.getElem?_eq_getElem (by omega)
  have hread : index keep i = .ok keep[i] := by rw [index, hkeep, orElse_some]
  rw [compactStep, hread, ok_bind]
  split
  · rename_i hset
    have hmarked : Kept keep i := by rw [Kept, hkeep, hset]
    -- The node's place is the end of the list so far.
    have hentry : ∀ j t : Nat, (acc.1.set i (some acc.2.length))[j]? = some (some t) →
        (j = i ∧ t = acc.2.length) ∨ acc.1[j]? = some (some t) := by
      intro j t hjt
      rw [List.getElem?_set] at hjt
      split at hjt
      · rename_i hij
        split at hjt
        · cases hjt
          exact .inl ⟨hij.symm, rfl⟩
        · cases hjt
      · exact .inr hjt
    refine ⟨by rw [List.length_set]; exact h.length, ?_, ?_, ?_, ?_, ?_⟩
    · intro j t hjt
      rcases hentry j t hjt with ⟨rfl, rfl⟩ | hold
      · refine ⟨Nat.lt_succ_self _, hmarked, ?_, by simp⟩
        rw [hnode]
        simp
      · obtain ⟨hj, hkept, hget, ht⟩ := h.entry j t hold
        refine ⟨by omega, hkept, ?_, by simp; omega⟩
        rw [List.getElem?_append_left ht]
        exact hget
    · intro j hj hkept
      by_cases hij : i = j
      · subst hij
        exact ⟨acc.2.length, List.getElem?_set_self (by rw [h.length]; exact hi)⟩
      · rw [List.getElem?_set_ne hij]
        exact h.marked j (by omega) hkept
    · intro j k t u hjt hku hjk
      rcases hentry j t hjt with ⟨rfl, rfl⟩ | hj
      · rcases hentry k u hku with ⟨rfl, rfl⟩ | hk
        · omega
        · have := (h.entry k u hk).1
          omega
      · rcases hentry k u hku with ⟨rfl, rfl⟩ | hk
        · exact (h.entry j t hj).2.2.2
        · exact h.increasing j k t u hj hk hjk
    · intro t ht
      rw [List.length_append, List.length_singleton] at ht
      rcases Nat.lt_or_ge t acc.2.length with hlt | hge
      · obtain ⟨j, hj⟩ := h.source t hlt
        have hij : i ≠ j := by
          have := (h.entry j t hj).1
          omega
        exact ⟨j, by rw [List.getElem?_set_ne hij]; exact hj⟩
      · have hlast : t = acc.2.length := by omega
        subst hlast
        exact ⟨i, List.getElem?_set_self (by rw [h.length]; exact hi)⟩
    · rw [invocations_append, h.invocations, invocations_take_succ hnode]
  · rename_i hunmarked
    have hnotKept : ¬ Kept keep i := by
      intro hkept
      rw [Kept, hkeep] at hkept
      exact hunmarked (Option.some.inj hkept)
    -- What is dropped is no gadget node, so no site is lost with it.
    have hnone : node.call? = none := by
      cases hcall : node.call? with
      | none => rfl
      | some c => exact absurd (hgadget (by rw [hcall]; rfl)) hnotKept
    refine ⟨h.length, ?_, ?_, h.increasing, h.source, ?_⟩
    · intro j t hjt
      obtain ⟨hj, hrest⟩ := h.entry j t hjt
      exact ⟨by omega, hrest⟩
    · intro j hj hkept
      by_cases hij : i = j
      · subst hij
        exact absurd hkept hnotKept
      · exact h.marked j (by omega) hkept
    · rw [h.invocations, invocations_take_succ hnode]
      simp [Graph.invocations, hnone]

/-! ## The collection as a whole -/

/-- What `gc` returns: the old graph with nodes missing. Every node that is left has one origin,
    whose operation it has and whose references it has renamed, and no site was lost. -/
structure Collected (g : Graph) (r : Graph × List (Option ValueId)) : Prop where
  graph : r.1 = { g with nodes := r.1.nodes, outputs := r.1.outputs }
  ordered : Ordered r.1.nodes
  outputs : Rebound r.2 g.outputs r.1.outputs
  entry : ∀ j t : Nat, r.2[j]? = some (some t) → ∃ (node : Node) (inputs : List ValueId),
    g.nodes[j]? = some node ∧
    r.1.nodes[t]? = some ⟨node.op, inputs⟩ ∧ Renamed r.2 node.inputs inputs
  source : ∀ t < r.1.nodes.length, ∃ j : Nat, r.2[j]? = some (some t)
  calls : Reinvoked r.2 (invocations g.nodes) (invocations r.1.nodes)

theorem mem_roots {g : Graph} {v : ValueId} :
    v ∈ g.roots ↔ (∃ o ∈ g.outputs, o.2 = v) ∨
      ∃ node, g.nodes[v]? = some node ∧ node.call?.isSome := by
  rw [roots, List.mem_append, List.mem_map, List.mem_filterMap]
  apply or_congr Iff.rfl
  constructor
  · rintro ⟨⟨node, i⟩, hmem, hop⟩
    have hnode := List.mem_zipIdx_iff_getElem?.mp hmem
    cases hcase : node.op <;> simp only [hcase] at hop <;> cases hop
    exact ⟨node, hnode, by simp [Node.call?, hcase]⟩
  · rintro ⟨node, hnode, hcall⟩
    refine ⟨(node, v), List.mem_zipIdx_iff_getElem?.mpr hnode, ?_⟩
    cases hcase : node.op <;> simp [Node.call?, hcase] at hcall ⊢

/-- What a collection keeps alive: the roots, which are the outputs and the gadget nodes, and
    everything they depend on. -/
inductive Live (g : Graph) : ValueId → Prop
  | root {v : ValueId} (h : v ∈ g.roots) : Live g v
  | input {j v : ValueId} {node : Node} (hj : Live g j) (hnode : g.nodes[j]? = some node)
      (hv : v ∈ node.inputs) : Live g v

/-- Exactly the live nodes went somewhere, in their old order. `Collected` alone would let dead
    nodes stay. -/
structure Surviving (g : Graph) (remap : List (Option ValueId)) : Prop where
  live : ∀ j t : Nat, remap[j]? = some (some t) → Live g j
  kept : ∀ j, Live g j → ∃ t : Nat, remap[j]? = some (some t)
  increasing : ∀ j k t u : Nat, remap[j]? = some (some t) → remap[k]? = some (some u) →
    j < k → t < u

theorem renamed_invocations {remap : List (Option ValueId)} {kept nodes : List Node}
    (h : List.Forall₂ (fun node node' => node'.op = node.op ∧
      Renamed remap node.inputs node'.inputs) kept nodes) :
    Reinvoked remap (invocations kept) (invocations nodes) := by
  induction h with
  | nil => exact .nil
  | @cons node node' kept nodes hnode _ ih =>
    obtain ⟨hop, hren⟩ := hnode
    unfold invocations
    rw [List.filterMap_cons, List.filterMap_cons]
    cases hcase : node.op <;> simp only [Node.call?, hop, hcase]
    case gadget => exact .cons ⟨rfl, hren⟩ ih
    all_goals exact ih

/-- **`gc`.** On an ordered graph whose outputs are in range it does not abort, and what it returns
    is the old graph without the nodes that are not live. -/
theorem gc_collects {g : Graph} (hord : Ordered g.nodes)
    (hout : ∀ o ∈ g.outputs, o.2 < g.nodes.length) :
    Returns (fun r => Collected g r ∧ Surviving g r.2) g.gc := by
  have hroots : ∀ v ∈ g.roots, v < (List.replicate g.nodes.length false).length := by
    intro v hv
    rw [List.length_replicate]
    rcases mem_roots.mp hv with ⟨o, ho, rfl⟩ | ⟨node, hnode, _⟩
    · exact hout o ho
    · exact (List.getElem?_eq_some_iff.mp hnode).1
  unfold gc
  apply Meets.bind (markAll_returns hroots)
  intro keep hkeep
  obtain ⟨hlen, hmarked⟩ := hkeep
  rw [List.length_replicate] at hlen
  have hclosed : ClosedFrom g.nodes g.nodes.length keep := by
    intro j node hj hnode
    exact absurd (List.getElem?_eq_some_iff.mp hnode).1 (by omega)
  have hroot : ∀ i, Kept keep i → Live g i := by
    intro i hi
    rcases (hmarked i).mp hi with hmem | hnone
    · exact .root hmem
    · rw [Kept] at hnone
      exact absurd (List.eq_of_mem_replicate (List.mem_of_getElem? hnone)) (by decide)
  apply Meets.bind (sweep_returns hord (fun j node hnode hj v hv => .input hj hnode hv)
    (Nat.le_refl _) hlen hclosed hroot)
  intro keep' hkeep'
  obtain ⟨hlen', hmono, hclosed', hlive⟩ := hkeep'
  have hrooted : ∀ v ∈ g.roots, Kept keep' v := by
    intro v hv
    exact hmono v ((hmarked v).mpr (.inl hv))
  have hloop : Returns (Compacted g.nodes keep' (0 + g.nodes.length))
      (g.nodes.zipIdx.foldlM (fun acc p => compactStep keep' acc p.1 p.2)
        (List.replicate g.nodes.length none, [])) := by
    refine Meets.foldlM_zipIdx (Compacted g.nodes keep') (Compacted.start _ _) ?_
    intro i node acc hnode hacc
    rw [Nat.zero_add] at hacc ⊢
    apply compactStep_returns hlen' hnode _ hacc
    intro hcall
    exact hrooted i (mem_roots.mpr (.inr ⟨node, hnode, hcall⟩))
  rw [Nat.zero_add] at hloop
  apply Meets.bind hloop
  rintro ⟨remap, kept⟩ hcompact
  have hsource : ∀ node ∈ kept, ∃ j, g.nodes[j]? = some node ∧ Kept keep' j := by
    intro node hmem
    obtain ⟨t, ht, hget⟩ := List.getElem_of_mem hmem
    obtain ⟨j, hj⟩ := hcompact.source t ht
    obtain ⟨_, hkept, hold, _⟩ := hcompact.entry j t hj
    exact ⟨j, by rw [← hold, List.getElem?_eq_getElem ht, hget], hkept⟩
  -- A kept node's inputs are kept, so the renaming finds them.
  have hinputs : ∀ node ∈ kept, ∀ v ∈ node.inputs, ∃ u, remap[v]? = some (some u) := by
    intro node hmem v hv
    obtain ⟨j, hnode, hkept⟩ := hsource node hmem
    have hvj := hord j node hnode v hv
    have hj : j < g.nodes.length := (List.getElem?_eq_some_iff.mp hnode).1
    exact hcompact.marked v (hvj.trans hj) (hclosed' j node (Nat.zero_le _) hnode hkept v hv)
  have hrename : Returns (fun nodes => List.Forall₂ (fun node node' => node'.op = node.op ∧
      Renamed remap node.inputs node'.inputs) kept nodes)
      (kept.mapM fun node => do
        pure { node with
          inputs := ← node.inputs.mapM
            (remapped "gc kept a node whose input was dropped" remap) }) := by
    apply Meets.mapM_rel
    intro node hmem
    apply Meets.bind (mapM_remapped_returns (hinputs node hmem))
    intro inputs hren
    exact ⟨rfl, hren⟩
  apply Meets.bind hrename
  intro nodes hnodes
  apply Meets.bind (remapOutputs_returns ?_)
  · intro outputs houtputs
    have hentry : ∀ (t : Nat) (node' : Node), nodes[t]? = some node' → ∃ (j : Nat) (node : Node),
        remap[j]? = some (some t) ∧ g.nodes[j]? = some node ∧ node'.op = node.op ∧
          Renamed remap node.inputs node'.inputs := by
      intro t node' hget
      obtain ⟨node, hnode, hop, hren⟩ := forall₂_getElem? hnodes hget
      obtain ⟨j, hj⟩ := hcompact.source t (List.getElem?_eq_some_iff.mp hnode).1
      obtain ⟨_, _, hold, _⟩ := hcompact.entry j t hj
      exact ⟨j, node, hj, by rw [← hold, hnode], hop, hren⟩
    have hlength : kept.length = nodes.length := List.Forall₂.length_eq hnodes
    have hsurviving : Surviving g remap := by
      have hall : ∀ j, Live g j → Kept keep' j ∧ j < g.nodes.length := by
        intro j hj
        induction hj with
        | root h =>
          have hlt := hroots _ h
          rw [List.length_replicate] at hlt
          exact ⟨hrooted _ h, hlt⟩
        | input _ hnode hv ih =>
          exact ⟨hclosed' _ _ (Nat.zero_le _) hnode ih.1 _ hv, (hord _ _ hnode _ hv).trans ih.2⟩
      refine ⟨fun j t hjt => hlive j (hcompact.entry j t hjt).2.1, ?_, hcompact.increasing⟩
      intro j hj
      exact hcompact.marked j (hall j hj).2 (hall j hj).1
    refine ⟨⟨rfl, ?_, houtputs, ?_, ?_, ?_⟩, hsurviving⟩
    · intro t node' hget u hu
      obtain ⟨j, node, hj, hnode, _, hren⟩ := hentry t node' hget
      obtain ⟨v, hv, hvu⟩ := hren.source hu
      exact hcompact.increasing v j u t hvu hj (hord j node hnode v hv)
    · intro j t hjt
      have ht : t < nodes.length := by
        rw [← hlength]
        exact (hcompact.entry j t hjt).2.2.2
      obtain ⟨node, hnode, hop, hren⟩ := forall₂_getElem? hnodes (List.getElem?_eq_getElem ht)
      refine ⟨node, nodes[t].inputs, ?_, ?_, hren⟩
      · rw [← (hcompact.entry j t hjt).2.2.1, hnode]
      · rw [← hop]
        exact List.getElem?_eq_getElem ht
    · intro t ht
      exact hcompact.source t (by rw [hlength]; exact ht)
    · rw [← List.take_length (l := g.nodes), ← hcompact.invocations]
      exact renamed_invocations hnodes
  · intro o ho
    exact hcompact.marked o.2 (hout o ho) (hrooted o.2 (mem_roots.mpr (.inl ⟨o, ho, rfl⟩)))

theorem gc_returns {g : Graph} (hord : Ordered g.nodes)
    (hout : ∀ o ∈ g.outputs, o.2 < g.nodes.length) : Returns (Collected g) g.gc :=
  (gc_collects hord hout).post fun _ hr => hr.1

end Graph
end CircomMpc
