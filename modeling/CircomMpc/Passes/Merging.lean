import CircomMpc.Passes.NormalForm

/-!
# One walk merges every pair of twins

The table knows every pure node emitted so far by its key, and two nodes have one key exactly when
they are twins. So a node that is kept has no twin in front of it, and merging changes no operation
and no constant operand: what was folded stays folded.

`Merging` is the walk's invariant. Its clauses follow a node through the renaming in both directions,
because a node of the result has to be traced back to compare it with what it was.
-/

namespace CircomMpc

open Lib CircomMpc.Graph

namespace Cse

variable {seen : Seen} {node : Node} {emitted : List Node}

/-! ## Keys and twins -/

/-- The key `visit` looks a node up by. -/
abbrev keyOf (node : Node) : Key := (node.op, canonicalInputs node.op node.inputs)

theorem mergeSort_eq_iff {xs ys : List ValueId} :
    xs.mergeSort (· ≤ ·) = ys.mergeSort (· ≤ ·) ↔ xs.Perm ys := by
  have hsorted : ∀ zs : List ValueId, (zs.mergeSort (· ≤ ·)).Pairwise (· ≤ ·) := by
    intro zs
    have h : (zs.mergeSort (· ≤ ·)).Pairwise fun a b => decide (a ≤ b) = true :=
      List.pairwise_mergeSort (fun a b c => by simpa using Nat.le_trans)
        (fun a b => by simpa using Nat.le_total a b) zs
    simpa using h
  constructor
  · intro h
    exact (List.mergeSort_perm xs _).symm.trans (h ▸ List.mergeSort_perm ys _)
  · intro h
    apply List.Perm.eq_of_pairwise (fun a b _ _ => Nat.le_antisymm) (hsorted xs) (hsorted ys)
    exact (List.mergeSort_perm xs _).trans (h.trans (List.mergeSort_perm ys _).symm)

/-- **Two nodes have one key exactly when they are twins.** -/
theorem keyOf_eq_iff {a b : Node} : keyOf a = keyOf b ↔ Twin a b := by
  obtain ⟨op, inputs⟩ := a
  obtain ⟨op', inputs'⟩ := b
  rw [Prod.mk.injEq]
  apply and_congr_right
  intro hop
  subst hop
  cases op
  -- Two sorted lists are equal exactly when one is a permutation of the other.
  case add | mul =>
    refine mergeSort_eq_iff.trans ⟨fun h => .inr ⟨by simp, h⟩, ?_⟩
    rintro (h | ⟨_, h⟩)
    · exact h ▸ List.Perm.refl _
    · exact h
  all_goals
    refine ⟨.inl, ?_⟩
    rintro (h | ⟨hop, _⟩)
    · exact h
    · simp at hop

theorem get_cons {key key' : Key} {v : ValueId} :
    Seen.get ((key', v) :: seen) key = if key' = key then some v else seen.get key := by
  unfold Seen.get
  rw [List.find?_cons]
  by_cases h : key' = key
  · simp [h]
  · have hne : (key' == key) = false := beq_eq_false_iff_ne.mpr h
    simp [hne, h]

theorem Consed.get {v : ValueId} {key : Key} (h : Consed seen emitted)
    (hget : seen.get key = some v) : ∃ twin, emitted[v]? = some twin ∧ key = keyOf twin :=
  h _ (Seen.get_eq_some hget)

/-! ## The walk -/

/-- What the walk has emitted so far: nodes of the old graph with renamed inputs, every pure one
    found under its key. The first two clauses follow a node back to its origin and forth to its
    place. -/
structure Merging (g : Graph) (w : Rewriting Seen) : Prop where
  source : ∀ node ∈ w.nodes, ∃ old ∈ g.nodes, node.op = old.op ∧
    Renamed w.remap old.inputs node.inputs
  kept : ∀ (j t : Nat) (old : Node), w.remap[j]? = some (some t) → g.nodes[j]? = some old →
    ∃ inputs, w.nodes[t]? = some ⟨old.op, inputs⟩
  consed : Consed w.state w.nodes
  known : ∀ (t : Nat) (node : Node), w.nodes[t]? = some node → node.op.isPure = true →
    w.state.get (keyOf node) = some t

theorem Merging.start (g : Graph) : Merging g (Rewriting.start g.nodes.length []) := by
  refine ⟨?_, ?_, ?_, ?_⟩
  · intro node hnode
    cases hnode
  · intro j t old hjt
    cases List.eq_of_mem_replicate (List.mem_of_getElem? hjt)
  · intro entry hentry
    cases hentry
  · intro t node hnode
    cases hnode

/-- No two of the nodes emitted are twins. -/
theorem Merging.distinct {g : Graph} {w : Rewriting Seen} (hw : Merging g w) {i j : ValueId}
    {a b : Node} (ha : w.nodes[i]? = some a) (hb : w.nodes[j]? = some b)
    (hpure : a.op.isPure = true) (htwin : Twin a b) : i = j := by
  have hi := hw.known i a ha hpure
  have hj := hw.known j b hb (htwin.1 ▸ hpure)
  rw [keyOf_eq_iff.mpr htwin, hj] at hi
  exact (Option.some.inj hi).symm

/-- Aliasing a node keeps the walk. -/
theorem Merging.aliased {g : Graph} {w : Rewriting Seen} {i target : ValueId} {old : Node}
    {inputs args : List ValueId} (hreached : Reached g.nodes.length i w.remap) (hw : Merging g w)
    (hnode : g.nodes[i]? = some old) (htarget : w.nodes[target]? = some ⟨old.op, args⟩) :
    Merging g (w.after i ⟨old.op, inputs⟩ w.state (.replaceWith target)) := by
  have hnodes : (w.after i ⟨old.op, inputs⟩ w.state (.replaceWith target)).nodes = w.nodes :=
    List.append_nil _
  refine ⟨?_, ?_, ?_, ?_⟩
  · intro node hmem
    obtain ⟨origin, horigin, hop, hren⟩ := hw.source node (hnodes ▸ hmem)
    exact ⟨origin, horigin, hop, hren.imp fun v u hvu => hreached.stays hvu⟩
  · intro j t origin hjt hold
    rw [hnodes]
    rcases hreached.entry hjt with ⟨rfl, rfl⟩ | hjt
    · rw [hnode] at hold
      cases hold
      exact ⟨args, htarget⟩
    · exact hw.kept j t origin hjt hold
  · rw [hnodes]
    exact hw.consed
  · rw [hnodes]
    exact hw.known

/-- Keeping a node keeps the walk, provided the table finds it from now on. -/
theorem Merging.pushed {g : Graph} {w : Rewriting Seen} {i : ValueId} {old : Node}
    {inputs : List ValueId} {seen : Seen} (hreached : Reached g.nodes.length i w.remap)
    (hw : Merging g w) (hnode : g.nodes[i]? = some old)
    (hren : Renamed w.remap old.inputs inputs)
    (hconsed : Consed seen (w.nodes ++ [⟨old.op, inputs⟩]))
    (hgrow : ∀ key v, w.state.get key = some v → seen.get key = some v)
    (hnew : old.op.isPure = true → seen.get (keyOf ⟨old.op, inputs⟩) = some w.nodes.length) :
    Merging g (w.after i ⟨old.op, inputs⟩ seen .keep) := by
  refine ⟨?_, ?_, hconsed, ?_⟩
  · intro node hmem
    rcases List.mem_append.mp hmem with hmem | hmem
    · obtain ⟨origin, horigin, hop, hrenamed⟩ := hw.source node hmem
      exact ⟨origin, horigin, hop, hrenamed.imp fun v u hvu => hreached.stays hvu⟩
    · rw [List.mem_singleton.mp hmem]
      exact ⟨old, List.mem_of_getElem? hnode, rfl, hren.imp fun v u hvu => hreached.stays hvu⟩
  · intro j t origin hjt hold
    rcases hreached.entry hjt with ⟨rfl, rfl⟩ | hjt
    · rw [hnode] at hold
      cases hold
      exact ⟨inputs, List.getElem?_concat_length⟩
    · obtain ⟨args, hget⟩ := hw.kept j t origin hjt hold
      exact ⟨args, getElem?_append_of_some hget⟩
  · intro t node hget hpure
    -- An earlier node was found by the old table, the new one is by assumption.
    rcases Nat.lt_or_ge t w.nodes.length with hlt | hge
    · have hold : w.nodes[t]? = some node := by
        rw [← hget]
        exact (List.getElem?_append_left hlt).symm
      exact hgrow _ _ (hw.known t node hold hpure)
    · have hlen := (List.getElem?_eq_some_iff.mp hget).1
      simp only [Rewriting.after, RewriteAction.pushed, List.length_append,
        List.length_singleton] at hlen
      have hlast : t = w.nodes.length := by omega
      subst hlast
      have hnode' : some (⟨old.op, inputs⟩ : Node) = some node := by
        rw [← hget]
        exact List.getElem?_concat_length.symm
      cases hnode'
      exact hnew hpure

/-- One turn keeps the walk. -/
theorem Merging.after {g : Graph} {w : Rewriting Seen} {i : ValueId} {old : Node}
    {inputs : List ValueId} (hreached : Reached g.nodes.length i w.remap) (hw : Merging g w)
    (hnode : g.nodes[i]? = some old) (hren : Renamed w.remap old.inputs inputs) :
    (visit w.state ⟨old.op, inputs⟩ w.nodes).2.Proper ∧
      Merging g (w.after i ⟨old.op, inputs⟩ (visit w.state ⟨old.op, inputs⟩ w.nodes).1
        (visit w.state ⟨old.op, inputs⟩ w.nodes).2) := by
  unfold visit
  split
  · simp only
    split
    · -- The table has a twin.
      rename_i existing hget
      obtain ⟨twin, htwin, hkey⟩ := hw.consed.get hget
      have hop : old.op = twin.op := congrArg Prod.fst hkey
      have htarget : w.nodes[existing]? = some ⟨old.op, twin.inputs⟩ := by rw [htwin, hop]
      exact ⟨RewriteAction.noConfusion, hw.aliased hreached hnode htarget⟩
    · rename_i hget
      refine ⟨RewriteAction.noConfusion, hw.pushed hreached hnode hren ?_ ?_ ?_⟩
      · intro entry hentry
        rcases List.mem_cons.mp hentry with rfl | hold
        · exact ⟨_, List.getElem?_concat_length, rfl⟩
        · exact hw.consed.grow _ entry hold
      · intro key v hkey
        rw [get_cons, if_neg]
        · exact hkey
        · rintro rfl
          rw [hget] at hkey
          cases hkey
      · intro _
        rw [get_cons, if_pos rfl]
  · rename_i himpure
    refine ⟨RewriteAction.noConfusion, hw.pushed hreached hnode hren (hw.consed.grow _)
      (fun _ _ h => h) fun hpure => absurd hpure himpure⟩

/-! ## The pass -/

/-- **One walk merges every pair of twins**, folds nothing up, and reports no change when it made
    none. -/
theorem run_merges {g : Graph} (hg : g.Frontend) :
    Returns (fun r => r.1.Distinct ∧ (g.Folded → r.1.Folded) ∧ (r.2 = false → r.1 = g) ∧
      r.1.outputs.map Prod.fst = g.outputs.map Prod.fst) (run g) := by
  unfold run
  apply Meets.bind (@rewrite_unchanged _ g _ [] (fun _ w => Merging g w) hg.ordered hg.outputs
    (Merging.start g) ?_)
  · rintro r ⟨⟨w, hw, hrewritten⟩, hsame⟩
    have hnodes : r.1.nodes = w.nodes := by rw [hrewritten.graph]
    refine ⟨?_, ?_, hsame, hrewritten.outputs.signals⟩
    · intro i j a b ha hb
      rw [hnodes] at ha hb
      exact hw.distinct ha hb
    · intro hfolded
      show ∀ node ∈ r.1.nodes, ¬ Foldable r.1.nodes node
      rw [hnodes]
      intro node hmem hfoldable
      obtain ⟨old, hold, hop, hren⟩ := hw.source node hmem
      apply hfolded old hold
      exact hfoldable.transport hop
        (sameConstants_of_renamed (fun v hv => inputs_lt hg.ordered hold hv) hw.kept hren)
  · intro i old w inputs hnode hreached hw hren
    exact hw.after hreached hnode hren

/-- **Merging leaves a graph without twins alone.** -/
theorem run_of_distinct {g : Graph} (hg : g.Frontend) (h : g.Distinct) :
    run g = .ok (g, false) := by
  -- No node finds a twin, so every node is kept where it is.
  have hkeep : ∀ (i : Nat) (node : Node) (seen : Seen), g.nodes[i]? = some node →
      Consed seen (g.nodes.take i) →
      (visit seen node (g.nodes.take i)).2 = .keep ∧
        Consed (visit seen node (g.nodes.take i)).1 (g.nodes.take (i + 1)) := by
    intro i node seen hnode hseen
    rw [List.take_add_one, hnode, Option.toList_some]
    unfold visit
    split
    · rename_i hpure
      simp only
      split
      · rename_i existing hget
        obtain ⟨twin, htwin, hkey⟩ := hseen.get hget
        rw [List.getElem?_take] at htwin
        split at htwin
        · rename_i hlt
          exact absurd (h i existing node twin hnode htwin hpure (keyOf_eq_iff.mp hkey))
            (Nat.ne_of_gt hlt)
        · cases htwin
      · refine ⟨rfl, ?_⟩
        intro entry hentry
        rcases List.mem_cons.mp hentry with rfl | hold
        · exact ⟨node, List.getElem?_concat_length, rfl⟩
        · exact hseen.grow _ entry hold
    · exact ⟨rfl, hseen.grow _⟩
  have hrewrite : ∃ seen, g.rewrite (fun seen _ node emitted => pure (visit seen node emitted)) [] =
      .ok (g, seen, false) := by
    apply rewrite_of_keep (P := fun i seen => Consed seen (g.nodes.take i)) hg.ordered hg.outputs
    · intro entry hentry
      cases hentry
    · intro i node seen hnode hseen
      obtain ⟨haction, hconsed⟩ := hkeep i node seen hnode hseen
      refine ⟨_, ?_, hconsed⟩
      rw [← haction]
      rfl
  obtain ⟨seen, hrun⟩ := hrewrite
  unfold run
  rw [hrun]
  rfl

end Cse
end CircomMpc
