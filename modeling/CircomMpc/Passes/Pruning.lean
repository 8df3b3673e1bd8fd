import CircomMpc.Passes.NormalForm

/-!
# One walk removes everything dead

A collection renames nodes without telling two together or changing an operation, so it keeps a
graph folded and free of twins, and what it leaves is all live: a path to a root is a path of
nodes that survive.

The roots are the graph's outputs and its gadget nodes. Pruning may take an output away, so it goes
first, and the collection behind it works with the roots that are left.
-/

namespace CircomMpc

open Lib CircomMpc.Graph

namespace DeadCode

/-! ## Pruning -/

/-- A signal is in the mask only because the projection names it. -/
theorem mem_of_witnessMask {g : Graph} {signal : Nat}
    (h : (witnessMask g).getD signal false = true) : signal ∈ g.signalToWitness := by
  -- An entry the loop leaves set was set at the start, or by the projection.
  have hmask : ∀ (idxs : List Nat) (mask : List Bool),
      (idxs.foldl (fun mask idx => mask.set idx true) mask)[signal]? = some true →
        signal ∈ idxs ∨ mask[signal]? = some true := by
    intro idxs
    induction idxs with
    | nil =>
      intro mask hget
      exact .inr hget
    | cons idx idxs ih =>
      intro mask hget
      rcases ih (mask.set idx true) hget with hmem | hset
      · exact .inl (List.mem_cons_of_mem _ hmem)
      · by_cases hidx : idx = signal
        · exact .inl (by simp [hidx])
        · rw [List.getElem?_set_ne hidx] at hset
          exact .inr hset
  have hget : (witnessMask g)[signal]? = some true := by
    rw [List.getD_eq_getElem?_getD] at h
    cases hcase : (witnessMask g)[signal]? with
    | none => rw [hcase] at h; cases h
    | some b => rw [hcase] at h; exact congrArg some h
  rcases hmask g.signalToWitness _ hget with hmem | hstart
  · exact hmem
  · exact absurd (List.eq_of_mem_replicate (List.mem_of_getElem? hstart)) (by decide)

theorem prune_nodes (g : Graph) : (prune g).1.nodes = g.nodes := by
  unfold prune
  split <;> rfl

theorem prune_masked (g : Graph) : (prune g).1.Masked := by
  unfold prune
  split
  · rename_i hempty
    intro hne
    exact absurd (List.isEmpty_iff.mp hempty) hne
  · intro _ o ho
    exact mem_of_witnessMask (List.mem_filter.mp ho).2

/-- Where every output is addressed there is nothing to prune. -/
theorem prune_of_masked {g : Graph} (hg : g.Frontend) (h : g.Masked) : prune g = (g, false) := by
  unfold prune
  split
  · rfl
  · rename_i hnonempty
    have hne : g.signalToWitness ≠ [] := by
      intro hnil
      exact hnonempty (List.isEmpty_iff.mpr hnil)
    have hall : g.outputs.filter (fun o => (witnessMask g).getD (o.1 + 1) false) = g.outputs := by
      apply List.filter_eq_self.mpr
      intro o ho
      exact witnessMask_getD (h hne o ho) (hg.signals o ho)
    show ({ g with outputs := g.outputs.filter _ }, _) = _
    rw [hall]
    simp

/-! ## Collecting -/

section Collect

variable {g : Graph} {r : Graph × List (Option ValueId)}

/-- A live node is live wherever it went. -/
theorem live_of_collected (hr : Collected g r) (hs : Surviving g r.2) {v : ValueId}
    (h : Live g v) : ∀ t : Nat, r.2[v]? = some (some t) → Live r.1 t := by
  induction h with
  | @root v hroot =>
    intro t ht
    apply Live.root
    rcases mem_roots.mp hroot with ⟨o, ho, rfl⟩ | ⟨node, hnode, hcall⟩
    · obtain ⟨o', ho', _, hren⟩ := rebound_target hr.outputs ho
      rw [ht] at hren
      cases hren
      exact mem_roots.mpr (.inl ⟨o', ho', rfl⟩)
    · obtain ⟨old, inputs, hold, hnew, _⟩ := hr.entry v t ht
      rw [hnode] at hold
      cases hold
      refine mem_roots.mpr (.inr ⟨_, hnew, ?_⟩)
      obtain ⟨op, args⟩ := node
      cases op <;> first | rfl | cases hcall
  -- An operand survives as an operand of what its reader became.
  | @input j v node hj hnode hv ih =>
    intro t ht
    obtain ⟨u, hu⟩ := hs.kept j hj
    obtain ⟨old, inputs, hold, hnew, hren⟩ := hr.entry j u hu
    rw [hnode] at hold
    cases hold
    obtain ⟨w, hw, hvw⟩ := hren.target hv
    rw [ht] at hvw
    cases hvw
    exact .input (ih u hu) hnew hw

/-- **Everything a collection leaves is live.** -/
theorem gc_allLive (hr : Collected g r) (hs : Surviving g r.2) : r.1.AllLive := by
  intro t ht
  obtain ⟨j, hj⟩ := hr.source t ht
  exact live_of_collected hr hs (hs.live j t hj) t hj

/-- A node of the collected graph, and the old one it was. -/
theorem gc_source (hr : Collected g r) {t : Nat} {node : Node} (hnode : r.1.nodes[t]? = some node) :
    ∃ (j : Nat) (old : Node), r.2[j]? = some (some t) ∧ g.nodes[j]? = some old ∧
      node.op = old.op ∧ Renamed r.2 old.inputs node.inputs := by
  obtain ⟨j, hj⟩ := hr.source t (List.getElem?_eq_some_iff.mp hnode).1
  obtain ⟨old, inputs, hold, hnew, hren⟩ := hr.entry j t hj
  rw [hnode] at hnew
  cases hnew
  exact ⟨j, old, hj, hold, rfl, hren⟩

theorem gc_folded (hg : g.Frontend) (hr : Collected g r) (h : g.Folded) : r.1.Folded := by
  intro node hmem hfoldable
  obtain ⟨t, ht, hget⟩ := List.getElem_of_mem hmem
  obtain ⟨j, old, _, hold, hop, hren⟩ := gc_source hr (hget ▸ List.getElem?_eq_getElem ht)
  have hmemOld : old ∈ g.nodes := List.mem_of_getElem? hold
  apply h old hmemOld
  refine hfoldable.transport hop
    (sameConstants_of_renamed (fun v hv => inputs_lt hg.ordered hmemOld hv) ?_ hren)
  intro j t node hjt hnode
  obtain ⟨origin, inputs, horigin, hnew, _⟩ := hr.entry j t hjt
  rw [hnode] at horigin
  cases horigin
  exact ⟨inputs, hnew⟩

/-- A collection sends no two nodes to one place. -/
theorem remap_injective (hs : Surviving g r.2) {v w t : Nat} (hv : r.2[v]? = some (some t))
    (hw : r.2[w]? = some (some t)) : v = w := by
  rcases Nat.lt_trichotomy v w with hlt | heq | hlt
  · exact absurd (hs.increasing v w t t hv hw hlt) (Nat.lt_irrefl t)
  · exact heq
  · exact absurd (hs.increasing w v t t hw hv hlt) (Nat.lt_irrefl t)

/-- References renamed to the same list were the same. -/
theorem renamed_injective (hs : Surviving g r.2) {xs ys zs : List ValueId}
    (hx : Renamed r.2 xs zs) (hy : Renamed r.2 ys zs) : xs = ys := by
  induction hx generalizing ys with
  | nil => cases hy; rfl
  | @cons v t xs zs hvt _ ih =>
    cases hy with
    | @cons w _ ys _ hwt hy => rw [remap_injective hs hvt hwt, ih hy]

/-- References renamed to the same list up to the order were the same up to the order. -/
theorem renamed_perm (hs : Surviving g r.2) {xs ys xs' ys' : List ValueId}
    (hx : Renamed r.2 xs xs') (hy : Renamed r.2 ys ys') (h : xs'.Perm ys') : xs.Perm ys := by
  obtain ⟨zs, hz, hperm⟩ := List.perm_comp_forall₂ h hy.flip
  have hxz : xs = zs := renamed_injective hs hx hz.flip
  rw [hxz]
  exact hperm

theorem gc_distinct (hr : Collected g r) (hs : Surviving g r.2) (h : g.Distinct) :
    r.1.Distinct := by
  intro i j a b ha hb hpure htwin
  obtain ⟨k, a', hk, ha', hopA, hrenA⟩ := gc_source hr ha
  obtain ⟨l, b', hl, hb', hopB, hrenB⟩ := gc_source hr hb
  -- Twins after the collection were twins before it, as renaming is injective.
  have htwin' : Twin a' b' := by
    refine ⟨?_, ?_⟩
    · rw [← hopA, ← hopB, htwin.1]
    · rcases htwin.2 with hsame | ⟨hop, hperm⟩
      · exact .inl (renamed_injective hs hrenA (hsame ▸ hrenB))
      · exact .inr ⟨hopA ▸ hop, renamed_perm hs hrenA hrenB hperm⟩
  have hkl : k = l := h k l a' b' ha' hb' (hopA ▸ hpure) htwin'
  subst hkl
  rw [hk] at hl
  cases hl
  rfl

end Collect

/-! ## The pass -/

/-- **One walk removes everything dead**, and unfolds and duplicates nothing. -/
theorem run_prunes {g : Graph} (hg : g.Frontend) :
    Returns (fun r => r.1.Masked ∧ r.1.AllLive ∧ (g.Folded → r.1.Folded) ∧
      (g.Distinct → r.1.Distinct)) (run g) := by
  have hpruned := (prune_refines hg).frontend
  unfold run
  show Returns _ ((prune g).1.gc >>= fun r => pure (r.1, (prune g).2 || r.1.len != (prune g).1.len))
  apply Meets.bind (gc_collects hpruned.ordered hpruned.outputs)
  rintro r ⟨hr, hs⟩
  -- The collection drops no output, so the mask still covers them all.
  have hsignals : r.1.signalToWitness = (prune g).1.signalToWitness := by rw [hr.graph]
  refine ⟨(prune_masked g).of_signals hsignals hr.outputs.signals, gc_allLive hr hs, ?_, ?_⟩
  · intro hfolded
    apply gc_folded hpruned hr
    show ∀ node ∈ (prune g).1.nodes, ¬ Foldable (prune g).1.nodes node
    rw [prune_nodes]
    exact hfolded
  · intro hdistinct
    apply gc_distinct hr hs
    intro i j a b ha hb
    rw [prune_nodes] at ha hb
    exact hdistinct i j a b ha hb

/-- **A graph with nothing dead is left alone.** -/
theorem run_of_live {g : Graph} (hg : g.Frontend) (hmasked : g.Masked) (hlive : g.AllLive) :
    run g = .ok (g, false) := by
  obtain ⟨remap, hgc⟩ := gc_of_live hg.ordered hg.outputs hlive
  unfold run
  rw [prune_of_masked hg hmasked]
  show (g.gc >>= fun r => pure (r.1, false || r.1.len != g.len)) = _
  rw [hgc, ok_bind]
  simp [pure, Except.pure]

end DeadCode
end CircomMpc
