import CircomMpc.Ir.Collect

/-!
# When nothing changes

A rewriting loop that reports no change has kept every node where it was, and so has a collection
that finds every node live: the graph that comes back is the one that went in. Conversely a callback
that keeps every node of a graph, shown the nodes in front of it, makes `rewrite` report no change.

Both need the same fact about renamings, that one in which every node has its own place renames
nothing (`InPlace.renamed`).
-/

namespace CircomMpc

open Lib

namespace Graph

/-! ## Renaming nothing -/

/-- The first `i` nodes stand where they stood. -/
def InPlace (i : Nat) (remap : List (Option ValueId)) : Prop :=
  ∀ j < i, remap[j]? = some (some j)

theorem InPlace.renamed {i : Nat} {remap : List (Option ValueId)} (h : InPlace i remap)
    {refs refs' : List ValueId} (hrefs : ∀ v ∈ refs, v < i) (hren : Renamed remap refs refs') :
    refs' = refs := by
  induction hren with
  | nil => rfl
  | @cons v u refs refs' hvu _ ih =>
    have hv := h v (hrefs v (by simp))
    rw [hvu] at hv
    cases hv
    rw [ih fun w hw => hrefs w (by simp [hw])]

theorem InPlace.rebound {i : Nat} {remap : List (Option ValueId)} (h : InPlace i remap)
    {outputs outputs' : List (SignalIdx × ValueId)} (hout : ∀ o ∈ outputs, o.2 < i)
    (hre : Rebound remap outputs outputs') : outputs' = outputs := by
  induction hre with
  | nil => rfl
  | @cons o o' outputs outputs' hoo _ ih =>
    obtain ⟨hsignal, hren⟩ := hoo
    have ho := h o.2 (hout o (by simp))
    rw [hren] at ho
    have hvalue : o'.2 = o.2 := Option.some.inj (Option.some.inj ho)
    rw [ih fun p hp => hout p (by simp [hp]), Prod.ext hsignal hvalue]

theorem InPlace.set {n i : Nat} {remap : List (Option ValueId)} (h : InPlace i remap)
    (hlen : remap.length = n) (hi : i < n) : InPlace (i + 1) (remap.set i (some i)) := by
  intro j hj
  rcases Nat.lt_succ_iff_lt_or_eq.mp hj with hlt | rfl
  · rw [List.getElem?_set_ne (Nat.ne_of_gt hlt)]
    exact h j hlt
  · exact List.getElem?_set_self (hlen ▸ hi)

/-! ## Rewriting nothing -/

section Rewrite

variable {σ : Type} {g : Graph} {f : Callback σ} {state : σ}

/-- As long as nothing was reported, nothing moved. -/
def Untouched (g : Graph) (i : Nat) (w : Rewriting σ) : Prop :=
  w.changed = false → w.nodes = g.nodes.take i ∧ InPlace i w.remap

theorem Untouched.after {i : Nat} {w : Rewriting σ} {node : Node} {inputs : List ValueId}
    {s : σ} {action : RewriteAction} (hord : Ordered g.nodes) (hnode : g.nodes[i]? = some node)
    (hreached : Reached g.nodes.length i w.remap) (hw : Untouched g i w)
    (hren : Renamed w.remap node.inputs inputs) :
    Untouched g (i + 1) (w.after i ⟨node.op, inputs⟩ s action) := by
  intro hchanged
  obtain ⟨hold, haction⟩ := Bool.or_eq_false_iff.mp hchanged
  obtain ⟨hnodes, hplace⟩ := hw hold
  have hi : i < g.nodes.length := (List.getElem?_eq_some_iff.mp hnode).1
  have hlen : w.nodes.length = i := by
    rw [hnodes, List.length_take]
    omega
  cases action with
  -- Every other action is a change, or a list of another length.
  | keep =>
    have hinputs : inputs = node.inputs := hplace.renamed (hord i node hnode) hren
    subst hinputs
    refine ⟨?_, ?_⟩
    · show w.nodes ++ [node] = g.nodes.take (i + 1)
      rw [hnodes, List.take_add_one, hnode, Option.toList_some]
    · show InPlace (i + 1) (w.remap.set i (some w.nodes.length))
      rw [hlen]
      exact hplace.set hreached.length hi
  | replaceWith | emit | emitMany => cases haction

/-- What no turn reports a change of is the graph itself. -/
theorem Untouched.graph {w : Rewriting σ} {r : Graph × σ × Bool}
    (hout : ∀ o ∈ g.outputs, o.2 < g.nodes.length) (hw : Untouched g g.nodes.length w)
    (hr : Rewritten g w r) (hreport : r.2.2 = (w.changed || w.nodes.length != g.nodes.length))
    (hchanged : r.2.2 = false) : r.1 = g := by
  rw [hreport, Bool.or_eq_false_iff] at hchanged
  obtain ⟨hnodes, hplace⟩ := hw hchanged.1
  have houtputs := hplace.rebound hout hr.outputs
  rw [hr.graph, houtputs, hnodes, List.take_length]

/-- **A rewriting that reports no change returns the graph it was given.** -/
theorem rewrite_unchanged {Inv : Nat → Rewriting σ → Prop} (hord : Ordered g.nodes)
    (hout : ∀ o ∈ g.outputs, o.2 < g.nodes.length)
    (hstart : Inv 0 (Rewriting.start g.nodes.length state))
    (hstep : ∀ (i : Nat) (node : Node) (w : Rewriting σ) (inputs : List ValueId),
      g.nodes[i]? = some node → Reached g.nodes.length i w.remap → Inv i w →
      Renamed w.remap node.inputs inputs →
      Returns (fun r => r.2.Proper ∧ Inv (i + 1) (w.after i ⟨node.op, inputs⟩ r.1 r.2))
        (f w.state i ⟨node.op, inputs⟩ w.nodes)) :
    Returns (fun r => (∃ w, Inv g.nodes.length w ∧ Rewritten g w r) ∧ (r.2.2 = false → r.1 = g))
      (g.rewrite f state) := by
  have hloop := @rewrite_reports σ g f state (fun i w => Inv i w ∧ Untouched g i w) hord hout
    ⟨hstart, fun _ => ⟨rfl, fun j hj => absurd hj (Nat.not_lt_zero j)⟩⟩
    (fun i node w inputs hnode hreached hinv hren =>
      (hstep i node w inputs hnode hreached hinv.1 hren).post fun r hr =>
        ⟨hr.1, hr.2, hinv.2.after hord hnode hreached hren⟩)
  apply hloop.post
  rintro r ⟨w, _, ⟨hinv, huntouched⟩, hrewritten, hreport⟩
  exact ⟨⟨w, hinv, hrewritten⟩, huntouched.graph hout hrewritten hreport⟩

/-- After `i` turns that all kept their node, with what the callback's state says. -/
def Unmoved (g : Graph) (P : Nat → σ → Prop) (i : Nat) (w : Rewriting σ) : Prop :=
  w.changed = false ∧ P i w.state ∧ w.nodes = g.nodes.take i ∧ InPlace i w.remap

/-- **A callback that keeps every node makes `rewrite` a no-op.** -/
theorem rewrite_of_keep {P : Nat → σ → Prop} (hord : Ordered g.nodes)
    (hout : ∀ o ∈ g.outputs, o.2 < g.nodes.length) (hstart : P 0 state)
    (hkeep : ∀ (i : Nat) (node : Node) (s : σ), g.nodes[i]? = some node → P i s →
      ∃ s', f s i node (g.nodes.take i) = .ok (s', .keep) ∧ P (i + 1) s') :
    ∃ s, g.rewrite f state = .ok (g, s, false) := by
  -- As long as nothing has changed, the callback is shown the graph's own nodes.
  have hstep : ∀ (i : Nat) (node : Node) (w : Rewriting σ) (inputs : List ValueId),
      g.nodes[i]? = some node → Reached g.nodes.length i w.remap → Unmoved g P i w →
      Renamed w.remap node.inputs inputs →
      Returns (fun r => r.2.Proper ∧ Unmoved g P (i + 1) (w.after i ⟨node.op, inputs⟩ r.1 r.2))
        (f w.state i ⟨node.op, inputs⟩ w.nodes) := by
    intro i node w inputs hnode hreached hinv hren
    obtain ⟨hchanged, hP, hnodes, hplace⟩ := hinv
    have hinputs : inputs = node.inputs := hplace.renamed (hord i node hnode) hren
    subst hinputs
    obtain ⟨s', hf, hP'⟩ := hkeep i node w.state hnode hP
    have huntouched : Untouched g (i + 1) (w.after i ⟨node.op, node.inputs⟩ s' .keep) :=
      Untouched.after hord hnode hreached (fun _ => ⟨hnodes, hplace⟩) hren
    have hafter : (w.after i ⟨node.op, node.inputs⟩ s' .keep).changed = false := by
      show (w.changed || false) = false
      rw [hchanged]
      rfl
    rw [hnodes, hf]
    exact ⟨RewriteAction.noConfusion, hafter, hP', huntouched hafter⟩
  have hloop := rewrite_reports hord hout
    ⟨rfl, hstart, rfl, fun j hj => absurd hj (Nat.not_lt_zero j)⟩ hstep
  obtain ⟨⟨g', s, changed⟩, hrun, w, _, ⟨hchanged, _, hnodes, hplace⟩, hrewritten, hreport⟩ :=
    hloop.ok_of_never
  -- No turn reported a change, and the lists are of one length.
  have hfalse : changed = false := by
    refine hreport.trans ?_
    rw [hchanged, hnodes, List.take_length]
    simp
  have houtputs : g'.outputs = g.outputs := hplace.rebound hout hrewritten.outputs
  have hgraph : g' = g := by
    have h := hrewritten.graph
    rw [houtputs, hnodes, List.take_length] at h
    exact h
  exact ⟨s, by rw [hrun, hgraph, hfalse]⟩

end Rewrite

/-! ## Collecting nothing -/

/-- A renaming that keeps the order and skips no place moves nothing. -/
theorem Surviving.inPlace {g : Graph} {r : Graph × List (Option ValueId)}
    (hr : Collected g r) (hs : Surviving g r.2) (hlive : ∀ v < g.nodes.length, Live g v) :
    InPlace g.nodes.length r.2 := by
  intro j
  induction j using Nat.strong_induction_on with
  | _ j ih =>
    intro hj
    obtain ⟨t, ht⟩ := hs.kept j (hlive j hj)
    -- The earlier nodes fill the earlier places.
    have hge : j ≤ t := by
      by_contra hlt
      have hback := ih t (by omega) (by omega)
      exact absurd (hs.increasing t j t t hback ht (by omega)) (Nat.lt_irrefl t)
    rcases Nat.eq_or_lt_of_le hge with rfl | hlt
    · exact ht
    · -- The place `j` is taken, by a node that can stand neither in front of nor behind node `j`.
      obtain ⟨node, inputs, _, hnew, _⟩ := hr.entry j t ht
      have hlen : t < r.1.nodes.length := (List.getElem?_eq_some_iff.mp hnew).1
      obtain ⟨k, hk⟩ := hr.source j (by omega)
      rcases Nat.lt_trichotomy k j with hkj | rfl | hjk
      · have hback := ih k hkj (by omega)
        rw [hk] at hback
        cases hback
        exact absurd hkj (Nat.lt_irrefl _)
      · rw [ht] at hk
        cases hk
        exact absurd hlt (Nat.lt_irrefl t)
      · have := hs.increasing j k t j ht hk hjk
        omega

/-- **A collection that finds every node live is a no-op.** -/
theorem gc_of_live {g : Graph} (hord : Ordered g.nodes)
    (hout : ∀ o ∈ g.outputs, o.2 < g.nodes.length) (hlive : ∀ v < g.nodes.length, Live g v) :
    ∃ remap, g.gc = .ok (g, remap) := by
  obtain ⟨⟨g', remap⟩, hrun, hr, hs⟩ := (gc_collects hord hout).ok_of_never
  have hplace := hs.inPlace hr hlive
  have houtputs : g'.outputs = g.outputs := hplace.rebound hout hr.outputs
  have hnodes : g'.nodes = g.nodes := by
    apply List.ext_getElem?
    intro j
    rcases Nat.lt_or_ge j g.nodes.length with hj | hj
    · obtain ⟨node, inputs, hold, hnew, hren⟩ := hr.entry j j (hplace j hj)
      rw [hold, hnew, hplace.renamed (fun v hv => (hord j node hold v hv).trans hj) hren]
    · rw [List.getElem?_eq_none hj, List.getElem?_eq_none]
      by_contra hlt
      have hj' : j < g'.nodes.length := by omega
      obtain ⟨k, hk⟩ := hr.source j hj'
      obtain ⟨node, inputs, hold, _, _⟩ := hr.entry k j hk
      have hkn := (List.getElem?_eq_some_iff.mp hold).1
      have hback := hplace k hkn
      rw [hk] at hback
      have hkj : k = j := (Option.some.inj (Option.some.inj hback)).symm
      omega
  refine ⟨remap, ?_⟩
  have hgraph : g' = g := by
    have h := hr.graph
    rw [houtputs, hnodes] at h
    exact h
  rw [hrun, hgraph]

end Graph
end CircomMpc
