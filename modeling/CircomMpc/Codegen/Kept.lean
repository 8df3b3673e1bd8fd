import CircomMpc.Codegen.Setting
import CircomMpc.Passes.Mpc.BatchCount

/-!
# What the lowering keeps

Code generation asks more of a graph than the lowering does: nobody but a result reads a gadget node,
and no slot has two results. Every pass moves the nodes of sites as they are, so both survive it, and
what the frontend hands over is still there when the code generator starts.

Both are proved once for a renaming that keeps gadget nodes and their results (`of_moved`) and then
for each pass by showing that its renaming does.
-/

namespace CircomMpc

open Lib

namespace Graph

/-! ## What the lowering keeps -/

/-- Gadget nodes are read by gadget results only. -/
def SitesUnread (nodes : List Node) : Prop :=
  ∀ node ∈ nodes, node.op.isResult = false → ∀ v ∈ node.inputs, ∀ source, nodes[v]? = some source →
    source.invokes = false

/-- No slot of a site has two result nodes. -/
def SlotsApart (g : Graph) : Prop :=
  ∀ site slot u v, g.ResultAt site slot u → g.ResultAt site slot v → u = v

section Passes

variable {g g' : Graph} {remap : List (Option ValueId)}

theorem invokes_of_op {c c' : Node} (h : c'.op = c.op) : c'.invokes = c.invokes := by
  obtain ⟨op, inputs⟩ := c
  obtain ⟨_, inputs'⟩ := c'
  cases h
  cases op <;> rfl

/-- A pass that carries nodes that are no gadget's over as such keeps that. -/
theorem SitesUnread.of_moved (old : List Node) {new : List Node} (remap : List (Option ValueId))
    (h : SitesUnread old)
    (hplain : ∀ (q : Nat) (node : Node), new[q]? = some node → node.op.isResult = false →
      (∃ c ∈ old, c.op.isResult = false ∧ Renamed remap c.inputs node.inputs) ∨
        ∀ v ∈ node.inputs, ∀ source, new[v]? = some source → source.invokes = false)
    (hcarried : ∀ (i t : Nat) (source : Node), remap[i]? = some (some t) →
      new[t]? = some source → ∃ c, old[i]? = some c ∧ (c.invokes = false → source.invokes = false)) :
    SitesUnread new := by
  intro node hmem hop v hv source hsource
  obtain ⟨q, hq⟩ := List.mem_iff_getElem?.mp hmem
  rcases hplain q node hq hop with ⟨c, hc, hcop, hren⟩ | hnone
  · obtain ⟨w, hw, hwv⟩ := hren.source hv
    obtain ⟨c', hc', hkeeps⟩ := hcarried w v source hwv hsource
    exact hkeeps (h c hc hcop w hw c' hc')
  · exact hnone v hv source hsource

/-- A pass that moves gadget nodes and their results keeps that. -/
theorem SlotsApart.of_moved (remap : List (Option ValueId)) (h : g.SlotsApart) (hread : ResultsRead g.nodes)
    (hresult : ∀ (q slot : Nat) (args : List ValueId),
      g'.nodes[q]? = some ⟨.gadgetResult slot, args⟩ → ∃ (i : Nat) (refs : List ValueId),
        remap[i]? = some (some q) ∧ g.nodes[i]? = some ⟨.gadgetResult slot, refs⟩ ∧
          Renamed remap refs args)
    (hgadget : ∀ (i t : Nat) (site : GadgetId) (refs : List ValueId),
      g.nodes[i]? = some ⟨.gadget site, refs⟩ → remap[i]? = some (some t) →
        ∃ args : List ValueId, g'.nodes[t]? = some ⟨.gadget site, args⟩) : g'.SlotsApart := by
  -- A result of the new graph is one of the old graph, of the same site and slot.
  have hback : ∀ site slot q, g'.ResultAt site slot q →
      ∃ i : Nat, remap[i]? = some (some q) ∧ g.ResultAt site slot i := by
    rintro site slot q ⟨u, hq, inputs, hu⟩
    obtain ⟨i, refs, hiq, hi, hren⟩ := hresult q slot [u] hq
    obtain ⟨w, refs', hwu, hnil, rfl⟩ := List.forall₂_cons_right_iff.mp hren
    cases hnil
    obtain ⟨site', inputs', hw⟩ := hread _ (List.mem_of_getElem? hi) slot rfl w (by simp)
    obtain ⟨args, hget⟩ := hgadget w u site' inputs' hw hwu
    rw [hu] at hget
    cases hget
    exact ⟨i, hiq, w, hi, inputs', hw⟩
  intro site slot u v hu hv
  -- Two of them come from one node, which went to one place.
  obtain ⟨i, hiu, hi⟩ := hback site slot u hu
  obtain ⟨j, hjv, hj⟩ := hback site slot v hv
  cases h site slot i j hi hj
  rw [hiu] at hjv
  cases hjv
  rfl

theorem Splitted.sitesUnread (hg : g.Frontend) (h : Splitted g g' remap) : SitesUnread g'.nodes := by
  have hshape := h.built.shape hg h.bound
  refine SitesUnread.of_moved g.nodes remap hg.unread ?_ ?_
  · intro q node hget hop
    cases h.built.standing hget with
    | kept j c _ hc _ hsame hren =>
      exact .inl ⟨c, List.mem_of_getElem? hc, hsame ▸ hop, hren⟩
    | product j c id _ hc hproduct _ hren _ _ =>
      obtain ⟨a, b, rfl, _, _⟩ := sharedProduct_inputs hg hc hproduct
      exact .inl ⟨_, List.mem_of_getElem? hc, rfl, hren⟩
    | round s j c id args' _ _ hnew hlocal =>
      right
      intro v hv source hsource
      rw [hnew] at hv
      rw [List.mem_singleton.mp hv, hlocal] at hsource
      cases hsource
      rfl
    | result s j c args' _ _ _ _ hnew hlocal =>
      obtain ⟨⟨id, hround⟩, _⟩ := hshape.product s args' hlocal
      right
      intro v hv source hsource
      rw [hnew] at hv
      rw [List.mem_singleton.mp hv, hround] at hsource
      cases hsource
      rfl
  · intro i t source hit hget
    obtain ⟨c, hc⟩ : ∃ c, g.nodes[i]? = some c := ⟨_, List.getElem?_eq_getElem (h.bound i t hit)⟩
    refine ⟨c, hc, fun hnot => ?_⟩
    cases hproduct : g.sharedProduct c with
    | false =>
      obtain ⟨refs, hkept, _⟩ := h.built.kept i t c hit hc hproduct
      rw [hget] at hkept
      cases hkept
      rw [← hnot]
      exact invokes_of_op rfl
    | true =>
      obtain ⟨s, _, _, rfl, _, _, _, hresult⟩ := h.built.split i t c hit hc hproduct
      rw [hget] at hresult
      cases hresult
      rfl

theorem Scheduled.sitesUnread (hg : g.IsSplit) (h : Scheduled g g' remap)
    (hold : SitesUnread g.nodes) : SitesUnread g'.nodes := by
  have hlowered := h.isLowered hg
  refine SitesUnread.of_moved g.nodes remap hold ?_ ?_
  · intro q node hget hop
    obtain ⟨source, hsource, hbecomes⟩ := h.standing hget
    cases hbecomes with
    | node i c _ hc _ hsame hren => exact .inl ⟨c, List.mem_of_getElem? hc, hsame ▸ hop, hren⟩
    | round l id refs _ =>
      right
      intro v hv source hsource
      obtain ⟨args, hlocal⟩ := mem_localProducts.mp
        (hlowered.slots.mem_iff.mp (mem_slots.mpr ⟨id, refs, List.mem_of_getElem? hget, hv⟩))
      rw [hlocal] at hsource
      cases hsource
      rfl
    | result l k r =>
      right
      intro v hv read hread
      obtain ⟨r', id, slots, rfl, hk, hround⟩ := h.result hget
      rw [h.block hround hk] at hget
      cases hget
      rw [List.mem_singleton.mp hv, hround] at hread
      cases hread
      rfl
  · intro i t source hit hget
    obtain ⟨c, c', hc, hc', hkind⟩ := h.target hg hit
    rw [hget] at hc'
    cases hc'
    refine ⟨c, hc, fun hnot => ?_⟩
    rcases hkind with ⟨hop, _, _⟩ | ⟨_, k, hop⟩
    · rw [invokes_of_op hop, hnot]
    · obtain ⟨_, inputs⟩ := source
      cases hop
      rfl

theorem Widened.sitesUnread {us : List WideSchedule.NodeRange} (h : Widened g g' remap us)
    (hold : SitesUnread g.nodes) : SitesUnread g'.nodes := by
  refine SitesUnread.of_moved g.nodes remap hold ?_ ?_
  · intro q node hget hop
    obtain ⟨i, c, _, hc, hsame, hren⟩ := h.standing hget
    exact .inl ⟨c, List.mem_of_getElem? hc, hsame ▸ hop, hren⟩
  · intro i t source hit hget
    obtain ⟨j, c, hjt, hc, hop, _⟩ := h.standing hget
    cases h.injective hit hjt
    exact ⟨c, hc, fun hnot => (invokes_of_op hop).trans hnot⟩

theorem Splitted.slotsApart (hg : g.Frontend) (h : Splitted g g' remap) (hold : g.SlotsApart) :
    g'.SlotsApart := by
  apply SlotsApart.of_moved remap hold hg.results
  · intro q slot args hget
    cases h.built.standing hget with
    | kept j c hjq hc _ hop hren =>
      obtain ⟨op, refs⟩ := c
      cases hop
      exact ⟨j, refs, hjq, hc, hren⟩
    | product _ _ _ _ _ _ hop => cases hop
    | round _ _ _ _ _ _ _ hnew => cases hnew
    | result _ _ _ _ _ _ _ _ hnew => cases hnew
  · intro i t site refs hnode hit
    obtain ⟨args, hget, _⟩ := h.built.kept i t _ hit hnode rfl
    exact ⟨args, hget⟩

theorem Scheduled.slotsApart (hg : g.IsSplit) (h : Scheduled g g' remap)
    (hread : ResultsRead g.nodes) (hold : g.SlotsApart) : g'.SlotsApart := by
  apply SlotsApart.of_moved remap hold hread
  · intro q slot args hget
    obtain ⟨i, ⟨op, refs⟩, hiq, hc, hop, hren⟩ := h.plain hget rfl
    cases hop
    exact ⟨i, refs, hiq, hc, hren⟩
  · intro i t site refs hnode hit
    obtain ⟨c, ⟨op, args⟩, hc, hget, hkind⟩ := h.target hg hit
    rw [hnode] at hc
    cases hc
    rcases hkind with ⟨hop, _⟩ | ⟨hop, _⟩
    · cases hop
      exact ⟨args, hget⟩
    · cases hop

theorem Widened.slotsApart {us : List WideSchedule.NodeRange} (h : Widened g g' remap us)
    (hread : ResultsRead g.nodes) (hold : g.SlotsApart) : g'.SlotsApart := by
  apply SlotsApart.of_moved remap hold hread
  · intro q slot args hget
    obtain ⟨i, ⟨op, refs⟩, hiq, hc, hop, hren⟩ := h.standing hget
    cases hop
    exact ⟨i, refs, hiq, hc, hren⟩
  · intro i t site refs hnode hit
    obtain ⟨t', args, hit', hget, _⟩ := h.target hnode
    rw [hit] at hit'
    cases hit'
    exact ⟨args, hget⟩

end Passes

/-- What the frontend hands over, as far as code generation goes: no slot of a site is read by two
    nodes, sites have inputs as their kinds need them, and the host supplies hashes only. -/
structure Compilable (g : Graph) : Prop where
  frontend : g.Frontend
  slots : g.SlotsApart
  arity : ∀ (v : ValueId) (site : GadgetId) (inputs : List ValueId) (s : GadgetSite),
    g.nodes[v]? = some ⟨.gadget site, inputs⟩ → g.gadgetSites[site]? = some s →
      inputs.length = s.kind.arity
  host : ∀ s ∈ g.gadgetSites, s.precomputed = true → ∃ t, s.kind = .poseidon2 t

/-- A site's node is an invocation with its inputs' values. -/
theorem mem_calls {g : Graph} (I : Interp) {v : ValueId} {site : GadgetId} {inputs : List ValueId}
    (h : g.nodes[v]? = some ⟨.gadget site, inputs⟩) : (site, inputs.map (g.eval I)) ∈ g.calls I :=
  List.mem_map.mpr ⟨(site, inputs), List.mem_filterMap.mpr ⟨_, List.mem_of_getElem? h, rfl⟩, rfl⟩

/-- **The lowering leaves a graph that code generation takes.** -/
theorem Lowers.emittable {g h k g' : Graph} (hg : g.Compilable) (hl : Lowers g h k g') :
    g'.Emittable := by
  have hfront := hg.frontend
  have hsplit := hl.isSplit hfront
  have hlowered := hl.isLowered hfront
  have himplements := hl.implements hfront
  have hsites : g'.gadgetSites = g.gadgetSites := by rw [himplements.graph]
  obtain ⟨_, hs⟩ := hl.split
  obtain ⟨_, hr⟩ := hl.batched
  obtain ⟨_, _, hw⟩ := hl.widened
  have hhosted := hl.hosted hfront
  refine ⟨hlowered, ⟨hhosted.ordered, hhosted.arity, hhosted.results, ?_, hhosted.sites, ?_⟩, ?_, ?_⟩
  · exact hw.sitesUnread (hr.sitesUnread hsplit (hs.sitesUnread hfront))
  · have hread := hs.resultsRead hfront
    exact hw.slotsApart (hr.resultsRead hsplit hread)
      (hr.slotsApart hsplit hread (hs.slotsApart hfront hg.slots))
  · -- The lowering calls each site on as many values as the frontend did.
    intro v site inputs s hnode hsite
    have hmem := (himplements.calls default).mem_iff.mp (mem_calls default hnode)
    obtain ⟨⟨site', inputs'⟩, hinvoked, heq⟩ := List.mem_map.mp hmem
    obtain ⟨node, hnode', hcall⟩ := List.mem_filterMap.mp hinvoked
    obtain ⟨u, hu⟩ := List.mem_iff_getElem?.mp hnode'
    obtain ⟨op, refs⟩ := node
    cases op <;> cases hcall
    obtain ⟨rfl, hvalues⟩ := Prod.mk.inj heq
    have hlen := congrArg List.length hvalues
    rw [List.length_map, List.length_map] at hlen
    rw [← hlen]
    exact hg.arity u _ _ s hu (hsites ▸ hsite)
  · rw [hsites]
    exact hg.host

/-- Codegen is ready for what the lowering makes of such a graph. -/
theorem Compilable.emittable {g g' : Graph} (hg : g.Compilable)
    (h : PassManager.runLower g = .ok g') : g'.Emittable := by
  obtain ⟨_, _, hl⟩ := (runLower_returns hg.frontend).of_ok h
  exact hl.emittable hg

end Graph
end CircomMpc
