import CircomMpc.Frontend.Hierarchy
import CircomMpc.Ir.Semantics

/-!
# What inlining keeps of the flat graph

`Flat.Sound` is what the rest of the compiler asks of a frontend graph, of a graph still growing:
the sites' nodes stand in the order of the sites, every slot has one result, and nothing but results
reads a gadget. A node that holds a value goes on holding it while nodes and sites are added
(`Holds.mono`), whatever they are.

Inlining only ever appends, so the whole file is about one step: `Admits` lists the nodes a step may
push, `Sound.grow` is the one proof that they keep the graph sound, and everything later in the
frontend names one of the three constructors of `Admits` and goes on. The bindings are the exception:
they may repeat a signal, because a template may assign one twice, and `Sound` says nothing about it.
-/

namespace CircomMpc
namespace Frontend

open Lib CircomMpc.Graph

namespace Flat

/-- A node that may be read: it is there, and no gadget's. -/
def Plain (flat : Flat) (v : ValueId) : Prop :=
  ∃ node, flat.nodes[v]? = some node ∧ node.invokes = false

/-- A growing frontend graph: the clauses of `Graph.Frontend` and `Graph.Compilable`, of the nodes,
    bindings and sites there are so far. -/
structure Sound (flat : Flat) : Prop where
  ordered : Ordered flat.nodes
  frontend : ∀ node ∈ flat.nodes, node.op.isFrontend = true
  arity : ∀ node ∈ flat.nodes, ∀ arity ∈ node.op.fixedArity, node.inputs.length = arity
  results : ∀ node ∈ flat.nodes, ∀ slot, node.op = .gadgetResult slot →
    ∀ v ∈ node.inputs, ∃ site inputs, flat.nodes[v]? = some ⟨.gadget site, inputs⟩
  unread : ∀ node ∈ flat.nodes, node.op.isResult = false → ∀ v ∈ node.inputs, flat.Plain v
  sites : (invocations flat.nodes).map Prod.fst = List.range flat.gadgetSites.length
  calls : ∀ (site : GadgetId) (inputs : List ValueId), (⟨.gadget site, inputs⟩ : Node) ∈ flat.nodes →
    ∃ s, flat.gadgetSites[site]? = some s ∧ inputs.length = s.kind.arity
  slots : ∀ u v w slot : Nat, flat.nodes[u]? = some ⟨.gadgetResult slot, [w]⟩ →
    flat.nodes[v]? = some ⟨.gadgetResult slot, [w]⟩ → u = v
  host : ∀ s ∈ flat.gadgetSites, s.precomputed = true → ∃ t, s.kind = .poseidon2 t
  outputs : ∀ o ∈ flat.outputs, o.2 < flat.nodes.length

/-- A node that may be pushed, with the site it brings if it is a gadget's. A gadget's node names
    the site that comes with it, which is the next one; a result is the first of its slot. -/
inductive Admits (flat : Flat) : Node → List GadgetSite → Prop where
  | pure {op : Op} {inputs : List ValueId} (hpure : op.isPure = true)
      (harity : ∀ arity ∈ op.fixedArity, inputs.length = arity) (hplain : ∀ v ∈ inputs, flat.Plain v) :
      Admits flat (⟨op, inputs⟩ : Node) []
  | gadget {site : GadgetSite} {inputs : List ValueId} (hcount : inputs.length = site.kind.arity)
      (hhost : site.precomputed = true → ∃ t, site.kind = .poseidon2 t)
      (hplain : ∀ v ∈ inputs, flat.Plain v) :
      Admits flat ⟨.gadget flat.gadgetSites.length, inputs⟩ [site]
  | result {slot w : Nat} {site : GadgetId} {inputs : List ValueId}
      (hgadget : flat.nodes[w]? = some ⟨.gadget site, inputs⟩)
      (hfresh : ∀ u : Nat, flat.nodes[u]? ≠ some ⟨.gadgetResult slot, [w]⟩) :
      Admits flat ⟨.gadgetResult slot, [w]⟩ []

theorem sound_nil : (⟨[], [], []⟩ : Flat).Sound where
  ordered := ordered_nil
  frontend _ hmem := nomatch hmem
  arity _ hmem := nomatch hmem
  results _ hmem := nomatch hmem
  unread _ hmem := nomatch hmem
  sites := rfl
  calls _ _ hmem := nomatch hmem
  slots _ _ _ _ hget := nomatch hget
  host _ hmem := nomatch hmem
  outputs _ hmem := nomatch hmem

/-- With more nodes and more sites. What a flat graph says of a node in front is the same then. -/
structure Extends (flat flat' : Flat) : Prop where
  nodes : flat.nodes <+: flat'.nodes
  gadgetSites : flat.gadgetSites <+: flat'.gadgetSites

variable {flat flat' flat'' : Flat} {v : ValueId}

theorem Extends.refl (flat : Flat) : Extends flat flat := ⟨List.prefix_refl _, List.prefix_refl _⟩

theorem Extends.trans (h : Extends flat flat') (h' : Extends flat' flat'') : Extends flat flat'' :=
  ⟨h.nodes.trans h'.nodes, h.gadgetSites.trans h'.gadgetSites⟩

theorem getElem?_of_prefix {α : Type} {xs ys : List α} {x : α} {i : Nat} (h : xs <+: ys)
    (hx : xs[i]? = some x) : ys[i]? = some x := by
  obtain ⟨zs, rfl⟩ := h
  rw [List.getElem?_append_left (List.getElem?_eq_some_iff.mp hx).1]
  exact hx

theorem Plain.lt (h : flat.Plain v) : v < flat.nodes.length := by
  obtain ⟨node, hnode, _⟩ := h
  exact (List.getElem?_eq_some_iff.mp hnode).1

theorem Plain.mono (he : Extends flat flat') (h : flat.Plain v) : flat'.Plain v := by
  obtain ⟨node, hnode, hplain⟩ := h
  exact ⟨node, getElem?_of_prefix he.nodes hnode, hplain⟩

/-! ## Growing -/

theorem Admits.inputs_lt {node : Node} {new : List GadgetSite} (h : flat.Admits node new) :
    ∀ v ∈ node.inputs, v < flat.nodes.length := by
  cases h with
  | pure _ _ hplain => exact fun v hv => (hplain v hv).lt
  | gadget _ _ hplain => exact fun v hv => (hplain v hv).lt
  | result hgadget _ =>
    intro v hv
    cases List.mem_singleton.mp hv
    exact (List.getElem?_eq_some_iff.mp hgadget).1

/-- **What is admitted keeps the graph sound**, with any bindings of its nodes. -/
theorem Sound.grow {node : Node} {new : List GadgetSite} {bound : List (SignalIdx × ValueId)}
    (h : flat.Sound) (hadmits : flat.Admits node new) (hbound : ∀ o ∈ bound, o.2 ≤ flat.nodes.length) :
    (⟨flat.nodes ++ [node], flat.outputs ++ bound, flat.gadgetSites ++ new⟩ : Flat).Sound := by
  -- The new node is the last one, so a property of all nodes is one of the old nodes and one of it.
  have hext : Extends flat ⟨flat.nodes ++ [node], flat.outputs ++ bound, flat.gadgetSites ++ new⟩ :=
    ⟨List.prefix_append _ _, List.prefix_append _ _⟩
  have hmem : ∀ {P : Node → Prop}, (∀ c ∈ flat.nodes, P c) → P node →
      ∀ c ∈ flat.nodes ++ [node], P c := by
    intro P hold hnew c hc
    rcases List.mem_append.mp hc with hc | hc
    · exact hold c hc
    · cases List.mem_singleton.mp hc
      exact hnew
  have hcases : ∀ {u : Nat} {c : Node}, (flat.nodes ++ [node])[u]? = some c →
      flat.nodes[u]? = some c ∨ u = flat.nodes.length ∧ c = node := by
    intro u c hu
    rcases Nat.lt_or_ge u flat.nodes.length with hlt | hge
    · rw [List.getElem?_append_left hlt] at hu
      exact .inl hu
    · rw [List.getElem?_append_right hge, List.getElem?_singleton] at hu
      split at hu
      · next heq =>
        cases hu
        exact .inr ⟨by omega, rfl⟩
      · cases hu
  refine ⟨h.ordered.push hadmits.inputs_lt, hmem h.frontend ?_, hmem h.arity ?_, ?_, ?_, ?_, ?_, ?_,
    ?_, ?_⟩
  · -- Only the three kinds a frontend graph has are pushed.
    cases hadmits with
    | @pure op _ hpure _ _ => cases op <;> first | rfl | cases hpure
    | gadget | result => rfl
  · cases hadmits with
    | pure _ harity _ => exact harity
    | gadget =>
      intro arity hmem
      cases hmem
    | result =>
      intro arity hmem
      cases hmem
      rfl
  · -- A result reads a gadget that was there, and stays there.
    refine hmem (fun c hc slot hop u hu => ?_) (fun slot hop u hu => ?_)
    · obtain ⟨site, inputs, hget⟩ := h.results c hc slot hop u hu
      exact ⟨site, inputs, getElem?_of_prefix hext.nodes hget⟩
    · cases hadmits with
      | @pure op _ hpure _ _ =>
        cases hop
        cases hpure
      | gadget => cases hop
      | result hgadget _ =>
        cases List.mem_singleton.mp hu
        exact ⟨_, _, getElem?_of_prefix hext.nodes hgadget⟩
  · refine hmem (fun c hc hop u hu => (h.unread c hc hop u hu).mono hext) (fun hop u hu => ?_)
    cases hadmits with
    | pure _ _ hplain => exact (hplain u hu).mono hext
    | gadget _ _ hplain => exact (hplain u hu).mono hext
    | result => cases hop
  · -- A gadget's node brings the next site, the others bring none: the order of the sites
    -- is the order of their nodes.
    have hsplit : invocations (flat.nodes ++ [node]) =
        invocations flat.nodes ++ (node.call?).toList := by
      unfold invocations
      rw [List.filterMap_append]
      cases hcall : node.call? <;> simp [hcall]
    rw [hsplit, List.map_append, h.sites]
    cases hadmits with
    | @pure op inputs hpure _ _ =>
      have hnone : Node.call? ⟨op, inputs⟩ = none := by cases op <;> first | rfl | cases hpure
      rw [hnone]
      simp
    | gadget => simp [Node.call?, List.range_succ]
    | result => simp [Node.call?]
  · intro site inputs hcall
    rcases List.mem_append.mp hcall with hold | hnew
    · obtain ⟨s, hs, hlen⟩ := h.calls site inputs hold
      exact ⟨s, getElem?_of_prefix hext.gadgetSites hs, hlen⟩
    · cases hadmits with
      | pure hpure _ _ =>
        cases List.mem_singleton.mp hnew
        cases hpure
      | @gadget s _ hcount _ _ =>
        cases List.mem_singleton.mp hnew
        exact ⟨s, by simp, hcount⟩
      | result => cases List.mem_singleton.mp hnew
  · -- Two results of one slot: `Admits.result` says that the new one is the first.
    intro u u' w slot hu hu'
    have hfresh : ∀ u : Nat, flat.nodes[u]? = some ⟨.gadgetResult slot, [w]⟩ →
        node ≠ ⟨.gadgetResult slot, [w]⟩ := by
      rintro u hat rfl
      cases hadmits with
      | pure hpure _ _ => cases hpure
      | result _ hfresh => exact hfresh u hat
    rcases hcases hu with hu | ⟨rfl, heq⟩
    · rcases hcases hu' with hu' | ⟨_, heq'⟩
      · exact h.slots u u' w slot hu hu'
      · exact absurd heq'.symm (hfresh u hu)
    · rcases hcases hu' with hu' | ⟨rfl, _⟩
      · exact absurd heq.symm (hfresh u' hu')
      · rfl
  · intro s hs
    rcases List.mem_append.mp hs with hold | hnew
    · exact h.host s hold
    · cases hadmits with
      | pure => cases hnew
      | gadget _ hhost _ =>
        cases List.mem_singleton.mp hnew
        exact hhost
      | result => cases hnew
  · intro o ho
    rw [List.length_append]
    rcases List.mem_append.mp ho with ho | ho
    · exact Nat.lt_of_lt_of_le (h.outputs o ho) (Nat.le_add_right _ _)
    · exact Nat.lt_succ_of_le (hbound o ho)

/-- A binding of a node that is there. -/
theorem Sound.bind {signal : SignalIdx} (h : flat.Sound) (hv : v < flat.nodes.length) :
    (flat.bind signal v).Sound :=
  { h with
    outputs := by
      intro o ho
      rcases List.mem_append.mp ho with ho | ho
      · exact h.outputs o ho
      · cases List.mem_singleton.mp ho
        exact hv }

theorem Extends.bind (flat : Flat) (signal : SignalIdx) (v : ValueId) :
    Extends flat (flat.bind signal v) := ⟨List.prefix_refl _, List.prefix_refl _⟩

/-! ## What nodes hold -/

variable (host : Poseidon2.Host) (input : SignalIdx → Fr)

/-- Every site computes its kind's plain trace. -/
def interp (flat : Flat) : Interp where
  input := input
  trace site inputs slot :=
    match flat.gadgetSites[site]? with
    | some s => (s.kind.plainTrace host inputs).getD slot 0
    | none => 0

def eval (flat : Flat) (v : ValueId) : Fr :=
  value (evalRule (flat.interp host input)) flat.nodes v 0

/-- A node that may be read as a scalar, and has the value `x` under the host's traces. -/
structure Holds (flat : Flat) (v : ValueId) (x : Fr) : Prop where
  plain : flat.Plain v
  value : flat.eval host input v = x

variable {host : Poseidon2.Host} {input : SignalIdx → Fr}

/-- More nodes and more sites leave the values of the nodes alone. -/
theorem Sound.value_mono (h : flat.Sound) (he : Extends flat flat') (hv : v < flat.nodes.length) :
    Lib.value (evalRule (flat'.interp host input)) flat'.nodes v =
      Lib.value (evalRule (flat.interp host input)) flat.nodes v := by
  obtain ⟨ys, hys⟩ := he.nodes
  rw [← hys, value_append ys hv]
  apply value_unique h.ordered _ hv
  intro i c hc
  rw [value_eq h.ordered hc]
  -- Only a gadget reads anything besides its inputs: the table of sites, which has only grown.
  obtain ⟨op, inputs⟩ := c
  cases op with
  | gadget site =>
    obtain ⟨s, hs, _⟩ := h.calls site inputs (List.mem_of_getElem? hc)
    funext slot
    show Interp.trace _ site _ slot = Interp.trace _ site _ slot
    unfold interp
    simp only [hs, getElem?_of_prefix he.gadgetSites hs]
  | input | constant | add | sub | mul | gadgetResult | mulLocal | round | roundResult => rfl

theorem Sound.eval_mono (h : flat.Sound) (he : Extends flat flat') (hv : v < flat.nodes.length) :
    flat'.eval host input v = flat.eval host input v :=
  congrFun (h.value_mono he hv) 0

theorem Holds.mono {x : Fr} (hsound : flat.Sound) (he : Extends flat flat')
    (h : flat.Holds host input v x) : flat'.Holds host input v x :=
  ⟨h.plain.mono he, by rw [hsound.eval_mono he h.plain.lt, h.value]⟩

end Flat

end Frontend
end CircomMpc
