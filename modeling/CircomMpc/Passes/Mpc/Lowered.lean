import CircomMpc.Passes.Mpc.Split

/-!
# Lowered graphs

What the lowering leaves for code generation. Products of two shared values are gone; the local
products stand in for them, and each is one slot of one round and read by nothing else. A round is
directly followed by its results in slot order, so the two move as one block.

`slots` and `roundIds` are the graph's own lists, in the order of its nodes. That every local product
is a slot exactly once is one statement about them, that they are permutations of each other.
-/

namespace CircomMpc

open Lib

/-- The slots of a node, if it is a round. -/
def Node.slots (node : Node) : List ValueId :=
  match node.op with
  | .round _ => node.inputs
  | _ => []

namespace Graph

/-- Every slot of every round, in graph order. -/
def slots (nodes : List Node) : List ValueId := nodes.flatMap Node.slots

/-- Every local product. -/
def localProducts (nodes : List Node) : List ValueId :=
  (List.range nodes.length).filter fun q => nodes[q]?.any fun node => node.op == .mulLocal

/-- `round_slots`: how many products each round reshares. -/
def roundSlots (g : Graph) : List Nat :=
  (g.nodes.filter fun node => node.roundId?.isSome).map fun node => node.inputs.length

/-- What every later stage relies on: a round directly in front of its results, additive sharings
    that nothing but a round reads, no product of two shares left, and every local product a slot of
    one round. -/
structure IsLowered (g : Graph) : Prop where
  indexed : g.Indexed
  block : ∀ (q : Nat) (id : RoundId) (args : List ValueId), g.nodes[q]? = some ⟨.round id, args⟩ →
    ∀ k < args.length, g.nodes[q + 1 + k]? = some ⟨.roundResult k, [q]⟩
  result : ∀ (q k : Nat) (args : List ValueId), g.nodes[q]? = some ⟨.roundResult k, args⟩ →
    ∃ (r : Nat) (id : RoundId) (slots : List ValueId), q = r + 1 + k ∧ k < slots.length ∧
      g.nodes[r]? = some ⟨.round id, slots⟩
  unread : ∀ node ∈ g.nodes, node.op.isPlain = true → ∀ v ∈ node.inputs, ∀ source,
    g.nodes[v]? = some source → source.op.isRaw = false
  products : ∀ node ∈ g.nodes, node.op = .mul → ∃ v ∈ node.inputs, (g.facts v).domain ≠ .shared
  shares : ∀ node ∈ g.nodes, node.op = .mulLocal → ∀ v ∈ node.inputs, (g.facts v).domain = .shared
  slots : (slots g.nodes).Perm (localProducts g.nodes)
  ids : (roundIds g.nodes).Perm (List.range g.numRounds)
  outputs : ∀ o ∈ g.outputs, ∃ source, g.nodes[o.2]? = some source ∧ source.op.isRaw = false

section Products

variable {nodes : List Node}

theorem mem_localProducts {q : Nat} :
    q ∈ localProducts nodes ↔ ∃ args, nodes[q]? = some ⟨.mulLocal, args⟩ := by
  rw [localProducts, List.mem_filter, List.mem_range]
  constructor
  · rintro ⟨hq, hany⟩
    have hnode : nodes[q]? = some nodes[q] := List.getElem?_eq_getElem hq
    rw [hnode] at hany
    have hop : nodes[q].op = .mulLocal := eq_of_beq hany
    refine ⟨nodes[q].inputs, ?_⟩
    rw [hnode, ← hop]
  · rintro ⟨args, hnode⟩
    refine ⟨(List.getElem?_eq_some_iff.mp hnode).1, ?_⟩
    rw [hnode]
    rfl

theorem localProducts_nodup (nodes : List Node) : (localProducts nodes).Nodup :=
  List.Nodup.filter _ List.nodup_range

theorem mem_slots {v : ValueId} :
    v ∈ slots nodes ↔ ∃ id args, (⟨.round id, args⟩ : Node) ∈ nodes ∧ v ∈ args := by
  rw [slots, List.mem_flatMap]
  constructor
  · rintro ⟨⟨op, args⟩, hmem, hv⟩
    cases op
    case round id => exact ⟨id, args, hmem, hv⟩
    all_goals cases hv
  · rintro ⟨id, args, hmem, hv⟩
    exact ⟨_, hmem, hv⟩

/-- Where the slots are the renamed local products of a graph, and every new local product comes
    from an old one, they are the new local products. -/
theorem slots_perm_of_renamed {old : List Node} {remap : List (Option ValueId)} {ms : List ValueId}
    (hren : Renamed remap ms (slots nodes)) (hms : ms.Perm (localProducts old))
    (hinjective : ∀ i j t : Nat, remap[i]? = some (some t) → remap[j]? = some (some t) → i = j)
    (htarget : ∀ (i t : Nat) (args : List ValueId), old[i]? = some ⟨.mulLocal, args⟩ →
      remap[i]? = some (some t) → ∃ args' : List ValueId, nodes[t]? = some ⟨.mulLocal, args'⟩)
    (hsource : ∀ (q : Nat) (args : List ValueId), nodes[q]? = some ⟨.mulLocal, args⟩ →
      ∃ (i : Nat) (args' : List ValueId), remap[i]? = some (some q) ∧
        old[i]? = some ⟨.mulLocal, args'⟩) :
    (slots nodes).Perm (localProducts nodes) := by
  -- Renaming is injective, so slots that differed still differ.
  have hnodup : ∀ ms vs : List ValueId, Renamed remap ms vs → ms.Nodup → vs.Nodup := by
    intro ms vs hren hnodup
    induction hren with
    | nil => exact List.nodup_nil
    | @cons m v ms vs hmv hrest ih =>
      obtain ⟨hnot, hnodup⟩ := List.nodup_cons.mp hnodup
      refine List.nodup_cons.mpr ⟨?_, ih hnodup⟩
      intro hv
      obtain ⟨m', hm', hmv'⟩ := Renamed.source hrest hv
      rw [hinjective m m' v hmv hmv'] at hnot
      exact hnot hm'
  apply (List.perm_ext_iff_of_nodup ?_ (localProducts_nodup _)).mpr
  · intro v
    rw [mem_localProducts]
    constructor
    · intro hv
      obtain ⟨m, hm, hmv⟩ := hren.source hv
      obtain ⟨args, hlocal⟩ := mem_localProducts.mp (hms.mem_iff.mp hm)
      exact htarget m v args hlocal hmv
    · rintro ⟨args, hget⟩
      obtain ⟨i, args', hiv, hold⟩ := hsource v args hget
      obtain ⟨u, hu, hiu⟩ := hren.target (hms.mem_iff.mpr (mem_localProducts.mpr ⟨args', hold⟩))
      rw [hiv] at hiu
      cases hiu
      exact hu
  · exact hnodup _ _ hren (hms.nodup_iff.mpr (localProducts_nodup _))

/-- The slot counts add up. -/
theorem sum_roundSlots (g : Graph) : g.roundSlots.sum = (slots g.nodes).length := by
  rw [roundSlots, slots, List.length_flatMap]
  induction g.nodes with
  | nil => rfl
  | cons node nodes ih =>
    obtain ⟨op, args⟩ := node
    cases op <;> simp_all [Node.roundId?, Node.slots]

/-- There are as many rounds as ids. -/
theorem length_roundSlots (g : Graph) : g.roundSlots.length = (roundIds g.nodes).length := by
  rw [roundSlots, List.length_map, roundIds, List.length_filterMap_eq_countP,
    List.countP_eq_length_filter]

end Products

end Graph
end CircomMpc
