import CircomMpc.Passes.Mpc.RoundRun
import CircomMpc.Passes.Mpc.Lowered

/-!
# What the batching of rounds preserves

Every position of the new list has a source in the old one, and the sources of all levels together
are the plain nodes and the products of the old list in a different order. So the new list has the
sites, the products and the values of the old one; and because a product waits as long as every
other product of its round, it has its levels too.

`Scheduled.placed` is the argument for both. An analysis survives the batching when the result of a
merged round is the result the product's own round had, which is a matter of one slot for values and
of the round's maximum for levels.
-/

namespace CircomMpc

open Lib CircomMpc.Graph

/-! ## Sources, position by position -/

/-- The old products a source reshares. -/
def Source.slots (rounds : Nat → List (ValueId × ValueId)) : Source → List ValueId
  | .round level => (rounds level).map Prod.fst
  | _ => []

/-- The old node a source moves. -/
def Source.moved? : Source → Option ValueId
  | .node i => some i
  | _ => none

/-- What stands at a position that comes from `source`: the node with renamed inputs, a round over
    the renamed products of its level, or one of its results. -/
inductive Source.Becomes (old : List Node) (rounds : Nat → List (ValueId × ValueId))
    (remap : List (Option ValueId)) : Source → Node → Prop
  | node (i : ValueId) (c new : Node) (hc : old[i]? = some c) (hplain : c.op.isPlain = true)
      (hop : new.op = c.op) (hren : Renamed remap c.inputs new.inputs) :
      Becomes old rounds remap (.node i) new
  | round (l : Nat) (id : RoundId) (refs : List ValueId)
      (hren : Renamed remap ((rounds l).map Prod.fst) refs) :
      Becomes old rounds remap (.round l) ⟨.round id, refs⟩
  | result (l k : Nat) (q : ValueId) :
      Becomes old rounds remap (.result l k) ⟨.roundResult k, [q]⟩

namespace Arranged

variable {old : List Node} {rounds : Nat → List (ValueId × ValueId)} {p : Placing}
  {sources : List Source}

theorem becomes (h : Arranged old rounds p sources) :
    List.Forall₂ (Source.Becomes old rounds p.remap) sources p.nodes := by
  rw [List.forall₂_iff_get]
  refine ⟨h.length, ?_⟩
  intro q hq hq'
  rw [List.get_eq_getElem, List.get_eq_getElem]
  have hsource : sources[q]? = some sources[q] := List.getElem?_eq_getElem hq
  have hnode : p.nodes[q]? = some p.nodes[q] := List.getElem?_eq_getElem hq'
  generalize sources[q] = source at hsource
  generalize p.nodes[q] = node at hnode
  cases source with
  | node i =>
    obtain ⟨_, c, refs, hc, hplain, hget, hren⟩ := h.node q i hsource
    rw [hnode] at hget
    cases hget
    exact .node i c _ hc hplain rfl hren
  | round l =>
    obtain ⟨id, refs, hget, hren, _⟩ := h.round q l hsource
    rw [hnode] at hget
    cases hget
    exact .round l id refs hren
  | result l k =>
    obtain ⟨_, _, _, _, _, _, hget, _⟩ := h.result q l k hsource
    rw [hnode] at hget
    cases hget
    exact .result l k _

/-- The slots of the new list are the products of its sources. -/
theorem renamed_slots (h : Arranged old rounds p sources) :
    Renamed p.remap (sources.flatMap (Source.slots rounds)) (slots p.nodes) := by
  apply List.rel_flatMap h.becomes
  intro source node hbecomes
  cases hbecomes with
  | node i c new hc hplain hop hren =>
    have hnone : node.slots = [] := by
      obtain ⟨op, refs⟩ := node
      rw [← hop] at hplain
      cases op <;> first | rfl | cases hplain
    rw [hnone]
    exact .nil
  | round l id refs hren => exact hren
  | result l k q => exact .nil

/-- The sites of the new list are those of its sources. -/
theorem reinvoked (h : Arranged old rounds p sources) :
    Reinvoked p.remap ((sources.filterMap Source.moved?).filterMap fun i =>
      old[i]?.bind Node.call?) (invocations p.nodes) := by
  rw [List.filterMap_filterMap]
  apply List.rel_filterMap _ h.becomes
  intro source node hbecomes
  cases hbecomes with
  | node i c new hc hplain hop hren =>
    show Option.Rel _ (old[i]?.bind Node.call?) node.call?
    rw [hc]
    obtain ⟨op, inputs⟩ := c
    obtain ⟨_, refs⟩ := node
    cases hop
    cases op <;> first | exact .none | exact .some ⟨rfl, hren⟩
  | round l id refs hren => exact .none
  | result l k q => exact .none

end Arranged

/-! ## The sources of all levels -/

/-- Sorting into buckets and emptying them one after the other only reorders. -/
theorem flatMap_filter_perm {xs : List Nat} {p : Nat → Bool} {key : Nat → Nat} {levels : Nat}
    (hxs : xs.Nodup) (hkey : ∀ x ∈ xs, key x < levels) :
    ((List.range levels).flatMap fun l => xs.filter fun x => p x && key x == l).Perm
      (xs.filter p) := by
  apply (List.perm_ext_iff_of_nodup ?_ (hxs.filter p)).mpr
  · intro x
    simp only [List.mem_flatMap, List.mem_range, List.mem_filter, Bool.and_eq_true, beq_iff_eq]
    constructor
    · rintro ⟨l, _, hx, hp, _⟩
      exact ⟨hx, hp⟩
    · rintro ⟨hx, hp⟩
      exact ⟨key x, hkey x hx, hx, hp, rfl⟩
  · rw [List.nodup_flatMap]
    refine ⟨fun l _ => hxs.filter _, List.nodup_range.imp ?_⟩
    intro l l' hne x hx hx'
    simp only [List.mem_filter, Bool.and_eq_true, beq_iff_eq] at hx hx'
    exact hne (hx.2.2.symm.trans hx'.2.2)

namespace Graph

variable {g g' : Graph} {remap : List (Option ValueId)}

theorem levelSources_moved (g : Graph) (level : Nat) :
    (g.levelSources level).filterMap Source.moved? = g.levelNodes g.nodes.length level := by
  have hnodes : ∀ xs : List ValueId, (xs.map Source.node).filterMap Source.moved? = xs := by
    intro xs
    rw [List.filterMap_map]
    exact List.filterMap_some
  have hresults : ∀ xs : List Nat, (xs.map (Source.result level)).filterMap Source.moved? = [] := by
    intro xs
    rw [List.filterMap_map]
    exact List.filterMap_eq_nil_iff.mpr fun _ _ => rfl
  rw [levelSources, List.filterMap_append, hnodes]
  split
  · simp
  · rw [blockSources, List.filterMap_cons, hresults]
    simp [Source.moved?]

theorem levelSources_slots (g : Graph) (level : Nat) :
    (g.levelSources level).flatMap (Source.slots g.allRounds) =
      (g.allRounds level).map Prod.fst := by
  have hnodes : ∀ xs : List ValueId,
      (xs.map Source.node).flatMap (Source.slots g.allRounds) = [] := by
    intro xs
    rw [List.flatMap_map]
    exact List.flatMap_eq_nil_iff.mpr fun _ _ => rfl
  have hresults : ∀ xs : List Nat,
      (xs.map (Source.result level)).flatMap (Source.slots g.allRounds) = [] := by
    intro xs
    rw [List.flatMap_map]
    exact List.flatMap_eq_nil_iff.mpr fun _ _ => rfl
  rw [levelSources, List.flatMap_append, hnodes, List.nil_append]
  split
  · rename_i hempty
    have hnil : g.allRounds level = [] := List.isEmpty_iff.mp hempty
    rw [hnil]
    rfl
  · rw [blockSources, List.flatMap_cons, hresults, List.append_nil]
    rfl

/-- Every plain node is moved, once. -/
theorem sources_moved_perm (g : Graph) :
    ((g.sourcesBelow (g.maxDepth + 1)).filterMap Source.moved?).Perm
      ((List.range g.nodes.length).filter g.plainAt) := by
  have hlevels : (g.sourcesBelow (g.maxDepth + 1)).filterMap Source.moved? =
      (List.range (g.maxDepth + 1)).flatMap (g.levelNodes g.nodes.length) := by
    rw [sourcesBelow, List.filterMap_flatMap]
    exact List.flatMap_congr fun l _ => g.levelSources_moved l
  rw [hlevels]
  apply flatMap_filter_perm List.nodup_range
  intro i hi
  exact Nat.lt_succ_of_le (net_le_maxDepth (List.mem_range.mp hi))

/-- Every product is reshared, once. -/
theorem IsSplit.sources_slots_perm (hg : g.IsSplit) :
    ((g.sourcesBelow (g.maxDepth + 1)).flatMap (Source.slots g.allRounds)).Perm
      (localProducts g.nodes) := by
  have hlevels : (g.sourcesBelow (g.maxDepth + 1)).flatMap (Source.slots g.allRounds) =
      ((List.range (g.maxDepth + 1)).flatMap fun l => (List.range g.nodes.length).filter fun i =>
        g.roundAt i && (g.facts i).net == l).map (· - 1) := by
    rw [sourcesBelow, List.flatMap_assoc, List.map_flatMap]
    apply List.flatMap_congr
    intro l _
    rw [levelSources_slots, allRounds, levelRounds, List.map_map]
    rfl
  rw [hlevels]
  -- Below the maximal depth every round is in some bucket, and in one only.
  have hbuckets : ((List.range (g.maxDepth + 1)).flatMap fun l =>
      (List.range g.nodes.length).filter fun i => g.roundAt i && (g.facts i).net == l).Perm
      ((List.range g.nodes.length).filter g.roundAt) := by
    apply flatMap_filter_perm List.nodup_range
    intro i hi
    exact Nat.lt_succ_of_le (net_le_maxDepth (List.mem_range.mp hi))
  apply (hbuckets.map _).trans
  -- A round of a split graph stands right behind its product.
  have hround : ∀ i ∈ (List.range g.nodes.length).filter g.roundAt, ∃ s args, i = s + 1 ∧
      g.nodes[s]? = some ⟨.mulLocal, args⟩ := by
    intro i hi
    obtain ⟨hmem, hround⟩ := List.mem_filter.mp hi
    have hlt : i < g.nodes.length := List.mem_range.mp hmem
    have hnode : g.nodes[i]? = some g.nodes[i] := List.getElem?_eq_getElem hlt
    rw [roundAt_of hnode] at hround
    generalize g.nodes[i] = node at hnode hround
    obtain ⟨op, args⟩ := node
    cases op
    case round id => exact hg.split.round i id args hnode
    all_goals cases hround
  apply (List.perm_ext_iff_of_nodup ?_ (localProducts_nodup g.nodes)).mpr
  · intro s
    rw [mem_localProducts, List.mem_map]
    constructor
    · rintro ⟨i, hi, rfl⟩
      obtain ⟨s, args, rfl, hlocal⟩ := hround i hi
      exact ⟨args, hlocal⟩
    · rintro ⟨args, hlocal⟩
      obtain ⟨⟨id, hnode⟩, _⟩ := hg.split.product s args hlocal
      refine ⟨s + 1, List.mem_filter.mpr ⟨?_, ?_⟩, rfl⟩
      · exact List.mem_range.mpr (List.getElem?_eq_some_iff.mp hnode).1
      · rw [roundAt_of hnode]
        rfl
  · apply List.Nodup.map_on _ (List.nodup_range.filter _)
    intro i hi j hj hij
    obtain ⟨s, _, rfl, _⟩ := hround i hi
    obtain ⟨t, _, rfl, _⟩ := hround j hj
    exact congrArg (· + 1) hij

/-! ## Values and levels -/

/-- Moving the nodes and merging the rounds keeps the placement of any analysis for which a merged
    round's result is the result of the product's own round. -/
theorem Scheduled.placed {α : Type} [Inhabited α] {rule : Op → List α → α} (hg : g.IsSplit)
    (h : Scheduled g g' remap)
    (hrule : ∀ (l k m i : Nat) (id : RoundId), (g.allRounds l)[k]? = some (m, i) →
      rule (.roundResult k) [rule (.round id) ((g.allRounds l).map fun e =>
        value rule g.nodes e.1)] = value rule g.nodes i) :
    Placed rule g.nodes remap g'.nodes := by
  have hord : Ordered g'.nodes := h.arranged.ordered
  apply Placed.of_facts hord
  intro i t hit hfacts
  refine ⟨h.arranged.target_lt hit, ?_⟩
  rcases h.arranged.source i t hit with hsource | ⟨l, k, m, hsource, hentry⟩
  · obtain ⟨_, c, refs, hc, _, hget, hren⟩ := h.arranged.node t i hsource
    rw [value_eq hord hget, value_eq hg.indexed.ordered hc]
    rw [hren.map_eq fun v u hu hvu => hfacts v u (hord t _ hget u hu) hvu]
  · obtain ⟨q, m', i', htq, hround, _, hget, _⟩ := h.arranged.result t l k hsource
    obtain ⟨id, refs, hgetRound, hren, _⟩ := h.arranged.round q l hround
    -- The merged round reads the products of its level, with their old values.
    have hvalues : refs.map (value rule g'.nodes) =
        ((g.allRounds l).map Prod.fst).map (value rule g.nodes) := by
      apply hren.map_eq
      intro v u hu hvu
      have huq : u < q := hord q _ hgetRound u hu
      exact hfacts v u (by omega) hvu
    have hmerged : value rule g'.nodes q = rule (.round id)
        ((g.allRounds l).map fun e => value rule g.nodes e.1) := by
      rw [value_eq hord hgetRound, hvalues, List.map_map]
      rfl
    rw [value_eq hord hget, ← hrule l k m i id hentry, ← hmerged]
    rfl

/-- The product a merged round's result stands for. -/
theorem IsSplit.entry_value {α : Type} [Inhabited α] {rule : Op → List α → α} (hg : g.IsSplit)
    {l k m i : Nat} (hentry : (g.allRounds l)[k]? = some (m, i)) :
    ∃ id, value rule g.nodes i = rule (.roundResult 0) [rule (.round id) [value rule g.nodes m]] := by
  obtain ⟨s, args, id, heq, _, hround, hresult, _, _⟩ :=
    hg.levelRounds_entry (List.mem_of_getElem? hentry)
  cases heq
  refine ⟨id, ?_⟩
  rw [value_eq hg.indexed.ordered hresult]
  show rule _ [value rule g.nodes (m + 1)] = _
  rw [value_eq hg.indexed.ordered hround]
  rfl

/-- The batching preserves every value. -/
theorem Scheduled.placed_eval (hg : g.IsSplit) (h : Scheduled g g' remap) (I : Interp) :
    Placed (evalRule I) g.nodes remap g'.nodes := by
  apply h.placed hg
  intro l k m i id hentry
  obtain ⟨_, hvalue⟩ := @IsSplit.entry_value g Value _ (evalRule I) hg l k m i hentry
  rw [hvalue]
  funext _
  simp [evalRule, operand, List.getD_eq_getElem?_getD, hentry]

/-- All products of a level wait equally long. -/
theorem IsSplit.maxNet_level (hg : g.IsSplit) {l k : Nat} {e : ValueId × ValueId}
    (hentry : (g.allRounds l)[k]? = some e) :
    maxNet ((g.allRounds l).map fun e => g.facts e.1) = l := by
  -- Every product of the bucket has the bucket's level.
  have hnet : ∀ x ∈ ((g.allRounds l).map fun e => g.facts e.1).map Facts.net, x = l := by
    intro x hx
    obtain ⟨f, hf, rfl⟩ := List.mem_map.mp hx
    obtain ⟨e', he', rfl⟩ := List.mem_map.mp hf
    obtain ⟨s, _, _, rfl, _, _, _, hlevel, _⟩ := hg.levelRounds_entry he'
    exact hlevel
  apply Nat.le_antisymm
  · exact foldl_max_le (Nat.zero_le l) fun x hx => Nat.le_of_eq (hnet x hx)
  · obtain ⟨s, _, _, rfl, _, _, _, hlevel, _⟩ := hg.levelRounds_entry (List.mem_of_getElem? hentry)
    apply le_foldl_max
    right
    rw [List.map_map, List.mem_map]
    exact ⟨_, List.mem_of_getElem? hentry, hlevel⟩

/-- The batching preserves every domain and every network level. -/
theorem Scheduled.placed_facts (hg : g.IsSplit) (h : Scheduled g g' remap) :
    Placed (netRule g) g.nodes remap g'.nodes := by
  apply h.placed hg
  intro l k m i id hentry
  obtain ⟨_, hvalue⟩ := @IsSplit.entry_value g Facts _ (netRule g) hg l k m i hentry
  have hlevel : (g.facts m).net = l := by
    obtain ⟨_, _, _, heq, _, _, _, hlevel, _⟩ :=
      hg.levelRounds_entry (List.mem_of_getElem? hentry)
    cases heq
    exact hlevel
  -- So the merged round charges what each of the rounds it replaces did.
  have hmax : maxNet ((g.allRounds l).map fun e => value (netRule g) g.nodes e.1) = l :=
    hg.maxNet_level hentry
  have hone : maxNet [value (netRule g) g.nodes m] = l := by
    have hfacts : (value (netRule g) g.nodes m).net = l := hlevel
    simp [maxNet, hfacts]
  rw [hvalue]
  show Facts.plain .shared (maxNet _ + 1) = Facts.plain .shared (maxNet _ + 1)
  rw [hmax, hone]

theorem Scheduled.netRule_eq (h : Scheduled g g' remap) : netRule g' = netRule g := by
  rw [h.graph]
  rfl

/-- A node has the facts of the node it comes from. -/
theorem Scheduled.facts_eq (hg : g.IsSplit) (h : Scheduled g g' remap) {i t : Nat}
    (hit : remap[i]? = some (some t)) : g'.facts t = g.facts i := by
  unfold facts
  rw [h.netRule_eq]
  exact ((h.placed_facts hg).valid i t hit).2

/-! ## Sites -/

/-- The batching keeps every site's invocation, in some order. -/
theorem Scheduled.calls_perm (hg : g.IsSplit) (h : Scheduled g g' remap) (I : Interp) :
    (g'.calls I).Perm (g.calls I) := by
  have hsame := invocations_of_placed (h.placed_eval hg I) h.arranged.reinvoked
  -- A node that calls is plain, so the sources have it.
  have hinvocations : ((List.range g.nodes.length).filter g.plainAt).filterMap (fun i =>
      g.nodes[i]?.bind Node.call?) = invocations g.nodes := by
    rw [List.filterMap_filter, invocations, ← range_filterMap g.nodes]
    apply List.filterMap_congr
    intro i hi
    have hlt : i < g.nodes.length := List.mem_range.mp hi
    have hnode : g.nodes[i]? = some g.nodes[i] := List.getElem?_eq_getElem hlt
    split
    · rfl
    · rename_i hplain
      rw [plainAt_of hnode] at hplain
      rw [hnode]
      show none = g.nodes[i].call?
      generalize g.nodes[i] = node at hplain
      obtain ⟨op, inputs⟩ := node
      cases op <;> first | rfl | exact absurd rfl hplain
  have hperm := (g.sources_moved_perm.filterMap fun i => g.nodes[i]?.bind Node.call?).map
    fun c => (c.1, c.2.map (g.eval I))
  rw [hinvocations, ← hsame] at hperm
  exact hperm

/-! ## The shape that is left -/

/-- No two nodes went to one position. -/
theorem Scheduled.injective (h : Scheduled g g' remap) {i j t : Nat}
    (hit : remap[i]? = some (some t)) (hjt : remap[j]? = some (some t)) : i = j := by
  rcases h.arranged.source i t hit with hi | ⟨l, k, m, hi, hentry⟩
  · -- A position has one source, so both nodes are it.
    rcases h.arranged.source j t hjt with hj | ⟨_, _, _, hj, _⟩
    · rw [hi] at hj
      cases hj
      rfl
    · rw [hi] at hj
      cases hj
  · rcases h.arranged.source j t hjt with hj | ⟨l', k', m', hj, hentry'⟩
    · rw [hi] at hj
      cases hj
    · rw [hi] at hj
      cases hj
      rw [hentry] at hentry'
      cases hentry'
      rfl

/-- What a carried value has become: the node, moved, or the result of a round. -/
theorem Scheduled.target (hg : g.IsSplit) (h : Scheduled g g' remap) {i t : Nat}
    (hit : remap[i]? = some (some t)) :
    ∃ c c' : Node, g.nodes[i]? = some c ∧ g'.nodes[t]? = some c' ∧
      (c'.op = c.op ∧ c.op.isPlain = true ∧ Renamed remap c.inputs c'.inputs ∨
        c.op = .roundResult 0 ∧ ∃ k, c'.op = .roundResult k) := by
  rcases h.arranged.source i t hit with hsource | ⟨l, k, m, hsource, hentry⟩
  · obtain ⟨_, c, refs, hc, hplain, hget, hren⟩ := h.arranged.node t i hsource
    exact ⟨c, _, hc, hget, .inl ⟨rfl, hplain, hren⟩⟩
  · obtain ⟨args, hc⟩ := hg.allRounds_result hentry
    obtain ⟨_, _, _, _, _, _, hget, _⟩ := h.arranged.result t l k hsource
    exact ⟨_, _, hc, hget, .inr ⟨rfl, k, rfl⟩⟩

/-- What stands at a new position. -/
theorem Scheduled.standing (h : Scheduled g g' remap) {q : Nat} {node : Node}
    (hnode : g'.nodes[q]? = some node) : ∃ source,
      (g.sourcesBelow (g.maxDepth + 1))[q]? = some source ∧
        source.Becomes g.nodes g.allRounds remap node :=
  forall₂_getElem? h.arranged.becomes hnode

/-- A new plain node is an old one, with its references renamed. -/
theorem Scheduled.plain (h : Scheduled g g' remap) {q : Nat} {node : Node}
    (hnode : g'.nodes[q]? = some node) (hplain : node.op.isPlain = true) :
    ∃ (i : Nat) (c : Node), remap[i]? = some (some q) ∧ g.nodes[i]? = some c ∧ node.op = c.op ∧
      Renamed remap c.inputs node.inputs := by
  obtain ⟨source, hsource, hbecomes⟩ := h.standing hnode
  cases hbecomes with
  | node i c new hc _ hop hren => exact ⟨i, c, (h.arranged.node q i hsource).1, hc, hop, hren⟩
  | round => cases hplain
  | result => cases hplain

theorem Scheduled.block (h : Scheduled g g' remap) {q : Nat} {id : RoundId} {args : List ValueId}
    (hround : g'.nodes[q]? = some ⟨.round id, args⟩) {k : Nat} (hk : k < args.length) :
    g'.nodes[q + 1 + k]? = some ⟨.roundResult k, [q]⟩ := by
  obtain ⟨source, hsource, hbecomes⟩ := h.standing hround
  cases hbecomes with
  | node i c new hc hplain hop hren =>
    rw [← hop] at hplain
    cases hplain
  | round l id refs hren =>
    obtain ⟨_, _, _, _, hresults⟩ := h.arranged.round q l hsource
    rw [hren.length, List.length_map] at hk
    obtain ⟨q₀, _, _, hq, _, _, hget, _⟩ := h.arranged.result _ l k (hresults k hk)
    have hqq : q = q₀ := by omega
    rw [hget, hqq]

theorem Scheduled.result (h : Scheduled g g' remap) {q k : Nat} {args : List ValueId}
    (hresult : g'.nodes[q]? = some ⟨.roundResult k, args⟩) :
    ∃ (r : Nat) (id : RoundId) (slots : List ValueId), q = r + 1 + k ∧ k < slots.length ∧
      g'.nodes[r]? = some ⟨.round id, slots⟩ := by
  obtain ⟨source, hsource, hbecomes⟩ := h.standing hresult
  cases hbecomes with
  | node i c new hc hplain hop hren =>
    rw [← hop] at hplain
    cases hplain
  | result l k r =>
    obtain ⟨q₀, m, i, hq, hround, hentry, _, _⟩ := h.arranged.result q l k hsource
    obtain ⟨id, refs, hget, hren, _⟩ := h.arranged.round q₀ l hround
    refine ⟨q₀, id, refs, hq, ?_, hget⟩
    rw [hren.length, List.length_map]
    exact (List.getElem?_eq_some_iff.mp hentry).1

/-- Every local product is one slot of one round, and there are no other slots. -/
theorem Scheduled.slots_perm (hg : g.IsSplit) (h : Scheduled g g' remap) :
    (slots g'.nodes).Perm (localProducts g'.nodes) := by
  apply slots_perm_of_renamed h.arranged.renamed_slots hg.sources_slots_perm
  · exact fun i j t hit hjt => h.injective hit hjt
  · intro i t args hlocal hit
    obtain ⟨c, ⟨op, refs⟩, hc, hget, hkind⟩ := h.target hg hit
    rw [hlocal] at hc
    cases hc
    -- What went to a position is not a local product unless it was one.
    rcases hkind with ⟨hop, _, _⟩ | ⟨hop, _⟩
    · cases hop
      exact ⟨refs, hget⟩
    · cases hop
  · intro q args hget
    obtain ⟨i, ⟨op, refs⟩, hiq, hc, hop, _⟩ := h.plain hget rfl
    cases hop
    exact ⟨i, refs, hiq, hc⟩

/-- **The batching leaves a lowered graph.** -/
theorem Scheduled.isLowered (hg : g.IsSplit) (h : Scheduled g g' remap) : g'.IsLowered := by
  -- Every plain node has its origin, of the same operation and with renamed inputs.
  have hstanding : ∀ node ∈ g'.nodes, node.op.isPlain = true →
      ∃ (i : Nat) (c : Node), g.nodes[i]? = some c ∧ node.op = c.op ∧
        Renamed remap c.inputs node.inputs := by
    intro node hmem hplain
    obtain ⟨q, hq, hget⟩ := List.getElem_of_mem hmem
    obtain ⟨i, c, _, hc, hop, hren⟩ := h.plain (hget ▸ List.getElem?_eq_getElem hq) hplain
    exact ⟨i, c, hc, hop, hren⟩
  -- A value that was no additive sharing has not become one.
  have hraw : ∀ {v u : Nat} {c c' : Node}, remap[v]? = some (some u) → g.nodes[v]? = some c →
      g'.nodes[u]? = some c' → c.op.isRaw = false → c'.op.isRaw = false := by
    intro v u c c' hvu hc hc' hnot
    obtain ⟨_, _, hc₀, hc₀', hkind⟩ := h.target hg hvu
    rw [hc] at hc₀
    cases hc₀
    rw [hc'] at hc₀'
    cases hc₀'
    rcases hkind with ⟨hop, _, _⟩ | ⟨_, k, hop⟩
    · rw [hop]
      exact hnot
    · rw [hop]
      rfl
  refine ⟨⟨h.arranged.ordered, ?_, ?_⟩, fun q id args hq k hk => h.block hq hk,
    fun q k args hq => h.result hq, ?_, ?_, ?_, h.slots_perm hg, ?_, ?_⟩
  · intro node hmem arity harity
    obtain ⟨q, hq, hget⟩ := List.getElem_of_mem hmem
    obtain ⟨source, _, hbecomes⟩ := h.standing (hget ▸ List.getElem?_eq_getElem hq)
    cases hbecomes with
    | node i c new hc _ hop hren =>
      rw [hren.length]
      exact hg.indexed.arity c (List.mem_of_getElem? hc) arity (hop ▸ harity)
    | round => cases harity
    | result =>
      cases harity
      rfl
  · intro node hmem site hop
    have hsites : g'.gadgetSites = g.gadgetSites := by rw [h.graph]
    obtain ⟨i, c, hc, hop', _⟩ := hstanding node hmem (by rw [hop]; rfl)
    rw [hsites]
    exact hg.indexed.sites c (List.mem_of_getElem? hc) site (hop' ▸ hop)
  · intro node hmem hplain u hu source hsource
    obtain ⟨i, c, hc, hop, hren⟩ := hstanding node hmem hplain
    obtain ⟨v, hv, hvu⟩ := hren.source hu
    obtain ⟨cv, _, hcv, _, _⟩ := h.target hg hvu
    exact hraw hvu hcv hsource
      (hg.split.unread c (List.mem_of_getElem? hc) (hop ▸ hplain) v hv cv hcv)
  · intro node hmem hop
    obtain ⟨i, c, hc, hop', hren⟩ := hstanding node hmem (by rw [hop]; rfl)
    obtain ⟨v, hv, hdomain⟩ := hg.products c (List.mem_of_getElem? hc) (hop' ▸ hop)
    obtain ⟨u, hu, hvu⟩ := hren.target hv
    exact ⟨u, hu, by rw [h.facts_eq hg hvu]; exact hdomain⟩
  · intro node hmem hop u hu
    obtain ⟨i, c, hc, hop', hren⟩ := hstanding node hmem (by rw [hop]; rfl)
    obtain ⟨v, hv, hvu⟩ := hren.source hu
    rw [h.facts_eq hg hvu]
    exact hg.shares c (List.mem_of_getElem? hc) (hop' ▸ hop) v hv
  · have hids : roundIds g'.nodes = List.range g'.numRounds := h.arranged.ids
    rw [hids]
  · intro o ho
    obtain ⟨o', ho', _, hren⟩ := rebound_source h.outputs ho
    obtain ⟨c, c', hc, hc', _⟩ := h.target hg hren
    obtain ⟨source, hsource, hnot⟩ := hg.outputs o' ho'
    rw [hc] at hsource
    cases hsource
    exact ⟨c', hc', hraw hren hc hc' hnot⟩

end Graph
end CircomMpc
