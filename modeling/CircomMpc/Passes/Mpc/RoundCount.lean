import Mathlib.Data.Finset.Max
import CircomMpc.Lib.Chains
import CircomMpc.Passes.Mpc.RoundMeaning
import CircomMpc.Passes.Mpc.GadgetIndex

/-!
# How many rounds there are

Through both passes a product of two shared values is followed to its local product and that to its
slot; nothing else has a slot. A level with a product has one round, so there are as many rounds as
levels with products. Where no gadget is serviced only products cost a level, and then the number of
rounds is the number of products on the longest chain of dependent ones: no assignment of rounds can
do with fewer.

Levels are compared on the old graph with the products already charged (`splitFacts`), since there a
product is still one node. `Respects` is what any assignment of rounds has to obey, and the chain of
`splitNet_attained` is what it cannot shorten.
-/

namespace CircomMpc

open Lib

/-- The passes that make the rounds, one after the other. -/
def lowerRounds (g : Graph) : Except Panic Graph := do
  let (g, _) ← MulSplit.run g
  let (g, _) ← RoundSchedule.run g
  pure g

namespace Graph

/-- Whether node `j` is a product of two shared values. -/
def multiplies (g : Graph) (j : ValueId) : Bool :=
  g.nodes[j]?.any fun node =>
    node.op == .mul && node.inputs.all fun v => (g.facts v).domain == .shared

/-- Every product of two shared values. -/
def secretProducts (g : Graph) : List ValueId := (List.range g.nodes.length).filter g.multiplies

/-- How the products of `g` are reshared in `g'`; `place` is where a product's local product is. A
    product of values with the same meaning stands there, the slots are these places and no others,
    no place twice, and the rounds are the levels the local products are on. -/
structure Reshared (g g' : Graph) (place : ValueId → ValueId) : Prop where
  product : ∀ j ∈ g.secretProducts, ∃ args args', g.nodes[j]? = some ⟨.mul, args⟩ ∧
    g'.nodes[place j]? = some ⟨.mulLocal, args'⟩ ∧
      ∀ I, args'.map (g'.eval I) = args.map (g.eval I)
  distinct : (g.secretProducts.map place).Nodup
  localProducts : (localProducts g'.nodes).Perm (g.secretProducts.map place)
  slots : (slots g'.nodes).Perm (g.secretProducts.map place)
  counts : g'.roundSlots.sum = g.secretProducts.length
  rounds : g'.numRounds = g'.roundSlots.length
  levels : g'.numRounds = (g.secretProducts.map fun j => (g'.facts (place j)).net).dedup.length

/-- `rounds` is the number of products on the longest chain of dependent nodes, each reading the
    next, and no assignment that puts every product behind those it depends on has fewer rounds. -/
structure FewestRounds (g : Graph) (rounds : Nat) : Prop where
  attained : ∃ path : List ValueId, path.IsChain g.Reads ∧ path.countP g.multiplies = rounds
  longest : ∀ path : List ValueId, path.IsChain g.Reads → path.countP g.multiplies ≤ rounds
  optimal : ∀ round : ValueId → Nat, Respects g.Reads g.multiplies round →
    rounds ≤ (g.secretProducts.map round).dedup.length

section Products

variable {g h g' : Graph} {remap remap' : List (Option ValueId)}

theorem multiplies_eq (g : Graph) {j : Nat} {node : Node} (hnode : g.nodes[j]? = some node) :
    g.multiplies j = g.sharedProduct node := by
  rw [multiplies, hnode]
  show (node.op == .mul && node.inputs.all fun v => (g.facts v).domain == .shared) = _
  simp only [sharedProduct, (splitFacts_sameDomain g _).1]

theorem mem_secretProducts {j : Nat} :
    j ∈ g.secretProducts ↔ ∃ node, g.nodes[j]? = some node ∧ g.sharedProduct node = true := by
  rw [secretProducts, List.mem_filter, List.mem_range]
  constructor
  · rintro ⟨hj, hmul⟩
    have hnode : g.nodes[j]? = some g.nodes[j] := List.getElem?_eq_getElem hj
    exact ⟨_, hnode, by rw [← multiplies_eq g hnode]; exact hmul⟩
  · rintro ⟨node, hnode, hproduct⟩
    exact ⟨(List.getElem?_eq_some_iff.mp hnode).1, by rw [multiplies_eq g hnode]; exact hproduct⟩

/-- Where a node went. -/
def placeOf (remap : List (Option ValueId)) (v : ValueId) : ValueId := (remap[v]?.join).getD 0

theorem placeOf_eq {v u : Nat} (h : remap[v]? = some (some u)) : placeOf remap v = u := by
  rw [placeOf, h]
  rfl

theorem renamed_eq_map {refs refs' : List ValueId} (h : Renamed remap refs refs') :
    refs' = refs.map (placeOf remap) := by
  induction h with
  | nil => rfl
  | @cons v u refs refs' hvu _ ih => rw [List.map_cons, ← ih, placeOf_eq hvu]

/-- Where `mul_split` puts a product's local product: two nodes in front of its value. -/
def localOf (remap : List (Option ValueId)) (j : ValueId) : ValueId := placeOf remap j - 2

/-- The local product of a split product. -/
theorem Splitted.local_at (hs : Splitted g h remap) {j : Nat} {node : Node}
    (hnode : g.nodes[j]? = some node) (hproduct : g.sharedProduct node = true) :
    ∃ s args, remap[j]? = some (some (s + 2)) ∧ localOf remap j = s ∧
      h.nodes[s]? = some ⟨.mulLocal, args⟩ ∧ Renamed remap node.inputs args := by
  obtain ⟨t, hjt⟩ := hs.total j (List.getElem?_eq_some_iff.mp hnode).1
  obtain ⟨s, args, _, rfl, hlocal, hren, _, _⟩ := hs.built.split j t node hjt hnode hproduct
  refine ⟨s, args, hjt, ?_, hlocal, hren⟩
  rw [localOf, placeOf_eq hjt]
  rfl

/-- The local products of the split graph are those of the products. -/
theorem Splitted.localProducts_perm (hg : g.Frontend) (hs : Splitted g h remap) :
    (Graph.localProducts h.nodes).Perm (g.secretProducts.map (localOf remap)) := by
  apply (List.perm_ext_iff_of_nodup (localProducts_nodup _) ?_).mpr
  · intro q
    rw [mem_localProducts, List.mem_map]
    constructor
    · rintro ⟨args, hlocal⟩
      cases hs.built.standing hlocal with
      | kept j node _ hnode _ hop _ =>
        have hfront := hg.frontend node (List.mem_of_getElem? hnode)
        rw [← hop] at hfront
        cases hfront
      | product j node _ hjq hnode hproduct _ _ _ _ =>
        refine ⟨j, mem_secretProducts.mpr ⟨node, hnode, hproduct⟩, ?_⟩
        rw [localOf, placeOf_eq hjq]
        rfl
      | round _ _ _ _ _ _ _ hnew _ => cases hnew
      | result _ _ _ _ _ _ _ _ hnew _ => cases hnew
    · rintro ⟨j, hj, rfl⟩
      obtain ⟨node, hnode, hproduct⟩ := mem_secretProducts.mp hj
      obtain ⟨s, args, _, heq, hlocal, _⟩ := hs.local_at hnode hproduct
      exact ⟨args, by rw [heq]; exact hlocal⟩
  · apply List.Nodup.map_on _ (List.nodup_range.filter _)
    intro i hi j hj hij
    obtain ⟨node, hnode, hproduct⟩ := mem_secretProducts.mp hi
    obtain ⟨node', hnode', hproduct'⟩ := mem_secretProducts.mp hj
    obtain ⟨s, _, his, hs₁, _, _⟩ := hs.local_at hnode hproduct
    obtain ⟨s', _, hjs, hs₂, _, _⟩ := hs.local_at hnode' hproduct'
    have hss : s = s' := by rw [← hs₁, ← hs₂, hij]
    subst hss
    -- The new list has them in the old order, so different products stay apart.
    rcases Nat.lt_trichotomy i j with hlt | heq | hgt
    · exact absurd (hs.built.increasing i j _ _ his hjs hlt) (Nat.lt_irrefl _)
    · exact heq
    · exact absurd (hs.built.increasing j i _ _ hjs his hgt) (Nat.lt_irrefl _)

/-- A local product is one level below its product, with the products charged. -/
theorem Splitted.local_net (hg : g.Frontend) (hs : Splitted g h remap) {j : Nat}
    (hj : j ∈ g.secretProducts) :
    (h.facts (localOf remap j)).net + 1 = (g.splitFacts j).net := by
  obtain ⟨node, hnode, hproduct⟩ := mem_secretProducts.mp hj
  obtain ⟨s, args, _, heq, hlocal, hren⟩ := hs.local_at hnode hproduct
  have hplaced := hs.built.placed_facts hg hs.bound
  have hsplit := hs.isSplit hg
  -- The local product reads what the product read, at the same levels.
  have hargs : args.map h.facts = node.inputs.map g.splitFacts := by
    apply hren.map_eq
    intro v u _ hvu
    obtain ⟨hlt, hvalue⟩ := hplaced.valid v u hvu
    rw [hs.built.facts_eq hg hs.graph hs.bound u hlt, hvalue]
    rfl
  have hnet : (h.facts s).net = maxNet (node.inputs.map g.splitFacts) := by
    rw [facts_eq hsplit.indexed hlocal, ← hargs]
    rfl
  obtain ⟨a, b, rfl, ha, hb⟩ := sharedProduct_inputs hg hnode hproduct
  have hshared : (factsAt ([a, b].map g.splitFacts) 0).domain = .shared ∧
      (factsAt ([a, b].map g.splitFacts) 1).domain = .shared := ⟨ha, hb⟩
  rw [heq, hnet, splitFacts_eq hg.ordered hnode]
  show _ = (if _ ∧ _ then Facts.plain .shared (maxNet _ + 1) else _ : Facts).net
  rw [if_pos hshared]
  rfl

/-! ## Counting the rounds -/

/-- The level a source is the round of. -/
def roundLevel? : Source → Option Nat
  | .round level => some level
  | _ => none

theorem levelSources_rounds (h : Graph) (level : Nat) :
    (h.levelSources level).filterMap roundLevel? =
      if (h.allRounds level).isEmpty then [] else [level] := by
  have hnodes : ∀ xs : List ValueId, (xs.map Source.node).filterMap roundLevel? = [] := by
    intro xs
    rw [List.filterMap_map]
    exact List.filterMap_eq_nil_iff.mpr fun _ _ => rfl
  have hresults : ∀ xs : List Nat, (xs.map (Source.result level)).filterMap roundLevel? = [] := by
    intro xs
    rw [List.filterMap_map]
    exact List.filterMap_eq_nil_iff.mpr fun _ _ => rfl
  rw [levelSources, List.filterMap_append, hnodes, List.nil_append, allRounds]
  split
  · rfl
  · rw [blockSources, List.filterMap_cons, hresults]
    rfl

/-- The levels with rounds. -/
theorem sources_rounds (h : Graph) :
    (h.sourcesBelow (h.maxDepth + 1)).filterMap roundLevel? =
      (List.range (h.maxDepth + 1)).filter fun l => !(h.allRounds l).isEmpty := by
  rw [sourcesBelow, List.filterMap_flatMap]
  generalize List.range (h.maxDepth + 1) = levels
  induction levels with
  | nil => rfl
  | cons l ls ih =>
    rw [List.flatMap_cons, List.filter_cons, ih, levelSources_rounds]
    cases (h.allRounds l).isEmpty <;> rfl

/-- There is a round for every level that has one. -/
theorem Scheduled.numRounds_eq (hr : Scheduled h g' remap') :
    g'.numRounds =
      ((List.range (h.maxDepth + 1)).filter fun l => !(h.allRounds l).isEmpty).length := by
  have hids : roundIds g'.nodes = List.range g'.numRounds := hr.arranged.ids
  have hpairs : List.Forall₂ (fun (_ : Nat) (_ : RoundId) => True)
      ((h.sourcesBelow (h.maxDepth + 1)).filterMap roundLevel?) (roundIds g'.nodes) := by
    apply List.rel_filterMap _ hr.arranged.becomes
    intro source node hbecomes
    cases hbecomes with
    | node i c new hc hplain hop hren =>
      obtain ⟨op, refs⟩ := node
      rw [← hop] at hplain
      cases op <;> first | exact .none | cases hplain
    | round l id refs hren => exact .some trivial
    | result l k q => exact .none
  rw [← sources_rounds, hpairs.length_eq, hids, List.length_range]

theorem nonempty_iff_local (hh : h.IsSplit) {l : Nat} :
    (h.allRounds l).isEmpty = false ↔
      ∃ s ∈ Graph.localProducts h.nodes, (h.facts s).net = l := by
  rw [List.isEmpty_eq_false_iff]
  constructor
  · intro hne
    obtain ⟨e, he⟩ := List.exists_mem_of_ne_nil _ hne
    obtain ⟨s, args, _, _, hlocal, _, _, hnet, _⟩ := hh.levelRounds_entry he
    exact ⟨s, mem_localProducts.mpr ⟨args, hlocal⟩, hnet⟩
  · rintro ⟨s, hs, hnet⟩
    obtain ⟨args, hlocal⟩ := mem_localProducts.mp hs
    obtain ⟨⟨id, hround⟩, _⟩ := hh.split.product s args hlocal
    -- A local product's own round charges one level, and the bucket is the level before it.
    have hlevel : (h.facts (s + 1)).net = l := by
      rw [facts_eq hh.indexed hround, ← hnet]
      show maxNet [h.facts s] = _
      simp [maxNet]
    apply List.ne_nil_of_mem (a := (s, s + 2))
    rw [allRounds, mem_levelRounds]
    refine ⟨s + 1, (List.getElem?_eq_some_iff.mp hround).1, ?_, hlevel, rfl⟩
    rw [roundAt_of hround]
    rfl

/-- Where a local product went. -/
theorem Scheduled.local_at (hh : h.IsSplit) (hr : Scheduled h g' remap') {s : Nat}
    {args : List ValueId} (hlocal : h.nodes[s]? = some ⟨.mulLocal, args⟩) :
    ∃ u args', remap'[s]? = some (some u) ∧ g'.nodes[u]? = some ⟨.mulLocal, args'⟩ ∧
      Renamed remap' args args' := by
  have hmem := hh.sources_slots_perm.mem_iff.mpr (mem_localProducts.mpr ⟨args, hlocal⟩)
  obtain ⟨u, _, hsu⟩ := hr.arranged.renamed_slots.target hmem
  obtain ⟨c, ⟨op, args'⟩, hc, hget, hkind⟩ := hr.target hh hsu
  rw [hlocal] at hc
  cases hc
  rcases hkind with ⟨hop, _, hren⟩ | ⟨hop, _⟩
  · cases hop
    exact ⟨u, args', hsu, hget, hren⟩
  · cases hop

/-- **Every product is reshared once.** -/
theorem reshared (hg : g.Frontend) (hs : Splitted g h remap) (hr : Scheduled h g' remap') :
    Reshared g g' fun j => placeOf remap' (localOf remap j) := by
  have hh := hs.isSplit hg
  have hlocals := hs.localProducts_perm hg
  -- The slots are the sources' in another order, and those are the local products.
  have hslots : (Graph.slots g'.nodes).Perm
      (g.secretProducts.map fun j => placeOf remap' (localOf remap j)) := by
    rw [renamed_eq_map hr.arranged.renamed_slots]
    have hperm := (hh.sources_slots_perm.trans hlocals).map (placeOf remap')
    rw [List.map_map] at hperm
    exact hperm
  have hsame := (hr.slots_perm hh).symm.trans hslots
  have hids : roundIds g'.nodes = List.range g'.numRounds := hr.arranged.ids
  refine ⟨?_, hsame.nodup_iff.mp (localProducts_nodup _), hsame, hslots, ?_, ?_, ?_⟩
  · -- A product, its local product in the split graph and that one's slot in the new one.
    intro j hj
    obtain ⟨node, hnode, hproduct⟩ := mem_secretProducts.mp hj
    obtain ⟨s, args, _, heq, hlocal, hren⟩ := hs.local_at hnode hproduct
    obtain ⟨u, args', hsu, hget, hren'⟩ := hr.local_at hh hlocal
    obtain ⟨a, b, rfl, _, _⟩ := sharedProduct_inputs hg hnode hproduct
    refine ⟨[a, b], args', hnode, ?_, ?_⟩
    · rw [heq, placeOf_eq hsu]
      exact hget
    · intro I
      rw [operands_of_placed (hr.placed_eval hh I) hren',
        operands_of_placed (hs.built.placed_eval hg hs.bound I) hren]
  · rw [sum_roundSlots, hslots.length_eq, List.length_map]
  · rw [length_roundSlots, hids, List.length_range]
  · -- There is a round for every level with a product, and for no other.
    rw [hr.numRounds_eq]
    apply List.Perm.length_eq
    apply (List.perm_ext_iff_of_nodup (List.nodup_range.filter _) (List.nodup_dedup _)).mpr
    have hnet : ∀ j ∈ g.secretProducts,
        (g'.facts (placeOf remap' (localOf remap j))).net = (h.facts (localOf remap j)).net := by
      intro j hj
      obtain ⟨node, hnode, hproduct⟩ := mem_secretProducts.mp hj
      obtain ⟨s, args, _, heq, hlocal, _⟩ := hs.local_at hnode hproduct
      obtain ⟨u, _, hsu, _, _⟩ := hr.local_at hh hlocal
      rw [heq, placeOf_eq hsu, hr.facts_eq hh hsu]
    intro l
    rw [List.mem_filter, List.mem_range, Bool.not_eq_true', nonempty_iff_local hh, List.mem_dedup,
      List.mem_map]
    constructor
    · rintro ⟨_, s, hmem, rfl⟩
      obtain ⟨j, hj, rfl⟩ := List.mem_map.mp (hlocals.mem_iff.mp hmem)
      exact ⟨j, hj, hnet j hj⟩
    · rintro ⟨j, hj, rfl⟩
      have hmem := hlocals.mem_iff.mpr (List.mem_map_of_mem hj)
      obtain ⟨args, hlocal⟩ := mem_localProducts.mp hmem
      rw [hnet j hj]
      refine ⟨?_, _, hmem, rfl⟩
      exact Nat.lt_succ_of_le (net_le_maxDepth (List.getElem?_eq_some_iff.mp hlocal).1)

end Products

/-! ## The longest chain -/

section Longest

variable {g : Graph}

theorem mem_of_multiplies {v : Nat} (h : g.multiplies v = true) : v ∈ g.secretProducts := by
  refine List.mem_filter.mpr ⟨List.mem_range.mpr ?_, h⟩
  by_contra hout
  rw [multiplies, List.getElem?_eq_none (Nat.le_of_not_lt hout)] at h
  cases h

/-- A frontend operation's level, with the products charged. -/
theorem splitNet_pair (hg : g.Frontend) {v a b : Nat} {op : Op}
    (hnode : g.nodes[v]? = some ⟨op, [a, b]⟩) (hop : op = .add ∨ op = .sub ∨ op = .mul) :
    (g.splitFacts v).net =
      max (g.splitFacts a).net (g.splitFacts b).net + (g.multiplies v).toNat := by
  have hmax : maxNet [g.splitFacts a, g.splitFacts b] =
      max (g.splitFacts a).net (g.splitFacts b).net := by simp [maxNet]
  have hmultiplies := multiplies_eq g hnode
  rw [splitFacts_eq hg.ordered hnode, hmultiplies, ← hmax]
  rcases hop with rfl | rfl | rfl
  · rfl
  · rfl
  · show (if (g.splitFacts a).domain = .shared ∧ (g.splitFacts b).domain = .shared then
      Facts.plain .shared (maxNet [g.splitFacts a, g.splitFacts b] + 1) else _ : Facts).net = _
    by_cases hshared : (g.splitFacts a).domain = .shared ∧ (g.splitFacts b).domain = .shared
    · rw [if_pos hshared]
      simp [sharedProduct, hshared, Facts.plain]
    · rw [if_neg hshared]
      have hfalse : g.sharedProduct ⟨.mul, [a, b]⟩ = false := by
        by_contra htrue
        simp [sharedProduct] at htrue
        exact hshared htrue
      rw [hfalse]
      rfl

/-- Along a read the level does not fall, and behind a product it rises. -/
theorem splitNet_reads (hg : g.Frontend) {v u : Nat} (hreads : g.Reads v u) :
    (g.splitFacts u).net + (g.multiplies v).toNat ≤ (g.splitFacts v).net := by
  obtain ⟨⟨op, inputs⟩, hnode, hu⟩ := hreads
  have hmem := List.mem_of_getElem? hnode
  have harity := hg.arity _ hmem
  have hfront := hg.frontend _ hmem
  have hpair : ∀ a b : Nat, u ∈ [a, b] → (g.splitFacts u).net ≤
      max (g.splitFacts a).net (g.splitFacts b).net := by
    intro a b hab
    rcases List.mem_cons.mp hab with rfl | hb
    · exact Nat.le_max_left _ _
    · rw [List.mem_singleton.mp hb]
      exact Nat.le_max_right _ _
  have hother : g.multiplies v = false → (g.splitFacts u).net ≤ (g.splitFacts v).net →
      (g.splitFacts u).net + (g.multiplies v).toNat ≤ (g.splitFacts v).net := by
    intro hfalse hle
    rw [hfalse]
    exact hle
  have hmultiplies := multiplies_eq g hnode
  have hfacts := splitFacts_eq hg.ordered hnode
  cases op
  case input =>
    rw [List.length_eq_zero_iff.mp (harity 0 rfl)] at hu
    cases hu
  case constant =>
    rw [List.length_eq_zero_iff.mp (harity 0 rfl)] at hu
    cases hu
  case gadget =>
    apply hother hmultiplies
    rw [hfacts]
    exact le_foldl_max (.inr (List.mem_map_of_mem (List.mem_map_of_mem hu)))
  case gadgetResult slot =>
    apply hother hmultiplies
    obtain ⟨a, rfl⟩ := eq_singleton (harity 1 rfl)
    cases List.mem_singleton.mp hu
    have hnet := netRule_gadgetResult g slot (g.splitFacts u)
    rw [hfacts]
    show _ ≤ (netRule g (.gadgetResult slot) [g.splitFacts u]).net
    rw [hnet]
    split
    · exact Nat.le_refl _
    · exact Nat.le_succ _
  case mulLocal => cases hfront
  case round => cases hfront
  case roundResult => cases hfront
  all_goals
    obtain ⟨a, b, rfl⟩ := eq_pair (harity 2 rfl)
    rw [splitNet_pair hg hnode (by simp)]
    exact Nat.add_le_add_right (hpair a b hu) _

theorem splitNet_path (hg : g.Frontend) {v u : Nat} (hpath : Relation.TransGen g.Reads v u) :
    (g.splitFacts u).net + (g.multiplies v).toNat ≤ (g.splitFacts v).net := by
  induction hpath with
  | single hread => exact splitNet_reads hg hread
  | tail _ hread ih =>
    have hle := splitNet_reads hg hread
    omega

/-- Without gadget sites a level is that of some operand, plus one behind a product. -/
theorem splitNet_attained (hg : g.Frontend) (hsites : g.gadgetSites = []) {v : Nat}
    (hv : v < g.nodes.length) : (g.splitFacts v).net = (g.multiplies v).toNat ∨
      ∃ u, g.Reads v u ∧ (g.splitFacts v).net = (g.splitFacts u).net + (g.multiplies v).toNat := by
  -- A graph without sites has no gadget node, and so no result of one.
  have hnone : ∀ (w : ValueId) (site : GadgetId) (inputs : List ValueId),
      g.nodes[w]? ≠ some ⟨.gadget site, inputs⟩ := by
    intro w site inputs hw
    have hmem := hg.sites.mem_iff.mp (mem_sites_iff.mpr ⟨w, inputs, hw⟩)
    rw [hsites] at hmem
    cases hmem
  have hnode : g.nodes[v]? = some g.nodes[v] := List.getElem?_eq_getElem hv
  generalize g.nodes[v] = node at hnode
  obtain ⟨op, inputs⟩ := node
  have hmem := List.mem_of_getElem? hnode
  have harity := hg.arity _ hmem
  have hfront := hg.frontend _ hmem
  have hmultiplies := multiplies_eq g hnode
  have hfacts := splitFacts_eq hg.ordered hnode
  cases op
  case input =>
    left
    rw [hfacts, hmultiplies]
    rfl
  case constant =>
    left
    rw [hfacts, hmultiplies]
    rfl
  case gadget site => exact absurd hnode (hnone v site inputs)
  case gadgetResult slot =>
    obtain ⟨a, rfl⟩ := eq_singleton (harity 1 rfl)
    obtain ⟨site, sources, hsource⟩ := hg.results _ hmem slot rfl a (by simp)
    exact absurd hsource (hnone a site sources)
  case mulLocal => cases hfront
  case round => cases hfront
  case roundResult => cases hfront
  all_goals
    obtain ⟨a, b, rfl⟩ := eq_pair (harity 2 rfl)
    have hnet := splitNet_pair hg hnode (by simp)
    right
    -- The operand with the higher level attains it.
    rcases Nat.le_total (g.splitFacts a).net (g.splitFacts b).net with hab | hba
    · refine ⟨b, ⟨_, hnode, by simp⟩, ?_⟩
      rw [hnet, Nat.max_eq_right hab]
    · refine ⟨a, ⟨_, hnode, by simp⟩, ?_⟩
      rw [hnet, Nat.max_eq_left hba]

/-- **Fewest rounds.** Where no gadget is serviced the levels of the products are as many as the
    products of the longest chain. -/
theorem fewestRounds (hg : g.Frontend) (hsites : g.gadgetSites = []) {level : ValueId → Nat}
    (hlevel : ∀ j ∈ g.secretProducts, level j + 1 = (g.splitFacts j).net) :
    FewestRounds g (g.secretProducts.map level).dedup.length := by
  -- The levels are an assignment that respects the products.
  have hrespects : Respects g.Reads g.multiplies level := by
    intro v u hv hu hpath
    have hrise := splitNet_path hg hpath
    have hlv := hlevel v (mem_of_multiplies hv)
    have hlu := hlevel u (mem_of_multiplies hu)
    rw [hv, Bool.toNat_true] at hrise
    omega
  -- From a node of the highest level, a chain down through operands that attain it.
  have hattained : ∃ path : List ValueId, path.IsChain g.Reads ∧
      (g.secretProducts.map level).dedup.length ≤ path.countP g.multiplies := by
    rcases Nat.eq_zero_or_pos g.nodes.length with hempty | hpos
    · refine ⟨[], .nil, ?_⟩
      rw [secretProducts, hempty]
      rfl
    · obtain ⟨v, hv, hmax⟩ := (Finset.range g.nodes.length).exists_max_image
        (fun v => (g.splitFacts v).net) (Finset.nonempty_range_iff.mpr (Nat.ne_of_gt hpos))
      have hback : ∀ w u : Nat, g.Reads w u → u < w := by
        rintro w u ⟨node, hnode, hu⟩
        exact hg.ordered w node hnode u hu
      obtain ⟨rest, hchain, hcount⟩ := @exists_chain g.Reads g.multiplies
        (fun v => (g.splitFacts v).net) g.nodes.length hback
        (fun v hv => splitNet_attained hg hsites hv) v (Finset.mem_range.mp hv)
      refine ⟨v :: rest, hchain, ?_⟩
      rw [hcount]
      have hsubset : (g.secretProducts.map level).dedup ⊆ List.range (g.splitFacts v).net := by
        intro l hl
        obtain ⟨j, hj, rfl⟩ := List.mem_map.mp (List.mem_dedup.mp hl)
        have hlj := hlevel j hj
        have hle := hmax j (Finset.mem_range.mpr (List.mem_range.mp (List.mem_filter.mp hj).1))
        rw [List.mem_range]
        omega
      have hle := (List.Nodup.subperm (List.nodup_dedup _) hsubset).length_le
      rw [List.length_range] at hle
      exact hle
  -- Any assignment rises along that chain at every product.
  have hbound : ∀ round : ValueId → Nat, Respects g.Reads g.multiplies round →
      ∀ path : List ValueId, path.IsChain g.Reads →
        path.countP g.multiplies ≤ (g.secretProducts.map round).dedup.length :=
    fun round hround path hpath => hround.chain_le hpath fun _ _ hv => mem_of_multiplies hv
  obtain ⟨path, hpath, hle⟩ := hattained
  refine ⟨⟨path, hpath, Nat.le_antisymm (hbound level hrespects path hpath) hle⟩,
    hbound level hrespects, fun round hround => ?_⟩
  exact Nat.le_trans hle (hbound round hround path hpath)

end Longest

theorem lowerRounds_returns {g : Graph} (hg : g.Frontend) :
    Returns (fun g' => (∃ place, Reshared g g' place) ∧
      (g.gadgetSites = [] → FewestRounds g g'.numRounds)) (lowerRounds g) := by
  unfold lowerRounds
  apply Meets.bind (mulSplit_returns hg)
  rintro ⟨h, _⟩ ⟨remap, hs⟩
  apply Meets.bind (roundSchedule_returns (hs.isSplit hg))
  rintro ⟨g', _⟩ ⟨remap', hr⟩
  have hreshared := reshared hg hs hr
  refine ⟨⟨_, hreshared⟩, fun hsites => ?_⟩
  rw [hreshared.levels]
  apply fewestRounds hg hsites
  intro j hj
  obtain ⟨node, hnode, hproduct⟩ := mem_secretProducts.mp hj
  obtain ⟨s, args, _, heq, hlocal, _⟩ := hs.local_at hnode hproduct
  obtain ⟨u, _, hsu, _, _⟩ := hr.local_at (hs.isSplit hg) hlocal
  have hnet := hs.local_net hg hj
  rw [heq] at hnet ⊢
  rw [placeOf_eq hsu, hr.facts_eq (hs.isSplit hg) hsu]
  exact hnet

/-- **The rounds of a lowered graph.** Products of shared values, slots and local products
    correspond one to one, a level with a product has one round, and without gadget sites no
    assignment of rounds can do with fewer. -/
theorem lowerRounds_fewest {g : Graph} (hg : g.Frontend) :
    ∃ g', lowerRounds g = .ok g' ∧ (∃ place, Reshared g g' place) ∧
      (g.gadgetSites = [] → FewestRounds g g'.numRounds) :=
  (lowerRounds_returns hg).ok_of_never

/-- Three secrets multiplied one after the other. -/
def chainedProducts : Graph where
  nodes := [⟨.input 1, []⟩, ⟨.input 2, []⟩, ⟨.input 3, []⟩, ⟨.mul, [0, 1]⟩, ⟨.mul, [3, 2]⟩]
  outputs := [(0, 4)]
  gadgetSites := []
  numRounds := 0
  signalToWitness := [0, 1, 2, 3, 4]
  inputList := [("in", 0, 3)]
  publicInputs := []
  mpcPublicInputs := []
  numInputs := 3
  numOutputs := 1
  numSignals := 5

theorem lowerRounds_fewest_chained :
    ∃ g', lowerRounds chainedProducts = .ok g' ∧ (∃ place, Reshared chainedProducts g' place) ∧
      (chainedProducts.gadgetSites = [] → FewestRounds chainedProducts g'.numRounds) :=
  lowerRounds_fewest (by decide)

end Graph
end CircomMpc
