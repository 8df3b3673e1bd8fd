import CircomMpc.Codegen.Served
import CircomMpc.Passes.Mpc.BatchCount
import CircomMpc.Passes.Mpc.RoundCount

/-!
# Whether the rounds line up

The machine reshares the products it has put off in the order their instructions ran, and compares it
with the order the round lists them in. `round_schedule` lists the products of a level as it emits
them. `wide_schedule` moves the products of a level by how many public sites they wait for, and leaves
the round's list as it is, so there the two orders agree only if the list was in that order before.
-/

namespace CircomMpc

open Lib

namespace Graph

variable {g : Graph}

/-! ## Pending products -/

theorem mem_pendingAt_iff {i : Nat} {v : ValueId} : v ∈ g.pendingAt i ↔
    v < i ∧ (∃ args, g.nodes[v]? = some ⟨.mulLocal, args⟩) ∧
      ∀ (q : Nat) (id : RoundId) (args : List ValueId), v ≤ q → q < i →
        g.nodes[q]? ≠ some ⟨.round id, args⟩ := by
  refine ⟨mem_pendingAt, ?_⟩
  induction i with
  | zero =>
    rintro ⟨hlt, _⟩
    exact absurd hlt (Nat.not_lt_zero v)
  | succ i ih =>
    rintro ⟨hlt, ⟨args, hlocal⟩, hrounds⟩
    -- Pending before already, or put off by this node.
    rcases Nat.lt_succ_iff_lt_or_eq.mp hlt with hlt | rfl
    · have hmem := ih ⟨hlt, ⟨args, hlocal⟩, fun q id args' hvq hq => hrounds q id args' hvq
        (Nat.lt_succ_of_lt hq)⟩
      cases hnode : g.nodes[i]? with
      | none => simpa [pendingAt, hnode] using hmem
      | some node =>
        obtain ⟨op, args'⟩ := node
        by_cases hop : op = .mulLocal
        · subst hop
          rw [pendingAt_local hnode]
          exact List.mem_append_left _ hmem
        · rw [pendingAt_other hnode _ hop]
          · exact hmem
          · rintro id rfl
            exact hrounds i id args' (Nat.le_of_lt hlt) (Nat.lt_succ_self i) hnode
    · rw [pendingAt_local hlocal]
      simp

/-- Pending products are in the order of the graph. -/
theorem pendingAt_pairwise (g : Graph) (i : Nat) : (g.pendingAt i).Pairwise (· < ·) := by
  induction i with
  | zero => exact .nil
  | succ i ih =>
    cases hnode : g.nodes[i]? with
    | none => simpa [pendingAt, hnode] using ih
    | some node =>
      obtain ⟨op, args⟩ := node
      by_cases hround : ∃ id, op = .round id
      · obtain ⟨id, rfl⟩ := hround
        rw [pendingAt_round hnode]
        exact .nil
      by_cases hlocal : op = .mulLocal
      · subst hlocal
        rw [pendingAt_local hnode, List.pairwise_append]
        refine ⟨ih, List.pairwise_singleton _ _, ?_⟩
        intro v hv w hw
        cases List.mem_singleton.mp hw
        exact (mem_pendingAt hv).1
      · rw [pendingAt_other hnode (fun id h => hround ⟨id, h⟩) hlocal]
        exact ih

/-! ## Graphs in layers -/

/-- A product of two shared values, or a round. -/
def isRawAt (g : Graph) (v : ValueId) : Bool := g.nodes[v]?.any fun node => node.op.isRaw

theorem isRawAt_of {v : Nat} {node : Node} (h : g.nodes[v]? = some node) :
    g.isRawAt v = node.op.isRaw := by
  rw [isRawAt, h]
  rfl

/-- Every level has one round at most, which reshares products of its own level, and products and
    rounds stand in the order of their levels. -/
structure Layered (g : Graph) : Prop where
  level : ∀ (r : Nat) (id : RoundId) (args : List ValueId), g.nodes[r]? = some ⟨.round id, args⟩ →
    ∀ v ∈ args, (g.facts v).net = (g.facts r).net
  alone : ∀ (r r' : Nat) (id id' : RoundId) (args args' : List ValueId),
    g.nodes[r]? = some ⟨.round id, args⟩ → g.nodes[r']? = some ⟨.round id', args'⟩ →
      (g.facts r).net = (g.facts r').net → r = r'
  ordered : ∀ x y : Nat, x ≤ y → y < g.nodes.length → g.isRawAt x = true → g.isRawAt y = true →
    (g.facts x).net ≤ (g.facts y).net

/-- In layers a round's products are pending at it, and nothing else is. -/
theorem Layered.mem_pendingAt (hg : g.IsLowered) (h : g.Layered) {r : Nat} {id : RoundId}
    {args : List ValueId} (hround : g.nodes[r]? = some ⟨.round id, args⟩) {v : ValueId} :
    v ∈ args ↔ v ∈ g.pendingAt r := by
  have hr : r < g.nodes.length := (List.getElem?_eq_some_iff.mp hround).1
  have hraw : ∀ {q : Nat} {id' : RoundId} {args' : List ValueId},
      g.nodes[q]? = some ⟨.round id', args'⟩ → g.isRawAt q = true :=
    fun hat => isRawAt_of hat
  rw [mem_pendingAt_iff]
  constructor
  · intro hv
    have hvr : v < r := hg.indexed.ordered r _ hround v hv
    obtain ⟨args', hlocal⟩ := mem_localProducts.mp
      (hg.slots.mem_iff.mp (mem_slots.mpr ⟨id, args, List.mem_of_getElem? hround, hv⟩))
    refine ⟨hvr, ⟨args', hlocal⟩, ?_⟩
    intro q id' args'' hvq hqr hat
    -- A round in between would have the level of the one we are at.
    have hlow := h.ordered v q hvq (hqr.trans hr) (isRawAt_of hlocal) (hraw hat)
    have hhigh := h.ordered q r (Nat.le_of_lt hqr) hr (hraw hat) (hraw hround)
    rw [h.level r id args hround v hv] at hlow
    exact absurd (h.alone q r _ _ _ _ hat hround (Nat.le_antisymm hhigh hlow)) (Nat.ne_of_lt hqr)
  · rintro ⟨hvr, ⟨args', hlocal⟩, hrounds⟩
    obtain ⟨id', slots, hmem, hin⟩ :=
      mem_slots.mp (hg.slots.mem_iff.mpr (mem_localProducts.mpr ⟨args', hlocal⟩))
    obtain ⟨r', hround'⟩ := List.mem_iff_getElem?.mp hmem
    have hvr' : v < r' := hg.indexed.ordered r' _ hround' v hin
    -- The product's own round cannot be in front, so it is this one.
    have hrr' : r ≤ r' := by
      by_contra hlt
      exact hrounds r' id' slots (Nat.le_of_lt hvr') (Nat.lt_of_not_le hlt) hround'
    have hr' : r' < g.nodes.length := (List.getElem?_eq_some_iff.mp hround').1
    have hlow := h.ordered v r (Nat.le_of_lt hvr) hr (isRawAt_of hlocal) (hraw hround)
    have hhigh := h.ordered r r' hrr' hr' (hraw hround) (hraw hround')
    rw [h.level r' id' slots hround' v hin] at hlow
    cases h.alone r r' _ _ _ _ hround hround' (Nat.le_antisymm hhigh hlow)
    rw [hround] at hround'
    cases hround'
    exact hin

/-- **In layers the rounds line up if each lists its products in the order of the graph.** -/
theorem Layered.linedUp_iff (hg : g.IsLowered) (h : g.Layered) : g.LinedUp ↔
    ∀ (r : Nat) (id : RoundId) (args : List ValueId), g.nodes[r]? = some ⟨.round id, args⟩ →
      args.Pairwise (· < ·) := by
  constructor
  · intro hlined r id args hround
    rw [hlined r id args (Nat.zero_le r) hround]
    exact g.pendingAt_pairwise r
  · intro hsorted r id args _ hround
    have hargs := hsorted r id args hround
    have hpending := g.pendingAt_pairwise r
    have hperm : args.Perm (g.pendingAt r) := by
      apply (List.perm_ext_iff_of_nodup (hargs.imp Nat.ne_of_lt) (hpending.imp Nat.ne_of_lt)).mpr
      exact fun v => h.mem_pendingAt hg hround
    exact hperm.eq_of_pairwise (fun a b _ _ hab hba => absurd hab (Nat.lt_asymm hba)) hargs hpending

/-! ## After `round_schedule` -/

/-- The level a position of the new list belongs to. -/
def levelOf (g : Graph) : Source → Nat
  | .node i => (g.facts i).net
  | .round l | .result l _ => l

/-- Where in its level it stands. -/
def rankOf (g : Graph) : Source → Nat
  | .node i => i
  | .round _ => g.nodes.length
  | .result _ k => g.nodes.length + 1 + k

/-- Level by level, and in a level the nodes in their order, then the round and its results. -/
def Before (g : Graph) (a b : Source) : Prop :=
  g.levelOf a < g.levelOf b ∨ g.levelOf a = g.levelOf b ∧ g.rankOf a < g.rankOf b

theorem levelSources_level {level : Nat} {source : Source} (h : source ∈ g.levelSources level) :
    g.levelOf source = level := by
  unfold levelSources at h
  rcases List.mem_append.mp h with h | h
  · obtain ⟨i, hi, rfl⟩ := List.mem_map.mp h
    exact (mem_levelNodes.mp hi).2.2
  · split at h
    · cases h
    · rcases List.mem_cons.mp h with rfl | h
      · rfl
      · obtain ⟨k, _, rfl⟩ := List.mem_map.mp h
        rfl

theorem levelSources_pairwise (g : Graph) (level : Nat) :
    (g.levelSources level).Pairwise fun a b => g.rankOf a < g.rankOf b := by
  have hnodes : ∀ i ∈ g.levelNodes g.nodes.length level, i < g.nodes.length :=
    fun i hi => (mem_levelNodes.mp hi).1
  unfold levelSources
  rw [List.pairwise_append]
  refine ⟨?_, ?_, ?_⟩
  · rw [List.pairwise_map]
    exact g.levelNodes_sorted _ level
  · split
    · exact .nil
    · unfold blockSources
      rw [List.pairwise_cons]
      constructor
      · intro b hb
        obtain ⟨k, _, rfl⟩ := List.mem_map.mp hb
        show g.nodes.length < g.nodes.length + 1 + k
        omega
      · rw [List.pairwise_map]
        apply List.pairwise_lt_range.imp
        intro k k' hlt
        exact Nat.add_lt_add_left hlt _
  · intro a ha b hb
    obtain ⟨i, hi, rfl⟩ := List.mem_map.mp ha
    have hrank : g.nodes.length ≤ g.rankOf b := by
      split at hb
      · cases hb
      · rcases List.mem_cons.mp hb with rfl | hb
        · exact Nat.le_refl _
        · obtain ⟨k, _, rfl⟩ := List.mem_map.mp hb
          show g.nodes.length ≤ g.nodes.length + 1 + k
          omega
    exact Nat.lt_of_lt_of_le (hnodes i hi) hrank

/-- **The new list is in order.** -/
theorem sourcesBelow_pairwise (g : Graph) (levels : Nat) :
    (g.sourcesBelow levels).Pairwise g.Before := by
  refine List.pairwise_flatMap.mpr ⟨?_, ?_⟩
  · intro l _
    apply List.Pairwise.imp_of_mem _ (g.levelSources_pairwise l)
    intro a b ha hb hlt
    exact .inr ⟨(levelSources_level ha).trans (levelSources_level hb).symm, hlt⟩
  · apply List.pairwise_lt_range.imp
    intro l l' hlt a ha b hb
    left
    rw [levelSources_level ha, levelSources_level hb]
    exact hlt

section Scheduled

variable {h k : Graph} {remap : List (Option ValueId)}

/-- Positions in front come from sources in front. -/
theorem before_of_lt {x y : Nat} {a b : Source} (hx : (h.sourcesBelow (h.maxDepth + 1))[x]? = some a)
    (hy : (h.sourcesBelow (h.maxDepth + 1))[y]? = some b) (hlt : x < y) : h.Before a b := by
  obtain ⟨hx', rfl⟩ := List.getElem?_eq_some_iff.mp hx
  obtain ⟨hy', rfl⟩ := List.getElem?_eq_some_iff.mp hy
  exact List.pairwise_iff_getElem.mp (h.sourcesBelow_pairwise _) x y hx' hy' hlt

/-- A merged round is on the level of its products. -/
theorem Scheduled.round_source (hh : h.IsSplit) (hr : Scheduled h k remap) {r : Nat} {id : RoundId}
    {args : List ValueId} (hround : k.nodes[r]? = some ⟨.round id, args⟩) :
    ∃ l, (h.sourcesBelow (h.maxDepth + 1))[r]? = some (.round l) ∧
      args = ((h.allRounds l).map Prod.fst).map (placeOf remap) ∧ (k.facts r).net = l ∧
      ∀ v ∈ args, (k.facts v).net = l := by
  have hk := hr.isLowered hh
  obtain ⟨source, hsource, hbecomes⟩ := hr.standing hround
  cases hbecomes with
  | node _ c _ _ hplain hop _ =>
    rw [← hop] at hplain
    cases hplain
  | round l _ _ hren =>
    have hargs : ∀ v ∈ args, (k.facts v).net = l := by
      intro v hv
      obtain ⟨m, hm, hmv⟩ := hren.source hv
      obtain ⟨e, he, rfl⟩ := List.mem_map.mp hm
      rw [hr.facts_eq hh hmv]
      obtain ⟨s, _, _, rfl, _, _, _, hlevel, _⟩ := hh.levelRounds_entry he
      exact hlevel
    refine ⟨l, hsource, renamed_eq_map hren, ?_, hargs⟩
    -- A level without products has no round.
    have hne : (h.allRounds l).isEmpty = false := by
      have hmem : l ∈ (h.sourcesBelow (h.maxDepth + 1)).filterMap roundLevel? :=
        List.mem_filterMap.mpr ⟨_, List.mem_of_getElem? hsource, rfl⟩
      rw [sources_rounds] at hmem
      simpa using (List.mem_filter.mp hmem).2
    obtain ⟨e, he⟩ := List.exists_mem_of_ne_nil _ (List.isEmpty_eq_false_iff.mp hne)
    obtain ⟨v, hv, _⟩ := hren.target (List.mem_map_of_mem (f := Prod.fst) he)
    have hnet : ∀ x ∈ (args.map k.facts).map Facts.net, x = l := by
      intro x hx
      rw [List.map_map] at hx
      obtain ⟨u, hu, rfl⟩ := List.mem_map.mp hx
      exact hargs u hu
    rw [CircomMpc.facts_eq hk.indexed hround]
    show maxNet (args.map k.facts) = l
    apply Nat.le_antisymm
    · exact foldl_max_le (Nat.zero_le l) fun x hx => Nat.le_of_eq (hnet x hx)
    · apply le_foldl_max
      right
      rw [List.map_map]
      exact List.mem_map.mpr ⟨v, hv, hargs v hv⟩

/-- A product or a round is on the level of its source. -/
theorem Scheduled.raw_source (hh : h.IsSplit) (hr : Scheduled h k remap) {x : Nat}
    (hx : k.isRawAt x = true) : ∃ a, (h.sourcesBelow (h.maxDepth + 1))[x]? = some a ∧
      (k.facts x).net = h.levelOf a := by
  cases hnode : k.nodes[x]? with
  | none =>
    rw [isRawAt, hnode] at hx
    cases hx
  | some node =>
    obtain ⟨op, args⟩ := node
    obtain ⟨source, hsource, hbecomes⟩ := hr.standing hnode
    refine ⟨source, hsource, ?_⟩
    cases hbecomes with
    | node i c new hc _ _ _ =>
      exact congrArg Facts.net (hr.facts_eq hh (hr.arranged.node x i hsource).1)
    | round l id _ hren =>
      obtain ⟨l', hsource', _, hnet, _⟩ := hr.round_source hh hnode
      rw [hsource] at hsource'
      cases hsource'
      exact hnet
    | result l k' q =>
      rw [isRawAt_of hnode] at hx
      cases hx

theorem Scheduled.layered (hh : h.IsSplit) (hr : Scheduled h k remap) : k.Layered where
  level r id args hround v hv := by
    obtain ⟨l, _, _, hnet, hargs⟩ := hr.round_source hh hround
    rw [hnet, hargs v hv]
  alone r r' id id' args args' hround hround' hsame := by
    obtain ⟨l, hsource, _, hnet, _⟩ := hr.round_source hh hround
    obtain ⟨l', hsource', _, hnet', _⟩ := hr.round_source hh hround'
    have hll : l = l' := by rw [← hnet, ← hnet', hsame]
    subst hll
    have hnot : ¬ h.Before (.round l) (.round l) := by simp [Before]
    -- A level has one round, and the sources come in their order.
    rcases Nat.lt_trichotomy r r' with hlt | heq | hgt
    · exact absurd (before_of_lt hsource hsource' hlt) hnot
    · exact heq
    · exact absurd (before_of_lt hsource' hsource hgt) hnot
  ordered x y hle _ hx hy := by
    obtain ⟨a, hsource, hnet⟩ := hr.raw_source hh hx
    obtain ⟨b, hsource', hnet'⟩ := hr.raw_source hh hy
    rw [hnet, hnet']
    rcases Nat.lt_or_eq_of_le hle with hlt | rfl
    · rcases before_of_lt hsource hsource' hlt with hbefore | ⟨heq, _⟩
      · exact Nat.le_of_lt hbefore
      · exact Nat.le_of_eq heq
    · rw [hsource] at hsource'
      cases hsource'
      exact Nat.le_refl _

/-- A merged round lists its products as they were emitted. -/
theorem Scheduled.slots_pairwise (hh : h.IsSplit) (hr : Scheduled h k remap) {r : Nat} {id : RoundId}
    {args : List ValueId} (hround : k.nodes[r]? = some ⟨.round id, args⟩) :
    args.Pairwise (· < ·) := by
  obtain ⟨l, _, rfl, _, _⟩ := hr.round_source hh hround
  have hsorted : ((h.allRounds l).map Prod.fst).Pairwise (· < ·) := by
    rw [allRounds, levelRounds, List.map_map, List.pairwise_map]
    apply List.Pairwise.imp_of_mem _ (List.Pairwise.filter _ List.pairwise_lt_range)
    intro i j hi _ hlt
    -- In front of every round stands its product.
    have hpos : 0 < i := by
      obtain ⟨_, hat⟩ := List.mem_filter.mp hi
      have hentry : (i - 1, i + 1) ∈ h.levelRounds h.nodes.length l := by
        rw [Bool.and_eq_true, beq_iff_eq] at hat
        exact mem_levelRounds.mpr ⟨i, List.mem_range.mp (List.mem_filter.mp hi).1, hat.1, hat.2, rfl⟩
      obtain ⟨s, _, _, heq, _⟩ := hh.levelRounds_entry hentry
      have hsnd := congrArg Prod.snd heq
      dsimp only at hsnd
      omega
    show i - 1 < j - 1
    omega
  rw [List.pairwise_map]
  apply List.Pairwise.imp_of_mem _ hsorted
  intro m m' hm hm' hlt
  have hplace : ∀ m ∈ (h.allRounds l).map Prod.fst, ∃ u : Nat, placeOf remap m = u ∧
      remap[m]? = some (some u) ∧ (h.sourcesBelow (h.maxDepth + 1))[u]? = some (.node m) ∧
        (h.facts m).net = l := by
    intro m hm
    obtain ⟨e, he, rfl⟩ := List.mem_map.mp hm
    obtain ⟨s, _, _, rfl, hlocal, _, _, hlevel, _⟩ := hh.levelRounds_entry he
    obtain ⟨u, _, hsu, _, _⟩ := hr.local_at hh hlocal
    refine ⟨u, placeOf_eq hsu, hsu, ?_, hlevel⟩
    rcases hr.arranged.source _ u hsu with hsource | ⟨l', k', m', _, hentry⟩
    · exact hsource
    · obtain ⟨_, hresult⟩ := hh.allRounds_result hentry
      rw [hlocal] at hresult
      cases hresult
  obtain ⟨u, hu, hremap, hsource, hlevel⟩ := hplace m hm
  obtain ⟨u', hu', hremap', hsource', hlevel'⟩ := hplace m' hm'
  rw [hu, hu']
  rcases Nat.lt_trichotomy u u' with hfront | heq | hbehind
  · exact hfront
  · rw [heq] at hremap
    exact absurd (hr.injective hremap hremap') (Nat.ne_of_lt hlt)
  · rcases before_of_lt hsource' hsource hbehind with hless | ⟨_, hrank⟩
    · unfold levelOf at hless
      dsimp only at hless
      rw [hlevel, hlevel'] at hless
      exact absurd hless (Nat.lt_irrefl l)
    · exact absurd hlt (Nat.lt_asymm hrank)

/-- **After `round_schedule` the rounds line up.** -/
theorem Scheduled.linedUp (hh : h.IsSplit) (hr : Scheduled h k remap) : k.LinedUp :=
  ((hr.layered hh).linedUp_iff (hr.isLowered hh)).mpr fun _ _ _ => hr.slots_pairwise hh

end Scheduled

/-! ## After `wide_schedule` -/

/-- Every round lists its products in the order of their full levels. -/
def Ascending (g : Graph) : Prop :=
  ∀ (r : Nat) (id : RoundId) (args : List ValueId), g.nodes[r]? = some ⟨.round id, args⟩ →
    args.Pairwise fun a b => g.full a ≤ g.full b

/-- `Ascending` of one node, as a check. -/
def ascendingCheck (g : Graph) (node : Node) : Bool :=
  match node.op with
  | .round _ => decide (node.inputs.Pairwise fun a b => g.full a ≤ g.full b)
  | _ => true

/-- Whether the products come in that order can be checked. -/
instance (g : Graph) : Decidable g.Ascending :=
  decidable_of_iff (∀ node ∈ g.nodes, g.ascendingCheck node = true) <| by
    constructor
    · intro h r id args hround
      have hcheck := h _ (List.mem_of_getElem? hround)
      rw [ascendingCheck, decide_eq_true_eq] at hcheck
      exact hcheck
    · intro h node hmem
      obtain ⟨r, hr⟩ := List.mem_iff_getElem?.mp hmem
      obtain ⟨op, args⟩ := node
      cases op
      case round id => exact decide_eq_true (h r id args hr)
      all_goals rfl

section Widened

open WideSchedule

variable {k g' : Graph} {remap : List (Option ValueId)} {us : List NodeRange}

theorem isRoundResult_of_isRaw {g : Graph} {v : Nat} (h : g.isRawAt v = true) :
    g.isRoundResult v = false := by
  cases hnode : g.nodes[v]? with
  | none =>
    rw [isRawAt, hnode] at h
    cases h
  | some node =>
    rw [isRawAt_of hnode] at h
    rw [isRoundResult, hnode]
    obtain ⟨op, args⟩ := node
    cases op <;> first | rfl | cases h

/-- A product or a round starts a unit. -/
theorem Widened.unit_of_isRaw (hk : k.IsLowered) (hw : Widened k g' remap us) {v : Nat}
    (h : k.isRawAt v = true) : ∃ u ∈ us, u.start = v ∧ v ∈ u.indices := by
  have hnode : ∃ node, k.nodes[v]? = some node := by
    cases hnode : k.nodes[v]? with
    | none =>
      rw [isRawAt, hnode] at h
      cases h
    | some node => exact ⟨node, rfl⟩
  obtain ⟨node, hnode⟩ := hnode
  have hmem : v ∈ us.flatMap NodeRange.indices :=
    hw.perm.mem_iff.mpr (List.mem_range.mpr (List.getElem?_eq_some_iff.mp hnode).1)
  obtain ⟨u, hu, hv⟩ := List.mem_flatMap.mp hmem
  refine ⟨u, hu, ?_, hv⟩
  by_contra hne
  obtain ⟨_, _, _, _, _, _, _, hresult⟩ := hk.unit_result (hw.each u hu) hv (Ne.symm hne)
  rw [isRawAt_of hresult] at h
  cases h

/-- Products of one network level are moved by their full levels only. -/
theorem Widened.lt_iff (hk : k.IsLowered) (hw : Widened k g' remap us) (hstable : k.Stable us)
    {a b a' b' : Nat} (ha : k.isRawAt a = true) (hb : k.isRawAt b = true) (hab : a < b)
    (hnet : (k.facts a).net = (k.facts b).net) (haa : remap[a]? = some (some a'))
    (hbb : remap[b]? = some (some b')) : a' < b' ↔ k.full a ≤ k.full b := by
  have hraw : ∀ {v v' : Nat}, k.isRawAt v = true → remap[v]? = some (some v') →
      v' < g'.nodes.length ∧ g'.isRoundResult v' = false := by
    intro v v' hv hvv
    obtain ⟨node, hnode⟩ : ∃ node, g'.nodes[v']? = some node :=
      ⟨_, List.getElem?_eq_getElem (hw.reordered.target_lt hvv)⟩
    refine ⟨hw.reordered.target_lt hvv, isRoundResult_of_isRaw ?_⟩
    obtain ⟨i, c, hiv, hc, hop, _⟩ := hw.standing hnode
    cases hw.injective hiv hvv
    rw [isRawAt_of hc] at hv
    rw [isRawAt_of hnode, hop]
    exact hv
  constructor
  · intro hlt
    have hkey := hw.isWide hk a' b' (Nat.le_of_lt hlt) (hraw hb hbb).1 (hraw ha haa).2
      (hraw hb hbb).2
    rw [keyLe_iff, levels, levels, hw.facts_eq hk haa, hw.facts_eq hk hbb, hw.full_eq hk haa,
      hw.full_eq hk hbb] at hkey
    rcases hkey with hless | ⟨_, hfull⟩
    · exact absurd (hnet ▸ hless) (Nat.lt_irrefl _)
    · exact hfull
  · intro hfull
    obtain ⟨w, hwmem, rfl, hain⟩ := hw.unit_of_isRaw hk ha
    obtain ⟨u, humem, rfl, hbin⟩ := hw.unit_of_isRaw hk hb
    have hblocks := (hstable u humem w hwmem hab (keyLe_iff.mpr (.inr ⟨hnet, hfull⟩))).flatMap
      NodeRange.indices
    have hmembers : [w.start, u.start].Sublist ([w, u].flatMap NodeRange.indices) := by
      rw [List.flatMap_cons, List.flatMap_singleton]
      exact (List.singleton_sublist.mpr hain).append (List.singleton_sublist.mpr hbin)
    have hpair := hmembers.trans hblocks
    -- What stands in front in the order stands in front of it at its place.
    have hpos := hw.reordered.source _ b' hbb
    obtain ⟨hlt, hget⟩ := List.getElem?_eq_some_iff.mp hpos
    have hsplit : us.flatMap NodeRange.indices = (us.flatMap NodeRange.indices).take b' ++
        u.start :: (us.flatMap NodeRange.indices).drop (b' + 1) := by
      rw [← hget, List.cons_getElem_drop_succ, List.take_append_drop]
    have hnodup := hw.order_nodup
    rw [hsplit] at hpair hnodup
    have hfront := mem_front_of_sublist hnodup hpair
    obtain ⟨q, hq⟩ := List.mem_iff_getElem?.mp hfront
    rw [List.getElem?_take] at hq
    split at hq
    · next hqb =>
      have hsame := (hw.reordered.moved q _ hq).1
      rw [haa] at hsame
      cases hsame
      exact hqb
    · cases hq

theorem Widened.layered (hk : k.IsLowered) (hlayers : k.Layered) (hw : Widened k g' remap us) :
    g'.Layered where
  level r id args hround v hv := by
    obtain ⟨s, ⟨op, refs⟩, hsr, hs, hop, hren⟩ := hw.standing hround
    cases hop
    obtain ⟨m, hm, hmv⟩ := hren.source hv
    rw [hw.facts_eq hk hsr, hw.facts_eq hk hmv]
    exact hlayers.level s id refs hs m hm
  alone r r' id id' args args' hround hround' hsame := by
    obtain ⟨s, ⟨op, refs⟩, hsr, hs, hop, _⟩ := hw.standing hround
    obtain ⟨s', ⟨op', refs'⟩, hsr', hs', hop', _⟩ := hw.standing hround'
    cases hop
    cases hop'
    rw [hw.facts_eq hk hsr, hw.facts_eq hk hsr'] at hsame
    cases hlayers.alone s s' _ _ _ _ hs hs' hsame
    rw [hsr] at hsr'
    cases hsr'
    rfl
  ordered x y hle hy hx hy' := by
    have hkey := hw.isWide hk x y hle hy (isRoundResult_of_isRaw hx) (isRoundResult_of_isRaw hy')
    rcases keyLe_iff.mp hkey with hless | ⟨heq, _⟩
    · exact Nat.le_of_lt hless
    · exact Nat.le_of_eq heq

/-- **After `wide_schedule` the rounds line up if they were in the order it sorts by.** -/
theorem Widened.linedUp_iff (hk : k.IsLowered) (hlayers : k.Layered)
    (hsorted : ∀ (r : Nat) (id : RoundId) (args : List ValueId),
      k.nodes[r]? = some ⟨.round id, args⟩ → args.Pairwise (· < ·))
    (hw : Widened k g' remap us) (hstable : k.Stable us) : g'.LinedUp ↔ k.Ascending := by
  -- The widening kept the round's list, so it lines up if its products kept their order.
  have hslots : ∀ {s : Nat} {id : RoundId} {refs args : List ValueId},
      k.nodes[s]? = some ⟨.round id, refs⟩ → Renamed remap refs args →
        (args.Pairwise (· < ·) ↔ refs.Pairwise fun a b => k.full a ≤ k.full b) := by
    intro s id refs args hs hren
    have hplace : ∀ m ∈ refs, k.isRawAt m = true ∧ ∃ u : Nat, placeOf remap m = u ∧
        remap[m]? = some (some u) := by
      intro m hm
      obtain ⟨args', hlocal⟩ := mem_localProducts.mp
        (hk.slots.mem_iff.mp (mem_slots.mpr ⟨id, refs, List.mem_of_getElem? hs, hm⟩))
      obtain ⟨u, _, hmu⟩ := hren.target hm
      exact ⟨isRawAt_of hlocal, u, placeOf_eq hmu, hmu⟩
    -- Two products of a round are in the order of their full levels, and else of their ids.
    have hpair : ∀ a ∈ refs, ∀ b ∈ refs, a < b →
        (placeOf remap a < placeOf remap b ↔ k.full a ≤ k.full b) := by
      intro a ha b hb hab
      obtain ⟨hraw, a', haa, hremap⟩ := hplace a ha
      obtain ⟨hraw', b', hbb, hremap'⟩ := hplace b hb
      rw [haa, hbb]
      apply hw.lt_iff hk hstable hraw hraw' hab _ hremap hremap'
      rw [hlayers.level s id refs hs a ha, hlayers.level s id refs hs b hb]
    have hrefs := hsorted s id refs hs
    rw [renamed_eq_map hren, List.pairwise_map]
    constructor
    · intro h
      exact (hrefs.and h).imp_of_mem fun ha hb hboth => (hpair _ ha _ hb hboth.1).mp hboth.2
    · intro h
      exact (hrefs.and h).imp_of_mem fun ha hb hboth => (hpair _ ha _ hb hboth.1).mpr hboth.2
  rw [(hw.layered hk hlayers).linedUp_iff (hw.isLowered hk)]
  constructor
  · intro h s id refs hs
    obtain ⟨t, args, _, hround, hren⟩ := hw.target hs
    exact (hslots hs hren).mp (h t id args hround)
  · intro h r id args hround
    obtain ⟨s, ⟨op, refs⟩, _, hs, hop, hren⟩ := hw.standing hround
    cases hop
    exact (hslots hs hren).mpr (h s id refs hs)

end Widened

/-! ## Graphs whose sites all work on secrets -/

/-- Every gadget site is invoked on a secret. -/
def SecretSites (g : Graph) : Prop :=
  ∀ (v : Nat) (site : GadgetId) (args : List ValueId), g.nodes[v]? = some ⟨.gadget site, args⟩ →
    (g.facts v).domain ≠ .public

/-- Where no site is run in the clear, both levels charge the same. -/
theorem SecretSites.full_eq_net (hg : g.IsLowered) (hread : ResultsRead g.nodes)
    (h : g.SecretSites) {v : Nat} (hv : v < g.nodes.length) : g.full v = (g.facts v).net := by
  induction v using Nat.strongRecOn with
  | ind v ih =>
    obtain ⟨node, hnode⟩ : ∃ node, g.nodes[v]? = some node := ⟨_, List.getElem?_eq_getElem hv⟩
    rw [full_eq hg.indexed hnode, facts_eq hg.indexed hnode]
    have hback := hg.indexed.ordered v node hnode
    -- The operands' levels agree, by induction.
    have hmap : node.inputs.map g.full = (node.inputs.map g.facts).map Facts.net := by
      rw [List.map_map]
      exact List.map_congr_left fun u hu => ih u (hback u hu) ((hback u hu).trans hv)
    have harity := hg.indexed.arity node (List.mem_of_getElem? hnode)
    obtain ⟨op, inputs⟩ := node
    cases op
    case input => rfl
    case constant => rfl
    case roundResult =>
      obtain ⟨u, rfl⟩ := eq_singleton (harity 1 rfl)
      rw [hmap]
      rfl
    case gadgetResult slot =>
      obtain ⟨u, rfl⟩ := eq_singleton (harity 1 rfl)
      obtain ⟨site, args, hu⟩ := hread _ (List.mem_of_getElem? hnode) slot rfl u (by simp)
      have hsecret := h u site args hu
      rw [hmap]
      show (g.facts u).net + 1 = (netRule g (.gadgetResult slot) [g.facts u]).net
      rw [netRule_gadgetResult, if_neg hsecret]
    all_goals
      show (inputs.map g.full).foldl max 0 = ((inputs.map g.facts).map Facts.net).foldl max 0
      rw [hmap]

/-- Then every round's products are on one level, however they are counted. -/
theorem SecretSites.ascending (hg : g.IsLowered) (hread : ResultsRead g.nodes)
    (hlayers : g.Layered) (h : g.SecretSites) : g.Ascending := by
  intro r id args hround
  have hlevel : ∀ v ∈ args, g.full v = (g.facts r).net := by
    intro v hv
    have hlt := (hg.indexed.ordered r _ hround v hv).trans (List.getElem?_eq_some_iff.mp hround).1
    rw [h.full_eq_net hg hread hlt, hlayers.level r id args hround v hv]
  apply List.pairwise_of_forall_mem_list
  intro a ha b hb
  rw [hlevel a ha, hlevel b hb]

theorem Splitted.secretSites {h : Graph} {remap : List (Option ValueId)} (hg : g.Frontend)
    (hs : Splitted g h remap) (hsecret : g.SecretSites) : h.SecretSites := by
  intro q site args hget
  cases hs.built.standing hget with
  | kept j node hjq hnode _ hop _ =>
    obtain ⟨op, refs⟩ := node
    cases hop
    obtain ⟨hlt, hvalue⟩ := (hs.built.placed_facts hg hs.bound).valid j q hjq
    have hfacts : h.facts q = g.splitFacts j := by
      rw [hs.built.facts_eq hg hs.graph hs.bound q hlt]
      exact hvalue
    rw [hfacts, (splitFacts_sameDomain g j).1]
    exact hsecret j site refs hnode
  | product j node id _ _ _ hop => cases hop
  | round s j node id args' _ _ hnew => cases hnew
  | result s j node args' _ _ _ _ hnew => cases hnew

theorem Scheduled.secretSites {h k : Graph} {remap : List (Option ValueId)} (hh : h.IsSplit)
    (hr : Scheduled h k remap) (hsecret : h.SecretSites) : k.SecretSites := by
  intro q site args hget
  obtain ⟨j, ⟨op, refs⟩, hjq, hj, hop, _⟩ := hr.plain hget rfl
  cases hop
  rw [hr.facts_eq hh hjq]
  exact hsecret j site refs hj

end Graph
end CircomMpc
