import CircomMpc.Passes.Mpc.Lowering
import CircomMpc.Passes.Mpc.GadgetMinimal

/-!
# How many batches a lowered graph has

The widening leaves the nodes in the order of their levels, but for the results of rounds, and those
read no site. A shared site's readers are on a higher network level than the site, so none of them
stands in front of another site of the key: no two of its sites exclude each other. A public site's
readers are on a higher full level, and sites that exclude each other are on ascending ones. One
batch is due to each of a set of sites that exclude each other, so these are the bounds.
-/

namespace CircomMpc

open Lib CircomMpc.Graph

namespace Graph

/-! ## The lowered graph hosts its sites -/

/-- Gadget results read gadget nodes. -/
def ResultsRead (nodes : List Node) : Prop :=
  ∀ node ∈ nodes, ∀ slot, node.op = .gadgetResult slot →
    ∀ v ∈ node.inputs, ∃ site inputs, nodes[v]? = some ⟨.gadget site, inputs⟩

/-- A pass that carries gadget nodes and their results over keeps that. -/
theorem ResultsRead.of_moved {old new : List Node} {remap : List (Option ValueId)}
    (h : ResultsRead old)
    (hresult : ∀ (q slot : Nat) (args : List ValueId),
      new[q]? = some ⟨.gadgetResult slot, args⟩ → ∃ (i : Nat) (refs : List ValueId),
        old[i]? = some ⟨.gadgetResult slot, refs⟩ ∧ Renamed remap refs args)
    (hgadget : ∀ (i t : Nat) (site : GadgetId) (refs : List ValueId),
      old[i]? = some ⟨.gadget site, refs⟩ → remap[i]? = some (some t) →
        ∃ args : List ValueId, new[t]? = some ⟨.gadget site, args⟩) :
    ResultsRead new := by
  rintro ⟨op, args⟩ hmem slot hop v hv
  cases hop
  obtain ⟨q, hq⟩ := List.mem_iff_getElem?.mp hmem
  -- Back to what the result was, over to its site, and forward again.
  obtain ⟨i, refs, hi, hren⟩ := hresult q slot args hq
  obtain ⟨u, hu, huv⟩ := hren.source hv
  obtain ⟨site, inputs, hsite⟩ := h _ (List.mem_of_getElem? hi) slot rfl u hu
  obtain ⟨args', hget⟩ := hgadget u v site inputs hsite huv
  exact ⟨site, args', hget⟩

section Passes

variable {g g' : Graph} {remap : List (Option ValueId)}

theorem Splitted.resultsRead (hg : g.Frontend) (h : Splitted g g' remap) :
    ResultsRead g'.nodes := by
  apply ResultsRead.of_moved hg.results
  · intro q slot args hget
    cases h.built.standing hget with
    | kept j node _ hnode _ hop hren =>
      obtain ⟨op, refs⟩ := node
      cases hop
      exact ⟨j, refs, hnode, hren⟩
    | product _ _ _ _ _ _ hop => cases hop
    | round _ _ _ _ _ _ _ hnew => cases hnew
    | result _ _ _ _ _ _ _ _ hnew => cases hnew
  · intro i t site refs hnode hit
    obtain ⟨args, hget, _⟩ := h.built.kept i t _ hit hnode rfl
    exact ⟨args, hget⟩

theorem Scheduled.resultsRead (hg : g.IsSplit) (h : Scheduled g g' remap)
    (hold : ResultsRead g.nodes) : ResultsRead g'.nodes := by
  apply ResultsRead.of_moved hold
  · intro q slot args hget
    obtain ⟨i, ⟨op, refs⟩, _, hc, hop, hren⟩ := h.plain hget rfl
    cases hop
    exact ⟨i, refs, hc, hren⟩
  · intro i t site refs hnode hit
    obtain ⟨c, ⟨op, args⟩, hc, hget, hkind⟩ := h.target hg hit
    rw [hnode] at hc
    cases hc
    rcases hkind with ⟨hop, _⟩ | ⟨hop, _⟩
    · cases hop
      exact ⟨args, hget⟩
    · cases hop

theorem Widened.resultsRead {us : List WideSchedule.NodeRange} (h : Widened g g' remap us)
    (hold : ResultsRead g.nodes) : ResultsRead g'.nodes := by
  apply ResultsRead.of_moved hold
  · intro q slot args hget
    obtain ⟨i, ⟨op, refs⟩, _, hc, hop, hren⟩ := h.standing hget
    cases hop
    exact ⟨i, refs, hc, hren⟩
  · intro i t site refs hnode hit
    obtain ⟨t', args, hit', hget, _⟩ := h.target hnode
    rw [hit] at hit'
    cases hit'
    exact ⟨args, hget⟩

end Passes

theorem Frontend.hosted {g : Graph} (hg : g.Frontend) : g.Hosted :=
  ⟨hg.ordered, hg.arity, hg.results, hg.sites⟩

theorem Lowers.hosted {g h k g' : Graph} (hg : g.Frontend) (hl : Lowers g h k g') :
    g'.Hosted := by
  obtain ⟨_, hs⟩ := hl.split
  obtain ⟨_, hr⟩ := hl.batched
  obtain ⟨_, _, hw⟩ := hl.widened
  have hlowered := hl.isLowered hg
  have himplements := hl.implements hg
  refine ⟨hlowered.indexed.ordered, hlowered.indexed.arity, ?_, ?_⟩
  · exact hw.resultsRead (hr.resultsRead (hl.isSplit hg) (hs.resultsRead hg))
  · rw [show g'.gadgetSites = g.gadgetSites by rw [himplements.graph]]
    exact himplements.sites_perm.trans hg.sites

/-! ## The order of the nodes -/

/-- The levels the widening sorts by. -/
def levels (g : Graph) (v : ValueId) : Nat × Nat := ((g.facts v).net, g.full v)

/-- Whether a node is a result of a round. -/
def isRoundResult (g : Graph) (v : ValueId) : Bool :=
  g.nodes[v]?.any fun node => match node.op with
    | .roundResult _ => true
    | _ => false

/-- The nodes stand in the order of their levels, apart from the results of rounds, which stand
    behind their round. -/
def IsWide (g : Graph) : Prop :=
  ∀ q q' : Nat, q ≤ q' → q' < g.nodes.length → g.isRoundResult q = false →
    g.isRoundResult q' = false → WideSchedule.keyLe (g.levels q) (g.levels q') = true

open WideSchedule in
/-- **The widening leaves a wide graph.** -/
theorem Widened.isWide {g g' : Graph} {remap : List (Option ValueId)} {us : List NodeRange}
    (hg : g.IsLowered) (h : Widened g g' remap us) : g'.IsWide := by
  have hpairs : (us.flatMap NodeRange.indices).Pairwise fun i j => g.isRoundResult i = false →
      g.isRoundResult j = false → keyLe (g.levels i) (g.levels j) = true := by
    -- Only its start is not a round's result in a unit.
    have hstart : ∀ u ∈ us, ∀ v ∈ u.indices, g.isRoundResult v = false → v = u.start := by
      intro u hu v hv hnot
      by_contra hne
      obtain ⟨k, _, _, _, _, _, _, hresult⟩ := hg.unit_result (h.each u hu) hv hne
      rw [isRoundResult, hresult] at hnot
      cases hnot
    refine List.pairwise_flatMap.mpr ⟨?_, ?_⟩
    · intro u hu
      apply List.Pairwise.imp_of_mem _ (List.pairwise_lt_range' : u.indices.Pairwise (· < ·))
      intro i j hi hj hij hnot hnot'
      rw [hstart u hu i hi hnot, hstart u hu j hj hnot'] at hij
      exact absurd hij (Nat.lt_irrefl _)
    · apply List.Pairwise.imp_of_mem _ h.sorted
      intro u w hu hw hkey i hi j hj hnot hnot'
      rw [hstart u hu i hi hnot, hstart w hw j hj hnot']
      exact hkey
  intro q q' hle hq' hnot hnot'
  have hback : ∀ p < g'.nodes.length, g'.isRoundResult p = false → ∃ i,
      (us.flatMap NodeRange.indices)[p]? = some i ∧ g.isRoundResult i = false ∧
        g'.levels p = g.levels i := by
    intro p hp hresult
    have hnode : g'.nodes[p]? = some g'.nodes[p] := List.getElem?_eq_getElem hp
    obtain ⟨i, c, hip, hc, hop, _⟩ := h.standing hnode
    refine ⟨i, h.reordered.source i p hip, ?_, ?_⟩
    · rw [isRoundResult, hnode] at hresult
      rw [isRoundResult, hc]
      simpa [hop] using hresult
    · rw [levels, levels, h.facts_eq hg hip, h.full_eq hg hip]
  obtain ⟨i, hi, hinot, hilevels⟩ := hback q (Nat.lt_of_le_of_lt hle hq') hnot
  obtain ⟨j, hj, hjnot, hjlevels⟩ := hback q' hq' hnot'
  rw [hilevels, hjlevels]
  rcases Nat.lt_or_eq_of_le hle with hlt | heq
  · obtain ⟨hq₁, hget⟩ := List.getElem?_eq_some_iff.mp hi
    obtain ⟨hq₂, hget'⟩ := List.getElem?_eq_some_iff.mp hj
    have hpair := List.pairwise_iff_getElem.mp hpairs q q' hq₁ hq₂ hlt
    rw [hget, hget'] at hpair
    exact hpair hinot hjnot
  · rw [heq, hj] at hi
    cases hi
    exact keyLe_iff.mpr (.inr ⟨rfl, Nat.le_refl _⟩)

/-! ## Readers are on a higher level -/

/-- A site's node. -/
theorem Hosted.siteAt {g : Graph} (hg : g.Hosted) {key : GadgetSchedule.BatchKey} {site : GadgetId}
    (hsite : site ∈ g.sitesOf key) : g.SiteAt site (g.siteNodeOf site) ∧
      (g.facts (g.siteNodeOf site)).net = key.2.1 ∧
      (g.facts (g.siteNodeOf site)).domain = key.2.2.1 := by
  obtain ⟨hrange, hkey⟩ := List.mem_filter.mp hsite
  have hlt := List.mem_range.mp hrange
  obtain ⟨v, hat⟩ := hg.exists_siteAt hlt
  rw [siteKey_eq hg (List.getElem?_eq_getElem hlt) hat, beq_iff_eq] at hkey
  rw [siteNodeOf_eq hg hat, ← Option.some.inj hkey]
  exact ⟨hat, rfl, rfl⟩

/-- A reader of a site's results is on a higher full level, and one of a shared site's on a higher
    network level. -/
theorem Hosted.reader_levels {g : Graph} (hg : g.Hosted) {site v reader : Nat}
    (hat : g.SiteAt site v) (hreader : g.ReadsResult reader site) :
    g.full v < g.full reader ∧
      ((g.facts v).domain = .shared → (g.facts v).net < (g.facts reader).net) := by
  obtain ⟨result, slot, ⟨node, hnode, hread⟩, u, hresult, hat'⟩ := hreader
  cases hg.siteAt_unique hat hat'
  -- The result is one level above its site, and its reader no lower than the result.
  have hfull : g.full result = g.full v + 1 := by
    rw [full_eq hg.indexed hresult]
    rfl
  refine ⟨?_, ?_⟩
  · have := full_mono hg.indexed hnode hread
    omega
  · intro hshared
    have hnet : (g.facts result).net = (g.facts v).net + 1 := by
      rw [facts_eq hg.indexed hresult, List.map_singleton, netRule_gadgetResult, hshared]
      rfl
    have := net_mono hg.indexed hnode hread
    omega

/-- A result of a round reads its round only. -/
theorem IsLowered.reader_not_result {g : Graph} (hl : g.IsLowered) {reader : Nat} {site : GadgetId}
    (hreader : g.ReadsResult reader site) : g.isRoundResult reader = false := by
  obtain ⟨result, slot, ⟨⟨op, inputs⟩, hnode, hread⟩, u, hresult, _⟩ := hreader
  rw [isRoundResult, hnode]
  cases op
  case roundResult k =>
    obtain ⟨r, id, slots, rfl, hk, hround⟩ := hl.result reader k _ hnode
    have hblock := hl.block r id slots hround k hk
    rw [hnode] at hblock
    cases hblock
    rw [List.mem_singleton.mp hread, hround] at hresult
    cases hresult
  all_goals rfl

/-- Where one site of a key excludes another, the key is not shared and the other site is on a higher
    full level. -/
theorem IsWide.excluded {g : Graph} (hg : g.Hosted) (hl : g.IsLowered) (hw : g.IsWide)
    {key : GadgetSchedule.BatchKey} {a b : GadgetId} (ha : a ∈ g.sitesOf key) (hb : b ∈ g.sitesOf key)
    (hab : g.firstReaderOf a ≤ g.siteNodeOf b) :
    key.2.2.1 ≠ .shared ∧ g.full (g.siteNodeOf a) < g.full (g.siteNodeOf b) := by
  obtain ⟨hata, hneta, hdomain⟩ := hg.siteAt ha
  obtain ⟨hatb, hnetb, _⟩ := hg.siteAt hb
  have hreader : g.ReadsResult (g.firstReaderOf a) a := by
    rcases (firstReaderOf_cases hg a).2 with hend | hreader
    · rw [hend] at hab
      exact absurd (Nat.lt_of_lt_of_le hatb.lt hab) (Nat.lt_irrefl _)
    · exact hreader
  -- Neither node is a result of a round, so the widening put the two in the order of their levels.
  have hsource := hl.reader_not_result hreader
  have htarget : g.isRoundResult (g.siteNodeOf b) = false := by
    obtain ⟨inputs, hnode⟩ := hatb
    rw [isRoundResult, hnode]
    rfl
  obtain ⟨hfull, hnet⟩ := hg.reader_levels hata hreader
  rw [hdomain] at hnet
  have hkey := WideSchedule.keyLe_iff.mp (hw _ _ hab hatb.lt hsource htarget)
  rw [levels, levels] at hkey
  dsimp only at hkey
  -- The network levels agree, by the key, so it is the full levels that are apart.
  have hmono : (g.facts (g.siteNodeOf a)).net ≤ (g.facts (g.firstReaderOf a)).net := by
    obtain ⟨result, slot, ⟨node, hnode, hread⟩, u, hresult, hat'⟩ := hreader
    cases hg.siteAt_unique hata hat'
    exact Nat.le_trans (net_mono hg.indexed hresult (by simp)) (net_mono hg.indexed hnode hread)
  refine ⟨?_, ?_⟩
  · intro hshared
    have := hnet hshared
    omega
  · omega

end Graph

namespace GadgetSchedule

variable {g : Graph}

/-- The keys of the shared sites. -/
def sharedKeys (g : Graph) : List BatchKey :=
  (((List.range g.gadgetSites.length).filterMap g.siteKey).filter fun key =>
    key.2.2.1 == .shared).dedup

/-- How many batches each key has, and how many of them are shared: one for a shared key with sites,
    and for a public key at most as many as its sites have full levels. -/
structure Widest (g : Graph) (plans : List BatchPlan) : Prop where
  shared : ∀ key : BatchKey, key.2.2.1 = .shared → g.sitesOf key ≠ [] →
    (plans.filter fun plan => plan.key == key).length = 1
  services : (plans.filter fun plan => plan.domain == .shared).length = (sharedKeys g).length
  cleartext : ∀ key : BatchKey, key.2.2.1 = .public →
    (plans.filter fun plan => plan.key == key).length ≤
      ((g.sitesOf key).map fun site => g.full (g.siteNodeOf site)).dedup.length

/-- A key has a batch if and only if it has a site. -/
theorem Plain.key_mem (hg : g.Hosted) {plans : List BatchPlan} (h : Plain g plans) (key : BatchKey) :
    key ∈ plans.map BatchPlan.key ↔ g.sitesOf key ≠ [] := by
  have hperm := h.partition hg key
  constructor
  · -- Every batch has a site, and its sites are sites of its key.
    intro hmem hnil
    obtain ⟨plan, hplan, rfl⟩ := List.mem_map.mp hmem
    obtain ⟨e, he⟩ := List.exists_mem_of_ne_nil _ (h.windows plan hplan).nonempty
    have hsite : e.1 ∈ g.sitesOf plan.key := by
      rw [← hperm.mem_iff, List.mem_flatMap]
      exact ⟨plan, List.mem_filter.mpr ⟨hplan, by simp⟩, List.mem_map_of_mem he⟩
    rw [hnil] at hsite
    cases hsite
  · intro hne
    obtain ⟨site, hsite⟩ := List.exists_mem_of_ne_nil _ hne
    rw [← hperm.mem_iff, List.mem_flatMap] at hsite
    obtain ⟨plan, hplan, _⟩ := hsite
    obtain ⟨hplan, hkey⟩ := List.mem_filter.mp hplan
    exact List.mem_map.mpr ⟨plan, hplan, eq_of_beq hkey⟩

theorem length_filter_key (plans : List BatchPlan) (key : BatchKey) :
    (plans.filter fun plan => plan.key == key).length = (plans.map BatchPlan.key).count key := by
  rw [List.count, List.countP_map, List.countP_eq_length_filter]
  rfl

theorem mem_sharedKeys {key : BatchKey} :
    key ∈ sharedKeys g ↔ g.sitesOf key ≠ [] ∧ key.2.2.1 = .shared := by
  have hsites : g.sitesOf key ≠ [] ↔ ∃ site ∈ List.range g.gadgetSites.length,
      g.siteKey site = some key := by
    rw [sitesOf, ne_eq, List.filter_eq_nil_iff]
    simp
  unfold sharedKeys
  rw [List.mem_dedup, List.mem_filter, List.mem_filterMap, hsites, beq_iff_eq]

/-- **The batches of a wide graph.** -/
theorem Planned.Minimal.widest (hg : g.Hosted) (hl : g.IsLowered) (hw : g.IsWide)
    {plans : List BatchPlan} (h : Planned.Minimal g plans) : Widest g plans := by
  have hshared : ∀ key : BatchKey, key.2.2.1 = .shared →
      (plans.map BatchPlan.key).count key ≤ 1 := by
    intro key hkey
    obtain ⟨sites, hsites⟩ := h.excluding key
    rw [← length_filter_key, ← hsites.length]
    -- Two batches of a shared key would have a site each that exclude each other.
    by_contra hmany
    obtain ⟨a, b, rest, rfl⟩ : ∃ a b rest, sites = a :: b :: rest := by
      match sites with
      | [] | [_] => simp at hmany
      | a :: b :: rest => exact ⟨a, b, rest, rfl⟩
    have hab := (List.pairwise_cons.mp hsites.apart).1 b (by simp)
    exact (hw.excluded hg hl (hsites.mem a (by simp)) (hsites.mem b (by simp)) hab).1 hkey
  refine ⟨?_, ?_, ?_⟩
  · intro key hkey hne
    rw [length_filter_key]
    exact Nat.le_antisymm (hshared key hkey)
      (List.count_pos_iff.mpr ((h.plain.key_mem hg key).mpr hne))
  · have hperm : ((plans.map BatchPlan.key).filter fun key => key.2.2.1 == .shared).Perm
        (sharedKeys g) := by
      have hnodup : (sharedKeys g).Nodup := List.nodup_dedup _
      apply (List.perm_ext_iff_of_nodup ?_ hnodup).mpr
      · intro key
        rw [List.mem_filter, h.plain.key_mem hg, mem_sharedKeys, beq_iff_eq]
      · apply List.nodup_iff_count_le_one.mpr
        intro key
        cases hkey : key.2.2.1 == Domain.shared with
        | true => exact Nat.le_trans (List.filter_sublist.count_le key) (hshared key (eq_of_beq hkey))
        | false =>
          rw [List.count_eq_zero.mpr]
          · exact Nat.zero_le 1
          · intro hmem
            rw [(List.mem_filter.mp hmem).2] at hkey
            cases hkey
    rw [← hperm.length_eq, List.filter_map, List.length_map]
    rfl
  · intro key _
    obtain ⟨sites, hsites⟩ := h.excluding key
    rw [← hsites.length]
    -- The excluding sites of a public key are on distinct levels, one a batch.
    have hascending : (sites.map fun site => g.full (g.siteNodeOf site)).Pairwise (· < ·) := by
      rw [List.pairwise_map]
      apply List.Pairwise.imp_of_mem _ hsites.apart
      intro a b ha hb hab
      exact (hw.excluded hg hl (hsites.mem a ha) (hsites.mem b hb) hab).2
    have hsubset : (sites.map fun site => g.full (g.siteNodeOf site)) ⊆
        ((g.sitesOf key).map fun site => g.full (g.siteNodeOf site)).dedup := by
      intro level hlevel
      obtain ⟨site, hsite, rfl⟩ := List.mem_map.mp hlevel
      exact List.mem_dedup.mpr (List.mem_map_of_mem (hsites.mem site hsite))
    have hle := (List.Nodup.subperm (hascending.imp Nat.ne_of_lt) hsubset).length_le
    rw [List.length_map] at hle
    exact hle

/-- What `plan_gadget_batches` fuses. -/
def plainBatches (g : Graph) : Except Panic (List BatchPlan) := do
  let ix ← ScheduleIndex.new g
  planPlainBatches g (← computeDomains g) ix

theorem plainBatches_returns (hg : g.Hosted) : Returns (Planned.Minimal g) (plainBatches g) := by
  unfold plainBatches
  apply Meets.bind (ScheduleIndex.new_complete hg)
  intro ix hix
  rw [computeDomains_eq_ok hg.indexed, ok_bind]
  exact planPlainBatches_minimal hg hix

/-- **Batching is minimal.** For every key, no partition of its sites into batches that can be
    serviced at one node has fewer of them; and behind the lowering a shared key has one batch, a
    public one at most as many as its sites have full levels. -/
theorem batching_minimal {g g₀ : Graph} (hg : g.Hosted) (hg₀ : g₀.Frontend) :
    (∃ plans, plainBatches g = .ok plans ∧ Fewest g plans) ∧
      ∃ g' plans, PassManager.runLower g₀ = .ok g' ∧ plainBatches g' = .ok plans ∧
        Fewest g' plans ∧ Widest g' plans := by
  refine ⟨?_, ?_⟩
  · obtain ⟨plans, hplans, hminimal⟩ := (plainBatches_returns hg).ok_of_never
    exact ⟨plans, hplans, hminimal.fewest hg⟩
  · obtain ⟨g', hrun, h, k, hl⟩ := (runLower_returns hg₀).ok_of_never
    have hhosted := hl.hosted hg₀
    have hwide : g'.IsWide := by
      obtain ⟨_, _, hw⟩ := hl.widened
      exact hw.isWide (hl.isLowered_batched hg₀)
    obtain ⟨plans, hplans, hminimal⟩ := (plainBatches_returns hhosted).ok_of_never
    exact ⟨g', plans, hrun, hplans, hminimal.fewest hhosted,
      hminimal.widest hhosted (hl.isLowered hg₀) hwide⟩

/-- Three zero tests of secrets: the first is read before the second's input is there, and the
    second before the third's. -/
def threeTests : Graph where
  nodes := [⟨.input 1, []⟩, ⟨.input 2, []⟩, ⟨.input 3, []⟩,
    ⟨.gadget 0, [0]⟩, ⟨.gadgetResult 0, [3]⟩, ⟨.add, [4, 1]⟩,
    ⟨.add, [1, 2]⟩, ⟨.gadget 1, [6]⟩, ⟨.gadgetResult 0, [7]⟩, ⟨.add, [8, 5]⟩,
    ⟨.add, [2, 0]⟩, ⟨.gadget 2, [10]⟩, ⟨.gadgetResult 0, [11]⟩, ⟨.add, [12, 9]⟩]
  outputs := [(0, 13)]
  gadgetSites := [⟨.isZero, false⟩, ⟨.isZero, false⟩, ⟨.isZero, false⟩]
  numRounds := 0
  signalToWitness := [0, 1, 2, 3, 4]
  inputList := [("a", 0, 3)]
  publicInputs := []
  mpcPublicInputs := []
  numInputs := 3
  numOutputs := 1
  numSignals := 5

/-- Where the sites are numbered in the order of their nodes, the batches are those of the walk over
    them: neither sort has anything to move but the batches themselves. -/
theorem plainBatches_length {g : Graph} {n : Nat} {plans : List BatchPlan}
    (hplans : plainBatches g = .ok plans) (hsites : g.gadgetSites.isEmpty = false)
    (hwalk : (do
      let ix ← ScheduleIndex.new g
      let domains ← computeDomains g
      let stages ← siteStages g domains
      let order := List.range g.gadgetSites.length
      ensure (order.Pairwise fun a b =>
        ix.siteNode.getD a usizeMax ≤ ix.siteNode.getD b usizeMax) (.assertion "out of order")
      let w ← order.foldlM (planSite g domains stages ix) ⟨[], []⟩
      pure w.plans.length : Except Panic Nat).toOption = some n) : plans.length = n := by
  obtain ⟨ix, hix, hplans⟩ := bind_eq_ok.mp hplans
  obtain ⟨domains, hdomains, hplans⟩ := bind_eq_ok.mp hplans
  unfold planPlainBatches at hplans
  rw [hsites] at hplans
  obtain ⟨stages, hstages, hplans⟩ := bind_eq_ok.mp hplans
  rw [hix, ok_bind, hdomains, ok_bind, hstages, ok_bind] at hwalk
  dsimp only at hplans hwalk
  -- The stable sort leaves an ordered list alone; on any other the walk reports nothing.
  by_cases hsorted : (List.range g.gadgetSites.length).Pairwise fun a b =>
      ix.siteNode.getD a usizeMax ≤ ix.siteNode.getD b usizeMax
  · rw [ensure_of hsorted, ok_bind] at hwalk
    rw [List.mergeSort_of_pairwise (hsorted.imp decide_eq_true)] at hplans
    obtain ⟨w, hw, hplans⟩ := bind_eq_ok.mp hplans
    rw [hw] at hwalk
    cases hplans
    cases hwalk
    exact (List.mergeSort_perm _ _).length_eq
  · rw [ensure_of_not hsorted] at hwalk
    cases hwalk

/-- As the frontend leaves them they need three batches; lowered they need one. -/
theorem batching_minimal_threeTests :
    (∃ plans, plainBatches threeTests = .ok plans ∧ plans.length = 3 ∧ Fewest threeTests plans) ∧
      ∃ g' plans, PassManager.runLower threeTests = .ok g' ∧ plainBatches g' = .ok plans ∧
        (plans.filter fun plan => plan.domain == .shared).length = 1 ∧ Fewest g' plans ∧
          Widest g' plans := by
  have hsites : threeTests.Frontend := by decide
  obtain ⟨⟨plans, hplans, hfewest⟩, g', lowered, hlower, hlowered, hfewest', hwidest⟩ :=
    batching_minimal hsites.hosted hsites
  have hthree : plans.length = 3 := plainBatches_length hplans rfl (by decide +kernel)
  have hone : ((PassManager.runLower threeTests).toOption.any fun g' =>
      (sharedKeys g').length == 1) = true := by
    decide +kernel
  rw [hlower] at hone
  exact ⟨⟨plans, hplans, hthree, hfewest⟩, g', lowered, hlower, hlowered,
    hwidest.services.trans (beq_iff_eq.mp hone), hfewest', hwidest⟩

end GadgetSchedule
end CircomMpc
