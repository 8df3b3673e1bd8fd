import CircomMpc.Passes.Mpc.GadgetSchedule

/-!
# What the schedule's index says

`ScheduleIndex::new` goes through the graph once and counts who reads which result. The tables it
returns are read back here as statements about the graph: where a site's node is, that no reader of
a site's results stands in front of `firstReader`, that a result counted once has one reader, and
that a site without an auxiliary read is read at slot zero only.

The loop is followed by what it has seen: `Counts` is about the reads of the nodes so far and
`SiteTable` about their sites. `Describes` says the same of the whole graph and is all that the
planning uses.
-/

namespace CircomMpc

open Lib CircomMpc.Graph GadgetSchedule

/-! ## Sites, results and readers -/

namespace Graph

/-- Node `v` invokes `site`. -/
def SiteAt (g : Graph) (site : GadgetId) (v : ValueId) : Prop :=
  ∃ inputs, g.nodes[v]? = some ⟨.gadget site, inputs⟩

/-- Node `v` is slot `slot` of `site`'s results. -/
def ResultAt (g : Graph) (site : GadgetId) (slot : Nat) (v : ValueId) : Prop :=
  ∃ u, g.nodes[v]? = some ⟨.gadgetResult slot, [u]⟩ ∧ g.SiteAt site u

def Reads (g : Graph) (reader v : ValueId) : Prop :=
  ∃ node, g.nodes[reader]? = some node ∧ v ∈ node.inputs

/-- Node `reader` reads a result of `site`. -/
def ReadsResult (g : Graph) (reader : ValueId) (site : GadgetId) : Prop :=
  ∃ v slot, g.Reads reader v ∧ g.ResultAt site slot v

/-- Some path leads from `site`'s node back to a result of `site'`, so the one has to be serviced
    before the other's inputs are there. -/
def DependsOn (g : Graph) (site site' : GadgetId) : Prop :=
  ∃ v reader, g.SiteAt site v ∧ Relation.ReflTransGen g.Reads v reader ∧ g.ReadsResult reader site'

/-- A topologically ordered graph in which gadget results read gadget nodes and every site has one
    gadget node. -/
structure Hosted (g : Graph) : Prop where
  ordered : Ordered g.nodes
  arity : ∀ node ∈ g.nodes, ∀ arity ∈ node.op.fixedArity, node.inputs.length = arity
  results : ∀ node ∈ g.nodes, ∀ slot, node.op = .gadgetResult slot →
    ∀ v ∈ node.inputs, ∃ site inputs, g.nodes[v]? = some ⟨.gadget site, inputs⟩
  sites : ((invocations g.nodes).map Prod.fst).Perm (List.range g.gadgetSites.length)

/-- A topologically ordered graph in which a gadget node is read by gadget results only and they read
    nothing else, every site has one gadget node, and no slot of a site has two result nodes. -/
structure Sited (g : Graph) : Prop where
  ordered : Ordered g.nodes
  arity : ∀ node ∈ g.nodes, ∀ arity ∈ node.op.fixedArity, node.inputs.length = arity
  results : ∀ node ∈ g.nodes, ∀ slot, node.op = .gadgetResult slot →
    ∀ v ∈ node.inputs, ∃ site inputs, g.nodes[v]? = some ⟨.gadget site, inputs⟩
  unread : ∀ node ∈ g.nodes, node.op.isResult = false →
    ∀ v ∈ node.inputs, ∀ source, g.nodes[v]? = some source → source.invokes = false
  sites : ((invocations g.nodes).map Prod.fst).Perm (List.range g.gadgetSites.length)
  slots : ∀ site slot u v, g.ResultAt site slot u → g.ResultAt site slot v → u = v

variable {g : Graph} {site slot : Nat} {u v : ValueId}

theorem SiteAt.lt (h : g.SiteAt site v) : v < g.nodes.length := by
  obtain ⟨_, hnode⟩ := h
  exact (List.getElem?_eq_some_iff.mp hnode).1

theorem ResultAt.lt (h : g.ResultAt site slot v) : v < g.nodes.length := by
  obtain ⟨_, hnode, _⟩ := h
  exact (List.getElem?_eq_some_iff.mp hnode).1

/-- The site a node invokes. -/
theorem mem_sites_iff : site ∈ (invocations g.nodes).map Prod.fst ↔ ∃ v, g.SiteAt site v := by
  rw [invocations, List.map_filterMap, List.mem_filterMap]
  constructor
  · rintro ⟨⟨op, inputs⟩, hmem, hcall⟩
    obtain ⟨v, hv⟩ := List.mem_iff_getElem?.mp hmem
    cases op <;> simp [Node.call?] at hcall
    subst hcall
    exact ⟨v, inputs, hv⟩
  · rintro ⟨v, inputs, hv⟩
    exact ⟨_, List.mem_of_getElem? hv, rfl⟩

/-- Where no site is invoked twice, it has one node. -/
theorem siteAt_unique_of_nodup (h : ((invocations g.nodes).map Prod.fst).Nodup)
    (hu : g.SiteAt site u) (hv : g.SiteAt site v) : u = v := by
  rw [invocations, List.map_filterMap] at h
  have hpairs := List.pairwise_iff_getElem.mp (List.pairwise_filterMap.mp h)
  have hlater : ∀ {a b : ValueId}, g.SiteAt site a → g.SiteAt site b → ¬ a < b := by
    rintro a b ⟨inputs, ha⟩ ⟨inputs', hb⟩ hab
    obtain ⟨hlta, hgeta⟩ := List.getElem?_eq_some_iff.mp ha
    obtain ⟨hltb, hgetb⟩ := List.getElem?_eq_some_iff.mp hb
    exact hpairs a b hlta hltb hab site (by rw [hgeta]; rfl) site (by rw [hgetb]; rfl) rfl
  exact Nat.le_antisymm (Nat.le_of_not_lt (hlater hv hu)) (Nat.le_of_not_lt (hlater hu hv))

namespace Hosted

theorem siteAt_lt (hg : g.Hosted) (h : g.SiteAt site v) : site < g.gadgetSites.length :=
  List.mem_range.mp (hg.sites.mem_iff.mp (mem_sites_iff.mpr ⟨v, h⟩))

theorem exists_siteAt (hg : g.Hosted) (h : site < g.gadgetSites.length) : ∃ v, g.SiteAt site v :=
  mem_sites_iff.mp (hg.sites.mem_iff.mpr (List.mem_range.mpr h))

/-- No site has two nodes. -/
theorem siteAt_unique (hg : g.Hosted) (hu : g.SiteAt site u) (hv : g.SiteAt site v) : u = v :=
  siteAt_unique_of_nodup (hg.sites.nodup_iff.mpr List.nodup_range) hu hv

theorem indexed (hg : g.Hosted) : g.Indexed where
  ordered := hg.ordered
  arity := hg.arity
  sites node hnode site hop := by
    obtain ⟨op, inputs⟩ := node
    obtain ⟨v, hv⟩ := List.mem_iff_getElem?.mp hnode
    cases hop
    exact hg.siteAt_lt ⟨inputs, hv⟩

/-- A result node is a slot of one site. -/
theorem resultAt (hg : g.Hosted) {inputs : List ValueId}
    (h : g.nodes[v]? = some ⟨.gadgetResult slot, inputs⟩) :
    ∃ u site, inputs = [u] ∧ g.SiteAt site u ∧ g.ResultAt site slot v := by
  have hmem := List.mem_of_getElem? h
  obtain ⟨u, rfl⟩ := eq_singleton (hg.arity _ hmem 1 rfl)
  obtain ⟨site, sources, hsource⟩ := hg.results _ hmem slot rfl u (by simp)
  exact ⟨u, site, rfl, ⟨sources, hsource⟩, u, h, sources, hsource⟩

theorem reads_lt (hg : g.Hosted) (h : g.Reads u v) : v < u := by
  obtain ⟨node, hnode, hv⟩ := h
  exact hg.ordered u node hnode v hv

/-- A result stands behind its site. -/
theorem siteAt_lt_resultAt (hg : g.Hosted) (hu : g.SiteAt site u) (hv : g.ResultAt site slot v) :
    u < v := by
  obtain ⟨a, hnode, hsite⟩ := hv
  cases hg.siteAt_unique hu hsite
  exact hg.reads_lt ⟨_, hnode, by simp⟩

/-- A reader of a site's results stands behind the site. -/
theorem siteAt_lt_reader (hg : g.Hosted) (hu : g.SiteAt site u) (hv : g.ReadsResult v site) :
    u < v := by
  obtain ⟨result, slot, hreads, hresult⟩ := hv
  exact (hg.siteAt_lt_resultAt hu hresult).trans (hg.reads_lt hreads)

/-- Going back along a path goes back in the list. -/
theorem path_le (hg : g.Hosted) (h : Relation.ReflTransGen g.Reads u v) : v ≤ u := by
  induction h with
  | refl => exact Nat.le_refl _
  | tail _ hread ih => exact Nat.le_trans (Nat.le_of_lt (hg.reads_lt hread)) ih

end Hosted

namespace Sited

theorem hosted (hg : g.Sited) : g.Hosted := ⟨hg.ordered, hg.arity, hg.results, hg.sites⟩

/-- A path from one site's node to another's goes through one of the other's results. -/
theorem path_result (hg : g.Sited) {site' : GadgetId} (hv : g.SiteAt site v) (hu : g.SiteAt site' u)
    (hne : v ≠ u) (h : Relation.ReflTransGen g.Reads v u) :
    ∃ x, Relation.ReflTransGen g.Reads v x ∧ g.ReadsResult x site' := by
  obtain ⟨sources, hnode⟩ := hv
  obtain ⟨inputs, hat⟩ := hu
  rcases Relation.ReflTransGen.cases_tail h with heq | ⟨r, hpath, node, hresult, hreads⟩
  · exact absurd heq.symm hne
  · -- What reads a gadget node is a result of it.
    have hop : node.op.isResult = true := by
      by_contra hnot
      have hunread := hg.unread node (List.mem_of_getElem? hresult) (by simpa using hnot) u hreads _
        hat
      cases hunread
    obtain ⟨op, operands⟩ := node
    cases op <;> cases hop
    rename_i slot
    obtain ⟨_, _, rfl, _, _⟩ := hg.hosted.resultAt hresult
    cases List.mem_singleton.mp hreads
    rcases Relation.ReflTransGen.cases_tail hpath with heq | ⟨x, hpath', hread⟩
    · rw [heq, hnode] at hresult
      cases hresult
    · exact ⟨x, hpath', r, slot, hread, u, hresult, inputs, hat⟩

end Sited

/-- A frontend graph whose result nodes are all different is sited. -/
theorem Frontend.sited (hg : g.Frontend) (hresults : (g.nodes.filter (·.op.isResult)).Nodup) :
    g.Sited where
  ordered := hg.ordered
  arity := hg.arity
  results := hg.results
  unread := hg.unread
  sites := hg.sites
  slots := by
    -- Equal slots of one site are equal nodes, and those have one index.
    have hpairs := List.pairwise_iff_getElem.mp (List.pairwise_filter.mp hresults)
    have hlater : ∀ {a b : ValueId} {node : Node}, g.nodes[a]? = some node →
        g.nodes[b]? = some node → node.op.isResult = true → ¬ a < b := by
      intro a b node ha hb hop hab
      obtain ⟨hlta, hgeta⟩ := List.getElem?_eq_some_iff.mp ha
      obtain ⟨hltb, hgetb⟩ := List.getElem?_eq_some_iff.mp hb
      exact hpairs a b hlta hltb hab (by rw [hgeta]; exact hop) (by rw [hgetb]; exact hop)
        (hgeta.trans hgetb.symm)
    rintro site slot u v ⟨a, hu, hsite⟩ ⟨b, hv, hsite'⟩
    cases siteAt_unique_of_nodup (hg.sites.nodup_iff.mpr List.nodup_range) hsite hsite'
    exact Nat.le_antisymm (Nat.le_of_not_lt (hlater hv hu rfl)) (Nat.le_of_not_lt (hlater hu hv rfl))

end Graph

/-! ## The tables -/

namespace GadgetSchedule

variable {g : Graph}

/-- What the tables say once the reads in `reads` have been counted: the least reader of every site,
    how often every result was read, and whether a site was read at another slot than its first. -/
structure ScheduleIndex.Counts (g : Graph) (reads : List (Nat × ValueId)) (ix : ScheduleIndex) :
    Prop where
  firstLength : ix.firstReader.length = g.gadgetSites.length
  readersLength : ix.resultReaders.length = g.nodes.length
  auxiliaryLength : ix.auxiliaryResultRead.length = g.gadgetSites.length
  first_le : ∀ reader v site slot, (reader, v) ∈ reads → g.ResultAt site slot v →
    ∀ first, ix.firstReader[site]? = some first → first ≤ reader
  first_read : ∀ site first, ix.firstReader[site]? = some first → first = g.nodes.length ∨
    ∃ v slot, (first, v) ∈ reads ∧ g.ResultAt site slot v
  count : ∀ v site slot, g.ResultAt site slot v →
    ix.resultReaders[v]? = some (reads.countP (·.2 == v))
  auxiliary : ∀ site, ix.auxiliaryResultRead[site]? = some false → ∀ reader v slot,
    (reader, v) ∈ reads → g.ResultAt site slot v → slot = 0

/-- Counting one more read. -/
theorem ScheduleIndex.read_counts (hg : g.Hosted) {reads : List (Nat × ValueId)} {ix : ScheduleIndex}
    (hix : ix.Counts g reads) {reader : Nat} {input : ValueId} (hinput : input < g.nodes.length) :
    Returns (fun ix' => ix'.Counts g (reads ++ [(reader, input)]) ∧ ix'.siteNode = ix.siteNode)
      (ix.read g reader input) := by
  have hget : g.nodes[input]? = some g.nodes[input] := List.getElem?_eq_getElem hinput
  unfold ScheduleIndex.read
  rw [index_eq hget, ok_bind]
  -- A read of anything else changes no table, and no table says anything of it.
  have hother : (∀ site slot, ¬ g.ResultAt site slot input) →
      ix.Counts g (reads ++ [(reader, input)]) := by
    intro hnone
    refine ⟨hix.firstLength, hix.readersLength, hix.auxiliaryLength, ?_, ?_, ?_, ?_⟩
    · intro r v site slot hmem hv
      rcases List.mem_append.mp hmem with hmem | hmem
      · exact hix.first_le r v site slot hmem hv
      · cases List.mem_singleton.mp hmem
        exact absurd hv (hnone site slot)
    · intro site first hfirst
      refine (hix.first_read site first hfirst).imp_right ?_
      rintro ⟨v, slot, hmem, hv⟩
      exact ⟨v, slot, List.mem_append_left _ hmem, hv⟩
    · intro v site slot hv
      have hne : input ≠ v := fun heq => hnone site slot (heq ▸ hv)
      simp [hix.count v site slot hv, hne]
    · intro site hfalse r v slot hmem hv
      rcases List.mem_append.mp hmem with hmem | hmem
      · exact hix.auxiliary site hfalse r v slot hmem hv
      · cases List.mem_singleton.mp hmem
        exact absurd hv (hnone site slot)
  generalize hnode : g.nodes[input] = node at hget
  obtain ⟨op, inputs⟩ := node
  cases op
  case gadgetResult slot =>
    obtain ⟨u, site, rfl, ⟨sources, hsource⟩, hresult⟩ := hg.resultAt hget
    have hsite := hg.siteAt_lt ⟨sources, hsource⟩
    obtain ⟨first, hfirst⟩ : ∃ first, ix.firstReader[site]? = some first :=
      ⟨_, List.getElem?_eq_getElem (by rw [hix.firstLength]; exact hsite)⟩
    obtain ⟨auxiliary, hauxiliary⟩ : ∃ b, ix.auxiliaryResultRead[site]? = some b :=
      ⟨_, List.getElem?_eq_getElem (by rw [hix.auxiliaryLength]; exact hsite)⟩
    have hcount := hix.count input site slot hresult
    -- Any read of this site's results is a read of `input`'s site.
    have hsame : ∀ {site' slot' : Nat}, g.ResultAt site' slot' input → site' = site ∧ slot' = slot := by
      rintro site' slot' ⟨u', hnode', inputs', hsource'⟩
      rw [hget] at hnode'
      cases hnode'
      rw [hsource] at hsource'
      cases hsource'
      exact ⟨rfl, rfl⟩
    simp only [index_eq (List.getElem?_cons_zero), index_eq hsource, index_eq hcount,
      index_eq hfirst, index_eq hauxiliary, ok_bind]
    rw [setIndex, if_pos (by rw [hix.readersLength]; exact hinput), ok_bind, setIndex,
      if_pos (by rw [hix.firstLength]; exact hsite), ok_bind, setIndex,
      if_pos (by rw [hix.auxiliaryLength]; exact hsite), ok_bind]
    refine ⟨⟨?_, ?_, ?_, ?_, ?_, ?_, ?_⟩, rfl⟩
    · simp [hix.firstLength]
    · simp [hix.readersLength]
    · simp [hix.auxiliaryLength]
    · intro r v site' slot' hmem hv first' hfirst'
      by_cases hne : site = site'
      · subst hne
        rw [List.getElem?_set_self (by rw [hix.firstLength]; exact hsite)] at hfirst'
        cases hfirst'
        rcases List.mem_append.mp hmem with hmem | hmem
        · exact (Nat.min_le_left _ _).trans (hix.first_le r v site slot' hmem hv first hfirst)
        · cases List.mem_singleton.mp hmem
          exact Nat.min_le_right _ _
      · rw [List.getElem?_set_ne hne] at hfirst'
        rcases List.mem_append.mp hmem with hmem | hmem
        · exact hix.first_le r v site' slot' hmem hv first' hfirst'
        · cases List.mem_singleton.mp hmem
          exact absurd (hsame hv).1.symm hne
    · intro site' first' hfirst'
      by_cases hne : site = site'
      · subst hne
        rw [List.getElem?_set_self (by rw [hix.firstLength]; exact hsite)] at hfirst'
        cases hfirst'
        rcases Nat.le_total first reader with hle | hle
        · rw [Nat.min_eq_left hle]
          refine (hix.first_read site first hfirst).imp_right ?_
          rintro ⟨v, slot', hmem, hv⟩
          exact ⟨v, slot', List.mem_append_left _ hmem, hv⟩
        · rw [Nat.min_eq_right hle]
          exact .inr ⟨input, slot, by simp, hresult⟩
      · rw [List.getElem?_set_ne hne] at hfirst'
        refine (hix.first_read site' first' hfirst').imp_right ?_
        rintro ⟨v, slot', hmem, hv⟩
        exact ⟨v, slot', List.mem_append_left _ hmem, hv⟩
    · intro v site' slot' hv
      rw [List.countP_append]
      by_cases hne : input = v
      · subst hne
        rw [List.getElem?_set_self (by rw [hix.readersLength]; exact hinput)]
        simp
      · rw [List.getElem?_set_ne hne, hix.count v site' slot' hv]
        simp [hne]
    · intro site' hfalse r v slot' hmem hv
      by_cases hne : site = site'
      · subst hne
        rw [List.getElem?_set_self (by rw [hix.auxiliaryLength]; exact hsite)] at hfalse
        obtain ⟨rfl, hslot⟩ : auxiliary = false ∧ slot = 0 := by simpa using hfalse
        rcases List.mem_append.mp hmem with hmem | hmem
        · exact hix.auxiliary site hauxiliary r v slot' hmem hv
        · cases List.mem_singleton.mp hmem
          rw [(hsame hv).2, hslot]
      · rw [List.getElem?_set_ne hne] at hfalse
        rcases List.mem_append.mp hmem with hmem | hmem
        · exact hix.auxiliary site' hfalse r v slot' hmem hv
        · cases List.mem_singleton.mp hmem
          exact absurd (hsame hv).1.symm hne
  all_goals
    refine ⟨hother ?_, rfl⟩
    rintro site slot ⟨u, hu, _⟩
    rw [hget] at hu
    cases hu

/-- Every read of the first `k` nodes, in graph order. -/
def readsBefore (g : Graph) (k : Nat) : List (Nat × ValueId) :=
  (g.nodes.take k).zipIdx.flatMap fun (node, reader) => node.inputs.map fun input => (reader, input)

theorem readsBefore_succ {k : Nat} {node : Node} (hnode : g.nodes[k]? = some node) :
    readsBefore g (k + 1) = readsBefore g k ++ node.inputs.map fun input => (k, input) := by
  have hk : k < g.nodes.length := (List.getElem?_eq_some_iff.mp hnode).1
  unfold readsBefore
  rw [List.take_add_one, hnode, Option.toList_some, List.zipIdx_append, List.flatMap_append,
    List.length_take_of_le (Nat.le_of_lt hk)]
  simp

theorem mem_readsBefore {reader v : Nat} :
    (reader, v) ∈ readsBefore g g.nodes.length ↔ g.Reads reader v := by
  unfold readsBefore
  rw [List.take_length, List.mem_flatMap]
  constructor
  · rintro ⟨⟨node, r⟩, hmem, hin⟩
    obtain ⟨input, hinput, heq⟩ := List.mem_map.mp hin
    cases heq
    exact ⟨node, List.mem_zipIdx_iff_getElem?.mp hmem, hinput⟩
  · rintro ⟨node, hnode, hv⟩
    exact ⟨(node, reader), List.mem_zipIdx_iff_getElem?.mpr hnode, List.mem_map_of_mem hv⟩

/-- A result counted once has one reader. -/
theorem reader_of_count {reads : List (Nat × ValueId)} {v : ValueId}
    (h : reads.countP (·.2 == v) = 1) {r r' : Nat} (hr : (r, v) ∈ reads) (hr' : (r', v) ∈ reads) :
    r = r' := by
  rw [List.countP_eq_length_filter] at h
  obtain ⟨entry, hentry⟩ := List.length_eq_one_iff.mp h
  have hmem : ∀ {a : Nat}, (a, v) ∈ reads → (a, v) = entry := by
    intro a ha
    have hfiltered : (a, v) ∈ reads.filter (·.2 == v) := List.mem_filter.mpr ⟨ha, by simp⟩
    rw [hentry] at hfiltered
    exact List.mem_singleton.mp hfiltered
  exact congrArg Prod.fst ((hmem hr).trans (hmem hr').symm)

/-- A table over the sites, with what `look` says of every site whose node is among the first `k`.
    The other entries are whatever the table was created with. -/
structure SiteTable {α : Type} (g : Graph) (look : ValueId → α) (k : Nat) (entries : List α) :
    Prop where
  length : entries.length = g.gadgetSites.length
  entry : ∀ site v, v < k → g.SiteAt site v → entries[site]? = some (look v)

namespace SiteTable

variable {α : Type} {look : ValueId → α} {k : Nat} {entries : List α}

theorem start (h : entries.length = g.gadgetSites.length) : SiteTable g look 0 entries :=
  ⟨h, fun _ _ hv => absurd hv (Nat.not_lt_zero _)⟩

/-- A node that invokes a site fills its entry. -/
theorem site (hg : g.Hosted) (h : SiteTable g look k entries) {site : GadgetId}
    (hat : g.SiteAt site k) : site < entries.length ∧
      SiteTable g look (k + 1) (entries.set site (look k)) := by
  have hlt : site < entries.length := by
    rw [h.length]
    exact hg.siteAt_lt hat
  refine ⟨hlt, by simp [h.length], fun site' v hv hsite' => ?_⟩
  by_cases hne : site = site'
  · subst hne
    rw [List.getElem?_set_self hlt, hg.siteAt_unique hsite' hat]
  · rw [List.getElem?_set_ne hne]
    refine h.entry site' v (Nat.lt_of_le_of_ne (Nat.le_of_lt_succ hv) ?_) hsite'
    rintro rfl
    obtain ⟨_, hnode⟩ := hat
    obtain ⟨_, hnode'⟩ := hsite'
    rw [hnode] at hnode'
    cases hnode'
    exact hne rfl

/-- Any other node leaves the table. -/
theorem skip (h : SiteTable g look k entries) (hnone : ∀ site, ¬ g.SiteAt site k) :
    SiteTable g look (k + 1) entries := by
  refine ⟨h.length, fun site v hv hsite => ?_⟩
  rcases Nat.lt_succ_iff_lt_or_eq.mp hv with hlt | rfl
  · exact h.entry site v hlt hsite
  · exact absurd hsite (hnone site)

end SiteTable

/-- `noteSite` fills in the node's site. -/
theorem ScheduleIndex.noteSite_returns (hg : g.Hosted) {k : Nat} {node : Node}
    (hnode : g.nodes[k]? = some node) {ix : ScheduleIndex} {reads : List (Nat × ValueId)}
    (hcounts : ix.Counts g reads) (hsites : SiteTable g id k ix.siteNode) :
    Returns (fun ix' : ScheduleIndex => ix'.Counts g reads ∧ SiteTable g id (k + 1) ix'.siteNode)
      (ix.noteSite node k) := by
  unfold ScheduleIndex.noteSite
  obtain ⟨op, inputs⟩ := node
  cases op
  case gadget site =>
    obtain ⟨hlt, hfilled⟩ := hsites.site hg ⟨inputs, hnode⟩
    dsimp only
    rw [setIndex, if_pos hlt, ok_bind]
    exact ⟨⟨hcounts.1, hcounts.2, hcounts.3, hcounts.4, hcounts.5, hcounts.6, hcounts.7⟩, hfilled⟩
  all_goals
    refine ⟨hcounts, hsites.skip ?_⟩
    rintro site ⟨_, hnode'⟩
    rw [hnode] at hnode'
    cases hnode'

/-- The tables, as statements about the graph. A site nobody reads has the end of the graph for its
    first reader, which is behind every node. -/
structure ScheduleIndex.Describes (g : Graph) (ix : ScheduleIndex) : Prop where
  siteNode : ∀ site v, g.SiteAt site v → ix.siteNode[site]? = some v
  firstReader : ∀ site v, g.SiteAt site v → ∃ first, ix.firstReader[site]? = some first ∧
    v < first ∧ ∀ reader, g.ReadsResult reader site → first ≤ reader
  resultReaders : ∀ v site slot, g.ResultAt site slot v → ∃ n, ix.resultReaders[v]? = some n ∧
    (n = 1 → ∀ r r', g.Reads r v → g.Reads r' v → r = r')
  auxiliaryResultRead : ∀ site v, g.SiteAt site v → ∃ b, ix.auxiliaryResultRead[site]? = some b ∧
    (b = false → ∀ reader result slot, g.Reads reader result → g.ResultAt site slot result →
      slot = 0)

/-- The tables, once every read of the graph is counted. This says more than `Describes`, which only
    bounds the first reader; how few batches there are depends on it being the least. -/
structure ScheduleIndex.Complete (g : Graph) (ix : ScheduleIndex) : Prop where
  counts : ix.Counts g (readsBefore g g.nodes.length)
  sites : SiteTable g id g.nodes.length ix.siteNode

theorem ScheduleIndex.new_complete (hg : g.Hosted) :
    Returns (ScheduleIndex.Complete g) (ScheduleIndex.new g) := by
  have hloop : Returns (fun ix : ScheduleIndex => ix.Counts g (readsBefore g (0 + g.nodes.length)) ∧
      SiteTable g id (0 + g.nodes.length) ix.siteNode) (ScheduleIndex.new g) := by
    refine Meets.foldlM_zipIdx (fun k (ix : ScheduleIndex) => ix.Counts g (readsBefore g k) ∧
      SiteTable g id k ix.siteNode) ⟨?_, .start List.length_replicate⟩ ?_
    · have hnil : readsBefore g 0 = [] := by simp [readsBefore]
      rw [hnil]
      refine ⟨List.length_replicate, List.length_replicate, List.length_replicate, ?_, ?_, ?_, ?_⟩
      · intro _ _ _ _ hmem
        cases hmem
      · intro site first hfirst
        exact .inl (List.eq_of_mem_replicate (List.mem_of_getElem? hfirst))
      · intro v _ _ hv
        simp [hv.lt]
      · intro _ _ _ _ _ hmem
        cases hmem
    · intro k node ix hnode hix
      rw [Nat.zero_add] at hix ⊢
      -- First the node's own site, then its reads.
      refine Meets.bind (noteSite_returns hg hnode hix.1 hix.2) fun ix' hix' => ?_
      have hreads : Returns (fun ix'' : ScheduleIndex =>
          ix''.Counts g (readsBefore g k ++ node.inputs.map fun input => (k, input)) ∧
            ix''.siteNode = ix'.siteNode)
          (node.inputs.foldlM (fun ix input => ix.read g k input) ix') := by
        refine Meets.foldlM_prefix (fun done (ix'' : ScheduleIndex) =>
          ix''.Counts g (readsBefore g k ++ done.map fun input => (k, input)) ∧
            ix''.siteNode = ix'.siteNode) ⟨by simpa using hix'.1, rfl⟩ ?_
        intro done input rest ix'' hinputs hix''
        have hinput : input < g.nodes.length := by
          have hback := hg.ordered k node hnode input (by rw [hinputs]; simp)
          exact hback.trans (List.getElem?_eq_some_iff.mp hnode).1
        refine (ScheduleIndex.read_counts hg hix''.1 hinput).post fun ix₃ hix₃ => ?_
        rw [List.map_append, ← List.append_assoc]
        exact ⟨hix₃.1, hix₃.2.trans hix''.2⟩
      rw [readsBefore_succ hnode]
      exact hreads.post fun ix'' hix'' => ⟨hix''.1, by rw [hix''.2]; exact hix'.2⟩
  rw [Nat.zero_add] at hloop
  exact hloop.post fun ix hix => ⟨hix.1, hix.2⟩

/-- **`ScheduleIndex::new`** describes the graph. -/
theorem ScheduleIndex.Complete.describes (hg : g.Hosted) {ix : ScheduleIndex}
    (hix : ix.Complete g) : ix.Describes g := by
  obtain ⟨hcounts, hsites⟩ := hix
  refine ⟨fun site v hv => hsites.entry site v hv.lt hv, ?_, ?_, ?_⟩
  · -- The first reader: either nothing reads the site, or a read that was counted.
    intro site v hv
    have hlt : site < ix.firstReader.length := by
      rw [hcounts.firstLength]
      exact hg.siteAt_lt hv
    have hfirst := List.getElem?_eq_getElem hlt
    refine ⟨_, hfirst, ?_, ?_⟩
    · rcases hcounts.first_read site _ hfirst with hend | ⟨result, slot, hmem, hresult⟩
      · rw [hend]
        exact hv.lt
      · exact hg.siteAt_lt_reader hv ⟨result, slot, mem_readsBefore.mp hmem, hresult⟩
    · rintro reader ⟨result, slot, hread, hresult⟩
      exact hcounts.first_le reader result site slot (mem_readsBefore.mpr hread) hresult _ hfirst
  · intro v site slot hv
    refine ⟨_, hcounts.count v site slot hv, fun hone r r' hr hr' => ?_⟩
    exact reader_of_count hone (mem_readsBefore.mpr hr) (mem_readsBefore.mpr hr')
  · intro site v hv
    have hlt : site < ix.auxiliaryResultRead.length := by
      rw [hcounts.auxiliaryLength]
      exact hg.siteAt_lt hv
    refine ⟨_, List.getElem?_eq_getElem hlt, fun hfalse reader result slot hread hresult => ?_⟩
    have hnone := List.getElem?_eq_getElem hlt
    rw [hfalse] at hnone
    exact hcounts.auxiliary site hnone reader result slot (mem_readsBefore.mpr hread) hresult

theorem ScheduleIndex.new_describes (hg : g.Hosted) :
    Returns (ScheduleIndex.Describes g) (ScheduleIndex.new g) :=
  (ScheduleIndex.new_complete hg).post fun _ hix => hix.describes hg

/-- **`site_stages`** returns the network level of every site's node. -/
theorem siteStages_returns (hg : g.Hosted) :
    Returns (fun stages => ∀ site v, g.SiteAt site v → stages[site]? = some (g.facts v).net)
      (siteStages g ((table (netRule g) g.nodes).map Facts.domain)) := by
  unfold siteStages
  rw [networkLevels_eq_ok hg.indexed, ok_bind]
  refine Meets.bind ?_ fun stages
    (hstages : SiteTable g (fun v => some (g.facts v).net) (0 + g.nodes.length) stages) => ?_
  · refine Meets.foldlM_zipIdx (SiteTable g fun v => some (g.facts v).net)
      (.start List.length_replicate) ?_
    intro k node stages hnode hstages
    rw [Nat.zero_add] at hstages ⊢
    obtain ⟨op, inputs⟩ := node
    cases op
    case gadget site =>
      have hat : g.SiteAt site k := ⟨inputs, hnode⟩
      have hnet : index ((table (netRule g) g.nodes).map Facts.net) k = .ok (g.facts k).net :=
        index_table hat.lt
      obtain ⟨hlt, hfilled⟩ := hstages.site hg hat
      dsimp only
      rw [hnet, ok_bind, setIndex, if_pos hlt]
      exact hfilled
    all_goals
      refine hstages.skip ?_
      rintro site ⟨_, hnode'⟩
      rw [hnode] at hnode'
      cases hnode'
  · -- At the end every site has an entry, and collecting them keeps their order.
    rw [Nat.zero_add] at hstages
    have hall : List.Forall₂ (fun stage level => ∀ site : Nat,
        orElse (Panic.expect s!"gadget site {site} has no Op::Gadget node") stage = .ok level)
        stages (stages.map (·.getD 0)) := by
      rw [List.forall₂_map_right_iff, List.forall₂_same]
      intro stage hmem site
      obtain ⟨s, hs, hget⟩ := List.getElem_of_mem hmem
      obtain ⟨v, hv⟩ := hg.exists_siteAt (hstages.length ▸ hs)
      have hentry := hstages.entry s v hv.lt hv
      rw [List.getElem?_eq_getElem hs, hget] at hentry
      cases hentry
      rfl
    rw [zipIdx_mapM_eq_ok hall]
    intro site v hv
    rw [List.getElem?_map, hstages.entry site v hv.lt hv]
    rfl

end GadgetSchedule
end CircomMpc
