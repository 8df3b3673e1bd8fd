import CircomMpc.Lib.Chains
import CircomMpc.Passes.Mpc.GadgetPlans

/-!
# As few batches as possible

The planning loop keeps one open batch for each key and opens another only when that one cannot wait.
What forces it is a site of the open batch: the first reader of its results is not behind the new
site's node, and nodes come in ascending order, so this site excludes every site of every later batch
of the key. One such site from each batch is as many sites that exclude each other as there are
batches, and no partition of the key's sites can do with fewer groups.
-/

namespace CircomMpc

open Lib CircomMpc.Graph

/-! ## Sites, their readers and their keys -/

namespace Graph

/-- The site a node is a result of. -/
def resultOf? (g : Graph) (v : ValueId) : Option GadgetId :=
  match g.nodes[v]? with
  | some ⟨.gadgetResult _, u :: _⟩ => (g.nodes[u]?.bind Node.call?).map Prod.fst
  | _ => none

/-- Whether a node reads a result of `site`. -/
def readsResultOf (g : Graph) (site : GadgetId) (node : Node) : Bool :=
  node.inputs.any fun v => g.resultOf? v == some site

/-- The index of a site's gadget node. -/
def siteNodeOf (g : Graph) (site : GadgetId) : ValueId :=
  g.nodes.findIdx fun node => node.op == .gadget site

/-- The index of the first node that reads a result of `site`; without one, that of the end. -/
def firstReaderOf (g : Graph) (site : GadgetId) : Nat := g.nodes.findIdx (g.readsResultOf site)

/-- A site's batch key. -/
def siteKey (g : Graph) (site : GadgetId) : Option GadgetSchedule.BatchKey :=
  g.gadgetSites[site]?.map fun s =>
    GadgetSchedule.batchKey s (g.facts (g.siteNodeOf site)).net (g.facts (g.siteNodeOf site)).domain

/-- The sites with one key. -/
def sitesOf (g : Graph) (key : GadgetSchedule.BatchKey) : List GadgetId :=
  (List.range g.gadgetSites.length).filter fun site => g.siteKey site == some key

/-- Whether sites can be serviced together: the last of their nodes is in front of the first reader
    of any of their results. -/
def Fits (g : Graph) (group : List GadgetId) : Prop :=
  ∀ a ∈ group, ∀ b ∈ group, g.siteNodeOf a < g.firstReaderOf b

section Sites

variable {g : Graph}

theorem siteNodeOf_eq (hg : g.Hosted) {site v : Nat} (hat : g.SiteAt site v) :
    g.siteNodeOf site = v := by
  obtain ⟨inputs, hnode⟩ := id hat
  have hmem : ∃ node ∈ g.nodes, (node.op == .gadget site) = true :=
    ⟨_, List.mem_of_getElem? hnode, by simp⟩
  have hlt := List.findIdx_lt_length_of_exists hmem
  have hfound : (g.nodes[g.nodes.findIdx fun node => node.op == .gadget site].op ==
      .gadget site) = true :=
    @List.findIdx_getElem _ (fun node : Node => node.op == .gadget site) g.nodes hlt
  apply hg.siteAt_unique _ hat
  refine ⟨(g.nodes[g.siteNodeOf site]).inputs, ?_⟩
  rw [← eq_of_beq hfound]
  exact List.getElem?_eq_getElem hlt

theorem resultOf?_iff (hg : g.Hosted) {v : ValueId} {site : GadgetId} :
    g.resultOf? v = some site ↔ ∃ slot, g.ResultAt site slot v := by
  unfold resultOf?
  constructor
  · intro h
    split at h
    next slot u rest hnode =>
      obtain ⟨a, ha⟩ := eq_singleton (hg.arity _ (List.mem_of_getElem? hnode) 1 rfl)
      cases ha
      obtain ⟨site', inputs, hsource⟩ := hg.results _ (List.mem_of_getElem? hnode) slot rfl u
        (by simp)
      rw [hsource] at h
      cases h
      exact ⟨slot, u, hnode, inputs, hsource⟩
    next => cases h
  · rintro ⟨slot, u, hnode, inputs, hsource⟩
    rw [hnode]
    dsimp only
    rw [hsource]
    rfl

theorem readsResultOf_iff (hg : g.Hosted) {reader : Nat} {node : Node} {site : GadgetId}
    (hnode : g.nodes[reader]? = some node) :
    g.readsResultOf site node = true ↔ g.ReadsResult reader site := by
  simp only [readsResultOf, List.any_eq_true, beq_iff_eq, resultOf?_iff hg]
  constructor
  · rintro ⟨v, hv, slot, hresult⟩
    exact ⟨v, slot, ⟨node, hnode, hv⟩, hresult⟩
  · rintro ⟨v, slot, ⟨node', hnode', hv⟩, hresult⟩
    rw [hnode] at hnode'
    cases hnode'
    exact ⟨v, hv, slot, hresult⟩

/-- The first reader is the end, or a reader no other one stands in front of. -/
theorem firstReaderOf_cases (hg : g.Hosted) (site : GadgetId) :
    (∀ reader, g.ReadsResult reader site → g.firstReaderOf site ≤ reader) ∧
      (g.firstReaderOf site = g.nodes.length ∨ g.ReadsResult (g.firstReaderOf site) site) := by
  refine ⟨?_, ?_⟩
  · intro reader hreader
    by_contra hlt
    obtain ⟨v, slot, ⟨node, hnode, hv⟩, hresult⟩ := hreader
    obtain ⟨hr, hget⟩ := List.getElem?_eq_some_iff.mp hnode
    have hfalse := List.not_of_lt_findIdx (Nat.lt_of_not_le hlt)
    rw [hget, (readsResultOf_iff hg hnode).mpr ⟨v, slot, ⟨node, hnode, hv⟩, hresult⟩] at hfalse
    cases hfalse
  · rcases Nat.lt_or_ge (g.firstReaderOf site) g.nodes.length with hlt | hge
    · right
      have hfound : g.readsResultOf site g.nodes[g.firstReaderOf site] = true :=
        @List.findIdx_getElem _ (g.readsResultOf site) g.nodes hlt
      exact (readsResultOf_iff hg (List.getElem?_eq_getElem hlt)).mp hfound
    · left
      exact Nat.le_antisymm List.findIdx_le_length hge

/-- What is in front of every reader, and in the graph, is in front of the first reader. -/
theorem lt_firstReaderOf (hg : g.Hosted) {site : GadgetId} {v : Nat} (hv : v < g.nodes.length)
    (h : ∀ reader, g.ReadsResult reader site → v < reader) : v < g.firstReaderOf site := by
  rcases (firstReaderOf_cases hg site).2 with hend | hreader
  · rw [hend]
    exact hv
  · exact h _ hreader

theorem siteKey_eq (hg : g.Hosted) {siteId v : Nat} {site : GadgetSite}
    (hsite : g.gadgetSites[siteId]? = some site) (hat : g.SiteAt siteId v) :
    g.siteKey siteId =
      some (GadgetSchedule.batchKey site (g.facts v).net (g.facts v).domain) := by
  rw [siteKey, hsite, siteNodeOf_eq hg hat]
  rfl

end Sites

end Graph

namespace GadgetSchedule

variable {g : Graph}

/-- The index holds the first readers. -/
theorem ScheduleIndex.Complete.firstReaderOf (hg : g.Hosted) {ix : ScheduleIndex}
    (hix : ix.Complete g) {site v : Nat} (hat : g.SiteAt site v) :
    ix.firstReader[site]? = some (g.firstReaderOf site) := by
  have hlt : site < ix.firstReader.length := by
    rw [hix.counts.firstLength]
    exact hg.siteAt_lt hat
  have hfirst : ix.firstReader[site]? = some ix.firstReader[site] := List.getElem?_eq_getElem hlt
  -- Both are the least reader, or the end of the graph, so each is at most the other.
  obtain ⟨hleast, hattained⟩ := firstReaderOf_cases hg site
  have hle : ∀ reader, g.ReadsResult reader site → ix.firstReader[site] ≤ reader := by
    rintro reader ⟨v, slot, hread, hresult⟩
    exact hix.counts.first_le reader v site slot (mem_readsBefore.mpr hread) hresult _ hfirst
  have hbound : ix.firstReader[site] ≤ g.nodes.length := by
    rcases hix.counts.first_read site _ hfirst with hend | ⟨u, slot, hmem, _⟩
    · exact Nat.le_of_eq hend
    · obtain ⟨node, hnode, _⟩ := mem_readsBefore.mp hmem
      exact Nat.le_of_lt (List.getElem?_eq_some_iff.mp hnode).1
  rw [hfirst]
  congr 1
  apply Nat.le_antisymm
  · rcases hattained with hend | hreader
    · rw [hend]
      exact hbound
    · exact hle _ hreader
  · rcases hix.counts.first_read site _ hfirst with hend | ⟨u, slot, hmem, hresult⟩
    · rw [hend]
      exact List.findIdx_le_length
    · exact hleast _ ⟨u, slot, mem_readsBefore.mp hmem, hresult⟩

/-! ## What the planning loop keeps -/

/-- Every batch has the site its deadline is due to, and one at its anchor; a batch's deadline is not
    behind any site of a later batch of its key; and the open batch of a key is its last one. -/
structure Planning.Tight (g : Graph) (w : Planning) : Prop where
  attained : ∀ plan ∈ w.plans, ∃ e ∈ plan.sites, g.firstReaderOf e.1 = plan.deadline
  anchored : ∀ plan ∈ w.plans, ∃ e ∈ plan.sites, e.2 = plan.anchor
  apart : ∀ (i j : Nat) (plan later : BatchPlan), i < j → w.plans[i]? = some plan →
    w.plans[j]? = some later → plan.key = later.key → ∀ e ∈ later.sites, plan.deadline ≤ e.2
  newest : ∀ (j : Nat) (plan : BatchPlan), w.plans[j]? = some plan →
    ∃ idx, w.get plan.key = some idx ∧ j ≤ idx

theorem Planning.tight_start (g : Graph) : Planning.Tight g ⟨[], []⟩ := by
  refine ⟨?_, ?_, ?_, ?_⟩
  · intro plan hplan
    cases hplan
  · intro plan hplan
    cases hplan
  · intro i j plan later _ hplan
    cases hplan
  · intro j plan hplan
    cases hplan

/-- A batch of the site's key that is not the one it joins has a deadline in front of the site. -/
theorem Planning.Tight.overdue {w : Planning} {done : List GadgetId} (hw : w.Holds g done)
    (ht : w.Tight g) {v : Nat} (hlater : ∀ plan ∈ w.plans, ∀ e ∈ plan.sites, e.2 ≤ v) {j idx : Nat}
    {plan open' : BatchPlan} (hj : j < idx) (hplan : w.plans[j]? = some plan)
    (hopen : w.plans[idx]? = some open') (hkey : plan.key = open'.key) : plan.deadline ≤ v := by
  have hmem := List.mem_of_getElem? hopen
  obtain ⟨e, he⟩ := List.exists_mem_of_ne_nil _ (hw.windows open' hmem).nonempty
  exact Nat.le_trans (ht.apart j idx plan open' hj hplan hopen hkey e he)
    (hlater open' hmem e he)

theorem Planned.tight {w w' : Planning} {done : List GadgetId} (hw : w.Holds g done)
    (ht : w.Tight g) {siteId v : Nat} {site : GadgetSite}
    (hlater : ∀ plan ∈ w.plans, ∀ e ∈ plan.sites, e.2 ≤ v) (hopen : v < g.firstReaderOf siteId)
    (h : Planned w (batchKey site (g.facts v).net (g.facts v).domain) siteId v
      (g.firstReaderOf siteId) (openBatch g site siteId v (g.firstReaderOf siteId)) w') :
    w'.Tight g := by
  generalize hkey : batchKey site (g.facts v).net (g.facts v).domain = key at h
  cases h with
  | opens hclosed =>
    -- The open batch of the key could not wait: its deadline is due to one of its own sites.
    have hdue : ∀ (j : Nat) (plan : BatchPlan), w.plans[j]? = some plan → plan.key = key →
        plan.deadline ≤ v := by
      intro j plan hplan hplanKey
      obtain ⟨idx, hget, hle⟩ := ht.newest j plan hplan
      rw [hplanKey] at hget
      obtain ⟨last, hlast, hlastKey⟩ := hw.active key idx hget
      rcases Nat.lt_or_eq_of_le hle with hlt | heq
      · exact ht.overdue hw hlater hlt hplan hlast (hplanKey.trans hlastKey.symm)
      · subst heq
        have hwaits := hclosed j plan hget hplan
        obtain ⟨e, he, hanchor⟩ := ht.anchored plan (List.mem_of_getElem? hplan)
        have hbehind : plan.anchor ≤ v :=
          hanchor ▸ hlater plan (List.mem_of_getElem? hplan) e he
        unfold BatchPlan.waits at hwaits
        have hnot := of_decide_eq_false hwaits
        omega
    refine ⟨?_, ?_, ?_, ?_⟩
    · intro plan hplan
      rcases List.mem_append.mp hplan with hplan | hplan
      · exact ht.attained plan hplan
      · cases List.mem_singleton.mp hplan
        exact ⟨(siteId, v), by simp [openBatch], rfl⟩
    · intro plan hplan
      rcases List.mem_append.mp hplan with hplan | hplan
      · exact ht.anchored plan hplan
      · cases List.mem_singleton.mp hplan
        exact ⟨(siteId, v), by simp [openBatch], rfl⟩
    · intro i j plan later hij hplan hlast hsame e he
      dsimp only at hplan hlast
      rcases Nat.lt_or_ge j w.plans.length with hlt | hge
      · rw [List.getElem?_append_left hlt] at hlast
        rw [List.getElem?_append_left (hij.trans hlt)] at hplan
        exact ht.apart i j plan later hij hplan hlast hsame e he
      · have hj : j = w.plans.length := by
          have := (List.getElem?_eq_some_iff.mp hlast).1
          rw [List.length_append, List.length_singleton] at this
          omega
        subst hj
        rw [List.getElem?_append_left hij] at hplan
        simp only [List.getElem?_concat_length, Option.some.injEq] at hlast
        subst hlast
        cases List.mem_singleton.mp he
        exact hdue i plan hplan (hsame.trans hkey)
    · intro j plan hplan
      dsimp only at hplan
      have hlook : ∀ key', Planning.get ⟨w.plans ++ [openBatch g site siteId v
          (g.firstReaderOf siteId)], (key, w.plans.length) :: w.active⟩ key' =
            if key = key' then some w.plans.length else w.get key' := by
        intro key'
        unfold Planning.get
        rw [List.find?_cons]
        by_cases heq : key = key'
        · simp [heq]
        · have hfalse : (key == key') = false := beq_false_of_ne heq
          simp [hfalse, heq]
      rw [hlook]
      have hj : j ≤ w.plans.length := by
        have := (List.getElem?_eq_some_iff.mp hplan).1
        rw [List.length_append, List.length_singleton] at this
        omega
      split
      · exact ⟨_, rfl, hj⟩
      · rename_i hne
        rcases Nat.lt_or_eq_of_le hj with hlt | heq
        · rw [List.getElem?_append_left hlt] at hplan
          exact ht.newest j plan hplan
        · subst heq
          simp only [List.getElem?_concat_length, Option.some.injEq] at hplan
          subst hplan
          exact absurd hkey.symm hne
  | joins idx plan hget hplan hwaits =>
    obtain ⟨plan', hplan', hplanKey⟩ := hw.active key idx hget
    rw [hplan] at hplan'
    cases hplan'
    have hlt := (List.getElem?_eq_some_iff.mp hplan).1
    have hmem := List.mem_of_getElem? hplan
    have hset : ∀ (j : Nat) (p : BatchPlan),
        (w.plans.set idx (plan.join siteId v (g.firstReaderOf siteId)))[j]? = some p →
        j = idx ∧ p = plan.join siteId v (g.firstReaderOf siteId) ∨ w.plans[j]? = some p := by
      intro j p hp
      by_cases hj : idx = j
      · subst hj
        rw [List.getElem?_set_self hlt] at hp
        exact .inl ⟨rfl, (Option.some.inj hp).symm⟩
      · rw [List.getElem?_set_ne hj] at hp
        exact .inr hp
    refine ⟨?_, ?_, ?_, ?_⟩
    · intro p hp
      rcases List.mem_or_eq_of_mem_set hp with hp | rfl
      · exact ht.attained p hp
      · obtain ⟨e, he, hdeadline⟩ := ht.attained plan hmem
        rcases Nat.le_total plan.deadline (g.firstReaderOf siteId) with hle | hle
        · refine ⟨e, List.mem_append_left _ he, ?_⟩
          rw [hdeadline]
          exact (Nat.min_eq_left hle).symm
        · refine ⟨(siteId, v), by simp [BatchPlan.join], ?_⟩
          exact (Nat.min_eq_right hle).symm
    · intro p hp
      rcases List.mem_or_eq_of_mem_set hp with hp | rfl
      · exact ht.anchored p hp
      · refine ⟨(siteId, v), by simp [BatchPlan.join], ?_⟩
        obtain ⟨e, he, hanchor⟩ := ht.anchored plan hmem
        have hbehind := hlater plan hmem e he
        rw [hanchor] at hbehind
        exact (Nat.max_eq_right hbehind).symm
    · intro i j p later hij hp hlast hsame e he
      rcases hset i p hp with ⟨rfl, rfl⟩ | hp'
      · rcases hset j later hlast with ⟨rfl, _⟩ | hlast'
        · exact absurd hij (Nat.lt_irrefl _)
        · -- No batch of the key is behind the open one.
          obtain ⟨last, hgetLast, hle⟩ := ht.newest j later hlast'
          have hlaterKey : later.key = key := hsame.symm.trans hplanKey
          rw [hlaterKey, hget] at hgetLast
          cases hgetLast
          exact absurd hij (Nat.not_lt_of_le hle)
      · rcases hset j later hlast with ⟨rfl, rfl⟩ | hlast'
        · have hpKey : p.key = plan.key := hsame
          rcases List.mem_append.mp he with he | he
          · exact ht.apart i j p plan hij hp' hplan hpKey e he
          · cases List.mem_singleton.mp he
            exact ht.overdue hw hlater hij hp' hplan hpKey
        · exact ht.apart i j p later hij hp' hlast' hsame e he
    · intro j p hp
      rcases hset j p hp with ⟨rfl, rfl⟩ | hp'
      · exact ⟨j, hplanKey ▸ hget, Nat.le_refl j⟩
      · exact ht.newest j p hp'

/-! ## The batches of the whole graph -/

/-- The batches of every key partition its sites into groups that fit, and no partition of them into
    groups that fit has fewer groups. -/
structure Fewest (g : Graph) (plans : List BatchPlan) : Prop where
  partition : ∀ key, ((plans.filter fun plan => plan.key == key).flatMap BatchPlan.siteIds).Perm
    (g.sitesOf key)
  fits : ∀ plan ∈ plans, plan.sites ≠ [] ∧ g.Fits plan.siteIds
  fewest : ∀ (key : BatchKey) (groups : List (List GadgetId)),
    groups.flatten.Perm (g.sitesOf key) → (∀ group ∈ groups, g.Fits group) →
      (plans.filter fun plan => plan.key == key).length ≤ groups.length

/-- Sites that exclude each other, one of each batch of a key. The first reader of each is not
    behind the node of the next, so no batch can hold two of them. -/
structure Excluding (g : Graph) (plans : List BatchPlan) (key : BatchKey) (sites : List GadgetId) :
    Prop where
  length : sites.length = (plans.filter fun plan => plan.key == key).length
  mem : ∀ site ∈ sites, site ∈ g.sitesOf key
  apart : sites.Pairwise fun a b => g.firstReaderOf a ≤ g.siteNodeOf b

/-- A batch's sites have its key. -/
theorem Plain.siteKey (hg : g.Hosted) {plans : List BatchPlan} (h : Plain g plans) {plan : BatchPlan}
    (hplan : plan ∈ plans) {site : GadgetId} (hsite : site ∈ plan.siteIds) :
    g.siteKey site = some plan.key := by
  obtain ⟨e, he, rfl⟩ := List.mem_map.mp hsite
  have hwindow := h.windows plan hplan
  obtain ⟨s, hs, hkey⟩ := hwindow.keyed e he
  rw [siteKey_eq hg hs (hwindow.siteAt e he), hkey]

theorem Plain.partition (hg : g.Hosted) {plans : List BatchPlan} (h : Plain g plans)
    (key : BatchKey) :
    ((plans.filter fun plan => plan.key == key).flatMap BatchPlan.siteIds).Perm (g.sitesOf key) := by
  -- The sites of the key's batches are those of all batches, filtered by the key.
  have hfilter : (plans.flatMap BatchPlan.siteIds).filter (fun site => g.siteKey site == some key) =
      (plans.filter fun plan => plan.key == key).flatMap BatchPlan.siteIds := by
    have hkeys : ∀ plan ∈ plans, ∀ site ∈ plan.siteIds, g.siteKey site = some plan.key :=
      fun plan hplan site hsite => h.siteKey hg hplan hsite
    clear h
    induction plans with
    | nil => rfl
    | cons plan plans ih =>
      have hrest := ih fun p hp => hkeys p (by simp [hp])
      have hhere := hkeys plan (by simp)
      rw [List.flatMap_cons, List.filter_append, hrest, List.filter_cons]
      cases hkey : plan.key == key with
      | true =>
        have hall : plan.siteIds.filter (fun site => g.siteKey site == some key) = plan.siteIds := by
          apply List.filter_eq_self.mpr
          intro site hsite
          rw [hhere site hsite, eq_of_beq hkey]
          simp
        rw [hall, if_pos rfl, List.flatMap_cons]
      | false =>
        have hnone : plan.siteIds.filter (fun site => g.siteKey site == some key) = [] := by
          apply List.filter_eq_nil_iff.mpr
          intro site hsite hsame
          rw [hhere site hsite, Option.some_beq_some, hkey] at hsame
          cases hsame
        rw [hnone, List.nil_append]
        rfl
  rw [← hfilter]
  exact h.sites.filter _

theorem Plain.fits (hg : g.Hosted) {plans : List BatchPlan} (h : Plain g plans) {plan : BatchPlan}
    (hplan : plan ∈ plans) : plan.sites ≠ [] ∧ g.Fits plan.siteIds := by
  have hwindow := h.windows plan hplan
  refine ⟨hwindow.nonempty, ?_⟩
  intro a ha b hb
  obtain ⟨e, he, rfl⟩ := List.mem_map.mp ha
  obtain ⟨e', he', rfl⟩ := List.mem_map.mp hb
  have hat := hwindow.siteAt e he
  rw [siteNodeOf_eq hg hat]
  apply lt_firstReaderOf hg hat.lt
  intro reader hreader
  exact Nat.lt_of_le_of_lt (hwindow.behind e he) (hwindow.ahead he' hreader)

/-- **One site of each batch of a key excludes those of the later ones.** -/
theorem Planning.Tight.excluding (hg : g.Hosted) {w : Planning} (ht : w.Tight g)
    (h : Plain g w.plans) (key : BatchKey) : ∃ sites, Excluding g w.plans key sites := by
  -- Of two batches of a key, the earlier one has a site that forced the later one.
  have hpairs : w.plans.Pairwise fun plan later => plan.key = later.key →
      ∀ e ∈ later.sites, plan.deadline ≤ e.2 := by
    rw [List.pairwise_iff_getElem]
    intro i j hi hj hij
    exact ht.apart i j _ _ hij (List.getElem?_eq_getElem hi) (List.getElem?_eq_getElem hj)
  -- One such site from each batch.
  have hchoice : ∃ sites : List GadgetId, List.Forall₂ (fun plan site => plan ∈ w.plans ∧
      site ∈ plan.siteIds ∧ g.firstReaderOf site = plan.deadline)
      (w.plans.filter fun plan => plan.key == key) sites := by
    have hmem : ∀ plan ∈ w.plans.filter (fun plan => plan.key == key), plan ∈ w.plans :=
      fun plan hplan => (List.mem_filter.mp hplan).1
    generalize w.plans.filter (fun plan => plan.key == key) = plans at hmem
    induction plans with
    | nil => exact ⟨[], .nil⟩
    | cons plan plans ih =>
      obtain ⟨sites, hsites⟩ := ih fun p hp => hmem p (by simp [hp])
      have hplan := hmem plan (by simp)
      obtain ⟨e, he, hdeadline⟩ := ht.attained plan hplan
      exact ⟨e.1 :: sites, .cons ⟨hplan, List.mem_map_of_mem he, hdeadline⟩ hsites⟩
  obtain ⟨sites, hsites⟩ := hchoice
  have hkeys : ∀ plan ∈ w.plans.filter (fun plan => plan.key == key), plan.key = key :=
    fun plan hplan => eq_of_beq (List.mem_filter.mp hplan).2
  have hordered := hpairs.filter fun plan => plan.key == key
  refine ⟨sites, hsites.length_eq.symm, ?_, ?_⟩
  · intro site hsite
    obtain ⟨q, hq, hget⟩ := List.getElem_of_mem hsite
    obtain ⟨plan, hplan, hmem, hin, _⟩ :=
      forall₂_getElem? hsites (hget ▸ List.getElem?_eq_getElem hq)
    have hkey := hkeys plan (List.mem_of_getElem? hplan)
    refine List.mem_filter.mpr ⟨?_, ?_⟩
    · exact h.sites.mem_iff.mp (List.mem_flatMap.mpr ⟨plan, hmem, hin⟩)
    · rw [h.siteKey hg hmem hin, hkey]
      simp
  · -- It excludes every site of a later batch, so in particular the one chosen there.
    generalize w.plans.filter (fun plan => plan.key == key) = plans at hsites hkeys hordered
    induction hsites with
    | nil => exact .nil
    | @cons plan site plans sites hsite hrest ih =>
      obtain ⟨hfirst, hordered⟩ := List.pairwise_cons.mp hordered
      refine List.pairwise_cons.mpr ⟨?_, ih (fun p hp => hkeys p (by simp [hp])) hordered⟩
      intro later hlater
      obtain ⟨q, hq, hget⟩ := List.getElem_of_mem hlater
      obtain ⟨plan', hplan', hmem', hin', _⟩ :=
        forall₂_getElem? hrest (hget ▸ List.getElem?_eq_getElem hq)
      have hplanMem := List.mem_of_getElem? hplan'
      have hsame : plan.key = plan'.key :=
        (hkeys plan (by simp)).trans (hkeys plan' (by simp [hplanMem])).symm
      obtain ⟨e, he, rfl⟩ := List.mem_map.mp hin'
      rw [hsite.2.2, siteNodeOf_eq hg ((h.windows plan' hmem').siteAt e he)]
      exact hfirst plan' hplanMem hsame e he

/-- Such sites are a lower bound for every partition into groups that fit. -/
theorem Excluding.length_le {plans : List BatchPlan} {key : BatchKey} {sites : List GadgetId}
    (h : Excluding g plans key sites) {groups : List (List GadgetId)}
    (hgroups : groups.flatten.Perm (g.sitesOf key)) (hfits : ∀ group ∈ groups, g.Fits group) :
    (plans.filter fun plan => plan.key == key).length ≤ groups.length := by
  rw [← h.length]
  apply length_le_groups h.apart
  · intro site hsite
    exact List.mem_flatten.mp (hgroups.mem_iff.mpr (h.mem site hsite))
  · intro group hgroup a ha b hb hconflict
    exact absurd (hfits group hgroup b hb a ha) (Nat.not_lt_of_le hconflict)

/-- What `plan_plain_batches` returns: batches that are windows, and for each key as many sites that
    exclude each other as it has batches. -/
structure Planned.Minimal (g : Graph) (plans : List BatchPlan) : Prop where
  plain : Plain g plans
  excluding : ∀ key, ∃ sites, Excluding g plans key sites

theorem planPlainBatches_minimal (hg : g.Hosted) {ix : ScheduleIndex} (hix : ix.Complete g) :
    Returns (Planned.Minimal g)
      (planPlainBatches g ((table (netRule g) g.nodes).map Facts.domain) ix) := by
  have hdescribes := hix.describes hg
  unfold planPlainBatches
  split
  next hempty =>
    -- Without a site there is no batch and nothing to exclude.
    have hnil : g.gadgetSites = [] := List.isEmpty_iff.mp hempty
    refine ⟨⟨fun plan hplan => absurd hplan List.not_mem_nil, ?_⟩, fun key => ⟨[], rfl, ?_, .nil⟩⟩
    · rw [hnil]
      exact .nil
    · intro site hsite
      cases hsite
  next =>
    refine Meets.bind (siteStages_returns hg) fun stages hstages => ?_
    generalize horder : ((List.range g.gadgetSites.length).mergeSort fun a b =>
      ix.siteNode.getD a usizeMax ≤ ix.siteNode.getD b usizeMax) = order
    have hperm : order.Perm (List.range g.gadgetSites.length) := by
      rw [← horder]
      exact List.mergeSort_perm _ _
    -- The sites are taken in the order of their nodes, which is what makes a forced batch final.
    have hascending : order.Pairwise fun a b =>
        ix.siteNode.getD a usizeMax ≤ ix.siteNode.getD b usizeMax := by
      rw [← horder]
      -- The sort at the end moves batches and changes none.
      have hsorted : ((List.range g.gadgetSites.length).mergeSort fun a b =>
          ix.siteNode.getD a usizeMax ≤ ix.siteNode.getD b usizeMax).Pairwise fun a b =>
            decide (ix.siteNode.getD a usizeMax ≤ ix.siteNode.getD b usizeMax) = true :=
        List.pairwise_mergeSort (fun a b c => by simpa using Nat.le_trans)
          (fun a b => by simpa using Nat.le_total _ _) _
      exact hsorted.imp of_decide_eq_true
    have hloop : Returns (fun w : Planning => w.Holds g order ∧ w.Tight g)
        (order.foldlM (planSite g ((table (netRule g) g.nodes).map Facts.domain) stages ix)
          ⟨[], []⟩) := by
      refine Meets.foldlM_prefix (fun done w => Planning.Holds g done w ∧ w.Tight g) ?_ ?_
      · exact ⟨⟨fun plan hplan => absurd hplan List.not_mem_nil, .nil,
          fun key idx hget => nomatch hget⟩, Planning.tight_start g⟩
      · rintro done siteId rest w hsplit ⟨hw, ht⟩
        have hmem : siteId ∈ order := by simp [hsplit]
        have hsiteId := List.mem_range.mp (hperm.mem_iff.mp hmem)
        obtain ⟨v, hat⟩ := hg.exists_siteAt hsiteId
        have hsite : g.gadgetSites[siteId]? = some g.gadgetSites[siteId] :=
          List.getElem?_eq_getElem hsiteId
        have hfirst := hix.firstReaderOf hg hat
        have hreaders := (firstReaderOf_cases hg siteId).1
        have hopen : v < g.firstReaderOf siteId :=
          lt_firstReaderOf hg hat.lt fun reader hreader => hg.siteAt_lt_reader hat hreader
        have hlater : ∀ plan ∈ w.plans, ∀ e ∈ plan.sites, e.2 ≤ v := by
          intro plan hplan e he
          have hdone : e.1 ∈ done := by
            rw [← hw.sites.mem_iff]
            exact List.mem_flatMap.mpr ⟨plan, hplan, List.mem_map_of_mem he⟩
          rw [hsplit] at hascending
          have hle := (List.pairwise_append.mp hascending).2.2 e.1 hdone siteId (by simp)
          have hnode := hdescribes.siteNode e.1 e.2 ((hw.windows plan hplan).siteAt e he)
          simpa [List.getD_eq_getElem?_getD, hnode, hdescribes.siteNode siteId v hat] using hle
        apply (planSite_planned hdescribes hstages (fun key idx hget => ?_) hat hsite hfirst).post
        · intro w' hw'
          exact ⟨hw'.holds hw hat hsite hreaders hopen, hw'.tight hw ht hlater hopen⟩
        · obtain ⟨plan, hplan, _⟩ := hw.active key idx hget
          exact ⟨plan, hplan⟩
    refine Meets.bind hloop ?_
    rintro w ⟨hw, ht⟩
    have hsorted := List.mergeSort_perm w.plans BatchPlan.before
    have hplain : Plain g w.plans := ⟨hw.windows, hw.sites.trans hperm⟩
    refine ⟨⟨fun plan hplan => hw.windows plan (hsorted.mem_iff.mp hplan),
      (hsorted.flatMap_right _).trans hplain.sites⟩, fun key => ?_⟩
    obtain ⟨sites, hsites⟩ := ht.excluding hg hplain key
    refine ⟨sites, ?_, hsites.mem, hsites.apart⟩
    rw [hsites.length]
    exact (hsorted.filter _).length_eq.symm

theorem Planned.Minimal.fewest (hg : g.Hosted) {plans : List BatchPlan}
    (h : Planned.Minimal g plans) : Fewest g plans := by
  refine ⟨h.plain.partition hg, fun plan hplan => h.plain.fits hg hplan, ?_⟩
  intro key groups hgroups hfits
  obtain ⟨sites, hsites⟩ := h.excluding key
  exact hsites.length_le hgroups hfits

end GadgetSchedule
end CircomMpc
