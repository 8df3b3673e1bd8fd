import CircomMpc.Passes.Mpc.GadgetPlans

/-!
# Fusion

A shared batch of reveals takes over a zero-test batch when the one opens exactly what the other
produces: `Opens` for each pair of sites, and `Fusion` for the two batches. A zero test that is
opened so has no other reader, which is why its work may move to the reveals' anchor, and why no two
batches of reveals can claim the same zero tests — the source's debug assertion.

The source decides a fusion site by site and gives up at the first site that does not fit, so what
its two matching functions return is read as: if they return a fusion, everything about it holds.
-/

namespace CircomMpc

open Lib CircomMpc.Graph

namespace GadgetSchedule

variable {g : Graph} {plans : List BatchPlan}

/-! ## The plans a site is in -/

namespace Plain

/-- No two plans share a site. -/
theorem plan_unique (h : Plain g plans) {i j : Nat} {plan plan' : BatchPlan} {site : GadgetId}
    (hi : plans[i]? = some plan) (hj : plans[j]? = some plan') (hsite : site ∈ plan.siteIds)
    (hsite' : site ∈ plan'.siteIds) : i = j :=
  index_unique_of_nodup (h.sites.nodup_iff.mpr List.nodup_range) hi hj hsite hsite'

theorem siteIds_nodup (h : Plain g plans) {plan : BatchPlan} (hplan : plan ∈ plans) :
    plan.siteIds.Nodup :=
  (List.nodup_flatMap.mp (h.sites.nodup_iff.mpr List.nodup_range)).1 plan hplan

/-- Every site is in a plan. -/
theorem exists_plan (h : Plain g plans) {site : GadgetId} (hsite : site < g.gadgetSites.length) :
    ∃ (i : Nat) (plan : BatchPlan), plans[i]? = some plan ∧ site ∈ plan.siteIds := by
  have hmem := h.sites.mem_iff.mpr (List.mem_range.mpr hsite)
  obtain ⟨plan, hplan, hin⟩ := List.mem_flatMap.mp hmem
  obtain ⟨i, hi⟩ := List.mem_iff_getElem?.mp hplan
  exact ⟨i, plan, hi, hin⟩

theorem site_lt (h : Plain g plans) {plan : BatchPlan} (hplan : plan ∈ plans) {site : GadgetId}
    (hsite : site ∈ plan.siteIds) : site < g.gadgetSites.length :=
  List.mem_range.mp (h.sites.mem_iff.mp (List.mem_flatMap.mpr ⟨plan, hplan, hsite⟩))

end Plain

/-- A site's entry is the number of its plan. -/
theorem sitePlans_returns (h : Plain g plans) :
    Returns (fun sitePlan : List Nat => ∀ (i : Nat) (plan : BatchPlan), plans[i]? = some plan →
      ∀ site ∈ plan.siteIds,
      sitePlan[site]? = some i) (sitePlans g.gadgetSites.length plans) := by
  have hloop : Returns (fun sitePlan : List Nat => sitePlan.length = g.gadgetSites.length ∧
      ∀ i < 0 + plans.length, ∀ plan, plans[i]? = some plan → ∀ site ∈ plan.siteIds,
        sitePlan[site]? = some i) (sitePlans g.gadgetSites.length plans) := by
    refine Meets.foldlM_zipIdx (fun k (sitePlan : List Nat) =>
      sitePlan.length = g.gadgetSites.length ∧ ∀ i < k, ∀ plan, plans[i]? = some plan →
        ∀ site ∈ plan.siteIds, sitePlan[site]? = some i)
      ⟨List.length_replicate, fun i hi => absurd hi (Nat.not_lt_zero i)⟩ ?_
    -- A plan writes its own sites, and no other plan has one of them.
    intro k plan sitePlan hplan hsitePlan
    rw [Nat.zero_add] at hsitePlan ⊢
    obtain ⟨hlength, hbefore⟩ := hsitePlan
    have hmem := List.mem_of_getElem? hplan
    have hinner : Returns (fun sitePlan : List Nat => sitePlan.length = g.gadgetSites.length ∧
        (∀ i < k, ∀ plan, plans[i]? = some plan → ∀ site ∈ plan.siteIds,
          sitePlan[site]? = some i) ∧ ∀ entry ∈ plan.sites, sitePlan[entry.1]? = some k)
        (plan.sites.foldlM (fun sitePlan entry => setIndex sitePlan entry.1 k) sitePlan) := by
      refine Meets.foldlM_prefix (fun done (sitePlan : List Nat) =>
        sitePlan.length = g.gadgetSites.length ∧ (∀ i < k, ∀ plan, plans[i]? = some plan →
          ∀ site ∈ plan.siteIds, sitePlan[site]? = some i) ∧
          ∀ entry : GadgetId × ValueId, entry ∈ done → sitePlan[entry.1]? = some k)
        ⟨hlength, hbefore, fun entry hentry => absurd hentry List.not_mem_nil⟩ ?_
      intro done entry rest sitePlan hsites hsitePlan
      obtain ⟨hlength, hbefore, hdone⟩ := hsitePlan
      have hin : entry.1 ∈ plan.siteIds := List.mem_map_of_mem (by rw [hsites]; simp)
      have hlt : entry.1 < sitePlan.length := by
        rw [hlength]
        exact h.site_lt hmem hin
      rw [setIndex, if_pos hlt]
      refine ⟨by simp [hlength], ?_, ?_⟩
      · intro i hi plan' hplan' site hsite
        have hne : entry.1 ≠ site := by
          rintro rfl
          exact absurd (h.plan_unique hplan' hplan hsite hin) (Nat.ne_of_lt hi)
        rw [List.getElem?_set_ne hne]
        exact hbefore i hi plan' hplan' site hsite
      · intro entry' hentry'
        by_cases heq : entry.1 = entry'.1
        · rw [← heq, List.getElem?_set_self hlt]
        · rw [List.getElem?_set_ne heq]
          rcases List.mem_append.mp hentry' with hentry' | hentry'
          · exact hdone entry' hentry'
          · exact absurd (congrArg Prod.fst (List.mem_singleton.mp hentry').symm) heq
    refine hinner.post fun sitePlan' hsitePlan' => ⟨hsitePlan'.1, ?_⟩
    intro i hi plan' hplan' site hsite
    -- An earlier plan's sites are left alone, the plan's own were just written.
    rcases Nat.lt_succ_iff_lt_or_eq.mp hi with hlt | rfl
    · exact hsitePlan'.2.1 i hlt plan' hplan' site hsite
    · rw [hplan] at hplan'
      cases hplan'
      obtain ⟨entry, hentry, rfl⟩ := List.mem_map.mp hsite
      exact hsitePlan'.2.2 entry hentry
  refine hloop.post fun sitePlan hsitePlan i plan hplan => ?_
  exact hsitePlan.2 i (by rw [Nat.zero_add]; exact (List.getElem?_eq_some_iff.mp hplan).1) plan hplan

/-! ## A reveal that opens a zero test -/

/-- The reveal at `revealNode` reads one value, the zero test's `out`, and nothing else reads any
    result of the zero test. -/
structure Opens (g : Graph) (revealNode : ValueId) (e : IsZeroRevealSite) : Prop where
  zeroTest : ∃ u : ValueId, g.nodes[u]? = some ⟨.gadget e.zeroTestSite, [e.input]⟩
  reveal : ∃ result, g.nodes[revealNode]? = some ⟨.gadget e.revealSite, [result]⟩ ∧
    g.ResultAt e.zeroTestSite 0 result
  sole : ∀ reader, g.ReadsResult reader e.zeroTestSite → reader = revealNode

namespace Opens

variable {node node' : ValueId} {e e' : IsZeroRevealSite}

theorem reads (h : Opens g node e) : g.ReadsResult node e.zeroTestSite := by
  obtain ⟨result, hnode, hresult⟩ := h.reveal
  exact ⟨result, 0, ⟨_, hnode, by simp⟩, hresult⟩

/-- A zero test is opened once. -/
theorem reveal_unique (h : Opens g node e) (h' : Opens g node' e')
    (hzero : e.zeroTestSite = e'.zeroTestSite) : node = node' ∧ e.revealSite = e'.revealSite := by
  have hsame : node = node' := h'.sole node (hzero ▸ h.reads)
  refine ⟨hsame, ?_⟩
  obtain ⟨result, hnode, _⟩ := h.reveal
  obtain ⟨result', hnode', _⟩ := h'.reveal
  rw [hsame, hnode'] at hnode
  injection hnode with hcell
  injection hcell with hop
  injection hop with hsite
  exact hsite.symm

end Opens

theorem matchFusionSite_returns (hg : g.Sited) {ix : ScheduleIndex} (hix : ix.Describes g)
    {sitePlan : List Nat} (hplan : ∀ site v, g.SiteAt site v → ∃ i, sitePlan[site]? = some i)
    {revealSite : GadgetId} {revealNode : ValueId} (hreveal : g.SiteAt revealSite revealNode) :
    Returns (fun r => ∀ source e, r = some (source, e) → e.revealSite = revealSite ∧
      Opens g revealNode e ∧ sitePlan[e.zeroTestSite]? = some source)
      (matchFusionSite g.nodes ix sitePlan revealSite revealNode) := by
  -- Whatever does not fit is no fusion, and there are many ways not to.
  have hnone : Returns (fun r : Option (Nat × IsZeroRevealSite) =>
      ∀ source e, r = some (source, e) → e.revealSite = revealSite ∧ Opens g revealNode e ∧
        sitePlan[e.zeroTestSite]? = some source) (pure none : Except Panic _) :=
    fun _ _ h => nomatch h
  obtain ⟨inputs, hnode⟩ := hreveal
  unfold matchFusionSite
  rw [index_eq hnode, ok_bind]
  dsimp only
  cases inputs with
  | nil => exact hnone
  | cons result rest =>
    cases rest with
    | cons _ _ => exact hnone
    | nil =>
      dsimp only
      have hlt : result < g.nodes.length :=
        (hg.ordered revealNode _ hnode result (by simp)).trans
          (List.getElem?_eq_some_iff.mp hnode).1
      have hget : g.nodes[result]? = some g.nodes[result] := List.getElem?_eq_getElem hlt
      rw [index_eq hget, ok_bind]
      generalize g.nodes[result] = source at hget
      split
      next => exact hnone
      next hop =>
        obtain ⟨op, inputs⟩ := source
        rw [not_not] at hop
        cases hop
        obtain ⟨u, zeroTestSite, rfl, ⟨inputs, hzero⟩, hresult⟩ := hg.hosted.resultAt hget
        obtain ⟨n, hn, hsole⟩ := hix.resultReaders result zeroTestSite 0 hresult
        obtain ⟨b, hb, hauxiliary⟩ := hix.auxiliaryResultRead zeroTestSite u ⟨inputs, hzero⟩
        obtain ⟨plan, hsitePlan⟩ := hplan zeroTestSite u ⟨inputs, hzero⟩
        simp only [index_eq hn, index_eq (List.getElem?_cons_zero), index_eq hzero, ok_bind]
        split
        next => exact hnone
        next hone =>
          rw [not_not] at hone
          cases inputs with
          | nil => exact hnone
          | cons input rest =>
            cases rest with
            | cons _ _ => exact hnone
            | nil =>
              simp only [index_eq hb, index_eq hsitePlan, ok_bind]
              split
              next => exact hnone
              next hfalse =>
                split
                next => exact hnone
                next =>
                  rintro source e ⟨⟩
                  refine ⟨rfl, ⟨⟨u, hzero⟩, ⟨result, hnode, hresult⟩, ?_⟩, hsitePlan⟩
                  rintro reader ⟨result', slot, hreads, hresult'⟩
                  have hslot := hauxiliary (by simpa using hfalse) reader result' slot hreads hresult'
                  subst hslot
                  cases hg.slots _ _ _ _ hresult hresult'
                  exact hsole hone reader revealNode hreads ⟨_, hnode, by simp⟩

/-- One entry of a batch of reveals with the site of the fused batch made from it. -/
def Matched (g : Graph) (sitePlan : List Nat) (source : Nat) (entry : GadgetId × ValueId)
    (e : IsZeroRevealSite) : Prop :=
  e.revealSite = entry.1 ∧ Opens g entry.2 e ∧ sitePlan[e.zeroTestSite]? = some source

theorem matchFusionBatch_returns (hg : g.Sited) {ix : ScheduleIndex} (hix : ix.Describes g)
    {sitePlan : List Nat} (hplan : ∀ site v, g.SiteAt site v → ∃ i, sitePlan[site]? = some i)
    {plan : BatchPlan} (hsites : ∀ entry ∈ plan.sites, g.SiteAt entry.1 entry.2) :
    Returns (fun r => ∀ source sites, r = some (source, sites) →
      List.Forall₂ (Matched g sitePlan source) plan.sites sites)
      (matchFusionBatch g plan ix sitePlan) := by
  unfold matchFusionBatch
  -- What has been matched so far is matched to one plan, if anything was matched at all.
  have hloop : Returns (fun found : Option (Option Nat × List IsZeroRevealSite) =>
      ∀ source sites, found = some (some source, sites) →
        List.Forall₂ (Matched g sitePlan source) plan.sites sites)
      (plan.sites.foldlM (matchFusionStep g.nodes ix sitePlan) (some (none, []))) := by
    refine (Meets.foldlM_prefix (fun done (found : Option (Option Nat × List IsZeroRevealSite)) =>
      ∀ source sites, found = some (source, sites) → (source = none → done = [] ∧ sites = []) ∧
        ∀ s, source = some s → List.Forall₂ (Matched g sitePlan s) done sites) ?_ ?_).post ?_
    · rintro source sites ⟨⟩
      exact ⟨fun _ => ⟨rfl, rfl⟩, fun _ h => nomatch h⟩
    · intro done entry rest found hentries hfound
      have hat := hsites entry (by rw [hentries]; simp)
      unfold matchFusionStep
      cases found with
      | none => exact fun _ _ h => nomatch h
      -- The whole batch fits, and the plan it opens is the one found with its first site.
      | some found =>
        obtain ⟨sourcePlan, sites⟩ := found
        obtain ⟨hfresh, hmatched⟩ := hfound sourcePlan sites rfl
        dsimp only
        refine Meets.bind (matchFusionSite_returns hg hix hplan hat) fun r hr => ?_
        cases r with
        | none => exact fun _ _ h => nomatch h
        | some r =>
          obtain ⟨source, e⟩ := r
          obtain ⟨hreveal, hopens, hsource⟩ := hr source e rfl
          dsimp only
          split
          next => exact fun _ _ h => nomatch h
          next hsame =>
            rintro source' sites' ⟨⟩
            refine ⟨fun h => (nomatch h), ?_⟩
            rintro s ⟨⟩
            refine List.rel_append ?_ (.cons ⟨hreveal, hopens, hsource⟩ .nil)
            cases sourcePlan with
            | none =>
              obtain ⟨rfl, rfl⟩ := hfresh rfl
              exact .nil
            | some s' =>
              have heq : s' = source := by simpa using hsame
              exact hmatched source (heq ▸ rfl)
    · intro found hfound source sites heq
      exact (hfound (some source) sites heq).2 source rfl
  refine Meets.bind hloop fun found hfound => ?_
  intro source sites hr
  cases found with
  | none => cases hr
  | some found =>
    obtain ⟨sourcePlan, sites'⟩ := found
    cases sourcePlan with
    | none => cases hr
    | some source' =>
      cases hr
      exact hfound source sites rfl

/-! ## Fused batches -/

/-- A batch of reveals and the zero-test batch whose work it takes over: the fused batch opens all of
    the one's sites, each a site of the other, and leaves none of them out. -/
structure Fusion (g : Graph) (reveals zeros : BatchPlan) (plan : IsZeroRevealPlan) : Prop where
  revealKind : reveals.kind = .reveal 1 ∧ reveals.domain = .shared
  zeroKind : zeros.kind = .isZero ∧ zeros.domain = .shared
  anchor : plan.anchor = reveals.anchor
  revealSites : plan.sites.map IsZeroRevealSite.revealSite = reveals.siteIds
  zeroSites : (plan.sites.map IsZeroRevealSite.zeroTestSite).Perm zeros.siteIds
  opens : ∀ e ∈ plan.sites, ∃ entry ∈ reveals.sites, e.revealSite = entry.1 ∧ Opens g entry.2 e

/-- No zero test is opened by two batches. -/
theorem Fusion.unique (h : Plain g plans) {i i' : Nat} {reveals reveals' zeros : BatchPlan}
    {plan plan' : IsZeroRevealPlan} (hi : plans[i]? = some reveals) (hi' : plans[i']? = some reveals')
    (hfusion : Fusion g reveals zeros plan) (hfusion' : Fusion g reveals' zeros plan') : i = i' := by
  have hwindow := h.windows reveals (List.mem_of_getElem? hi)
  obtain ⟨entry, hentry⟩ := List.exists_mem_of_ne_nil _ hwindow.nonempty
  -- A reveal of the first batch, its zero test, and the entry of the second that opens the same.
  have hreveal : entry.1 ∈ plan.sites.map IsZeroRevealSite.revealSite := by
    rw [hfusion.revealSites]
    exact List.mem_map_of_mem hentry
  obtain ⟨e, he, _⟩ := List.mem_map.mp hreveal
  have hzero : e.zeroTestSite ∈ plan'.sites.map IsZeroRevealSite.zeroTestSite :=
    hfusion'.zeroSites.mem_iff.mpr (hfusion.zeroSites.mem_iff.mp (List.mem_map_of_mem he))
  obtain ⟨e', he', hsame⟩ := List.mem_map.mp hzero
  obtain ⟨entry₁, hentry₁, hfirst, hopens⟩ := hfusion.opens e he
  obtain ⟨entry₂, hentry₂, hsecond, hopens'⟩ := hfusion'.opens e' he'
  have hreveals := (hopens.reveal_unique hopens' hsame.symm).2
  refine h.plan_unique hi hi' (List.mem_map_of_mem hentry₁) ?_
  rw [← hfirst, hreveals, hsecond]
  exact List.mem_map_of_mem hentry₂

theorem revealSites_of_matched {sitePlan : List Nat} {source : Nat}
    {entries : List (GadgetId × ValueId)} {sites : List IsZeroRevealSite}
    (h : List.Forall₂ (Matched g sitePlan source) entries sites) :
    sites.map IsZeroRevealSite.revealSite = entries.map Prod.fst := by
  induction h with
  | nil => rfl
  | cons hentry _ ih => rw [List.map_cons, List.map_cons, ih, hentry.1]

section Matching

variable {sitePlan : List Nat} (hsitePlan : ∀ (i : Nat) (plan : BatchPlan), plans[i]? = some plan →
  ∀ site ∈ plan.siteIds, sitePlan[site]? = some i)
include hsitePlan

/-- A matched zero test is one of its source's sites. -/
theorem source_of_matched (hg : g.Sited) (h : Plain g plans) {source : Nat}
    {entry : GadgetId × ValueId} {e : IsZeroRevealSite} (hmatched : Matched g sitePlan source entry e) :
    ∃ zeros, plans[source]? = some zeros ∧ e.zeroTestSite ∈ zeros.siteIds := by
  obtain ⟨_, hopens, hplan⟩ := hmatched
  obtain ⟨u, hu⟩ := hopens.zeroTest
  obtain ⟨i, plan, hi, hin⟩ := h.exists_plan (hg.hosted.siteAt_lt ⟨_, hu⟩)
  rw [hsitePlan i plan hi _ hin] at hplan
  cases hplan
  exact ⟨plan, hi, hin⟩

/-- A match of as many sites as the source has is a fusion. -/
theorem fusion_of_matched (hg : g.Sited) (h : Plain g plans) {reveals zeros : BatchPlan}
    {source : Nat} {sites : List IsZeroRevealSite} (hreveals : reveals ∈ plans)
    (hzeros : plans[source]? = some zeros)
    (hrevealKind : reveals.kind = .reveal 1 ∧ reveals.domain = .shared)
    (hzeroKind : zeros.kind = .isZero ∧ zeros.domain = .shared)
    (hmatched : List.Forall₂ (Matched g sitePlan source) reveals.sites sites)
    (hlength : zeros.sites.length = sites.length) :
    Fusion g reveals zeros { anchor := reveals.anchor, sites } := by
  have hentry : ∀ e ∈ sites, ∃ entry ∈ reveals.sites, Matched g sitePlan source entry e := by
    intro e he
    obtain ⟨i, hi⟩ := List.mem_iff_getElem?.mp he
    obtain ⟨entry, hentry, hmatch⟩ := forall₂_getElem? hmatched hi
    exact ⟨entry, List.mem_of_getElem? hentry, hmatch⟩
  have hrevealSites : sites.map IsZeroRevealSite.revealSite = reveals.siteIds :=
    revealSites_of_matched hmatched
  have hnodup : (sites.map IsZeroRevealSite.revealSite).Nodup := by
    rw [hrevealSites]
    exact h.siteIds_nodup hreveals
  -- One zero test is opened by one reveal, so the zero tests are as distinct as the reveals are.
  have hzerosNodup : (sites.map IsZeroRevealSite.zeroTestSite).Nodup := by
    refine List.Nodup.map_on ?_ (List.Nodup.of_map _ hnodup)
    intro e he e' he' hsame
    obtain ⟨_, _, _, hopen, _⟩ := hentry e he
    obtain ⟨_, _, _, hopen', _⟩ := hentry e' he'
    exact List.inj_on_of_nodup_map hnodup he he' (hopen.reveal_unique hopen' hsame).2
  have hsubset : sites.map IsZeroRevealSite.zeroTestSite ⊆ zeros.siteIds := by
    intro site hsite
    obtain ⟨e, he, rfl⟩ := List.mem_map.mp hsite
    obtain ⟨entry, _, hmatch⟩ := hentry e he
    obtain ⟨zeros', hzeros', hin⟩ := source_of_matched hsitePlan hg h hmatch
    rw [hzeros] at hzeros'
    cases hzeros'
    exact hin
  refine ⟨hrevealKind, hzeroKind, rfl, hrevealSites, ?_, ?_⟩
  · exact (List.subperm_of_subset hzerosNodup hsubset).perm_of_length_le
      (by simp [BatchPlan.siteIds, hlength])
  · intro e he
    obtain ⟨entry, hmem, hreveal, hopen, _⟩ := hentry e he
    exact ⟨entry, hmem, hreveal, hopen⟩

end Matching

/-! ## The fusion loop -/

/-- The `i`-th plan is replaced by `plan`, which takes over the `source`-th. Both tables say so, and
    the three batches fit together (`Fusion`). -/
structure Fusing.Replaces (g : Graph) (plans : List BatchPlan) (w : Fusing) (i source : Nat)
    (plan : IsZeroRevealPlan) : Prop where
  fusion : ∃ reveals zeros, plans[i]? = some reveals ∧ plans[source]? = some zeros ∧
    Fusion g reveals zeros plan
  replacement : w.replacements[i]? = some (some plan)
  replaced : w.replacedSources[source]? = some true

/-- The loop, with the first `k` plans done: every replacement has a source that is marked, and every
    mark has a replacement. -/
structure Fusing.Holds (g : Graph) (plans : List BatchPlan) (k : Nat) (w : Fusing) : Prop where
  sources : w.replacedSources.length = plans.length
  replacements : w.replacements.length = plans.length
  fusion : ∀ (i : Nat) plan, w.replacements[i]? = some (some plan) →
    i < k ∧ ∃ source, w.Replaces g plans i source plan
  marked : ∀ source : Nat, w.replacedSources[source]? = some true →
    ∃ i plan, w.Replaces g plans i source plan

theorem fuseStep_returns (hg : g.Sited) {ix : ScheduleIndex} (hix : ix.Describes g)
    (h : Plain g plans) {sitePlan : List Nat}
    (hsitePlan : ∀ (i : Nat) (plan : BatchPlan), plans[i]? = some plan → ∀ site ∈ plan.siteIds,
      sitePlan[site]? = some i) {k : Nat} {w : Fusing} (hw : w.Holds g plans k) {reveals : BatchPlan}
    (hreveals : plans[k]? = some reveals) :
    Returns (Fusing.Holds g plans (k + 1)) (fuseStep g plans ix sitePlan w reveals k) := by
  have hmem := List.mem_of_getElem? hreveals
  have hk : k < plans.length := (List.getElem?_eq_some_iff.mp hreveals).1
  have hkept : w.Holds g plans (k + 1) :=
    ⟨hw.sources, hw.replacements, fun i plan hi => ⟨Nat.lt_succ_of_lt (hw.fusion i plan hi).1,
      (hw.fusion i plan hi).2⟩, hw.marked⟩
  have hknown : ∀ site v, g.SiteAt site v → ∃ i, sitePlan[site]? = some i := by
    intro site v hv
    obtain ⟨i, plan, hi, hin⟩ := h.exists_plan (hg.hosted.siteAt_lt hv)
    exact ⟨i, hsitePlan i plan hi site hin⟩
  have hwindow := h.windows _ hmem
  unfold fuseStep
  split
  next => exact hkept
  next hkind =>
    rw [not_or, not_not, not_not] at hkind
    refine Meets.bind (matchFusionBatch_returns hg hix hknown hwindow.siteAt) fun r hr => ?_
    cases r with
    | none => exact hkept
    | some r =>
      obtain ⟨source, sites⟩ := r
      have hmatched := hr source sites rfl
      obtain ⟨zeros, hzeros⟩ : ∃ zeros, plans[source]? = some zeros := by
        cases hmatched' : sites with
        | nil =>
          rw [hmatched'] at hmatched
          exact absurd (List.forall₂_nil_right_iff.mp hmatched) hwindow.nonempty
        | cons e _ =>
          rw [hmatched'] at hmatched
          obtain ⟨entry, _, hentry, _, _⟩ := List.forall₂_cons_right_iff.mp hmatched
          obtain ⟨zeros, hzeros, _⟩ := source_of_matched hsitePlan hg h hentry
          exact ⟨zeros, hzeros⟩
      dsimp only
      rw [index_eq hzeros, ok_bind]
      split
      next => exact hkept
      next hsource =>
        rw [not_or, not_or, not_not, not_not, not_not] at hsource
        have hfusion := fusion_of_matched hsitePlan hg h hmem hzeros ⟨hkind.2, hkind.1⟩
          ⟨hsource.2.1, hsource.1⟩ hmatched hsource.2.2
        have hsourceLt : source < w.replacedSources.length := by
          rw [hw.sources]
          exact (List.getElem?_eq_some_iff.mp hzeros).1
        have hkLt : k < w.replacements.length := by rw [hw.replacements]; exact hk
        obtain ⟨b, hb⟩ : ∃ b, w.replacedSources[source]? = some b :=
          ⟨_, List.getElem?_eq_getElem hsourceLt⟩
        -- The assertion: a marked source has a replacement, which would be this plan's.
        have hfresh : b = false := by
          cases b with
          | false => rfl
          | true =>
            obtain ⟨i, plan, ⟨reveals', zeros', hi, hzeros', hfusion'⟩, hreplacement, _⟩ :=
              hw.marked source hb
            rw [hzeros] at hzeros'
            cases hzeros'
            have heq := Fusion.unique h hi hreveals hfusion' hfusion
            exact absurd heq (Nat.ne_of_lt (hw.fusion i plan hreplacement).1)
        rw [index_eq hb, ok_bind, ensure_of (by simp [hfresh]), ok_bind, setIndex,
          if_pos hsourceLt, ok_bind, setIndex, if_pos hkLt, ok_bind]
        have hstays : ∀ {s : Nat}, w.replacedSources[s]? = some true →
            (w.replacedSources.set source true)[s]? = some true := by
          intro s hs
          by_cases hne : source = s
          · rw [← hne, List.getElem?_set_self hsourceLt]
          · rw [List.getElem?_set_ne hne]
            exact hs
        have hother : ∀ {i : Nat} {plan : IsZeroRevealPlan}, w.replacements[i]? = some (some plan) →
            (w.replacements.set k (some ⟨reveals.anchor, sites⟩))[i]? = some (some plan) := by
          intro i plan hi
          rw [List.getElem?_set_ne (Nat.ne_of_gt (hw.fusion i plan hi).1)]
          exact hi
        have hnew : Fusing.Replaces g plans
            ⟨w.replacedSources.set source true,
              w.replacements.set k (some ⟨reveals.anchor, sites⟩)⟩ k source
            ⟨reveals.anchor, sites⟩ :=
          ⟨⟨reveals, zeros, hreveals, hzeros, hfusion⟩, List.getElem?_set_self hkLt,
            List.getElem?_set_self hsourceLt⟩
        refine ⟨by simp [hw.sources], by simp [hw.replacements], ?_, ?_⟩
        · intro i plan hi
          dsimp only at hi
          by_cases hne : k = i
          · subst hne
            rw [List.getElem?_set_self hkLt] at hi
            cases hi
            exact ⟨Nat.lt_succ_self k, source, hnew⟩
          · rw [List.getElem?_set_ne hne] at hi
            obtain ⟨hlt, source', hreplaces⟩ := hw.fusion i plan hi
            exact ⟨Nat.lt_succ_of_lt hlt, source', hreplaces.fusion, hother hi,
              hstays hreplaces.replaced⟩
        · intro source' hmark
          dsimp only at hmark
          by_cases hne : source = source'
          · subst hne
            exact ⟨k, _, hnew⟩
          · rw [List.getElem?_set_ne hne] at hmark
            obtain ⟨i, plan, hreplaces⟩ := hw.marked source' hmark
            exact ⟨i, plan, hreplaces.fusion, hother hreplaces.replacement,
              hstays hreplaces.replaced⟩

/-- The fusion loop, done. -/
theorem fusing_returns (hg : g.Sited) {ix : ScheduleIndex} (hix : ix.Describes g)
    (h : Plain g plans) {sitePlan : List Nat}
    (hsitePlan : ∀ (i : Nat) (plan : BatchPlan), plans[i]? = some plan → ∀ site ∈ plan.siteIds,
      sitePlan[site]? = some i) :
    Returns (Fusing.Holds g plans plans.length)
      (plans.zipIdx.foldlM (fun w (plan, idx) => fuseStep g plans ix sitePlan w plan idx)
        { replacedSources := List.replicate plans.length false
          replacements := List.replicate plans.length none }) := by
  have hloop : Returns (Fusing.Holds g plans (0 + plans.length))
      (plans.zipIdx.foldlM (fun w (plan, idx) => fuseStep g plans ix sitePlan w plan idx)
        { replacedSources := List.replicate plans.length false
          replacements := List.replicate plans.length none }) := by
    refine Meets.foldlM_zipIdx (Fusing.Holds g plans) ?_ ?_
    · -- At the start nothing is replaced.
      refine ⟨List.length_replicate, List.length_replicate, ?_, ?_⟩
      · intro i plan hi
        cases List.eq_of_mem_replicate (List.mem_of_getElem? hi)
      · intro source hsource
        cases List.eq_of_mem_replicate (List.mem_of_getElem? hsource)
    · intro k reveals w hreveals hw
      rw [Nat.zero_add] at hw ⊢
      exact fuseStep_returns hg hix h hsitePlan hw hreveals
  rw [Nat.zero_add] at hloop
  exact hloop

end GadgetSchedule
end CircomMpc
