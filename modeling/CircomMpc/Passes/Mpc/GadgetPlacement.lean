import CircomMpc.Passes.Mpc.GadgetFusion

/-!
# The gadget schedule is a placement

The batches that come out service every site once, at a node behind all the sites' own nodes and in
front of everything that reads their results. From these two and the order of the graph it follows
that no batch waits for itself and that a batch is serviced after every batch it depends on.

The exception is a fused batch, whose zero tests are read by its own reveals. It is serviced at the
reveals' anchor in one go, so what has to stand behind it is only what reads the reveals.
-/

namespace CircomMpc

open Lib CircomMpc.Graph

namespace GadgetSchedule

variable {g : Graph} {plans : List BatchPlan}

/-! ## What becomes of the plans -/

/-- A plan whose work was taken over leaves nothing, one that took over another's becomes a fused
    batch, and any other becomes a batch as it is. -/
inductive Becomes (w : Fusing) (i : Nat) (plan : BatchPlan) : Option ScheduledBatch → Prop where
  | absorbed (h : w.replacedSources[i]? = some true) : Becomes w i plan none
  | fused {fusion : IsZeroRevealPlan} (h : w.replacedSources[i]? = some false)
      (hfusion : w.replacements[i]? = some (some fusion)) :
      Becomes w i plan (some (.isZeroReveal fusion))
  | kept (h : w.replacedSources[i]? = some false) (hnone : w.replacements[i]? = some none) :
      Becomes w i plan (some (.gadget plan))

theorem fused_becomes {w : Fusing} (hw : w.Holds g plans plans.length) {i : Nat} {plan : BatchPlan}
    (hi : plans[i]? = some plan) : Returns (Becomes w i plan) (fused w plan i) := by
  have hlt : i < plans.length := (List.getElem?_eq_some_iff.mp hi).1
  obtain ⟨replaced, hsource⟩ : ∃ replaced, w.replacedSources[i]? = some replaced :=
    ⟨_, List.getElem?_eq_getElem (hw.sources ▸ hlt)⟩
  obtain ⟨replacement, hreplacement⟩ : ∃ replacement, w.replacements[i]? = some replacement :=
    ⟨_, List.getElem?_eq_getElem (hw.replacements ▸ hlt)⟩
  unfold fused
  rw [index_eq hsource, ok_bind]
  cases replaced with
  | true => exact .absorbed hsource
  | false =>
    simp only [Bool.false_eq_true, if_false]
    rw [index_eq hreplacement, ok_bind]
    cases replacement with
    | none => exact .kept hsource hreplacement
    | some fusion => exact .fused hsource hreplacement

/-- The sites a batch services. -/
def ScheduledBatch.siteIds : ScheduledBatch → List GadgetId
  | .gadget plan => plan.siteIds
  | .isZeroReveal plan =>
    plan.sites.map IsZeroRevealSite.zeroTestSite ++ plan.sites.map IsZeroRevealSite.revealSite

/-- What the fusion made of every plan, in order. The outcomes are still numbered like the plans;
    the batches are those that left something. -/
structure Rescheduled (g : Graph) (plans : List BatchPlan) (w : Fusing)
    (outcomes : List (Option ScheduledBatch)) : Prop where
  plain : Plain g plans
  holds : w.Holds g plans plans.length
  becomes : ∀ (i : Nat) outcome, outcomes[i]? = some outcome →
    ∃ plan, plans[i]? = some plan ∧ Becomes w i plan outcome
  length : outcomes.length = plans.length

namespace Rescheduled

variable {w : Fusing} {outcomes : List (Option ScheduledBatch)}

/-- A site's batch is its own plan's, or the one that took over its plan. -/
theorem servicer (h : Rescheduled g plans w outcomes) {i owner : Nat} {batch : ScheduledBatch}
    {plan : BatchPlan} {site : GadgetId} (hi : outcomes[i]? = some (some batch))
    (hsite : site ∈ batch.siteIds) (howner : plans[owner]? = some plan)
    (hin : site ∈ plan.siteIds) :
    i = owner ∧ w.replacedSources[owner]? = some false ∨
      ∃ fusion, w.Replaces g plans i owner fusion := by
  obtain ⟨plan', hplan', hbecomes⟩ := h.becomes i _ hi
  cases hbecomes with
  | kept hfalse _ =>
    have heq := h.plain.plan_unique hplan' howner hsite hin
    exact .inl ⟨heq, heq ▸ hfalse⟩
  | fused hfalse hfusion =>
    obtain ⟨_, source, hreplaces⟩ := h.holds.fusion i _ hfusion
    obtain ⟨reveals, zeros, hreveals, hzeros, hfused⟩ := hreplaces.fusion
    rcases List.mem_append.mp hsite with hzero | hreveal
    · have heq := h.plain.plan_unique hzeros howner (hfused.zeroSites.mem_iff.mp hzero) hin
      exact .inr ⟨_, heq ▸ hreplaces⟩
    · rw [hfused.revealSites] at hreveal
      have heq := h.plain.plan_unique hreveals howner hreveal hin
      exact .inl ⟨heq, heq ▸ hfalse⟩

/-- A plan that took over another was not taken over itself. -/
theorem not_replaced (h : Rescheduled g plans w outcomes) {i source : Nat}
    {fusion : IsZeroRevealPlan} (hreplaces : w.Replaces g plans i source fusion) :
    ¬ w.replacedSources[i]? = some true := by
  intro htrue
  obtain ⟨_, _, hreplaces'⟩ := h.holds.marked i htrue
  obtain ⟨reveals, _, hreveals, _, hfused⟩ := hreplaces.fusion
  obtain ⟨_, zeros, _, hzeros, hfused'⟩ := hreplaces'.fusion
  rw [hreveals] at hzeros
  cases hzeros
  have hkind := hfused.revealKind.1
  rw [hfused'.zeroKind.1] at hkind
  cases hkind

/-- No site is serviced by two batches. -/
theorem batch_unique (h : Rescheduled g plans w outcomes) {i j : Nat}
    {batch batch' : ScheduledBatch} {site : GadgetId} (hi : outcomes[i]? = some (some batch))
    (hj : outcomes[j]? = some (some batch')) (hsite : site ∈ batch.siteIds)
    (hsite' : site ∈ batch'.siteIds) (hlt : site < g.gadgetSites.length) : i = j := by
  obtain ⟨owner, plan, howner, hin⟩ := h.plain.exists_plan hlt
  rcases h.servicer hi hsite howner hin with ⟨hieq, hfalse⟩ | ⟨fusion, hreplaces⟩ <;>
    rcases h.servicer hj hsite' howner hin with ⟨hjeq, hfalse'⟩ | ⟨fusion', hreplaces'⟩
  · rw [hieq, hjeq]
  · rw [hreplaces'.replaced] at hfalse
    cases hfalse
  · rw [hreplaces.replaced] at hfalse'
    cases hfalse'
  · obtain ⟨_, _, hreveals, hzeros, hfused⟩ := hreplaces.fusion
    obtain ⟨_, _, hreveals', hzeros', hfused'⟩ := hreplaces'.fusion
    rw [hzeros] at hzeros'
    cases hzeros'
    exact Fusion.unique h.plain hreveals hreveals' hfused hfused'

/-- Every site is serviced. -/
theorem exists_batch (h : Rescheduled g plans w outcomes) {site : GadgetId}
    (hlt : site < g.gadgetSites.length) :
    ∃ (i : Nat) (batch : ScheduledBatch), outcomes[i]? = some (some batch) ∧
      site ∈ batch.siteIds := by
  have houtcome : ∀ {i : Nat} {plan : BatchPlan}, plans[i]? = some plan →
      ∃ outcome, outcomes[i]? = some outcome ∧ Becomes w i plan outcome := by
    intro i plan hi
    have hlti : i < outcomes.length := by
      rw [h.length]
      exact (List.getElem?_eq_some_iff.mp hi).1
    obtain ⟨plan', hplan', hbecomes⟩ := h.becomes i _ (List.getElem?_eq_getElem hlti)
    rw [hi] at hplan'
    cases hplan'
    exact ⟨_, List.getElem?_eq_getElem hlti, hbecomes⟩
  obtain ⟨owner, plan, howner, hin⟩ := h.plain.exists_plan hlt
  obtain ⟨outcome, hget, hbecomes⟩ := houtcome howner
  cases hbecomes with
  | kept _ _ => exact ⟨owner, _, hget, hin⟩
  | fused _ hfusion =>
    obtain ⟨_, _, hreplaces⟩ := h.holds.fusion owner _ hfusion
    obtain ⟨reveals, _, hreveals, _, hfused⟩ := hreplaces.fusion
    rw [howner] at hreveals
    cases hreveals
    refine ⟨owner, _, hget, List.mem_append_right _ ?_⟩
    rw [hfused.revealSites]
    exact hin
  | absorbed htrue =>
    -- The site is a zero test now serviced where it is opened.
    obtain ⟨i, fusion, hreplaces⟩ := h.holds.marked owner htrue
    obtain ⟨reveals, zeros, hreveals, hzeros, hfused⟩ := hreplaces.fusion
    rw [howner] at hzeros
    cases hzeros
    obtain ⟨outcome', hget', hbecomes'⟩ := houtcome hreveals
    cases hbecomes' with
    | absorbed htrue' => exact absurd htrue' (h.not_replaced hreplaces)
    | kept _ hnone =>
      rw [hreplaces.replacement] at hnone
      cases hnone
    | fused _ hfusion =>
      rw [hreplaces.replacement] at hfusion
      cases hfusion
      exact ⟨i, _, hget', List.mem_append_left _ (hfused.zeroSites.mem_iff.mpr hin)⟩

/-- A batch that comes out is a plan of its own or a fusion of two. -/
theorem batch_cases (h : Rescheduled g plans w outcomes) {i : Nat} {batch : ScheduledBatch}
    (hi : outcomes[i]? = some (some batch)) :
    (∃ plan ∈ plans, batch = .gadget plan) ∨
      ∃ plan, ∃ reveals ∈ plans, ∃ zeros ∈ plans, batch = .isZeroReveal plan ∧
        Fusion g reveals zeros plan := by
  obtain ⟨plan, hplan, hbecomes⟩ := h.becomes i _ hi
  cases hbecomes with
  | kept _ _ => exact .inl ⟨plan, List.mem_of_getElem? hplan, rfl⟩
  | fused _ hfusion =>
    obtain ⟨_, _, hreplaces⟩ := h.holds.fusion i _ hfusion
    obtain ⟨reveals, zeros, hreveals, hzeros, hfused⟩ := hreplaces.fusion
    exact .inr ⟨_, reveals, List.mem_of_getElem? hreveals, zeros, List.mem_of_getElem? hzeros, rfl,
      hfused⟩

/-- A batch's sites are sites of the graph, each once. -/
theorem siteIds_nodup (h : Rescheduled g plans w outcomes) {i : Nat} {batch : ScheduledBatch}
    (hi : outcomes[i]? = some (some batch)) :
    batch.siteIds.Nodup ∧ ∀ site ∈ batch.siteIds, site < g.gadgetSites.length := by
  rcases h.batch_cases hi with ⟨plan, hplan, rfl⟩ | ⟨plan, reveals, hreveals, zeros, hzeros, rfl, hfused⟩
  · exact ⟨h.plain.siteIds_nodup hplan, fun site hsite => h.plain.site_lt hplan hsite⟩
  · refine ⟨?_, ?_⟩
    · refine List.nodup_append'.mpr ⟨hfused.zeroSites.nodup_iff.mpr (h.plain.siteIds_nodup hzeros),
        by rw [hfused.revealSites]; exact h.plain.siteIds_nodup hreveals, ?_⟩
      intro site hzero hreveal
      rw [hfused.revealSites] at hreveal
      obtain ⟨a, ha⟩ := List.mem_iff_getElem?.mp hreveals
      obtain ⟨b, hb⟩ := List.mem_iff_getElem?.mp hzeros
      have heq := h.plain.plan_unique ha hb hreveal (hfused.zeroSites.mem_iff.mp hzero)
      rw [heq, hb] at ha
      cases ha
      have hkind := hfused.revealKind.1
      rw [hfused.zeroKind.1] at hkind
      cases hkind
    · intro site hsite
      rcases List.mem_append.mp hsite with hzero | hreveal
      · exact h.plain.site_lt hzeros (hfused.zeroSites.mem_iff.mp hzero)
      · rw [hfused.revealSites] at hreveal
        exact h.plain.site_lt hreveals hreveal

end Rescheduled

/-- The sites of the batches that came out, each once. -/
theorem Rescheduled.once {w : Fusing} {outcomes : List (Option ScheduledBatch)}
    (h : Rescheduled g plans w outcomes) :
    ((outcomes.filterMap id).flatMap ScheduledBatch.siteIds).Perm
      (List.range g.gadgetSites.length) := by
  -- A plan that was taken over leaves no batch behind.
  have hflat : ∀ os : List (Option ScheduledBatch),
      (os.filterMap id).flatMap ScheduledBatch.siteIds =
        os.flatMap fun o => o.elim [] ScheduledBatch.siteIds := by
    intro os
    induction os with
    | nil => rfl
    | cons o os ih =>
      cases o with
      | none => rw [List.filterMap_cons_none rfl, ih, List.flatMap_cons, Option.elim, List.nil_append]
      | some batch => rw [List.filterMap_cons_some (f := id) rfl, List.flatMap_cons, ih, List.flatMap_cons,
          Option.elim]
  rw [hflat]
  refine (List.perm_ext_iff_of_nodup ?_ List.nodup_range).mpr fun site => ?_
  · -- No batch has a site twice, and no two batches share one.
    refine List.nodup_flatMap.mpr ⟨?_, ?_⟩
    · intro outcome houtcome
      obtain ⟨i, hi⟩ := List.mem_iff_getElem?.mp houtcome
      cases outcome with
      | none => exact .nil
      | some batch => exact (h.siteIds_nodup hi).1
    · refine List.pairwise_iff_getElem.mpr fun i j hi hj hlt site hsite hsite' => ?_
      have hgeti := List.getElem?_eq_getElem hi
      have hgetj := List.getElem?_eq_getElem hj
      generalize outcomes[i] = outcome at hgeti hsite
      generalize outcomes[j] = outcome' at hgetj hsite'
      cases outcome with
      | none => cases hsite
      | some batch =>
        cases outcome' with
        | none => cases hsite'
        | some batch' =>
          have heq := h.batch_unique hgeti hgetj hsite hsite' ((h.siteIds_nodup hgeti).2 site hsite)
          exact absurd heq (Nat.ne_of_lt hlt)
  · rw [List.mem_flatMap, List.mem_range]
    constructor
    · rintro ⟨outcome, houtcome, hsite⟩
      obtain ⟨i, hi⟩ := List.mem_iff_getElem?.mp houtcome
      cases outcome with
      | none => cases hsite
      | some batch => exact (h.siteIds_nodup hi).2 site hsite
    · intro hlt
      obtain ⟨i, batch, hi, hsite⟩ := h.exists_batch hlt
      exact ⟨some batch, List.mem_of_getElem? hi, hsite⟩

/-! ## The placement -/

/-- What code generation needs of a schedule: every site serviced once, by a batch of its own kind,
    level and domain; behind its inputs and in front of its readers; no batch waiting for itself,
    and every batch behind those it depends on. -/
structure ValidPlacement (g : Graph) (domains : List Domain) (stages : List Nat)
    (plans : List BatchPlan) (batches : List ScheduledBatch) : Prop where
  once : (batches.flatMap ScheduledBatch.siteIds).Perm (List.range g.gadgetSites.length)
  uniform : ∀ plan, .gadget plan ∈ batches → ∀ siteId ∈ plan.siteIds, ∀ v, g.SiteAt siteId v →
    ∃ site, g.gadgetSites[siteId]? = some site ∧ site.kind = plan.kind ∧
      stages[siteId]? = some plan.stage ∧ domains[v]? = some plan.domain ∧
      (site.precomputed && plan.domain == .shared) = plan.precomputed
  behind : ∀ batch ∈ batches, ∀ site ∈ batch.siteIds, ∀ v, g.SiteAt site v → v ≤ batch.anchor
  /-- Only a fused reveal reads in front of its own batch's anchor, and only what it opens. -/
  ahead : ∀ batch ∈ batches, ∀ site ∈ batch.siteIds, ∀ reader, g.ReadsResult reader site →
    batch.anchor < reader ∨ ∃ plan, batch = .isZeroReveal plan ∧ ∃ e ∈ plan.sites,
      e.zeroTestSite = site ∧ g.SiteAt e.revealSite reader
  independent : ∀ plan, .gadget plan ∈ batches → ∀ site ∈ plan.siteIds, ∀ site' ∈ plan.siteIds,
    ¬ g.DependsOn site site'
  earlier : ∀ batch ∈ batches, ∀ batch' ∈ batches, batch ≠ batch' → ∀ site ∈ batch.siteIds,
    ∀ site' ∈ batch'.siteIds, g.DependsOn site site' → batch'.anchor < batch.anchor
  fusion : ∀ plan, .isZeroReveal plan ∈ batches → ∃ reveals ∈ plans, ∃ zeros ∈ plans,
    Fusion g reveals zeros plan ∧ .gadget reveals ∉ batches ∧ .gadget zeros ∉ batches

namespace Rescheduled

variable {w : Fusing} {outcomes : List (Option ScheduledBatch)} {i : Nat} {batch : ScheduledBatch}
  {site : GadgetId}

theorem behind (hg : g.Sited) (h : Rescheduled g plans w outcomes)
    (hi : outcomes[i]? = some (some batch)) (hsite : site ∈ batch.siteIds) {v : ValueId}
    (hv : g.SiteAt site v) : v ≤ batch.anchor := by
  rcases h.batch_cases hi with
    ⟨plan, hplan, rfl⟩ | ⟨plan, reveals, hreveals, zeros, hzeros, rfl, hfused⟩
  · exact (h.plain.windows plan hplan).behind _ ((h.plain.windows plan hplan).entry hg.hosted hsite hv)
  · show v ≤ plan.anchor
    rw [hfused.anchor]
    rcases List.mem_append.mp hsite with hzero | hreveal
    · -- A zero test stands in front of the reveal that opens it.
      obtain ⟨e, he, rfl⟩ := List.mem_map.mp hzero
      obtain ⟨entry, hentry, _, hopens⟩ := hfused.opens e he
      exact Nat.le_trans (Nat.le_of_lt (hg.hosted.siteAt_lt_reader hv hopens.reads))
        ((h.plain.windows reveals hreveals).behind entry hentry)
    · rw [hfused.revealSites] at hreveal
      have hwindow := h.plain.windows reveals hreveals
      exact hwindow.behind _ (hwindow.entry hg.hosted hreveal hv)

theorem ahead (hg : g.Sited) (h : Rescheduled g plans w outcomes)
    (hi : outcomes[i]? = some (some batch)) (hsite : site ∈ batch.siteIds) {reader : ValueId}
    (hreader : g.ReadsResult reader site) :
    batch.anchor < reader ∨ ∃ plan, batch = .isZeroReveal plan ∧ ∃ e ∈ plan.sites,
      e.zeroTestSite = site ∧ g.SiteAt e.revealSite reader := by
  obtain ⟨v, hv⟩ := hg.hosted.exists_siteAt ((h.siteIds_nodup hi).2 site hsite)
  rcases h.batch_cases hi with
    ⟨plan, hplan, rfl⟩ | ⟨plan, reveals, hreveals, zeros, hzeros, rfl, hfused⟩
  · have hwindow := h.plain.windows plan hplan
    exact .inl (hwindow.ahead (hwindow.entry hg.hosted hsite hv) hreader)
  · rcases List.mem_append.mp hsite with hzero | hreveal
    · obtain ⟨e, he, rfl⟩ := List.mem_map.mp hzero
      obtain ⟨entry, _, _, hopens⟩ := hfused.opens e he
      obtain ⟨result, hnode, _⟩ := hopens.reveal
      rw [hopens.sole reader hreader]
      exact .inr ⟨plan, rfl, e, he, rfl, [result], hnode⟩
    · rw [hfused.revealSites] at hreveal
      have hwindow := h.plain.windows reveals hreveals
      have hlt := hwindow.ahead (hwindow.entry hg.hosted hreveal hv) hreader
      exact .inl (by show plan.anchor < reader; rw [hfused.anchor]; exact hlt)

/-- A batch that another one's sites depend on is serviced before it. -/
theorem earlier (hg : g.Sited) (h : Rescheduled g plans w outcomes) {j : Nat}
    {batch' : ScheduledBatch} {site' : GadgetId} (hi : outcomes[i]? = some (some batch))
    (hj : outcomes[j]? = some (some batch')) (hne : i ≠ j) (hsite : site ∈ batch.siteIds)
    (hsite' : site' ∈ batch'.siteIds) (hdepends : g.DependsOn site site') :
    batch'.anchor < batch.anchor := by
  obtain ⟨v, reader, hv, hpath, hreader⟩ := hdepends
  have hbehind := h.behind hg hi hsite hv
  rcases h.ahead hg hj hsite' hreader with hlt | ⟨plan, rfl, e, he, rfl, hat⟩
  · exact Nat.lt_of_lt_of_le hlt (Nat.le_trans (hg.hosted.path_le hpath) hbehind)
  · -- The path ends in the reveal of the fused batch, so it goes through one of its results.
    have hin : e.revealSite ∈ ScheduledBatch.siteIds (.isZeroReveal plan) :=
      List.mem_append_right _ (List.mem_map_of_mem he)
    have hlt := (h.siteIds_nodup hj).2 _ hin
    by_cases hsame : v = reader
    · subst hsame
      obtain ⟨_, hnode⟩ := hv
      obtain ⟨_, hnode'⟩ := hat
      rw [hnode] at hnode'
      cases hnode'
      exact absurd (h.batch_unique hi hj hsite hin hlt) hne
    · obtain ⟨x, hpath', hreads⟩ := hg.path_result hv hat hsame hpath
      rcases h.ahead hg hj hin hreads with hlt' | ⟨plan', heq, e', he', hzero, _⟩
      · exact Nat.lt_of_lt_of_le hlt' (Nat.le_trans (hg.hosted.path_le hpath') hbehind)
      · -- No site of the batch is both a reveal and a zero test.
        cases heq
        have hdisjoint := (List.nodup_append'.mp (h.siteIds_nodup hj).1).2.2
        exact absurd (List.mem_map_of_mem he) (hdisjoint (hzero ▸ List.mem_map_of_mem he'))

theorem valid (hg : g.Sited) (h : Rescheduled g plans w outcomes) {stages : List Nat}
    (hstages : ∀ site v, g.SiteAt site v → stages[site]? = some (g.facts v).net) :
    ValidPlacement g ((table (netRule g) g.nodes).map Facts.domain) stages plans
      (outcomes.filterMap id) := by
  have hget : ∀ batch ∈ outcomes.filterMap id, ∃ i : Nat, outcomes[i]? = some (some batch) := by
    intro batch hbatch
    obtain ⟨outcome, houtcome, rfl⟩ := List.mem_filterMap.mp hbatch
    exact List.mem_iff_getElem?.mp houtcome
  have hgadget : ∀ plan, .gadget plan ∈ outcomes.filterMap id → plan.Window g := by
    intro plan hplan
    obtain ⟨i, hi⟩ := hget _ hplan
    rcases h.batch_cases hi with ⟨plan', hplan', heq⟩ | ⟨_, _, _, _, _, heq, _⟩
    · cases heq
      exact h.plain.windows plan hplan'
    · cases heq
  -- A plan that shares a site with a fused batch is none of the batches.
  have hgone : ∀ {plan fusion}, .isZeroReveal fusion ∈ outcomes.filterMap id → plan ∈ plans →
      (∀ site ∈ plan.siteIds, site ∈ ScheduledBatch.siteIds (.isZeroReveal fusion)) →
      .gadget plan ∉ outcomes.filterMap id := by
    intro plan fusion hfusion hplan hshared hkept
    obtain ⟨entry, hentry⟩ := List.exists_mem_of_ne_nil _ (h.plain.windows plan hplan).nonempty
    have hsite : entry.1 ∈ plan.siteIds := List.mem_map_of_mem hentry
    obtain ⟨i, hi⟩ := hget _ hfusion
    obtain ⟨j, hj⟩ := hget _ hkept
    have heq := h.batch_unique hi hj (hshared _ hsite) hsite (h.plain.site_lt hplan hsite)
    rw [heq, hj] at hi
    cases hi
  refine ⟨h.once, ?_, ?_, ?_, ?_, ?_, ?_⟩
  · intro plan hplan siteId hsite v hv
    obtain ⟨site, hsite, hkind, hstage, hdomain, hprecomputed⟩ :=
      (hgadget plan hplan).uniform hg.hosted hsite hv
    refine ⟨site, hsite, hkind, hstage ▸ hstages _ _ hv, ?_, hprecomputed⟩
    rw [List.getElem?_map, table_getElem? hv.lt, ← hdomain]
    rfl
  · intro batch hbatch site hsite v hv
    obtain ⟨i, hi⟩ := hget batch hbatch
    exact h.behind hg hi hsite hv
  · intro batch hbatch site hsite reader hreader
    obtain ⟨i, hi⟩ := hget batch hbatch
    exact h.ahead hg hi hsite hreader
  · intro plan hplan site hsite site' hsite'
    exact (hgadget plan hplan).independent hg.hosted hsite hsite'
  · intro batch hbatch batch' hbatch' hne site hsite site' hsite' hdepends
    obtain ⟨i, hi⟩ := hget batch hbatch
    obtain ⟨j, hj⟩ := hget batch' hbatch'
    refine h.earlier hg hi hj ?_ hsite hsite' hdepends
    rintro rfl
    rw [hi] at hj
    cases hj
    exact hne rfl
  · intro plan hplan
    obtain ⟨i, hi⟩ := hget _ hplan
    rcases h.batch_cases hi with
      ⟨_, _, heq⟩ | ⟨plan', reveals, hreveals, zeros, hzeros, heq, hfused⟩
    · cases heq
    · cases heq
      refine ⟨reveals, hreveals, zeros, hzeros, hfused, hgone hplan hreveals ?_,
        hgone hplan hzeros ?_⟩
      · intro site hsite
        rw [← hfused.revealSites] at hsite
        exact List.mem_append_right _ hsite
      · intro site hsite
        exact List.mem_append_left _ (hfused.zeroSites.mem_iff.mpr hsite)

end Rescheduled

theorem outcomes_returns (h : Plain g plans) {w : Fusing} (hw : w.Holds g plans plans.length) :
    Returns (Rescheduled g plans w) (outcomes w plans) := by
  have hfused : Returns (List.Forall₂ (fun entry : BatchPlan × Nat => Becomes w entry.2 entry.1)
      plans.zipIdx) (outcomes w plans) := by
    refine Meets.mapM_rel fun entry hentry => ?_
    exact fused_becomes hw (List.mem_zipIdx_iff_getElem?.mp hentry)
  refine hfused.post fun results hresults => ?_
  refine ⟨h, hw, ?_, by rw [← hresults.length_eq, List.length_zipIdx]⟩
  intro i outcome hi
  obtain ⟨entry, hentry, houtcome⟩ := forall₂_getElem? hresults hi
  rw [List.getElem?_zipIdx, Option.map_eq_some_iff] at hentry
  obtain ⟨plan, hplan, rfl⟩ := hentry
  rw [Nat.zero_add] at houtcome
  exact ⟨plan, hplan, houtcome⟩

/-- **Gadget batch plans are valid placements.** On every graph whose sites can be scheduled, the
    planning and the fusion return, and what they return services every site once, behind what it
    reads and in front of what reads it. -/
theorem gadget_batches_valid {g : Graph} (hg : g.Sited) :
    ∃ domains stages ix plans batches, computeDomains g = .ok domains ∧
      siteStages g domains = .ok stages ∧ ScheduleIndex.new g = .ok ix ∧
      planPlainBatches g domains ix = .ok plans ∧ planGadgetBatches g domains = .ok batches ∧
      ValidPlacement g domains stages plans batches := by
  obtain ⟨ix, hnew, hix⟩ := (ScheduleIndex.new_describes hg.hosted).ok_of_never
  obtain ⟨stages, hsiteStages, hstages⟩ := (siteStages_returns hg.hosted).ok_of_never
  obtain ⟨plans, hplanPlain, hplain⟩ := (planPlainBatches_returns hg.hosted hix).ok_of_never
  obtain ⟨sitePlan, hsitePlans, hsitePlan⟩ := (sitePlans_returns hplain).ok_of_never
  obtain ⟨w, hfusing, hw⟩ := (fusing_returns hg hix hplain hsitePlan).ok_of_never
  obtain ⟨results, hresults, h⟩ := (outcomes_returns hplain hw).ok_of_never
  refine ⟨_, stages, ix, plans, results.filterMap id, computeDomains_eq_ok hg.hosted.indexed, hsiteStages,
    hnew, hplanPlain, ?_, h.valid hg hstages⟩
  unfold planGadgetBatches
  rw [hnew, ok_bind, hplanPlain, ok_bind]
  unfold fuseZeroTestReveals
  rw [hsitePlans, ok_bind, hfusing, ok_bind, hresults]
  rfl

/-- A secret tested for zero, and the answer opened: one fused batch. -/
def openedTest : Graph where
  nodes := [⟨.input 1, []⟩, ⟨.gadget 0, [0]⟩, ⟨.gadgetResult 0, [1]⟩, ⟨.gadget 1, [2]⟩,
    ⟨.gadgetResult 0, [3]⟩]
  outputs := [(0, 4)]
  gadgetSites := [⟨.isZero, false⟩, ⟨.reveal 1, false⟩]
  numRounds := 0
  signalToWitness := [0, 1, 2]
  inputList := [("in", 1, 1)]
  publicInputs := []
  mpcPublicInputs := []
  numInputs := 1
  numOutputs := 1
  numSignals := 3

theorem gadget_batches_valid_openedTest : openedTest.Sited ∧
    ∃ domains stages ix plans batches, computeDomains openedTest = .ok domains ∧
      siteStages openedTest domains = .ok stages ∧ ScheduleIndex.new openedTest = .ok ix ∧
      planPlainBatches openedTest domains ix = .ok plans ∧
      planGadgetBatches openedTest domains = .ok batches ∧
      ValidPlacement openedTest domains stages plans batches :=
  have hg : openedTest.Sited := Frontend.sited (by decide) (by decide)
  ⟨hg, gadget_batches_valid hg⟩

end GadgetSchedule
end CircomMpc
