import CircomMpc.Passes.Mpc.GadgetPlacement

/-!
# The batches as code generation sees them

Every site is in one batch; a batch is an ordinary one or a fused one; and it is anchored at a gadget
node, so that no batch is due behind any other kind of node.
-/

namespace CircomMpc

open Lib CircomMpc.Graph

namespace GadgetSchedule

variable {g : Graph}

/-- A plan's anchor is the node of one of its sites. -/
def BatchPlan.Anchored (plan : BatchPlan) : Prop := ∃ e ∈ plan.sites, e.2 = plan.anchor

theorem planSite_anchored {domains : List Domain} {stages : List Nat} {ix : ScheduleIndex}
    {w : Planning} (hw : ∀ plan ∈ w.plans, plan.Anchored) (siteId : GadgetId) :
    Meets (fun _ => True) (fun w' : Planning => ∀ plan ∈ w'.plans, plan.Anchored)
      (planSite g domains stages ix w siteId) := by
  unfold planSite
  apply Meets.bind_any
  intro site
  apply Meets.bind_any
  intro node
  apply Meets.bind_any
  intro stage
  apply Meets.bind_any
  intro domain
  apply Meets.bind_any
  intro reader
  apply Meets.bind_any
  intro found
  cases found with
  | none =>
    intro plan hplan
    rcases List.mem_append.mp hplan with hplan | hplan
    · exact hw plan hplan
    · cases List.mem_singleton.mp hplan
      exact ⟨(siteId, node), by simp, rfl⟩
  | some idx =>
    show Meets _ _ (index w.plans idx >>= _)
    unfold index
    cases hplan : w.plans[idx]? with
    | none => exact trivial
    | some plan =>
      obtain ⟨e, he, hanchor⟩ := hw plan (List.mem_of_getElem? hplan)
      rw [orElse_some, ok_bind]
      unfold setIndex
      split
      · intro plan' hplan'
        rcases List.mem_or_eq_of_mem_set hplan' with hmem | rfl
        · exact hw plan' hmem
        · rcases Nat.le_total plan.anchor node with hle | hle
          · exact ⟨(siteId, node), by simp, (Nat.max_eq_right hle).symm⟩
          · refine ⟨e, List.mem_append_left _ he, ?_⟩
            rw [hanchor]
            exact (Nat.max_eq_left hle).symm
      · exact trivial

theorem planPlainBatches_anchored {domains : List Domain} {ix : ScheduleIndex} :
    Meets (fun _ => True) (fun plans : List BatchPlan => ∀ plan ∈ plans, plan.Anchored)
      (planPlainBatches g domains ix) := by
  unfold planPlainBatches
  split
  · intro plan hplan
    cases hplan
  · apply Meets.bind_any
    intro stages
    have hloop : ∀ order : List GadgetId,
        Meets (fun _ => True) (fun w : Planning => ∀ plan ∈ w.plans, plan.Anchored)
          (order.foldlM (planSite g domains stages ix) ⟨[], []⟩) := by
      intro order
      apply Meets.foldlM
      · intro plan hplan
        cases hplan
      · intro site _ w hw
        exact planSite_anchored hw site
    apply Meets.bind (hloop _)
    intro w hw plan hplan
    exact hw plan ((List.mergeSort_perm _ _).mem_iff.mp hplan)

/-- What code generation relies on. Compared with `ValidPlacement` it names the plans a fused batch
    was made of, and knows that a batch is anchored at a gadget node. -/
structure Serviced (g : Graph) (batches : List ScheduledBatch) : Prop where
  once : (batches.flatMap ScheduledBatch.siteIds).Perm (List.range g.gadgetSites.length)
  kinds : ∀ batch ∈ batches, (∃ plan, batch = .gadget plan ∧ plan.Window g) ∨
    ∃ plan reveals zeros, batch = .isZeroReveal plan ∧ Fusion g reveals zeros plan ∧
      reveals.Window g ∧ zeros.Window g
  anchored : ∀ batch ∈ batches, ∃ site, g.SiteAt site batch.anchor
  behind : ∀ batch ∈ batches, ∀ site ∈ batch.siteIds, ∀ v, g.SiteAt site v → v ≤ batch.anchor
  ahead : ∀ batch ∈ batches, ∀ site ∈ batch.siteIds, ∀ reader, g.ReadsResult reader site →
    batch.anchor < reader ∨ ∃ plan, batch = .isZeroReveal plan ∧ ∃ e ∈ plan.sites,
      e.zeroTestSite = site ∧ g.SiteAt e.revealSite reader

theorem planGadgetBatches_returns (hg : g.Sited) :
    Returns (Serviced g) (planGadgetBatches g ((table (netRule g) g.nodes).map Facts.domain)) := by
  obtain ⟨ix, hnew, hix⟩ := (ScheduleIndex.new_describes hg.hosted).ok_of_never
  obtain ⟨stages, _, hstages⟩ := (siteStages_returns hg.hosted).ok_of_never
  obtain ⟨plans, hplans, hplain⟩ := (planPlainBatches_returns hg.hosted hix).ok_of_never
  obtain ⟨sitePlan, hsitePlans, hsitePlan⟩ := (sitePlans_returns hplain).ok_of_never
  obtain ⟨w, hfusing, hw⟩ := (fusing_returns hg hix hplain hsitePlan).ok_of_never
  obtain ⟨results, hresults, h⟩ := (outcomes_returns hplain hw).ok_of_never
  have hanchored : ∀ plan ∈ plans, plan.Anchored := by
    have hmeets : Meets (fun _ => True) (fun plans : List BatchPlan => ∀ plan ∈ plans, plan.Anchored)
        (planPlainBatches g ((table (netRule g) g.nodes).map Facts.domain) ix) :=
      planPlainBatches_anchored
    rw [hplans] at hmeets
    exact hmeets
  have hvalid := h.valid hg hstages
  unfold planGadgetBatches
  rw [hnew, ok_bind, hplans, ok_bind]
  unfold fuseZeroTestReveals
  rw [hsitePlans, ok_bind, hfusing, ok_bind, hresults]
  -- What came out is the outcome of some plan.
  have hget : ∀ batch ∈ results.filterMap id, ∃ i : Nat, results[i]? = some (some batch) := by
    intro batch hbatch
    obtain ⟨outcome, hmem, hsome⟩ := List.mem_filterMap.mp hbatch
    cases hsome
    exact List.mem_iff_getElem?.mp hmem
  -- An anchor is the node of one of the batch's sites.
  have hsiteAt : ∀ plan ∈ plans, ∃ site, g.SiteAt site plan.anchor := by
    intro plan hplan
    obtain ⟨e, he, hanchor⟩ := hanchored plan hplan
    rw [← hanchor]
    exact ⟨e.1, (hplain.windows plan hplan).siteAt e he⟩
  refine ⟨hvalid.once, ?_, ?_, hvalid.behind, hvalid.ahead⟩
  · intro batch hbatch
    obtain ⟨i, hi⟩ := hget batch hbatch
    -- An ordinary batch is its plan; a fused one is anchored where its reveals are.
    rcases h.batch_cases hi with
      ⟨plan, hplan, rfl⟩ | ⟨plan, reveals, hreveals, zeros, hzeros, rfl, hfused⟩
    · exact .inl ⟨plan, rfl, hplain.windows plan hplan⟩
    · exact .inr ⟨plan, reveals, zeros, rfl, hfused, hplain.windows reveals hreveals,
        hplain.windows zeros hzeros⟩
  · intro batch hbatch
    obtain ⟨i, hi⟩ := hget batch hbatch
    rcases h.batch_cases hi with
      ⟨plan, hplan, rfl⟩ | ⟨plan, reveals, hreveals, zeros, hzeros, rfl, hfused⟩
    · exact hsiteAt plan hplan
    · rw [show (ScheduledBatch.isZeroReveal plan).anchor = reveals.anchor from hfused.anchor]
      exact hsiteAt reveals hreveals

end GadgetSchedule
end CircomMpc
