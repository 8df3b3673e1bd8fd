import CircomMpc.Codegen.Batches

/-!
# What is waiting where

Two things are put off in the instruction stream: a local product until its round, and a site until
its batch. Both are functions of the graph and the plans alone. `pendingAt` are the products the
machine has deferred in front of a node, and `servedBefore` the sites whose batches have run there.
-/

namespace CircomMpc

open Lib CircomMpc.Graph

namespace Graph

variable (g : Graph)

/-- The local products behind the last round in front of node `i`, in order. -/
def pendingAt : Nat → List ValueId
  | 0 => []
  | i + 1 =>
    match g.nodes[i]?.map Cell.op with
    | some (.round _) => []
    | some .mulLocal => pendingAt i ++ [i]
    | _ => pendingAt i

/-- From node `i` on, every round reshares the products that are pending at it, in order. -/
def LinedUpFrom (i : Nat) : Prop :=
  ∀ (r : Nat) (id : RoundId) (args : List ValueId), i ≤ r → g.nodes[r]? = some ⟨.round id, args⟩ →
    args = g.pendingAt r

/-- Every round does. -/
def LinedUp : Prop := g.LinedUpFrom 0

/-- `LinedUp` of one node, as a check. -/
def lineUpCheck (r : Nat) : Bool :=
  match g.nodes[r]? with
  | some ⟨.round _, args⟩ => args == g.pendingAt r
  | _ => true

/-- Whether the rounds line up can be checked. -/
instance : Decidable g.LinedUp :=
  decidable_of_iff (∀ r < g.nodes.length, g.lineUpCheck r = true) <| by
    constructor
    · intro h r id args _ hround
      have hcheck := h r (List.getElem?_eq_some_iff.mp hround).1
      rw [lineUpCheck, hround] at hcheck
      exact eq_of_beq hcheck
    · intro h r _
      unfold lineUpCheck
      split
      · next hround => exact beq_iff_eq.mpr (h r _ _ (Nat.zero_le r) hround)
      · rfl

variable {g}

theorem pendingAt_round {i : Nat} {id : RoundId} {args : List ValueId}
    (hnode : g.nodes[i]? = some ⟨.round id, args⟩) : g.pendingAt (i + 1) = [] := by
  simp [pendingAt, hnode]

theorem pendingAt_local {i : Nat} {args : List ValueId} (hnode : g.nodes[i]? = some ⟨.mulLocal, args⟩) :
    g.pendingAt (i + 1) = g.pendingAt i ++ [i] := by
  simp [pendingAt, hnode]

theorem pendingAt_other {i : Nat} {op : Op} {args : List ValueId} (hnode : g.nodes[i]? = some ⟨op, args⟩)
    (hround : ∀ id, op ≠ .round id) (hlocal : op ≠ .mulLocal) :
    g.pendingAt (i + 1) = g.pendingAt i := by
  rw [pendingAt, hnode]
  cases op
  case round id => exact absurd rfl (hround id)
  case mulLocal => exact absurd rfl hlocal
  all_goals rfl

/-- A pending product, with no round behind it. -/
theorem mem_pendingAt {i : Nat} {v : ValueId} (hv : v ∈ g.pendingAt i) :
    v < i ∧ (∃ args, g.nodes[v]? = some ⟨.mulLocal, args⟩) ∧
      ∀ (q : Nat) (id : RoundId) (args : List ValueId), v ≤ q → q < i →
        g.nodes[q]? ≠ some ⟨.round id, args⟩ := by
  induction i with
  | zero => cases hv
  | succ i ih =>
    -- What is no round leaves the pending products as they are.
    have hkept : (∀ id args, g.nodes[i]? ≠ some ⟨.round id, args⟩) → v ∈ g.pendingAt i →
        v < i + 1 ∧ (∃ args, g.nodes[v]? = some ⟨.mulLocal, args⟩) ∧
          ∀ (q : Nat) (id : RoundId) (args : List ValueId), v ≤ q → q < i + 1 →
            g.nodes[q]? ≠ some ⟨.round id, args⟩ := by
      intro hnot hv
      obtain ⟨hlt, hlocal, hrounds⟩ := ih hv
      refine ⟨Nat.lt_succ_of_lt hlt, hlocal, ?_⟩
      intro q id args hvq hq
      rcases Nat.lt_succ_iff_lt_or_eq.mp hq with hq | rfl
      · exact hrounds q id args hvq hq
      · exact hnot id args
    cases hnode : g.nodes[i]? with
    | none =>
      apply hkept (by simp [hnode])
      simpa [pendingAt, hnode] using hv
    | some node =>
      obtain ⟨op, args⟩ := node
      by_cases hround : ∃ id, op = .round id
      · obtain ⟨id, rfl⟩ := hround
        rw [pendingAt_round hnode] at hv
        cases hv
      have hnot : ∀ id args', g.nodes[i]? ≠ some ⟨.round id, args'⟩ := by
        intro id args' hat
        rw [hnode] at hat
        cases hat
        exact hround ⟨id, rfl⟩
      by_cases hlocal : op = .mulLocal
      · subst hlocal
        rw [pendingAt_local hnode] at hv
        rcases List.mem_append.mp hv with hv | hv
        · exact hkept hnot hv
        · cases List.mem_singleton.mp hv
          refine ⟨Nat.lt_succ_self v, ⟨args, hnode⟩, ?_⟩
          intro q id args' hvq hq
          cases Nat.le_antisymm hvq (Nat.lt_succ_iff.mp hq)
          exact hnot id args'
      · rw [pendingAt_other hnode (fun id h => hround ⟨id, h⟩) hlocal] at hv
        exact hkept hnot hv

/-- A pending product's round is still to come. -/
theorem IsLowered.round_of_pending (hg : g.IsLowered) {i : Nat} {v : ValueId} (hv : v ∈ g.pendingAt i) :
    ∃ (r : Nat) (id : RoundId) (args : List ValueId), i ≤ r ∧
      g.nodes[r]? = some ⟨.round id, args⟩ ∧ v ∈ args := by
  obtain ⟨_, ⟨args, hlocal⟩, hrounds⟩ := mem_pendingAt hv
  obtain ⟨id, slots, hround, hin⟩ :=
    mem_slots.mp (hg.slots.mem_iff.mpr (mem_localProducts.mpr ⟨args, hlocal⟩))
  obtain ⟨r, hr⟩ := List.mem_iff_getElem?.mp hround
  have hvr : v < r := hg.indexed.ordered r _ hr v hin
  refine ⟨r, id, slots, ?_, hr, hin⟩
  exact Nat.le_of_not_lt fun hri => hrounds r id slots (Nat.le_of_lt hvr) hri hr

/-- At the end nothing is pending. -/
theorem IsLowered.pendingAt_last (hg : g.IsLowered) {n : Nat} (hn : g.nodes.length ≤ n) :
    g.pendingAt n = [] := by
  apply List.eq_nil_iff_forall_not_mem.mpr
  intro v hv
  obtain ⟨r, _, _, hnr, hr, _⟩ := hg.round_of_pending hv
  exact absurd (List.getElem?_eq_some_iff.mp hr).1 (Nat.not_lt_of_le (Nat.le_trans hn hnr))

/-- A round's block leaves nothing pending. -/
theorem IsLowered.pendingAt_block (hg : g.IsLowered) {i : Nat} {id : RoundId} {args : List ValueId}
    (hnode : g.nodes[i]? = some ⟨.round id, args⟩) : g.pendingAt (i + 1 + args.length) = [] := by
  have hblock : ∀ k ≤ args.length, g.pendingAt (i + 1 + k) = [] := by
    intro k
    induction k with
    | zero => exact fun _ => pendingAt_round hnode
    | succ k ih =>
      intro hk
      rw [← ih (Nat.le_of_succ_le hk)]
      exact pendingAt_other (hg.block i id args hnode k hk) (by simp) (by simp)
  exact hblock args.length (Nat.le_refl _)

/-- A pending product has not been taken. -/
theorem IsLowered.pending_not_taken (hg : g.IsLowered) {i : Nat} {v : ValueId}
    (hv : v ∈ g.pendingAt i) : v ∉ Codegen.takenAt g i := by
  intro hmem
  obtain ⟨r, hr, id, args, hround, hin⟩ := Codegen.mem_takenAt.mp hmem
  have hvr : v < r := hg.indexed.ordered r _ hround v hin
  exact (mem_pendingAt hv).2.2 r id args (Nat.le_of_lt hvr) hr hround

end Graph

namespace Codegen

open GadgetSchedule

variable {g : Graph}

namespace Setting

variable (t : Setting g)

/-- The site's batch stands in front of node `i`. -/
def servedBefore (i : Nat) (site : GadgetId) : Prop :=
  ∃ plan ∈ t.schedule.plans, site ∈ plan.siteIds ∧ plan.anchor < i

variable {t}

theorem mem_siteIds_of_read {plan : ScheduledBatch} {site : GadgetId} (h : site ∈ readSites plan) :
    site ∈ plan.siteIds := by
  cases plan with
  | gadget plan => exact h
  | isZeroReveal plan => exact List.mem_append_left _ h

/-- A site is in one batch. -/
theorem plan_unique (t : Setting g) {j k : Nat} {plan plan' : ScheduledBatch} {site : GadgetId}
    (hj : t.schedule.plans[j]? = some plan) (hk : t.schedule.plans[k]? = some plan')
    (hsite : site ∈ plan.siteIds) (hsite' : site ∈ plan'.siteIds) : j = k :=
  index_unique_of_nodup (t.planned.serviced.once.nodup_iff.mpr List.nodup_range) hj hk hsite hsite'

/-- Every site is in a batch. -/
theorem exists_plan (t : Setting g) {site : GadgetId} {u : ValueId} (hat : g.SiteAt site u) :
    ∃ plan ∈ t.schedule.plans, site ∈ plan.siteIds := by
  have hlt := t.emittable.sited.hosted.siteAt_lt hat
  exact List.mem_flatMap.mp (t.planned.serviced.once.mem_iff.mpr (List.mem_range.mpr hlt))

/-- At the end every site has been served. -/
theorem served_last (t : Setting g) {n : Nat} (hn : g.nodes.length ≤ n) {site : GadgetId} {u : ValueId}
    (hat : g.SiteAt site u) : t.servedBefore n site := by
  obtain ⟨plan, hplan, hsite⟩ := t.exists_plan hat
  obtain ⟨_, hanchor⟩ := t.planned.serviced.anchored plan hplan
  exact ⟨plan, hplan, hsite, Nat.lt_of_lt_of_le hanchor.lt hn⟩

/-- What a node reads of a site has been computed, unless the node is a reveal that was fused with the
    site. -/
theorem served_of_read (t : Setting g) {i : Nat} {u : ValueId} {site slot : Nat} (hread : g.Reads i u)
    (hat : g.ResultAt site slot u) : t.servedBefore i site ∨
      ∃ plan, .isZeroReveal plan ∈ t.schedule.plans ∧ ∃ e ∈ plan.sites, g.SiteAt e.revealSite i := by
  obtain ⟨_, _, hsite⟩ := id hat
  obtain ⟨plan, hplan, hin⟩ := t.exists_plan hsite
  rcases t.planned.serviced.ahead plan hplan site hin i ⟨u, slot, hread, hat⟩ with
    hlt | ⟨plan', rfl, e, he, _, hreveal⟩
  · exact .inl ⟨plan, hplan, hin, hlt⟩
  · exact .inr ⟨plan', hplan, e, he, hreveal⟩

/-- A site whose inputs a batch reads is not a fused reveal. -/
theorem not_revealed (t : Setting g) {plan : ScheduledBatch} (hplan : plan ∈ t.schedule.plans)
    {site : GadgetId} (hsite : site ∈ readSites plan) {fused : IsZeroRevealPlan}
    (hfused : .isZeroReveal fused ∈ t.schedule.plans) : ∀ e ∈ fused.sites, e.revealSite ≠ site := by
  rintro e he rfl
  obtain ⟨j, hj⟩ := List.mem_iff_getElem?.mp hplan
  obtain ⟨k, hk⟩ := List.mem_iff_getElem?.mp hfused
  have hreveal : e.revealSite ∈ fused.sites.map IsZeroRevealSite.revealSite := List.mem_map_of_mem he
  have hsame := t.plan_unique hj hk (mem_siteIds_of_read hsite) (List.mem_append_right _ hreveal)
  rw [hsame, hk] at hj
  cases hj
  have hnodup := (List.nodup_flatMap.mp
    (t.planned.serviced.once.nodup_iff.mpr List.nodup_range)).1 _ hfused
  exact (List.nodup_append.mp hnodup).2.2 _ hsite _ hreveal rfl

/-- The inputs of a batch's sites are needed until it runs. -/
theorem lasts_of_read (t : Setting g) {plan : ScheduledBatch} (hplan : plan ∈ t.schedule.plans)
    {site : GadgetId} (hsite : site ∈ readSites plan) {u : ValueId} {inputs : List ValueId}
    (hu : g.nodes[u]? = some ⟨.gadget site, inputs⟩) : Lasts t.lastUse plan.anchor inputs := by
  have hhosted := t.emittable.sited.hosted
  intro v hv
  suffices h : ∃ vs, batchInputs g.nodes plan = .ok vs ∧ v ∈ vs by
    obtain ⟨vs, hvs, hin⟩ := h
    exact t.planned.lasts plan hplan vs hvs v hin
  rcases t.planned.serviced.kinds plan hplan with
    ⟨plan, rfl, hwindow⟩ | ⟨plan, reveals, zeros, rfl, hfusion, _, _⟩
  · have hread : ∀ entry ∈ plan.sites, (do
        pure (← index g.nodes entry.2).inputs : Except Panic (List ValueId)) =
          .ok ((g.nodes[entry.2]?.map Cell.inputs).getD []) := by
      intro entry hentry
      obtain ⟨inputs', hnode⟩ := hwindow.siteAt entry hentry
      rw [index_eq hnode, hnode]
      rfl
    obtain ⟨entry, hentry, rfl⟩ := List.mem_map.mp hsite
    refine ⟨(plan.sites.map fun entry => (g.nodes[entry.2]?.map Cell.inputs).getD []).flatten, ?_, ?_⟩
    · unfold batchInputs
      dsimp only
      rw [mapM_eq_ok hread, ok_bind]
      rfl
    · obtain ⟨inputs', hnode⟩ := hwindow.siteAt entry hentry
      cases hhosted.siteAt_unique ⟨inputs, hu⟩ ⟨inputs', hnode⟩
      apply List.mem_flatten.mpr
      refine ⟨inputs, List.mem_map.mpr ⟨entry, hentry, ?_⟩, hv⟩
      rw [hu]
      rfl
  · obtain ⟨e, he, rfl⟩ := List.mem_map.mp hsite
    obtain ⟨_, _, _, hopens⟩ := hfusion.opens e he
    obtain ⟨u', hu'⟩ := hopens.zeroTest
    cases hhosted.siteAt_unique ⟨inputs, hu⟩ ⟨_, hu'⟩
    rw [hu] at hu'
    cases hu'
    exact ⟨_, rfl, List.mem_map.mpr ⟨e, he, (List.mem_singleton.mp hv).symm⟩⟩

end Setting

end Codegen
end CircomMpc
