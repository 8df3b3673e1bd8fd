import CircomMpc.Passes.Mpc.GadgetIndex

/-!
# The plain batches

`Window` is what the planning loop keeps of every batch, open or closed: its sites have its key, its
anchor is behind their nodes, no reader of their results stands in front of its deadline, and the
anchor is in front of the deadline. A site joins a batch only if that stays so, whatever the order
the sites come in.

Which batch a site joins is decided by a table from keys to open batches, and it may only ever point
at a batch of the key (`Planning.Holds.active`).
-/

namespace CircomMpc

open Lib CircomMpc.Graph

namespace GadgetSchedule

variable {g : Graph}

/-- A batch that can be serviced at its anchor: its sites have its key, their nodes are not behind
    the anchor, and no reader of their results is in front of the deadline, which the anchor is. -/
structure BatchPlan.Window (g : Graph) (plan : BatchPlan) : Prop where
  nonempty : plan.sites ≠ []
  siteAt : ∀ entry ∈ plan.sites, g.SiteAt entry.1 entry.2
  keyed : ∀ entry ∈ plan.sites, ∃ site, g.gadgetSites[entry.1]? = some site ∧
    batchKey site (g.facts entry.2).net (g.facts entry.2).domain = plan.key
  behind : ∀ entry ∈ plan.sites, entry.2 ≤ plan.anchor
  deadline : ∀ entry ∈ plan.sites, ∀ reader, g.ReadsResult reader entry.1 → plan.deadline ≤ reader
  opened : plan.anchor < plan.deadline

def BatchPlan.siteIds (plan : BatchPlan) : List GadgetId := plan.sites.map Prod.fst

/-- The batch one site opens. -/
def openBatch (g : Graph) (site : GadgetSite) (siteId : GadgetId) (v : ValueId) (first : Nat) :
    BatchPlan where
  kind := site.kind
  domain := (g.facts v).domain
  sites := [(siteId, v)]
  anchor := v
  stage := (g.facts v).net
  precomputed := site.precomputed && (g.facts v).domain == .shared
  deadline := first

/-- A batch one more site has joined. -/
def BatchPlan.join (plan : BatchPlan) (siteId : GadgetId) (v : ValueId) (first : Nat) : BatchPlan :=
  { plan with
    sites := plan.sites ++ [(siteId, v)]
    anchor := max plan.anchor v
    deadline := min plan.deadline first }

namespace BatchPlan.Window

variable {plan : BatchPlan}

/-- A site's node has the site's entry. -/
theorem entry (hg : g.Hosted) (h : plan.Window g) {site : GadgetId} (hsite : site ∈ plan.siteIds)
    {v : ValueId} (hv : g.SiteAt site v) : (site, v) ∈ plan.sites := by
  obtain ⟨entry, hentry, rfl⟩ := List.mem_map.mp hsite
  rw [hg.siteAt_unique hv (h.siteAt entry hentry)]
  exact hentry

/-- A reader of a batch's results stands behind its anchor. -/
theorem ahead (h : plan.Window g) {entry : GadgetId × ValueId} (hentry : entry ∈ plan.sites)
    {reader : ValueId} (hreader : g.ReadsResult reader entry.1) : plan.anchor < reader :=
  Nat.lt_of_lt_of_le h.opened (h.deadline entry hentry reader hreader)

/-- No site of a batch waits for another one: a result of the other is read behind the anchor only. -/
theorem independent (hg : g.Hosted) (h : plan.Window g) {site site' : GadgetId}
    (hsite : site ∈ plan.siteIds) (hsite' : site' ∈ plan.siteIds) : ¬ g.DependsOn site site' := by
  rintro ⟨v, reader, hv, hpath, hreader⟩
  obtain ⟨entry', hentry', rfl⟩ := List.mem_map.mp hsite'
  have hbehind := h.behind _ (h.entry hg hsite hv)
  have hahead := h.ahead hentry' hreader
  exact absurd (Nat.lt_of_lt_of_le hahead (hg.path_le hpath)) (Nat.not_lt_of_le hbehind)

/-- All sites of a batch have its key. -/
theorem uniform (hg : g.Hosted) (h : plan.Window g) {siteId : GadgetId}
    (hsite : siteId ∈ plan.siteIds) {v : ValueId} (hv : g.SiteAt siteId v) :
    ∃ site, g.gadgetSites[siteId]? = some site ∧ site.kind = plan.kind ∧
      (g.facts v).net = plan.stage ∧ (g.facts v).domain = plan.domain ∧
      (site.precomputed && plan.domain == .shared) = plan.precomputed := by
  obtain ⟨site, hget, hkey⟩ := h.keyed _ (h.entry hg hsite hv)
  rw [batchKey, BatchPlan.key, Prod.mk.injEq, Prod.mk.injEq, Prod.mk.injEq] at hkey
  obtain ⟨hkind, hstage, hdomain, hprecomputed⟩ := hkey
  exact ⟨site, hget, hkind, hstage, hdomain, hdomain ▸ hprecomputed⟩

/-- A batch that waits for a site takes it. -/
theorem extend (h : plan.Window g) {siteId v first : Nat} {site : GadgetSite}
    (hat : g.SiteAt siteId v) (hsite : g.gadgetSites[siteId]? = some site)
    (hkey : batchKey site (g.facts v).net (g.facts v).domain = plan.key)
    (hfirst : ∀ reader, g.ReadsResult reader siteId → first ≤ reader)
    (hwaits : plan.waits v first = true) : (plan.join siteId v first).Window g := by
  constructor <;> dsimp only [BatchPlan.join]
  · exact List.append_ne_nil_of_right_ne_nil _ (List.cons_ne_nil _ _)
  · intro entry hentry
    rcases List.mem_append.mp hentry with hentry | hentry
    · exact h.siteAt entry hentry
    · cases List.mem_singleton.mp hentry
      exact hat
  · intro entry hentry
    rcases List.mem_append.mp hentry with hentry | hentry
    · exact h.keyed entry hentry
    · cases List.mem_singleton.mp hentry
      exact ⟨site, hsite, hkey⟩
  · intro entry hentry
    rcases List.mem_append.mp hentry with hentry | hentry
    · exact Nat.le_trans (h.behind entry hentry) (Nat.le_max_left _ _)
    · cases List.mem_singleton.mp hentry
      exact Nat.le_max_right _ _
  · intro entry hentry reader hreader
    rcases List.mem_append.mp hentry with hentry | hentry
    · exact Nat.le_trans (Nat.min_le_left _ _) (h.deadline entry hentry reader hreader)
    · cases List.mem_singleton.mp hentry
      exact Nat.le_trans (Nat.min_le_right _ _) (hfirst reader hreader)
  · exact of_decide_eq_true hwaits

/-- A batch of one site. -/
theorem single {siteId v first : Nat} {site : GadgetSite} (hat : g.SiteAt siteId v)
    (hsite : g.gadgetSites[siteId]? = some site)
    (hfirst : ∀ reader, g.ReadsResult reader siteId → first ≤ reader) (hopen : v < first) :
    (openBatch g site siteId v first).Window g := by
  constructor <;> simp only [openBatch, List.mem_singleton, forall_eq]
  · exact List.cons_ne_nil _ _
  · exact hat
  · exact ⟨site, hsite, rfl⟩
  · exact Nat.le_refl v
  · exact hfirst
  · exact hopen

end BatchPlan.Window

/-- The planning loop, once the sites in `done` are placed: they are in one batch each, every batch
    is a window, and the table of open batches points at batches of its keys. -/
structure Planning.Holds (g : Graph) (done : List GadgetId) (w : Planning) : Prop where
  windows : ∀ plan ∈ w.plans, plan.Window g
  sites : (w.plans.flatMap BatchPlan.siteIds).Perm done
  active : ∀ key idx, w.get key = some idx → ∃ plan, w.plans[idx]? = some plan ∧ plan.key = key

/-- One more site in one of the plans. -/
theorem flatMap_set_perm {plans : List BatchPlan} {idx : Nat} {plan plan' : BatchPlan}
    {site : GadgetId} (hplan : plans[idx]? = some plan)
    (hsites : plan'.siteIds = plan.siteIds ++ [site]) :
    ((plans.set idx plan').flatMap BatchPlan.siteIds).Perm
      (plans.flatMap BatchPlan.siteIds ++ [site]) := by
  obtain ⟨hlt, hget⟩ := List.getElem?_eq_some_iff.mp hplan
  have hsplit : plans = plans.take idx ++ plan :: plans.drop (idx + 1) := by
    rw [← hget, List.getElem_cons_drop, List.take_append_drop]
  have hset : plans.set idx plan' = plans.take idx ++ plan' :: plans.drop (idx + 1) :=
    by rw [List.set_eq_take_append_cons_drop, if_pos hlt]
  rw [hset]
  conv_rhs => rw [hsplit]
  simp only [List.flatMap_append, List.flatMap_cons, hsites, List.append_assoc]
  refine List.Perm.append_left _ (List.Perm.append_left _ ?_)
  exact List.perm_append_comm

/-- What one site does: it opens a batch because the open one of its key cannot wait for it, or joins
    the open one. -/
inductive Planned (w : Planning) (key : BatchKey) (siteId : GadgetId) (v : ValueId) (first : Nat)
    (single : BatchPlan) : Planning → Prop
  | opens (h : ∀ idx plan, w.get key = some idx → w.plans[idx]? = some plan →
        plan.waits v first = false) :
      Planned w key siteId v first single ⟨w.plans ++ [single], (key, w.plans.length) :: w.active⟩
  | joins (idx : Nat) (plan : BatchPlan) (hget : w.get key = some idx)
      (hplan : w.plans[idx]? = some plan) (hwaits : plan.waits v first = true) :
      Planned w key siteId v first single
        { w with plans := w.plans.set idx (plan.join siteId v first) }

theorem planSite_planned {ix : ScheduleIndex} (hix : ix.Describes g) {stages : List Nat}
    (hstages : ∀ site v, g.SiteAt site v → stages[site]? = some (g.facts v).net) {w : Planning}
    (hactive : ∀ key idx, w.get key = some idx → ∃ plan, w.plans[idx]? = some plan)
    {siteId v first : Nat} {site : GadgetSite} (hat : g.SiteAt siteId v)
    (hsite : g.gadgetSites[siteId]? = some site) (hfirst : ix.firstReader[siteId]? = some first) :
    Returns (Planned w (batchKey site (g.facts v).net (g.facts v).domain) siteId v first
        (openBatch g site siteId v first))
      (planSite g ((table (netRule g) g.nodes).map Facts.domain) stages ix w siteId) := by
  have hdomain : index ((table (netRule g) g.nodes).map Facts.domain) v = .ok (g.facts v).domain :=
    index_table hat.lt
  unfold planSite
  rw [index_eq hsite, ok_bind, index_eq (hix.siteNode siteId v hat), ok_bind,
    index_eq (hstages siteId v hat), ok_bind, hdomain, ok_bind, index_eq hfirst, ok_bind]
  unfold Planning.appendTo
  generalize batchKey site (g.facts v).net (g.facts v).domain = key
  cases hget : w.get key with
  | none =>
    simp only [pure_bind]
    refine .opens fun idx plan hidx => ?_
    rw [hget] at hidx
    cases hidx
  | some idx =>
    obtain ⟨plan, hplan⟩ := hactive key idx hget
    simp only [index_eq hplan, ok_bind, pure_bind]
    -- The open one takes the site if it can wait, and is closed otherwise.
    by_cases hwaits : plan.waits v first = true
    · simp only [hwaits, if_true, index_eq hplan, ok_bind]
      rw [setIndex, if_pos (List.getElem?_eq_some_iff.mp hplan).1, ok_bind]
      exact .joins idx plan hget hplan hwaits
    · simp only [hwaits]
      refine .opens fun idx' plan' hidx hplan' => ?_
      rw [hget] at hidx
      cases hidx
      rw [hplan] at hplan'
      cases hplan'
      simpa using hwaits

/-- The batch a key is looked up as, behind a site that opened one. -/
theorem get_opened {w : Planning} {key key' : BatchKey} {plans : List BatchPlan} {idx : Nat}
    (hget : Planning.get ⟨plans, (key, w.plans.length) :: w.active⟩ key' = some idx) :
    key' = key ∧ idx = w.plans.length ∨ key' ≠ key ∧ w.get key' = some idx := by
  unfold Planning.get at hget
  rw [List.find?_cons] at hget
  split at hget
  next heq =>
    cases hget
    exact .inl ⟨(eq_of_beq heq).symm, rfl⟩
  next heq =>
    refine .inr ⟨?_, hget⟩
    rintro rfl
    simp at heq

theorem Planned.holds {w w' : Planning} {done : List GadgetId} (hw : w.Holds g done)
    {siteId v first : Nat} {site : GadgetSite} (hat : g.SiteAt siteId v)
    (hsite : g.gadgetSites[siteId]? = some site)
    (hreaders : ∀ reader, g.ReadsResult reader siteId → first ≤ reader) (hopen : v < first)
    (h : Planned w (batchKey site (g.facts v).net (g.facts v).domain) siteId v first
      (openBatch g site siteId v first) w') : w'.Holds g (done ++ [siteId]) := by
  generalize hkey : batchKey site (g.facts v).net (g.facts v).domain = key at h
  cases h with
  | opens h =>
    refine ⟨?_, ?_, ?_⟩
    · intro plan hplan
      rcases List.mem_append.mp hplan with hplan | hplan
      · exact hw.windows plan hplan
      · cases List.mem_singleton.mp hplan
        exact .single hat hsite hreaders hopen
    · simp only [List.flatMap_append, List.flatMap_singleton]
      exact hw.sites.append_right _
    · intro key' idx hget
      rcases get_opened hget with ⟨rfl, rfl⟩ | ⟨_, hget⟩
      · exact ⟨_, List.getElem?_concat_length, hkey⟩
      · obtain ⟨plan, hplan, hplanKey⟩ := hw.active key' idx hget
        exact ⟨plan, getElem?_append_of_some hplan, hplanKey⟩
  -- The joined batch has its site more and its old key.
  | joins idx plan hget hplan hwaits =>
    obtain ⟨plan', hplan', hplanKey⟩ := hw.active key idx hget
    rw [hplan] at hplan'
    cases hplan'
    have hwindow := (hw.windows plan (List.mem_of_getElem? hplan)).extend hat hsite
      (hkey.trans hplanKey.symm) hreaders hwaits
    refine ⟨?_, ?_, ?_⟩
    · intro plan' hplan'
      rcases List.mem_or_eq_of_mem_set hplan' with hmem | rfl
      · exact hw.windows plan' hmem
      · exact hwindow
    · refine (flatMap_set_perm hplan ?_).trans (hw.sites.append_right _)
      simp [BatchPlan.siteIds, BatchPlan.join]
    · intro key' idx' hget'
      obtain ⟨plan', hplan', hplanKey'⟩ := hw.active key' idx' hget'
      by_cases hne : idx = idx'
      · subst hne
        rw [hplan] at hplan'
        cases hplan'
        exact ⟨_, List.getElem?_set_self (List.getElem?_eq_some_iff.mp hplan).1, hplanKey'⟩
      · exact ⟨plan', by rw [List.getElem?_set_ne hne]; exact hplan', hplanKey'⟩

theorem planSite_returns (hg : g.Hosted) {ix : ScheduleIndex} (hix : ix.Describes g)
    {stages : List Nat} (hstages : ∀ site v, g.SiteAt site v → stages[site]? = some (g.facts v).net)
    {done : List GadgetId} {w : Planning} (hw : w.Holds g done) {siteId : GadgetId}
    (hsiteId : siteId < g.gadgetSites.length) :
    Returns (Planning.Holds g (done ++ [siteId]))
      (planSite g ((table (netRule g) g.nodes).map Facts.domain) stages ix w siteId) := by
  obtain ⟨v, hat⟩ := hg.exists_siteAt hsiteId
  have hsite : g.gadgetSites[siteId]? = some g.gadgetSites[siteId] := List.getElem?_eq_getElem hsiteId
  obtain ⟨first, hfirst, hopen, hreaders⟩ := hix.firstReader siteId v hat
  apply (planSite_planned hix hstages (fun key idx hget => ?_) hat hsite hfirst).post
  · intro w' hw'
    exact hw'.holds hw hat hsite hreaders hopen
  · obtain ⟨plan, hplan, _⟩ := hw.active key idx hget
    exact ⟨plan, hplan⟩

/-- Every site in one batch, and every batch a window. What the fusion starts from, whatever order
    the sites were taken in. -/
structure Plain (g : Graph) (plans : List BatchPlan) : Prop where
  windows : ∀ plan ∈ plans, plan.Window g
  sites : (plans.flatMap BatchPlan.siteIds).Perm (List.range g.gadgetSites.length)

/-- **`plan_plain_batches`** places every site, and only where the batch can wait for it. -/
theorem planPlainBatches_returns (hg : g.Hosted) {ix : ScheduleIndex} (hix : ix.Describes g) :
    Returns (Plain g)
      (planPlainBatches g ((table (netRule g) g.nodes).map Facts.domain) ix) := by
  unfold planPlainBatches
  split
  next hempty =>
    refine ⟨fun plan hplan => absurd hplan List.not_mem_nil, ?_⟩
    rw [List.isEmpty_iff.mp hempty]
    exact .nil
  next =>
    refine Meets.bind (siteStages_returns hg) fun stages hstages => ?_
    generalize horder : ((List.range g.gadgetSites.length).mergeSort fun a b =>
      ix.siteNode.getD a usizeMax ≤ ix.siteNode.getD b usizeMax) = order
    have hperm : order.Perm (List.range g.gadgetSites.length) := by
      rw [← horder]
      exact List.mergeSort_perm _ _
    have hloop : Returns (Planning.Holds g order)
        (order.foldlM (planSite g ((table (netRule g) g.nodes).map Facts.domain) stages ix)
          ⟨[], []⟩) := by
      refine Meets.foldlM_prefix (Planning.Holds g) ?_ ?_
      · exact ⟨fun plan hplan => absurd hplan List.not_mem_nil, .nil, fun key idx hget => nomatch hget⟩
      · intro done siteId rest w horder hw
        have hmem : siteId ∈ order := by simp [horder]
        exact planSite_returns hg hix hstages hw (List.mem_range.mp (hperm.mem_iff.mp hmem))
    refine Meets.bind hloop fun w hw => ?_
    have hsorted := List.mergeSort_perm w.plans BatchPlan.before
    exact ⟨fun plan hplan => hw.windows plan (hsorted.mem_iff.mp hplan),
      (hsorted.flatMap_right _).trans (hw.sites.trans hperm)⟩

end GadgetSchedule
end CircomMpc
