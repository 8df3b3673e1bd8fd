import CircomMpc.Codegen.Serviced
import CircomMpc.Codegen.Reserve

/-!
# What is due where, and what is kept for it

`plan_batches` hands the walk three tables: the batches, the batches due at every node, and the last
uses, which are never earlier than the batch that reads the value.

Last uses only ever grow (`Later`), so what one loop has made sure of, the next one keeps.
-/

namespace CircomMpc

open Lib CircomMpc.Graph

namespace Codegen

open GadgetSchedule

/-- The batches anchored at node `i`, in the order of the plans. -/
def dueAt (plans : List ScheduledBatch) (i : Nat) : List Nat :=
  (List.range plans.length).filter fun k => plans[k]?.any fun plan => plan.anchor == i

theorem mem_dueAt {plans : List ScheduledBatch} {i k : Nat} :
    k ∈ dueAt plans i ↔ ∃ plan, plans[k]? = some plan ∧ plan.anchor = i := by
  unfold dueAt
  rw [List.mem_filter, List.mem_range]
  constructor
  · rintro ⟨hk, hany⟩
    rw [List.getElem?_eq_getElem hk] at hany
    exact ⟨_, List.getElem?_eq_getElem hk, eq_of_beq hany⟩
  · rintro ⟨plan, hplan, hanchor⟩
    refine ⟨(List.getElem?_eq_some_iff.mp hplan).1, ?_⟩
    rw [hplan]
    exact beq_iff_eq.mpr hanchor

/-- No use is forgotten: every entry is at least what it was. -/
def Later (lastUse lastUse' : List Nat) : Prop :=
  ∀ (v : ValueId) (last' : Nat), lastUse'[v]? = some last' →
    ∃ last, lastUse[v]? = some last ∧ last ≤ last'

theorem Later.refl (lastUse : List Nat) : Later lastUse lastUse :=
  fun _ last h => ⟨last, h, Nat.le_refl last⟩

theorem Later.trans {a b c : List Nat} (hab : Later a b) (hbc : Later b c) : Later a c := by
  intro v last h
  obtain ⟨last', h', hle'⟩ := hbc v last h
  obtain ⟨last'', h'', hle''⟩ := hab v last' h'
  exact ⟨last'', h'', Nat.le_trans hle'' hle'⟩

/-- The values are needed at `anchor` at least. -/
def Lasts (lastUse : List Nat) (anchor : Nat) (vs : List ValueId) : Prop :=
  ∀ v ∈ vs, ∀ last, lastUse[v]? = some last → anchor ≤ last

theorem Lasts.later {lastUse lastUse' : List Nat} {anchor : Nat} {vs : List ValueId}
    (h : Lasts lastUse anchor vs) (hlater : Later lastUse lastUse') : Lasts lastUse' anchor vs := by
  intro v hv last' hlast'
  obtain ⟨last, hlast, hle⟩ := hlater v last' hlast'
  exact Nat.le_trans (h v hv last hlast) hle

theorem extendUses_meets {nodes : List Node} {lastUse : List Nat} {plan : ScheduledBatch} :
    Meets (fun _ => True) (fun lastUse' => Later lastUse lastUse' ∧
      ∀ vs, batchInputs nodes plan = .ok vs → Lasts lastUse' plan.anchor vs)
      (extendUses nodes lastUse plan) := by
  unfold extendUses
  apply Meets.bind_eq
  intro vs hvs
  -- The inputs done so far last until the anchor, and no last use went down.
  have hloop : Meets (fun _ => True) (fun lastUse' => Later lastUse lastUse' ∧
      Lasts lastUse' plan.anchor vs)
      (vs.foldlM (fun lastUse input => do
        setIndex lastUse input (max (← index lastUse input) plan.anchor)) lastUse) := by
    apply Meets.foldlM_prefix (fun done lastUse' => Later lastUse lastUse' ∧
      Lasts lastUse' plan.anchor done)
    · exact ⟨Later.refl _, fun v hv => absurd hv List.not_mem_nil⟩
    · intro done input rest before _ hbefore
      obtain ⟨hlater, hlasts⟩ := hbefore
      apply Meets.bind_eq
      intro last hlast
      have hwrite : Meets (fun _ => True) (fun after => after = before.set input (max last plan.anchor))
          (setIndex before input (max last plan.anchor)) := by
        unfold setIndex
        split
        · rfl
        · trivial
      apply hwrite.post
      rintro after rfl
      rw [index_eq_ok] at hlast
      have hlt := (List.getElem?_eq_some_iff.mp hlast).1
      have hset : Later before (before.set input (max last plan.anchor)) := by
        intro v last' hlast'
        by_cases hv : input = v
        · subst hv
          rw [List.getElem?_set_self hlt] at hlast'
          cases hlast'
          exact ⟨last, hlast, Nat.le_max_left _ _⟩
        · rw [List.getElem?_set_ne hv] at hlast'
          exact ⟨last', hlast', Nat.le_refl _⟩
      refine ⟨hlater.trans hset, ?_⟩
      intro v hv last' hlast'
      rcases List.mem_append.mp hv with hv | hv
      · exact hlasts.later hset v hv last' hlast'
      · rw [List.mem_singleton.mp hv, List.getElem?_set_self hlt] at hlast'
        cases hlast'
        exact Nat.le_max_right _ _
  apply hloop.post
  rintro lastUse' ⟨hlater, hlasts⟩
  refine ⟨hlater, ?_⟩
  intro vs' hvs'
  rw [hvs] at hvs'
  cases hvs'
  exact hlasts

/-- Every reader among the first `i` nodes is known. -/
def ReadsKnown (g : Graph) (i : Nat) (lastUse : List Nat) : Prop :=
  ∀ reader v, reader < i → g.Reads reader v → ∀ last, lastUse[v]? = some last → reader ≤ last

theorem ReadsKnown.later {g : Graph} {i : Nat} {lastUse lastUse' : List Nat}
    (h : ReadsKnown g i lastUse) (hlater : Later lastUse lastUse') : ReadsKnown g i lastUse' := by
  intro reader v hreader hreads last' hlast'
  obtain ⟨last, hlast, hle⟩ := hlater v last' hlast'
  exact Nat.le_trans (h reader v hreader hreads last hlast) hle

/-- Writing down a use behind all the readers there are. -/
theorem ReadsKnown.set {g : Graph} {i last : Nat} {lastUse : List Nat} (h : ReadsKnown g i lastUse)
    (hlast : i ≤ last) (v : ValueId) : ReadsKnown g i (lastUse.set v last) := by
  intro reader u hreader hreads last' hlast'
  by_cases huv : v = u
  · subst huv
    rw [List.getElem?_set] at hlast'
    simp only [if_true] at hlast'
    split at hlast'
    · cases hlast'
      exact Nat.le_trans (Nat.le_of_lt hreader) hlast
    · cases hlast'
  · rw [List.getElem?_set_ne huv] at hlast'
    exact h reader u hreader hreads last' hlast'

theorem computeLastUse_meets (g : Graph) :
    Meets (fun _ => True) (ReadsKnown g g.nodes.length) (computeLastUse g) := by
  unfold computeLastUse
  -- A node is a read of its operands, and the latest one so far.
  have hnodes : Meets (fun _ : Panic => True) (ReadsKnown g g.nodes.length)
      (g.nodes.zipIdx.foldlM (fun lastUse (x : Node × Nat) =>
        x.1.inputs.foldlM (fun lastUse input => setIndex lastUse input x.2) lastUse)
        (List.range g.nodes.length)) := by
    refine Meets.foldlM_enum (ReadsKnown g) ?_ ?_
    · intro reader v hreader
      exact absurd hreader (Nat.not_lt_zero reader)
    · intro i node before hnode hbefore
      have hinputs : Meets (fun _ : Panic => True) (fun lastUse => ReadsKnown g i lastUse ∧
          ∀ v ∈ node.inputs, ∀ last, lastUse[v]? = some last → last = i)
          (node.inputs.foldlM (fun lastUse input => setIndex lastUse input i) before) := by
        apply Meets.foldlM_prefix (fun done lastUse => ReadsKnown g i lastUse ∧
          ∀ v ∈ done, ∀ last, lastUse[v]? = some last → last = i)
        · exact ⟨hbefore, fun v hv => absurd hv List.not_mem_nil⟩
        · intro done input rest lastUse _ h
          unfold setIndex
          split
          next hlt =>
            refine ⟨h.1.set (Nat.le_refl i) input, ?_⟩
            intro v hv last hlast
            by_cases hne : input = v
            · subst hne
              rw [List.getElem?_set_self hlt] at hlast
              exact (Option.some.inj hlast).symm
            · rw [List.getElem?_set_ne hne] at hlast
              rcases List.mem_append.mp hv with hv | hv
              · exact h.2 v hv last hlast
              · exact absurd (List.mem_singleton.mp hv).symm hne
          next => exact trivial
      apply hinputs.post
      rintro lastUse ⟨hknown, hset⟩ reader v hreader hreads last hlast
      rcases Nat.lt_succ_iff_lt_or_eq.mp hreader with hlt | rfl
      · exact hknown reader v hlt hreads last hlast
      · obtain ⟨node', hnode', hv⟩ := hreads
        rw [hnode] at hnode'
        cases hnode'
        exact Nat.le_of_eq (hset v hv last hlast).symm
  apply Meets.bind hnodes
  intro lastUse hlastUse
  apply Meets.foldlM hlastUse
  -- An output is read behind the end.
  rintro ⟨_, value⟩ _ lastUse hlastUse
  show Meets _ _ (setIndex lastUse value g.nodes.length)
  unfold setIndex
  split
  · exact hlastUse.set (Nat.le_refl _) _
  · exact trivial

/-- What the walk relies on: the batches are a valid schedule, those due at a node are listed there,
    and no value dies in front of a node or a batch that reads it. -/
structure Planned (g : Graph) (schedule : BatchSchedule) (lastUse : List Nat) : Prop where
  serviced : Serviced g schedule.plans
  due : ∀ i bs, schedule.batchesAt[i]? = some bs → bs = dueAt schedule.plans i
  reads : ∀ reader v, g.Reads reader v → ∀ last, lastUse[v]? = some last → reader ≤ last
  lasts : ∀ plan ∈ schedule.plans, ∀ vs, batchInputs g.nodes plan = .ok vs →
    Lasts lastUse plan.anchor vs

theorem planBatches_meets {g : Graph} (hg : g.Sited) {lastUse : List Nat}
    (hreads : ReadsKnown g g.nodes.length lastUse) :
    Meets (fun _ => True) (fun r => Planned g r.1 r.2)
      (planBatches g ((table (netRule g) g.nodes).map Facts.domain) lastUse) := by
  unfold planBatches
  obtain ⟨plans, hplans, hserviced⟩ := (planGadgetBatches_returns hg).ok_of_never
  rw [hplans, ok_bind]
  have huses : Meets (fun _ => True) (fun lastUse' => Later lastUse lastUse' ∧ ∀ plan ∈ plans, ∀ vs,
      batchInputs g.nodes plan = .ok vs → Lasts lastUse' plan.anchor vs)
      (plans.foldlM (extendUses g.nodes) lastUse) := by
    apply Meets.foldlM_prefix (fun done lastUse' => Later lastUse lastUse' ∧ ∀ plan ∈ done, ∀ vs,
      batchInputs g.nodes plan = .ok vs → Lasts lastUse' plan.anchor vs)
    · exact ⟨Later.refl lastUse, fun plan hplan => absurd hplan List.not_mem_nil⟩
    · rintro done plan rest before _ ⟨hlater, hbefore⟩
      apply extendUses_meets.post
      rintro after ⟨hlater', hlasts⟩
      refine ⟨hlater.trans hlater', ?_⟩
      intro plan' hplan' vs hvs
      rcases List.mem_append.mp hplan' with hplan' | hplan'
      · exact (hbefore plan' hplan' vs hvs).later hlater'
      · cases List.mem_singleton.mp hplan'
        exact hlasts vs hvs
  have hdue : Meets (fun _ => True) (fun batchesAt : List (List Nat) => ∀ i bs,
      batchesAt[i]? = some bs → bs = dueAt plans i)
      (plans.zipIdx.foldlM (fun batchesAt (x : ScheduledBatch × Nat) =>
        pushAt batchesAt x.1.anchor x.2) (List.replicate g.nodes.length [])) := by
    refine Meets.foldlM_enum (fun k (batchesAt : List (List Nat)) => ∀ i bs,
      batchesAt[i]? = some bs →
        bs = (List.range k).filter fun k => plans[k]?.any fun plan => plan.anchor == i) ?_ ?_
    · intro i bs hbs
      rw [List.getElem?_replicate] at hbs
      split at hbs
      · cases hbs
        rfl
      · cases hbs
    · intro k plan before hplan hbefore
      unfold pushAt
      apply Meets.bind_eq
      intro bucket hbucket
      rw [index_eq_ok] at hbucket
      have hlt := (List.getElem?_eq_some_iff.mp hbucket).1
      rw [setIndex, if_pos hlt]
      intro i bs hbs
      rw [List.range_succ, List.filter_append]
      by_cases hi : plan.anchor = i
      · subst hi
        rw [List.getElem?_set_self hlt] at hbs
        cases hbs
        rw [hbefore _ _ hbucket]
        simp [hplan]
      · rw [List.getElem?_set_ne hi] at hbs
        rw [hbefore _ _ hbs]
        simp [hplan, hi]
  apply Meets.bind huses
  rintro lastUse' ⟨hlater, hlasts⟩
  apply Meets.bind hdue
  intro batchesAt hat
  refine ⟨hserviced, hat, ?_, hlasts⟩
  rintro reader v ⟨node, hnode, hv⟩
  exact hreads.later hlater reader v (List.getElem?_eq_some_iff.mp hnode).1 ⟨node, hnode, hv⟩

end Codegen
end CircomMpc
