import CircomMpc.Codegen.Compile
import CircomMpc.Codegen.Steps

/-!
# The whole walk

`Walk` is a run of the emitter with the emitter's code gone: a row of `Emits`, the batches due behind
each serviced, and the allocation sound in front of every step. What holds of every state the walk
passes, and of the tables it leaves, is proved by induction on it.

The tables only grow, or are written at an entry of the node's own, so what a step leaves in them is
there at the end (`Keeps`).
-/

namespace CircomMpc

open Lib CircomMpc.Graph

namespace Codegen

variable {g : Graph}

namespace Setting

variable (t : Setting g)

/-- From node `i` and the state `e` the walk gets to its end with the last state. The allocation is
    sound in front of every step and behind it. -/
inductive Walk : Nat → Emitter → Emitter → Prop
  | done {i : Nat} {e : Emitter} (hi : g.nodes.length ≤ i) (hok : t.Ok (takenAt g i) i e) :
      Walk i e e
  | step {i skipped : Nat} {e e₁ e₂ fin : Emitter} (hi : i < g.nodes.length)
      (hok : t.Ok (takenAt g i) i e) (hemits : t.Emits i e e₁ skipped)
      (hok₁ : t.Ok (takenAt g (i + 1 + skipped)) (i + skipped + 1) e₁)
      (hservices : Services t (takenAt g (i + 1 + skipped)) (i + skipped) e₁ e₂)
      (hrest : Walk (i + 1 + skipped) e₂ fin) : Walk i e fin

variable {t}

theorem Walk.ok {i : Nat} {e fin : Emitter} (h : t.Walk i e fin) : t.Ok (takenAt g i) i e := by
  cases h with
  | done _ hok => exact hok
  | step _ hok _ _ _ _ => exact hok

/-- At the end of the walk everything is in front. -/
theorem Walk.last {i : Nat} {e fin : Emitter} (h : t.Walk i e fin) :
    ∃ n, g.nodes.length ≤ n ∧ t.Ok (takenAt g n) n fin := by
  induction h with
  | @done i _ hi hok => exact ⟨i, hi, hok⟩
  | step _ _ _ _ _ _ ih => exact ih

/-- **A run of the emitter that returns is a walk.** -/
theorem run_meets {i : Nat} {e : Emitter} (h : t.Ok (takenAt g i) i e) :
    Meets (fun _ => True) (t.Walk i e)
      (e.run g ((table (netRule g) g.nodes).map Facts.domain) t.schedule t.res.gadgets i) := by
  -- By induction on the nodes left: a step consumes one, and a round its results too.
  induction hleft : g.nodes.length - i using Nat.strong_induction_on generalizing i e with
  | _ left ih =>
    unfold Emitter.run
    split
    · next hi =>
      rw [index_eq (List.getElem?_eq_getElem hi), lift_ok, ok_bind]
      apply Meets.bind (emitNode_meets h (List.getElem?_eq_getElem hi))
      rintro ⟨e₁, skipped⟩ ⟨hok, hemits⟩
      dsimp only at hok hemits ⊢
      have hok' : t.Ok (takenAt g (i + 1 + skipped)) (i + skipped + 1) e₁ := by
        rw [Nat.add_right_comm i skipped 1]
        exact hok
      apply Meets.bind (lift_meets (serviceBatches_meets hok'))
      intro e₂ hservices
      have hok₂ : t.Ok (takenAt g (i + 1 + skipped)) (i + 1 + skipped) e₂ := by
        rw [Nat.add_right_comm i 1 skipped]
        rw [Nat.add_right_comm i 1 skipped] at hservices
        exact hservices.ok
      have hless : g.nodes.length - (i + 1 + skipped) < left := by omega
      apply (ih _ hless hok₂ rfl).post
      intro fin hrest
      exact .step hi h hemits hok' hservices hrest
    · next hi => exact .done (Nat.le_of_not_lt hi) h

/-- Nothing is handed out in front of the first node. -/
theorem new_ok (t : Setting g) : t.Ok (takenAt g 0) 0 (Emitter.new g t.res t.lastUse) := by
  have hhome : ∀ (v : ValueId) (l : Loc), t.res.slot[v]? = some (some l) → t.home v = some l :=
    t.holds.table
  refine ⟨⟨rfl, rfl, rfl⟩, t.holds.length, ?_, ?_, ?_, ?_, ?_⟩
  · intro bank
    -- Whatever is in the table has a home, so no slot has an owner yet.
    have hnone : owned t.home (takenAt g 0) t.res.slot bank = fun _ => none := by
      funext v
      cases h : owned t.home (takenAt g 0) t.res.slot bank v with
      | none => rfl
      | some s =>
        obtain ⟨_, hv, hslot⟩ := owned_eq_some.mp h
        rw [hhome v _ hslot] at hv
        cases hv
    show ((Emitter.new g t.res t.lastUse).arena.of bank).Sound (t.res.next.of bank)
      (owned t.home (takenAt g 0) t.res.slot bank)
    rw [hnone]
    cases bank
    all_goals exact BankAlloc.sound_start _
  · intro v l h hl hv
    rw [hhome v l hl] at hv
    exact Option.some.inj hv
  · intro v l hl hv
    rw [hhome v l hl] at hv
    cases hv
  · intro v l hl hv
    rw [hhome v l hl] at hv
    cases hv
  · intro v hv
    cases hv

end Setting

/-! ## The tables only grow -/

/-- What the walk has written down in front of node `i` is there at the end: the flat tables only
    grow, and a round's or a site's entry is written by its own node. -/
structure Keeps (g : Graph) (i : Nat) (e fin : Emitter) : Prop where
  operands : e.roundOperands <+: fin.roundOperands
  results : e.roundResults <+: fin.roundResults
  rounds : ∀ id, (∀ (q : Nat) (args : List ValueId), i ≤ q → g.nodes[q]? ≠ some ⟨.round id, args⟩) →
    fin.rounds[id]? = e.rounds[id]?
  sites : ∀ site, (∀ v, i ≤ v → ¬ g.SiteAt site v) → fin.siteInputs[site]? = e.siteInputs[site]?

theorem Keeps.refl (g : Graph) (i : Nat) (e : Emitter) : Keeps g i e e :=
  ⟨List.prefix_rfl, List.prefix_rfl, fun _ _ => rfl, fun _ _ => rfl⟩

theorem Keeps.trans {i j : Nat} {e e' fin : Emitter} (h : Keeps g i e e') (h' : Keeps g j e' fin)
    (hij : i ≤ j) : Keeps g i e fin where
  operands := h.operands.trans h'.operands
  results := h.results.trans h'.results
  rounds id hid := by
    rw [h'.rounds id fun q args hq => hid q args (Nat.le_trans hij hq), h.rounds id hid]
  sites site hsite := by
    rw [h'.sites site fun v hv => hsite v (Nat.le_trans hij hv), h.sites site hsite]

namespace Setting

variable {t : Setting g}

/-- A node adds to the rounds' tables if it is a round, and to the sites' if it is a gadget's. -/
theorem Emits.keeps {i skipped : Nat} {e e' : Emitter} (h : t.Emits i e e' skipped) :
    Keeps g i e e' := by
  cases h with
  | reserved _ _ => exact Keeps.refl g i e
  | arith _ _ _ _ _ _ _ _ _ hsame =>
    rw [hsame]
    exact ⟨List.prefix_rfl, List.prefix_rfl, fun _ _ => rfl, fun _ _ => rfl⟩
  | @round id args operands results mid e' hnode _ _ _ _ _ _ hsame =>
    rw [hsame]
    refine ⟨List.prefix_append _ _, List.prefix_append _ _, ?_, fun _ _ => rfl⟩
    intro id' hid'
    have hne : id ≠ id' := by
      rintro rfl
      exact hid' i args (Nat.le_refl i) hnode
    exact List.getElem?_set_ne hne
  | @gadget site inputs sis hnode _ _ =>
    refine ⟨List.prefix_rfl, List.prefix_rfl, fun _ _ => rfl, ?_⟩
    intro site' hsite'
    have hne : site ≠ site' := by
      rintro rfl
      exact hsite' i (Nat.le_refl i) ⟨inputs, hnode⟩
    exact List.getElem?_set_ne hne
  | result _ _ _ => exact ⟨List.prefix_rfl, List.prefix_rfl, fun _ _ => rfl, fun _ _ => rfl⟩

theorem Services.keeps {taken : List ValueId} {pos i : Nat} {e e' : Emitter}
    (h : Services t taken pos e e') : Keeps g i e e' := by
  rw [h.same]
  exact ⟨List.prefix_rfl, List.prefix_rfl, fun _ _ => rfl, fun _ _ => rfl⟩

theorem Walk.keeps {i : Nat} {e fin : Emitter} (h : t.Walk i e fin) : Keeps g i e fin := by
  induction h with
  | @done i e _ _ => exact Keeps.refl g i e
  | @step i skipped e e₁ e₂ fin _ _ hemits _ hservices _ ih =>
    have hstep : Keeps g i e e₂ := hemits.keeps.trans (hservices.keeps (i := i)) (Nat.le_refl i)
    exact hstep.trans ih (by omega)

/-- The stream grows too. -/
theorem Walk.instructions {i : Nat} {e fin : Emitter} (h : t.Walk i e fin) :
    e.instructions <+: fin.instructions := by
  induction h with
  | done _ _ => exact List.prefix_rfl
  | @step i skipped e e₁ e₂ fin _ _ hemits _ hservices _ ih =>
    have hstep : e.instructions <+: e₁.instructions := by
      cases hemits with
      | reserved _ _ => exact List.prefix_rfl
      | arith _ _ _ _ _ _ _ _ _ hsame =>
        rw [hsame]
        exact List.prefix_append _ _
      | round _ _ _ _ _ _ _ hsame =>
        rw [hsame]
        exact List.prefix_append _ _
      | gadget _ _ _ => exact List.prefix_rfl
      | result _ _ _ => exact List.prefix_rfl
    have hbatches : e₁.instructions <+: e₂.instructions := by
      rw [hservices.same]
      exact List.prefix_append _ _
    exact (hstep.trans hbatches).trans ih

/-- A round's entry stays, and so do its operands and its results. -/
theorem Walk.round {i : Nat} {e e₂ fin : Emitter} {id : RoundId} {args : List ValueId}
    {operands results : List Slot} {j : Nat} (hnode : g.nodes[i]? = some ⟨.round id, args⟩)
    (hj : i < j) (hid : id < e.rounds.length)
    (hrounds : e₂.rounds = e.rounds.set id ⟨e.roundOperands.length, args.length, e.roundResults.length⟩)
    (hoperands : e₂.roundOperands = e.roundOperands ++ operands)
    (hresults : e₂.roundResults = e.roundResults ++ results) (hlen : operands.length = args.length)
    (hlen' : results.length = args.length) (hrest : t.Walk j e₂ fin) :
    ∃ entry, fin.rounds[id]? = some entry ∧
      slice fin.roundOperands entry.operandStart (entry.operandStart + entry.len) = operands ∧
      slice fin.roundResults entry.resultStart (entry.resultStart + entry.len) = results := by
  have hkeeps := hrest.keeps
  have hnodup : (g.nodes.flatMap fun node : Node => node.roundId?.toList).Nodup := by
    rw [← List.filterMap_eq_flatMap_toList]
    exact t.emittable.lowered.ids.nodup_iff.mpr List.nodup_range
  have hslice : ∀ {xs ys zs : List Slot}, xs ++ ys <+: zs → ys.length = args.length →
      slice zs xs.length (xs.length + args.length) = ys := by
    rintro xs ys _ ⟨rest, rfl⟩ hys
    rw [← hys, slice_middle]
  refine ⟨⟨e.roundOperands.length, args.length, e.roundResults.length⟩, ?_, ?_, ?_⟩
  · rw [hkeeps.rounds id, hrounds, List.getElem?_set_self hid]
    intro q args' hq hround
    -- The ids are told apart.
    have heq := index_unique_of_nodup hnodup hnode hround (b := id) (by simp [Node.roundId?])
      (by simp [Node.roundId?])
    exact absurd hq (by omega)
  · exact hslice (hoperands ▸ hkeeps.operands) hlen
  · exact hslice (hresults ▸ hkeeps.results) hlen'

end Setting

end Codegen
end CircomMpc
