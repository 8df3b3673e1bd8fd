import CircomMpc.Codegen.Agrees

/-!
# Executing the walk

The machine on what a step of the walk has appended, from a state that agrees with the graph to one
that does, kind by kind. A round goes through exactly if its operands are the pending products in
order: the local slots tell two pending products apart, so the machine's own comparison of slots is
one of products.
-/

namespace CircomMpc

open Lib CircomMpc.Graph

namespace Codegen

open GadgetSchedule

variable {g : Graph}

namespace Setting

variable {t : Setting g} {p : ProgramParts} {I : Interp} {i : Nat} {e : Emitter}
  {vm : VmState Unit Fr} {host : Poseidon2.Host}

/-- A batch that has not run in front of a node that is no gadget's runs behind it. -/
theorem unserved_lt {op : Op} {args : List ValueId} (hnode : g.nodes[i]? = some ⟨op, args⟩)
    (hgadget : ∀ site, op ≠ .gadget site) {plan : ScheduledBatch} (hplan : plan ∈ t.schedule.plans)
    {site : GadgetId} (hsite : site ∈ plan.siteIds) (hnot : ¬ t.servedBefore i site) :
    i < plan.anchor := by
  have hle : i ≤ plan.anchor := Nat.le_of_not_lt fun hlt => hnot ⟨plan, hplan, hsite, hlt⟩
  obtain ⟨site', inputs, hat⟩ := t.planned.serviced.anchored plan hplan
  apply Nat.lt_of_le_of_ne hle
  rintro rfl
  rw [hnode] at hat
  cases hat
  exact hgadget site' rfl

/-! ## Arithmetic -/

/-- What an arithmetic node reads has been computed. -/
theorem Agrees.operand (hok : t.Ok (takenAt g i) i e)
    (h : t.Agrees p I (t.servedBefore i) i e.slot e.siteInputs vm) {op : Op} {args : List ValueId}
    (hnode : g.nodes[i]? = some ⟨op, args⟩) (hgadget : ∀ site, op ≠ .gadget site) {u : ValueId}
    (hu : u ∈ args) {bank : Bank} {s : Nat} (hs : e.slot[u]? = some (some ⟨bank, s⟩))
    (hbank : bank ≠ .local) : vm.read bank ⟨s⟩ = g.eval I u := by
  refine h.values u ⟨bank, s⟩ (placed_of_slot hok hs hbank ?_)
  intro site k hat
  rcases t.served_of_read ⟨_, hnode, hu⟩ hat with hserved | ⟨_, _, _, _, inputs, hreveal⟩
  · exact hserved
  · rw [hnode] at hreveal
    cases hreveal
    exact absurd rfl (hgadget _)

/-- The banks an opcode reads are no local ones. -/
theorem banks_operands {opcode : Opcode} {bank ba bb : Bank}
    (h : opcode.banks = some (bank, ba, bb)) : ba ≠ .local ∧ bb ≠ .local := by
  cases opcode <;> cases h <;> decide

section Arith

variable {op : Op} {x y u w : ValueId} {opcode : Opcode} {bank ba bb : Bank} {dst a b : Nat}
  {e' : Emitter}

/-- An operation with a result of its own. -/
theorem Agrees.arith (hok : t.Ok (takenAt g i) i e)
    (h : t.Agrees p I (t.servedBefore i) i e.slot e.siteInputs vm)
    (hnode : g.nodes[i]? = some ⟨op, [x, y]⟩) (hop : op = .add ∨ op = .sub ∨ op = .mul)
    (hbank : bank ≠ .local) (hu : u ∈ [x, y]) (hw : w ∈ [x, y])
    (ha : e.slot[u]? = some (some ⟨ba, a⟩)) (hb : e.slot[w]? = some (some ⟨bb, b⟩))
    (hbanks : opcode.banks = some (bank, ba, bb))
    (hvalue : ∀ I, opcode.apply (g.eval I u) (g.eval I w) = g.eval I i)
    (htrims : t.Trims (takenAt g i) (i + 1) (e.slot.set i (some ⟨bank, dst⟩)) e')
    (hi : p.InstructionOk (.arith opcode ⟨dst⟩ ⟨a⟩ ⟨b⟩)) :
    t.Agrees p I (t.servedBefore i) (i + 1) e'.slot e.siteInputs
      (Effect.arith vm opcode ⟨dst⟩ ⟨a⟩ ⟨b⟩) := by
  have hround : ∀ id, op ≠ .round id := by
    rintro id rfl
    rcases hop with h | h | h <;> cases h
  have hgadget : ∀ site, op ≠ .gadget site := by
    rintro site rfl
    rcases hop with h | h | h <;> cases h
  have hlocal : op ≠ .mulLocal := by
    rintro rfl
    rcases hop with h | h | h <;> cases h
  have hhome : t.home i = none := by
    apply t.home_none hnode <;> intro _ hne <;> rcases hop with rfl | rfl | rfl <;> cases hne
  have hlt : i < e.slot.length := by
    rw [hok.length]
    exact (List.getElem?_eq_some_iff.mp hnode).1
  have hself := List.getElem?_set_self (a := some (⟨bank, dst⟩ : Loc)) hlt
  have hdst : p.SlotOk bank ⟨dst⟩ := by
    obtain ⟨banks, hbanks', hd, _⟩ := hi
    rw [hbanks] at hbanks'
    cases hbanks'
    exact hd
  -- The effect is one write, of the node's value.
  have heffect : Effect.arith vm opcode ⟨dst⟩ ⟨a⟩ ⟨b⟩ = vm.writeAll [(⟨bank, ⟨dst⟩⟩, g.eval I i)] := by
    rw [← hvalue I, ← h.operand hok hnode hgadget hu ha (banks_operands hbanks).1,
      ← h.operand hok hnode hgadget hw hb (banks_operands hbanks).2]
    unfold Effect.arith
    rw [hbanks]
    cases bank
    · rfl
    · rfl
    · exact absurd rfl hbank
  have hkept : ∀ v : ValueId, v ≠ i → (e.slot.set i (some (⟨bank, dst⟩ : Loc)))[v]? = e.slot[v]? :=
    fun v hv => List.getElem?_set_ne (Ne.symm hv)
  have hgives : t.Gives p I (· = i) e.slot (e.slot.set i (some ⟨bank, dst⟩))
      [(⟨bank, ⟨dst⟩⟩, g.eval I i)] := by
    obtain ⟨arena, hsound⟩ := htrims.sound
    refine ⟨⟨_, _, arena, hsound, ?_⟩, ?_, ?_, ?_⟩
    · rintro v rfl
      exact not_taken t v (Nat.le_refl v)
    · intro v l hv _
      rw [hkept v hv]
    · rintro v rfl
      exact ⟨hhome, _, hself, hbank, hdst, _, List.mem_singleton_self _, rfl⟩
    · intro w hw
      cases List.mem_singleton.mp hw
      exact ⟨i, rfl, hself, rfl⟩
  have hpending : g.pendingAt (i + 1) = g.pendingAt i := pendingAt_other hnode hround hlocal
  obtain ⟨hmulDst, hmulLhs, hmulRhs⟩ := VmState.writeAll_pending vm [(⟨bank, ⟨dst⟩⟩, g.eval I i)]
  rw [heffect]
  refine (h.define hok hgives (fun v hv => Nat.le_of_eq hv.symm) ?_ (h.ready.writeAll _)
    (fun _ _ => rfl) ?_ ?_).drop htrims.drops ?_
  · intro v site inputs hiv hv hat
    cases Nat.le_antisymm hiv (Nat.lt_succ_iff.mp hv)
    rw [hnode] at hat
    cases hat
    exact hgadget _ rfl
  · rw [hpending, hmulDst]
    refine forall₂_imp_mem h.products ?_
    intro v hv s hslot
    rw [hkept v (Nat.ne_of_lt (mem_pendingAt hv).1)]
    exact hslot
  · rw [hpending, hmulLhs, hmulRhs]
    exact h.pending
  · intro plan hplan site hsite hnot
    exact unserved_lt hnode hgadget hplan hsite hnot

/-- A local product: the machine keeps the operands' values, and the graph one more pending node. -/
theorem Agrees.mulLocal (hok : t.Ok (takenAt g i) i e)
    (h : t.Agrees p I (t.servedBefore i) i e.slot e.siteInputs vm)
    (hnode : g.nodes[i]? = some ⟨.mulLocal, [x, y]⟩) (hu : u ∈ [x, y]) (hw : w ∈ [x, y])
    (ha : e.slot[u]? = some (some ⟨ba, a⟩)) (hb : e.slot[w]? = some (some ⟨bb, b⟩))
    (hbanks : opcode.banks = some (.local, ba, bb))
    (hvalue : ∀ I, opcode.apply (g.eval I u) (g.eval I w) = g.eval I i)
    (htrims : t.Trims (takenAt g i) (i + 1) (e.slot.set i (some ⟨.local, dst⟩)) e') :
    t.Agrees p I (t.servedBefore i) (i + 1) e'.slot e.siteInputs
      (Effect.arith vm opcode ⟨dst⟩ ⟨a⟩ ⟨b⟩) := by
  have hgadget : ∀ site, Op.mulLocal ≠ .gadget site := by
    intro site hsite
    cases hsite
  have hopcode : opcode = .mulLocal := by
    cases opcode <;> cases hbanks
    rfl
  have hhome : t.home i = none := by
    apply t.home_none hnode <;> intro _ hne <;> cases hne
  have hlt : i < e.slot.length := by
    rw [hok.length]
    exact (List.getElem?_eq_some_iff.mp hnode).1
  have hkept : ∀ v : ValueId, v ≠ i → (e.slot.set i (some (⟨.local, dst⟩ : Loc)))[v]? = e.slot[v]? :=
    fun v hv => List.getElem?_set_ne (Ne.symm hv)
  have hx := h.operand hok hnode hgadget hu ha (banks_operands hbanks).1
  have hy := h.operand hok hnode hgadget hw hb (banks_operands hbanks).2
  have heffect : Effect.arith vm opcode ⟨dst⟩ ⟨a⟩ ⟨b⟩ = { vm with
      pendingMulLhs := vm.pendingMulLhs ++ [g.eval I u]
      pendingMulRhs := vm.pendingMulRhs ++ [g.eval I w]
      pendingMulDst := vm.pendingMulDst ++ [⟨dst⟩] } := by
    unfold Effect.arith
    rw [hbanks]
    dsimp only
    rw [hx, hy]
  -- No place of a value is written to: the new entry is in the local bank.
  have hgives : t.Gives p I (fun _ => False) e.slot (e.slot.set i (some ⟨.local, dst⟩)) [] := by
    obtain ⟨arena, hsound⟩ := htrims.sound
    refine ⟨⟨_, _, arena, hsound, fun v hv => hv.elim⟩, ?_, fun v hv => hv.elim, ?_⟩
    · intro v l _ hl
      by_cases hv : v = i
      · subst hv
        rw [List.getElem?_set_self hlt]
        constructor
        · intro hentry
          cases hentry
          exact absurd rfl hl
        · intro hentry
          exact absurd (hok.front v l hentry hhome) (Nat.lt_irrefl v)
      · rw [hkept v hv]
    · intro w hw
      cases hw
  have hpending := pendingAt_local hnode
  suffices hmid : t.Agrees p I (t.servedBefore i) (i + 1) (e.slot.set i (some ⟨.local, dst⟩))
      e.siteInputs { vm with
        pendingMulLhs := vm.pendingMulLhs ++ [g.eval I u]
        pendingMulRhs := vm.pendingMulRhs ++ [g.eval I w]
        pendingMulDst := vm.pendingMulDst ++ [⟨dst⟩] } by
    rw [heffect]
    exact hmid.drop htrims.drops fun plan hplan site hsite hnot =>
      unserved_lt hnode hgadget hplan hsite hnot
  refine h.define hok hgives (fun v hv => hv.elim) ?_ ⟨h.ready.public_length, h.ready.shared_length,
    ?_, ?_⟩ (fun bank s => by cases bank <;> rfl) ?_ ?_
  · intro v site inputs hiv hv hat
    cases Nat.le_antisymm hiv (Nat.lt_succ_iff.mp hv)
    rw [hnode] at hat
    cases hat
  · simp [h.ready.lhs_length]
  · simp [h.ready.rhs_length]
  · rw [hpending]
    refine List.rel_append (forall₂_imp_mem h.products ?_) (.cons ?_ .nil)
    · intro v hv s hslot
      rw [hkept v (Nat.ne_of_lt (mem_pendingAt hv).1)]
      exact hslot
    · exact List.getElem?_set_self hlt
  · rw [hpending, List.map_append, ← h.pending]
    dsimp only
    rw [List.zip_append (by rw [h.ready.lhs_length, h.ready.rhs_length]), List.map_append]
    congr 1
    show [g.eval I u * g.eval I w] = [g.eval I i]
    rw [← hvalue I, hopcode]
    rfl

end Arith

/-! ## Rounds -/

/-- What a round's result evaluates to. -/
theorem eval_roundResult (hg : g.IsLowered) {id : RoundId} {args : List ValueId}
    (hnode : g.nodes[i]? = some ⟨.round id, args⟩) {k : Nat} {v : ValueId} (hk : args[k]? = some v)
    (I : Interp) : g.eval I (i + 1 + k) = g.eval I v := by
  have hlt := (List.getElem?_eq_some_iff.mp hk).1
  have hresult := hg.block i id args hnode k hlt
  unfold eval
  rw [value_eq hg.indexed.ordered hresult]
  show value (evalRule I) g.nodes i k = _
  rw [value_eq hg.indexed.ordered hnode]
  show operand (args.map (value (evalRule I) g.nodes)) k 0 = _
  unfold operand
  rw [List.getD_eq_getElem?_getD, List.getElem?_map, hk]
  rfl

section Round

variable {id : RoundId} {args : List ValueId} {operands results : List Slot}
  {mid : List (Option Loc)} {entry : RoundEntry} {e' : Emitter}

/-- **The machine's comparison is the graph's**: a round's operands are the slots the products in
    flight go to exactly if the round reshares the pending products, in order. -/
theorem Agrees.operands_iff (hok : t.Ok (takenAt g i) i e)
    (h : t.Agrees p I (t.servedBefore i) i e.slot e.siteInputs vm)
    (hnode : g.nodes[i]? = some ⟨.round id, args⟩)
    (hoperands : List.Forall₂ (fun (v : ValueId) (s : Slot) =>
      e.slot[v]? = some (some ⟨.local, s.index⟩)) args operands) :
    vm.pendingMulDst = operands ↔ args = g.pendingAt i := by
  -- No operand of the round has been taken by an earlier one.
  have hnot : ∀ v ∈ args, v ∉ takenAt g i := by
    have hnodup := takenAt_nodup t.emittable.lowered (i + 1 + args.length)
    rw [takenAt_round t.emittable.lowered hnode] at hnodup
    exact fun v hv hmem => (List.nodup_append.mp hnodup).2.2 v hmem v hv rfl
  have hproducts := h.products
  constructor
  · rintro rfl
    -- Nor has a pending product, and two values that are not taken share no slot.
    have hpending : ∀ v ∈ g.pendingAt i, v ∉ takenAt g i :=
      fun v hv => t.emittable.lowered.pending_not_taken hv
    generalize g.pendingAt i = pending at hproducts hpending
    generalize vm.pendingMulDst = dsts at hproducts hoperands
    clear hnode
    induction hoperands generalizing pending with
    | nil =>
      cases hproducts
      rfl
    | cons hv _ ih =>
      cases hproducts with
      | cons hv' hrest =>
        rw [hok.apart t.holds.homed hv hv' (hnot _ (by simp)) (hpending _ (by simp)),
          ih (fun v hv => hnot v (List.mem_cons_of_mem _ hv)) _
            (fun v hv => hpending v (List.mem_cons_of_mem _ hv)) hrest]
  · rintro rfl
    generalize g.pendingAt i = pending at hproducts hoperands
    clear hnode hnot
    generalize vm.pendingMulDst = dsts at hproducts
    induction hoperands generalizing dsts with
    | nil =>
      cases hproducts
      rfl
    | cons hv _ ih =>
      cases hproducts with
      | @cons _ s _ _ hv' hrest =>
        rw [hv] at hv'
        obtain ⟨s⟩ := s
        cases hv'
        rw [ih _ hrest]

/-- A round whose operands are the pending products writes their values to its results. -/
theorem Agrees.round (hok : t.Ok (takenAt g i) i e)
    (h : t.Agrees p I (t.servedBefore i) i e.slot e.siteInputs vm)
    (hnode : g.nodes[i]? = some ⟨.round id, args⟩) (hlined : args = g.pendingAt i)
    (hresults : results.length = args.length)
    (hplaced : ∀ (k : Nat) (s : Slot), results[k]? = some s →
      mid[i + 1 + k]? = some (some ⟨.shared, s.index⟩))
    (hother : ∀ v : ValueId, (∀ k < args.length, v ≠ i + 1 + k) → mid[v]? = e.slot[v]?)
    (htrims : t.Trims (takenAt g i ++ args) (i + 1 + args.length) mid e')
    (hentry : p.RoundOk entry) (htable : p.roundResultsOf entry = results) :
    t.Agrees p I (t.servedBefore i) (i + 1 + args.length) e'.slot e.siteInputs
      (Effect.reshare p vm entry) := by
  have hg := t.emittable.lowered
  -- The results' own values, one slot each.
  let ws : List (ResultTarget × Fr) :=
    (results.map fun s => (⟨.shared, s⟩ : ResultTarget)).zip (args.map (g.eval I))
  have hws : ∀ w : ResultTarget × Fr, w ∈ ws ↔ ∃ (k : Nat) (s : Slot), results[k]? = some s ∧
      w = (⟨.shared, s⟩, g.eval I (i + 1 + k)) := by
    intro w
    rw [List.mem_iff_getElem?]
    refine exists_congr fun k => ?_
    rw [List.getElem?_zip_eq_some, List.getElem?_map, List.getElem?_map]
    constructor
    · rintro ⟨hs, hv⟩
      obtain ⟨s, hs, hs'⟩ := Option.map_eq_some_iff.mp hs
      obtain ⟨v, hv, hv'⟩ := Option.map_eq_some_iff.mp hv
      refine ⟨s, hs, Prod.ext hs'.symm ?_⟩
      rw [← hv']
      exact (eval_roundResult hg hnode hv I).symm
    · rintro ⟨s, hs, rfl⟩
      obtain ⟨v, hv⟩ : ∃ v, args[k]? = some v := by
        have hlt := (List.getElem?_eq_some_iff.mp hs).1
        exact ⟨_, List.getElem?_eq_getElem (hresults ▸ hlt)⟩
      rw [hs, hv, eval_roundResult hg hnode hv]
      exact ⟨rfl, rfl⟩
  have hgives : t.Gives p I (fun v => ∃ k < args.length, v = i + 1 + k) e.slot mid ws := by
    obtain ⟨arena, hsound⟩ := htrims.sound
    refine ⟨⟨_, _, arena, hsound, ?_⟩, ?_, ?_, ?_⟩
    · rintro v ⟨k, hk, rfl⟩ hmem
      have hresult := hg.block i id args hnode k hk
      rcases List.mem_append.mp hmem with hmem | hmem
      · exact not_taken t i (by omega) hmem
      · have hlt : i + 1 + k < i := hg.indexed.ordered i _ hnode _ hmem
        omega
    · intro v l hv _
      rw [hother v fun k hk heq => hv ⟨k, hk, heq⟩]
    · rintro v ⟨k, hk, rfl⟩
      have hs : results[k]? = some results[k] := List.getElem?_eq_getElem (hresults ▸ hk)
      have hresult := hg.block i id args hnode k hk
      refine ⟨?_, _, hplaced k _ hs, by simp, ?_, _, (hws _).mpr ⟨k, _, hs, rfl⟩, rfl⟩
      · apply t.home_none hresult <;> intro _ hne <;> cases hne
      · apply hentry.results
        rw [htable]
        exact List.getElem_mem _
    · intro w hw
      obtain ⟨k, s, hs, rfl⟩ := (hws w).mp hw
      have hk : k < args.length := hresults ▸ (List.getElem?_eq_some_iff.mp hs).1
      exact ⟨i + 1 + k, ⟨k, hk, rfl⟩, hplaced k s hs, rfl⟩
  have heffect : Effect.reshare p vm entry = { vm.writeAll ws with
      pendingMulLhs := [], pendingMulRhs := [], pendingMulDst := [] } := by
    unfold Effect.reshare
    have hpending := h.pending
    rw [← hlined] at hpending
    dsimp only
    rw [htable, hpending]
  have hnodes : ∀ (u : ValueId) (site : GadgetId) (inputs : List ValueId), i ≤ u →
      u < i + 1 + args.length → g.nodes[u]? ≠ some ⟨.gadget site, inputs⟩ := by
    intro u site inputs hiu hu hat
    rcases Nat.eq_or_lt_of_le hiu with rfl | hlt
    · rw [hnode] at hat
      cases hat
    · obtain ⟨k, rfl⟩ := Nat.exists_eq_add_of_le hlt
      rw [hg.block i id args hnode k (Nat.lt_of_add_lt_add_left hu)] at hat
      cases hat
  have hready := h.ready.writeAll ws
  rw [heffect]
  suffices hmid : t.Agrees p I (t.servedBefore i) (i + 1 + args.length) mid e.siteInputs
      { vm.writeAll ws with pendingMulLhs := [], pendingMulRhs := [], pendingMulDst := [] } by
    refine hmid.drop htrims.drops fun plan hplan site hsite hnot => ?_
    -- No batch stands inside the block.
    have hle : i ≤ plan.anchor := Nat.le_of_not_lt fun hlt => hnot ⟨plan, hplan, hsite, hlt⟩
    obtain ⟨site', inputs, hat⟩ := t.planned.serviced.anchored plan hplan
    exact Nat.le_of_not_lt fun hlt => hnodes _ site' inputs hle hlt hat
  refine h.define hok hgives ?_ hnodes ⟨hready.public_length, hready.shared_length, rfl, rfl⟩
    (fun bank s => by cases bank <;> rfl) ?_ ?_
  · rintro v ⟨k, _, rfl⟩
    omega
  · rw [hg.pendingAt_block hnode]
    exact .nil
  · rw [hg.pendingAt_block hnode]
    rfl

end Round

/-! ## Gadgets -/

/-- A gadget node's inputs are where the walk notes them, if its batch reads them. -/
theorem Agrees.gadget (hok : t.Ok (takenAt g i) i e)
    (h : t.Agrees p I (t.servedBefore i) i e.slot e.siteInputs vm) {site : GadgetId}
    {inputs : List ValueId} {sis : List SiteInput} (hnode : g.nodes[i]? = some ⟨.gadget site, inputs⟩)
    (hinputs : List.Forall₂ (fun (v : ValueId) (si : SiteInput) =>
      e.slot[v]? = some (some ⟨si.bank, si.slot.index⟩) ∧ si.bank ≠ .local) inputs sis)
    (hsite : site < e.siteInputs.length) :
    t.Agrees p I (t.servedBefore i) (i + 1) e.slot (e.siteInputs.set site sis) vm := by
  have hpending : g.pendingAt (i + 1) = g.pendingAt i :=
    pendingAt_other hnode (by simp) (by simp)
  refine ⟨h.ready, h.values, ?_, ?_, ?_⟩
  · intro plan hplan site' hread hnot u inputs' hu hat
    rcases Nat.lt_succ_iff_lt_or_eq.mp hu with hlt | rfl
    · have hne : site ≠ site' := by
        rintro rfl
        exact absurd (t.emittable.sited.hosted.siteAt_unique ⟨_, hat⟩ ⟨_, hnode⟩) (Nat.ne_of_lt hlt)
      rw [List.getElem?_set_ne hne]
      exact h.waiting plan hplan site' hread hnot u inputs' hlt hat
    · -- The site itself: its inputs were just noted.
      rw [hnode] at hat
      cases hat
      refine ⟨sis, List.getElem?_set_self hsite, forall₂_imp_mem hinputs ?_⟩
      rintro v hv si ⟨hslot, hbank⟩
      refine placed_of_slot hok hslot hbank fun site' k hresult => ?_
      rcases t.served_of_read ⟨_, hnode, hv⟩ hresult with hserved | ⟨fused, hfused, e', he', hreveal⟩
      · exact hserved
      · obtain ⟨_, hreveal⟩ := hreveal
        rw [hnode] at hreveal
        cases hreveal
        exact absurd rfl (t.not_revealed hplan hread hfused e' he')
  · rw [hpending]
    exact h.products
  · rw [hpending]
    exact h.pending

/-- A result node's entry is its home, which counts on its own. -/
theorem Agrees.result (h : t.Agrees p I (t.servedBefore i) i e.slot e.siteInputs vm) {k : Nat}
    {inputs : List ValueId} {l : Loc} (hnode : g.nodes[i]? = some ⟨.gadgetResult k, inputs⟩)
    (hhome : t.home i = some l) :
    t.Agrees p I (t.servedBefore i) (i + 1) (e.slot.set i (some l)) e.siteInputs vm := by
  have hkept : ∀ v : ValueId, t.home v = none → (e.slot.set i (some l))[v]? = e.slot[v]? := by
    intro v hv
    apply List.getElem?_set_ne
    rintro rfl
    rw [hhome] at hv
    cases hv
  have hadvanced := h.advance hnode (by simp) (by simp) (by simp)
  refine ⟨hadvanced.ready, ?_, ?_, ?_, hadvanced.pending⟩
  · intro v l' hv
    exact hadvanced.values v l' (hv.sub fun hnone hslot => by rw [← hkept v hnone]; exact hslot)
  · intro plan hplan site hsite hnot u inputs' hu hat
    obtain ⟨sis, hsis, hinputs⟩ := hadvanced.waiting plan hplan site hsite hnot u inputs' hu hat
    refine ⟨sis, hsis, forall₂_imp_mem hinputs fun v _ si hplaced => ?_⟩
    exact hplaced.sub fun hnone hslot => by rw [hkept v hnone]; exact hslot
  · refine forall₂_imp_mem hadvanced.products fun v hv s hslot => ?_
    have hlt : v < i := by
      rw [pendingAt_other hnode (by simp) (by simp)] at hv
      exact (mem_pendingAt hv).1
    rw [List.getElem?_set_ne (Ne.symm (Nat.ne_of_lt hlt))]
    exact hslot

end Setting

end Codegen
end CircomMpc
