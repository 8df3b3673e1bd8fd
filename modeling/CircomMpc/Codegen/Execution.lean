import CircomMpc.Codegen.Simulation

/-!
# The stream, executed

A batch takes a state that agrees with the graph to one with more sites served, and the batches due
behind a node one after another to one with all of them served. With the steps of `Simulation` this
carries the machine along the whole walk; what is left to go wrong is the first round that is not
lined up.
-/

namespace CircomMpc

open Lib CircomMpc.Graph

namespace Codegen

open GadgetSchedule

variable {g : Graph}

/-- A batch the driver services, executed. -/
theorem runBatch_plain {p : ProgramParts} {vm : VmState Unit Fr} (host : Poseidon2.Host)
    (h : vm.Ready p) {batch : GadgetBatch} (hb : p.BatchOk batch)
    (hfits : ∀ kind, batch.kind = .gadget kind → kind.tooWide host = false)
    (hkind : batch.kind.isPrecomputed = false) :
    Vm.runBatch (plainDriver host) host vm batch = .ok (Effect.batch host vm batch) := by
  unfold Vm.runBatch
  cases hk : batch.kind with
  | isZeroReveal => exact runIsZeroRevealBatch_plain h hb hk
  | precomputedPoseidon2 t =>
    rw [hk] at hkind
    cases hkind
  | gadget kind =>
    have hnarrow := hfits kind hk
    dsimp only
    cases hany : batch.anyShared with
    | true =>
      have hrun : Vm.runSharedBatch (plainDriver host) vm batch kind = _ :=
        runSharedBatch_plain h hb hk hany
      rw [hnarrow] at hrun
      exact hrun
    | false =>
      have hrun : Vm.runPublicBatch host vm batch kind = _ := runPublicBatch_plain h hb hk hany
      rw [hnarrow] at hrun
      exact hrun

namespace Setting

/-- The tables of a program made from the walk's last state, with every batch serviced by the
    driver. -/
structure Emitted (t : Setting g) (fin : Emitter) (p : ProgramParts) : Prop where
  wellEncoded : p.WellEncoded
  instructions : p.instructions = fin.instructions
  rounds : p.rounds = fin.rounds
  roundOperands : p.roundOperands = fin.roundOperands
  roundResults : p.roundResults = fin.roundResults
  batches : ∃ batches, t.schedule.plans.mapM (assembleBatch t.res.gadgets fin.siteInputs) = .ok batches ∧
    p.gadgetBatches = batches.map GadgetBatch.gadgetTwin

variable {t : Setting g} {p : ProgramParts} {fin : Emitter} {host : Poseidon2.Host}

/-- The batch of a plan. -/
theorem Emitted.batch (hp : t.Emitted fin p) {k : Nat} {plan : ScheduledBatch}
    (hplan : t.schedule.plans[k]? = some plan) : ∃ batch : GadgetBatch,
      assembleBatch t.res.gadgets fin.siteInputs plan = .ok batch ∧
        p.gadgetBatches[k]? = some batch.gadgetTwin := by
  obtain ⟨batches, hbatches, htwins⟩ := hp.batches
  obtain ⟨batch, hbatch, hassembled⟩ := forall₂_getElem? (mapM_eq_ok_iff.mp hbatches).flip hplan
  refine ⟨batch, hassembled, ?_⟩
  rw [htwins, List.getElem?_map, hbatch]
  rfl

theorem gadgetTwin_serviced (batch : GadgetBatch) : batch.gadgetTwin.kind.isPrecomputed = false := by
  unfold GadgetBatch.gadgetTwin
  cases batch.kind <;> rfl

/-! ## Batches -/

section Batches

variable {input : SignalIdx → Fr} {i : Nat} {taken : List ValueId} {e : Emitter}

/-- One batch. -/
theorem Agrees.batch (hp : t.Emitted fin p) (hfits : p.TracesFit host) (hok : t.Ok taken i e)
    {served : GadgetId → Prop}
    {vm : VmState Unit Fr}
    (h : t.Agrees p (.plain g host input) served i e.slot e.siteInputs vm) (hkeeps : Keeps g i e fin)
    {k : Nat} {plan : ScheduledBatch} (hplan : t.schedule.plans[k]? = some plan)
    (hanchor : plan.anchor < i) (hnot : ∀ site ∈ plan.siteIds, ¬ served site) :
    ∃ vm', Vm.executeInstruction (plainDriver host) p host vm (.gadget ⟨k⟩) = .ok vm' ∧
      t.Agrees p (.plain g host input) (fun site => served site ∨ site ∈ plan.siteIds) i e.slot
        e.siteInputs vm' := by
  have hmem := List.mem_of_getElem? hplan
  have hhosted := t.emittable.sited.hosted
  obtain ⟨batch, hassembled, hget⟩ := hp.batch hplan
  have hb := hp.wellEncoded.batches _ (List.mem_of_getElem? hget)
  -- The batch's sites stand in front, with their inputs in their places.
  have hfed : ∀ site ∈ readSites plan, Fed g (.plain g host input) fin.siteInputs vm site := by
    intro site hsite
    have hin := mem_siteIds_of_read hsite
    have hlt : site < g.gadgetSites.length :=
      List.mem_range.mp (t.planned.serviced.once.mem_iff.mp (List.mem_flatMap.mpr ⟨plan, hmem, hin⟩))
    obtain ⟨u, inputs, hnode⟩ := hhosted.exists_siteAt hlt
    have hu : u < i := Nat.lt_of_le_of_lt (t.planned.serviced.behind plan hmem site hin u ⟨_, hnode⟩) hanchor
    obtain ⟨sis, hsis, hinputs⟩ := h.waiting plan hmem site hsite (hnot site hin) u inputs hu hnode
    refine ⟨u, inputs, sis, hnode, ?_, hinputs.imp fun v si hplaced => h.values v _ hplaced⟩
    rw [hkeeps.sites site, hsis]
    intro v hv hat
    rw [hhosted.siteAt_unique hat ⟨_, hnode⟩] at hv
    exact absurd hu (Nat.not_lt_of_le hv)
  obtain ⟨ws, heffect, hwrites⟩ := writes_of_assembled hmem hassembled hb host input hfed
  refine ⟨vm.writeAll ws, ?_, ?_⟩
  · show (readAt _ _ _ >>= fun batch => Vm.runBatch (plainDriver host) host vm batch) = _
    have hfitsTwin := hfits _ (List.mem_of_getElem? hget)
    obtain ⟨hk, hgetk⟩ := List.getElem?_eq_some_iff.mp hget
    rw [readAt_eq_ok hk, ok_bind, hgetk,
      runBatch_plain host h.ready hb hfitsTwin (gadgetTwin_serviced batch), heffect]
  · obtain ⟨hdst, hlhs, hrhs⟩ := VmState.writeAll_pending vm ws
    refine ⟨h.ready.writeAll ws, ?_, ?_, ?_, ?_⟩
    · intro v l hv
      -- Whoever is written to at a place of `v` is `v`.
      have howner : ∀ w ∈ ws, w.1.bank = l.bank → w.1.slot = ⟨l.index⟩ →
          w.2 = g.eval (.plain g host input) v := by
        intro w hw hbank hslot
        obtain ⟨site, _, slot, u, _, hhome, hvalue⟩ := hwrites.sound w hw
        rw [hbank, hslot] at hhome
        rw [hvalue]
        suffices u = v by rw [this]
        rcases hv.2 with ⟨hnone, hentry⟩ | ⟨hsome, _⟩
        · apply slot_apart hok hentry hnone
          · intro hmem
            have hlocal := hok.banks v l hentry hnone
            rw [hok.taken v hmem] at hlocal
            exact hv.1 hlocal
          · exact (⟨hv.1, .inr ⟨hhome, fun _ _ _ => trivial⟩⟩ : t.Placed (fun _ => True) e.slot u l)
        · exact t.holds.homed.apart u v l hhome hsome
      by_cases hhit : ∃ w ∈ ws, w.1.bank = l.bank ∧ w.1.slot = ⟨l.index⟩
      · obtain ⟨w, hw, hbank, hslot⟩ := hhit
        have hin := (hwrites.slots w hw).2
        rw [hbank, hslot] at hin
        exact VmState.read_writeAll_of_mem h.ready hv.1 hin howner ⟨w, hw, hbank, hslot⟩
      · rw [VmState.read_writeAll_other fun w hw hbank hslot => hhit ⟨w, hw, hbank, hslot⟩]
        refine h.values v l ⟨hv.1, hv.2.imp_right ?_⟩
        rintro ⟨hsome, hall⟩
        refine ⟨hsome, fun site slot hat => ?_⟩
        rcases hall site slot hat with hserved | hin
        · exact hserved
        · obtain ⟨w, hw, hhome⟩ := hwrites.complete site hin slot v hat
          rw [hsome] at hhome
          cases hhome
          exact absurd ⟨w, hw, rfl, rfl⟩ hhit
    · intro plan' hplan' site hsite hnot' u inputs hu hnode
      obtain ⟨sis, hsis, hinputs⟩ := h.waiting plan' hplan' site hsite (fun hs => hnot' (.inl hs)) u
        inputs hu hnode
      exact ⟨sis, hsis, hinputs.imp fun v si hplaced => hplaced.mono fun _ => .inl⟩
    · rw [hdst]
      exact h.products
    · rw [hlhs, hrhs]
      exact h.pending

/-- A row of batches. -/
theorem Agrees.batches (hp : t.Emitted fin p) (hfits : p.TracesFit host) (hok : t.Ok taken i e)
    (hkeeps : Keeps g i e fin) {ks : List Nat} (hnodup : ks.Nodup)
    (hplans : ∀ k ∈ ks, ∃ plan, t.schedule.plans[k]? = some plan ∧ plan.anchor < i) {served : GadgetId → Prop} {vm : VmState Unit Fr}
    (hnot : ∀ k ∈ ks, ∀ plan, t.schedule.plans[k]? = some plan → ∀ site ∈ plan.siteIds, ¬ served site)
    (h : t.Agrees p (.plain g host input) served i e.slot e.siteInputs vm) :
    ∃ vm', (ks.map fun k => Instruction.gadget ⟨k⟩).foldlM
        (Vm.executeInstruction (plainDriver host) p host) vm = .ok vm' ∧
      t.Agrees p (.plain g host input) (fun site => served site ∨ ∃ k ∈ ks, ∃ plan,
        t.schedule.plans[k]? = some plan ∧ site ∈ plan.siteIds) i e.slot e.siteInputs vm' := by
  induction ks generalizing served vm with
  | nil =>
    refine ⟨vm, rfl, ?_⟩
    simpa using h
  | cons k ks ih =>
    obtain ⟨hk, hnodup⟩ := List.nodup_cons.mp hnodup
    obtain ⟨plan, hplan, hanchor⟩ := hplans k (by simp)
    obtain ⟨vm₁, hrun, h₁⟩ := h.batch hp hfits hok hkeeps hplan hanchor (hnot k (by simp) plan hplan)
    obtain ⟨vm₂, hrest, h₂⟩ := ih hnodup (fun j hj => hplans j (List.mem_cons_of_mem _ hj)) (by
      rintro j hj plan' hplan' site hsite (hserved | hin)
      · exact hnot j (List.mem_cons_of_mem _ hj) plan' hplan' site hsite hserved
      · cases t.plan_unique hplan hplan' hin hsite
        exact hk hj) h₁
    refine ⟨vm₂, ?_, ?_⟩
    · rw [List.map_cons, List.foldlM_cons, hrun, ok_bind]
      exact hrest
    · have hsame : (fun site => (served site ∨ site ∈ plan.siteIds) ∨ ∃ k ∈ ks, ∃ plan,
          t.schedule.plans[k]? = some plan ∧ site ∈ plan.siteIds) = fun site => served site ∨
            ∃ k' ∈ k :: ks, ∃ plan, t.schedule.plans[k']? = some plan ∧ site ∈ plan.siteIds := by
        funext site
        apply propext
        rw [List.exists_mem_cons_iff, or_assoc]
        apply or_congr Iff.rfl
        apply or_congr _ Iff.rfl
        constructor
        · exact fun hin => ⟨plan, hplan, hin⟩
        · rintro ⟨plan', hplan', hin⟩
          rw [hplan] at hplan'
          cases hplan'
          exact hin
      rw [← hsame]
      exact h₂

end Batches

/-! ## Steps -/

section Steps

variable {i skipped : Nat} {e e₁ e₂ : Emitter} {input : SignalIdx → Fr} {vm : VmState Unit Fr}

/-- A step that skips nodes skips a round's results. -/
theorem Emits.skips (h : t.Emits i e e₁ skipped) : (∀ u, i < u → u < i + 1 + skipped →
      ∃ k args, g.nodes[u]? = some ⟨.roundResult k, args⟩) ∧
    (skipped = 0 ∨ ∃ id args, g.nodes[i]? = some ⟨.round id, args⟩) := by
  have hnone : ∀ u, i < u → u < i + 1 + 0 → ∃ k args, g.nodes[u]? = some ⟨.roundResult k, args⟩ := by
    intro u hlt hu
    exact absurd hlt (Nat.not_lt_of_le (Nat.lt_succ_iff.mp hu))
  cases h with
  | reserved _ _ => exact ⟨hnone, .inl rfl⟩
  | arith _ _ _ _ _ _ _ _ _ _ => exact ⟨hnone, .inl rfl⟩
  | @round id args operands results mid e' hnode _ _ _ _ _ _ _ =>
    refine ⟨?_, .inr ⟨id, args, hnode⟩⟩
    intro u hlt hu
    obtain ⟨k, rfl⟩ := Nat.exists_eq_add_of_le hlt
    exact ⟨k, [i], t.emittable.lowered.block i id args hnode k (Nat.lt_of_add_lt_add_left hu)⟩
  | gadget _ _ _ => exact ⟨hnone, .inl rfl⟩
  | result _ _ _ => exact ⟨hnone, .inl rfl⟩

/-- No batch stands on a node the walk skips. -/
theorem Emits.anchor (h : t.Emits i e e₁ skipped) {plan : ScheduledBatch}
    (hplan : plan ∈ t.schedule.plans) (hlt : plan.anchor < i + 1 + skipped) :
    plan.anchor < i ∨ plan.anchor = i + skipped := by
  obtain ⟨hskips, hround⟩ := h.skips
  obtain ⟨site, inputs, hat⟩ := t.planned.serviced.anchored plan hplan
  rcases Nat.lt_trichotomy plan.anchor i with hbefore | heq | hbehind
  · exact .inl hbefore
  · rcases hround with rfl | ⟨id, args, hnode⟩
    · exact .inr heq
    · rw [heq, hnode] at hat
      cases hat
  · obtain ⟨k, args, hnode⟩ := hskips _ hbehind hlt
    rw [hnode] at hat
    cases hat

/-- From a node on the rounds are lined up if its own is and those behind the step are. -/
theorem Emits.linedUp_iff (h : t.Emits i e e₁ skipped) : g.LinedUpFrom i ↔
    (∀ id args, g.nodes[i]? = some ⟨.round id, args⟩ → args = g.pendingAt i) ∧
      g.LinedUpFrom (i + 1 + skipped) := by
  constructor
  · intro hall
    exact ⟨fun id args hnode => hall i id args (Nat.le_refl i) hnode,
      fun r id args hr hnode => hall r id args (by omega) hnode⟩
  · rintro ⟨hfirst, hrest⟩ r id args hr hnode
    rcases Nat.lt_trichotomy r i with hlt | rfl | hgt
    · exact absurd hr (Nat.not_le_of_lt hlt)
    · exact hfirst id args hnode
    · rcases Nat.lt_or_ge r (i + 1 + skipped) with hlt | hge
      · obtain ⟨k, args', hresult⟩ := h.skips.1 r hgt hlt
        rw [hnode] at hresult
        cases hresult
      · exact hrest r id args hge hnode

/-- **What one step of the walk appends, executed.** -/
theorem Agrees.step (hp : t.Emitted fin p) (hok : t.Ok (takenAt g i) i e)
    (h : t.Agrees p (.plain g host input) (t.servedBefore i) i e.slot e.siteInputs vm)
    (hemits : t.Emits i e e₁ skipped) {taken : List ValueId} {pos : Nat}
    (hservices : Services t taken pos e₁ e₂) (hrest : t.Walk (i + 1 + skipped) e₂ fin)
    (hinstructions : ∀ x ∈ e₁.instructions, p.InstructionOk x) :
    ∃ added, e₁.instructions = e.instructions ++ added ∧
      ((∀ id args, g.nodes[i]? = some ⟨.round id, args⟩ → args = g.pendingAt i) →
        ∃ vm', added.foldlM (Vm.executeInstruction (plainDriver host) p host) vm = .ok vm' ∧
          t.Agrees p (.plain g host input) (t.servedBefore i) (i + 1 + skipped) e₁.slot
            e₁.siteInputs vm') ∧
      ∀ id args, g.nodes[i]? = some ⟨.round id, args⟩ → args ≠ g.pendingAt i →
        added.foldlM (Vm.executeInstruction (plainDriver host) p host) vm = .error .roundMismatch := by
  cases hemits with
  | @reserved node hnode hop =>
    obtain ⟨op, args⟩ := node
    -- A constant or an input was placed in advance and emits nothing.
    have hops : (∀ id, op ≠ .round id) ∧ op ≠ .mulLocal ∧ ∀ site, op ≠ .gadget site := by
      rcases hop with ⟨c, hop⟩ | ⟨signal, hop⟩ <;> dsimp only at hop <;> subst hop <;> simp
    refine ⟨[], by simp, fun _ => ⟨vm, rfl, h.advance hnode hops.1 hops.2.1 hops.2.2⟩, ?_⟩
    intro id args' hround
    rw [hnode] at hround
    cases hround
    exact absurd rfl (hops.1 id)
  -- One instruction, whose destination is the new value's place.
  | @arith op x y u w opcode bank ba bb dst a b e' hnode hop hu hw ha hb hbanks hvalue htrims hsame =>
    have hadded : e₁.instructions = e.instructions ++ [.arith opcode ⟨dst⟩ ⟨a⟩ ⟨b⟩] := by rw [hsame]
    have hi : p.InstructionOk (.arith opcode ⟨dst⟩ ⟨a⟩ ⟨b⟩) := by
      apply hinstructions
      rw [hadded]
      simp
    have hsis : e₁.siteInputs = e.siteInputs := by rw [hsame]
    refine ⟨_, hadded, fun _ => ⟨Effect.arith vm opcode ⟨dst⟩ ⟨a⟩ ⟨b⟩, ?_, ?_⟩, ?_⟩
    · rw [List.foldlM_cons]
      show (Vm.executeArithmetic (plainDriver host) vm opcode ⟨dst⟩ ⟨a⟩ ⟨b⟩ >>= _) = _
      rw [executeArithmetic_plain h.ready hi, ok_bind]
      rfl
    · rw [hsis]
      rcases hop with ⟨hop, hbank⟩ | ⟨rfl, rfl⟩
      · exact h.arith hok hnode hop hbank hu hw ha hb hbanks hvalue htrims hi
      · exact h.mulLocal hok hnode hu hw ha hb hbanks hvalue htrims
    · intro id args hround
      rw [hnode] at hround
      cases hround
      rcases hop with ⟨hop, _⟩ | ⟨hop, _⟩
      · rcases hop with hop | hop | hop <;> cases hop
      · cases hop
  -- The machine compares the round's operands with the products in flight.
  | @round id args operands results mid e' hnode hoperands hresults hplaced hother hid htrims hsame =>
    have hadded : e₁.instructions = e.instructions ++ [.reshare ⟨id⟩] := by rw [hsame]
    have hsis : e₁.siteInputs = e.siteInputs := by rw [hsame]
    have hlen : operands.length = args.length := hoperands.length_eq.symm
    obtain ⟨entry, hentry, hslice, hslice'⟩ := Walk.round hnode (by omega) hid
      (by rw [hservices.same, hsame]) (by rw [hservices.same, hsame])
      (by rw [hservices.same, hsame]) hlen hresults hrest
    rw [← hp.rounds] at hentry
    rw [← hp.roundOperands] at hslice
    rw [← hp.roundResults] at hslice'
    have hroundOk := hp.wellEncoded.rounds entry (List.mem_of_getElem? hentry)
    have hrun : [Instruction.reshare ⟨id⟩].foldlM (Vm.executeInstruction (plainDriver host) p host) vm =
        if args = g.pendingAt i then .ok (Effect.reshare p vm entry) else .error .roundMismatch := by
      rw [List.foldlM_cons]
      show (Vm.executeReshare (plainDriver host) p vm ⟨id⟩ >>= _) = _
      rw [executeReshare_plain hp.wellEncoded h.ready hentry]
      have hiff : vm.pendingMulDst = p.roundOperandsOf entry ↔ args = g.pendingAt i := by
        rw [show p.roundOperandsOf entry = operands from hslice]
        exact h.operands_iff hok hnode hoperands
      by_cases hlined : args = g.pendingAt i
      · rw [if_pos (hiff.mpr hlined), if_pos hlined]
        rfl
      · rw [if_neg fun heq => hlined (hiff.mp heq), if_neg hlined]
        rfl
    refine ⟨_, hadded, fun hlined => ⟨Effect.reshare p vm entry, ?_, ?_⟩, ?_⟩
    · rw [hrun, if_pos (hlined id args hnode)]
    · rw [hsis]
      exact h.round hok hnode (hlined id args hnode) hresults hplaced hother htrims hroundOk hslice'
    · intro id' args' hround hne
      rw [hnode] at hround
      cases hround
      rw [hrun, if_neg hne]
  -- A site waits for its batch, and its results have their homes.
  | @gadget site inputs sis hnode hinputs hsite =>
    refine ⟨[], by simp, fun _ => ⟨vm, rfl, h.gadget hok hnode hinputs hsite⟩, ?_⟩
    intro id args' hround
    rw [hnode] at hround
    cases hround
  | @result slot inputs l hnode hhome hlt =>
    refine ⟨[], by simp, fun _ => ⟨vm, rfl, h.result hnode hhome⟩, ?_⟩
    intro id args' hround
    rw [hnode] at hround
    cases hround

end Steps

/-! ## The whole walk -/

variable {input : SignalIdx → Fr}

/-- The batches due behind a step. -/
theorem Agrees.services {i skipped : Nat} {e e₁ e₂ : Emitter} {taken : List ValueId}
    {vm : VmState Unit Fr} (hp : t.Emitted fin p) (hfits : p.TracesFit host)
    (hemits : t.Emits i e e₁ skipped) (hok : t.Ok taken (i + 1 + skipped) e₁)
    (hkeeps : Keeps g (i + 1 + skipped) e₁ fin) (hservices : Services t taken (i + skipped) e₁ e₂)
    (h : t.Agrees p (.plain g host input) (t.servedBefore i) (i + 1 + skipped) e₁.slot
      e₁.siteInputs vm) :
    ∃ vm', ((dueAt t.schedule.plans (i + skipped)).map fun k => Instruction.gadget ⟨k⟩).foldlM
        (Vm.executeInstruction (plainDriver host) p host) vm = .ok vm' ∧
      t.Agrees p (.plain g host input) (t.servedBefore (i + 1 + skipped)) (i + 1 + skipped) e₂.slot
        e₂.siteInputs vm' := by
  have hnodup : (dueAt t.schedule.plans (i + skipped)).Nodup := List.Nodup.filter _ List.nodup_range
  have hbound : i + skipped + 1 = i + 1 + skipped := Nat.add_right_comm i skipped 1
  obtain ⟨vm', hrun, h'⟩ := h.batches hp hfits hok hkeeps hnodup (by
      intro k hk
      obtain ⟨plan, hplan, hanchor⟩ := mem_dueAt.mp hk
      exact ⟨plan, hplan, by omega⟩) (by
      rintro k hk plan hplan site hsite ⟨plan', hplan', hsite', hlt⟩
      obtain ⟨_, hplan₁, hanchor⟩ := mem_dueAt.mp hk
      rw [hplan] at hplan₁
      cases hplan₁
      obtain ⟨j, hj⟩ := List.mem_iff_getElem?.mp hplan'
      cases t.plan_unique hplan hj hsite hsite'
      rw [hplan] at hj
      cases hj
      omega)
  -- With these batches run, the sites served are those of every batch up to here.
  have hserved : (fun site => t.servedBefore i site ∨ ∃ k ∈ dueAt t.schedule.plans (i + skipped),
      ∃ plan, t.schedule.plans[k]? = some plan ∧ site ∈ plan.siteIds) =
        t.servedBefore (i + 1 + skipped) := by
    funext site
    apply propext
    constructor
    · rintro (⟨plan, hplan, hsite, hlt⟩ | ⟨k, hk, plan, hplan, hsite⟩)
      · exact ⟨plan, hplan, hsite, by omega⟩
      · obtain ⟨plan', hplan', hanchor⟩ := mem_dueAt.mp hk
        rw [hplan] at hplan'
        cases hplan'
        exact ⟨plan, List.mem_of_getElem? hplan, hsite, by omega⟩
    · rintro ⟨plan, hplan, hsite, hlt⟩
      rcases hemits.anchor hplan hlt with hbefore | hanchor
      · exact .inl ⟨plan, hplan, hsite, hbefore⟩
      · obtain ⟨k, hk⟩ := List.mem_iff_getElem?.mp hplan
        exact .inr ⟨k, mem_dueAt.mpr ⟨plan, hk, hanchor⟩, plan, hk, hsite⟩
  rw [hserved] at h'
  have hsis : e₂.siteInputs = e₁.siteInputs := by rw [hservices.same]
  have hdrops := hservices.drops
  rw [hbound] at hdrops
  refine ⟨vm', hrun, ?_⟩
  rw [hsis]
  exact h'.drop hdrops fun plan hplan site hsite hnot =>
    Nat.le_of_not_lt fun hlt => hnot ⟨plan, hplan, hsite, hlt⟩

/-- **The machine follows the walk to its end**, or stops at the first round that is not lined up. -/
theorem Walk.runs {i : Nat} {e : Emitter} (hwalk : t.Walk i e fin) (hp : t.Emitted fin p)
    (hfits : p.TracesFit host) {vm : VmState Unit Fr}
    (h : t.Agrees p (.plain g host input) (t.servedBefore i) i e.slot e.siteInputs vm) :
    ∃ rest, fin.instructions = e.instructions ++ rest ∧
      (g.LinedUpFrom i → ∃ vm',
        rest.foldlM (Vm.executeInstruction (plainDriver host) p host) vm = .ok vm' ∧
          ∃ n, g.nodes.length ≤ n ∧ t.Agrees p (.plain g host input) (t.servedBefore n) n fin.slot
            fin.siteInputs vm') ∧
      (¬ g.LinedUpFrom i →
        rest.foldlM (Vm.executeInstruction (plainDriver host) p host) vm = .error .roundMismatch) := by
  induction hwalk generalizing vm with
  -- At the end there is no round left to line up.
  | @done i e hi _ =>
    refine ⟨[], by simp, fun _ => ⟨vm, rfl, i, hi, h⟩, ?_⟩
    intro hnot
    apply absurd _ hnot
    intro r id args hr hnode
    exact absurd (List.getElem?_eq_some_iff.mp hnode).1 (Nat.not_lt_of_le (Nat.le_trans hi hr))
  | @step i skipped e e₁ e₂ fin _ hok hemits hok₁ hservices hrest ih =>
    have hbound : i + skipped + 1 = i + 1 + skipped := Nat.add_right_comm i skipped 1
    rw [hbound] at hok₁
    have hsame : e₂.instructions = e₁.instructions ++
        (dueAt t.schedule.plans (i + skipped)).map fun k => .gadget ⟨k⟩ := by rw [hservices.same]
    have hkeeps : Keeps g (i + 1 + skipped) e₁ fin :=
      hservices.keeps.trans hrest.keeps (Nat.le_refl _)
    have hinstructions : ∀ x ∈ e₁.instructions, p.InstructionOk x := by
      intro x hx
      apply hp.wellEncoded.instructions
      rw [hp.instructions]
      apply hrest.instructions.subset
      rw [hsame]
      exact List.mem_append_left _ hx
    obtain ⟨added, hadded, hgood, hbad⟩ := h.step hp hok hemits hservices hrest hinstructions
    -- A round that does not line up stops the machine, and everything behind it.
    by_cases hlined : ∀ id args, g.nodes[i]? = some ⟨.round id, args⟩ → args = g.pendingAt i
    · obtain ⟨vm₁, hrun₁, h₁⟩ := hgood hlined
      obtain ⟨vm₂, hrun₂, h₂⟩ := h₁.services hp hfits hemits hok₁ hkeeps hservices
      obtain ⟨rest, hinstr, hgood', hbad'⟩ := ih hp h₂
      refine ⟨added ++ ((dueAt t.schedule.plans (i + skipped)).map fun k => .gadget ⟨k⟩) ++ rest, ?_,
        ?_, ?_⟩
      · rw [hinstr, hsame, hadded]
        simp only [List.append_assoc]
      · intro hall
        obtain ⟨vm', hrun, hend⟩ := hgood' (hemits.linedUp_iff.mp hall).2
        refine ⟨vm', ?_, hend⟩
        rw [List.foldlM_append, List.foldlM_append, hrun₁, ok_bind, hrun₂, ok_bind, hrun]
      · intro hnot
        rw [List.foldlM_append, List.foldlM_append, hrun₁, ok_bind, hrun₂, ok_bind]
        exact hbad' fun hall => hnot (hemits.linedUp_iff.mpr ⟨hlined, hall⟩)
    · obtain ⟨rest, hinstr⟩ := hrest.instructions
      refine ⟨added ++ ((dueAt t.schedule.plans (i + skipped)).map fun k => .gadget ⟨k⟩) ++ rest, ?_,
        fun hall => absurd (hemits.linedUp_iff.mp hall).1 hlined, ?_⟩
      · rw [← hinstr, hsame, hadded]
        simp only [List.append_assoc]
      · intro _
        push Not at hlined
        obtain ⟨id, args, hnode, hne⟩ := hlined
        rw [List.foldlM_append, List.foldlM_append, hbad id args hnode hne]
        rfl

end Setting

end Codegen
end CircomMpc
