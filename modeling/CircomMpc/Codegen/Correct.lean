import CircomMpc.Codegen.Execution
import CircomMpc.Codegen.Kept
import CircomMpc.Passes.Mpc.RoundCount
import CircomMpc.Vm.InputCheck

/-!
# Code generation is correct

The machine starts in agreement with the graph, follows the walk to its end, and reads the witness off
the places the walk has left. So a compiled program computes the graph's witness if every round is
lined up with the products in flight, and stops at the first that is not otherwise.

`Compiled` gathers what is left of the code generator: a walk to its end and the tables around it.
The rest is about the machine and never opens the emitter.
-/

namespace CircomMpc

open Lib CircomMpc.Graph

namespace Graph

/-- The inputs of a run, by signal. -/
def inputOf (g : Graph) (inputs : List (InputValue Fr)) (signal : SignalIdx) : Fr :=
  Effect.inputAt inputs ⟨signal - g.numOutputs⟩

/-- The value of a signal of the circuit: the constant one, an input, or what the last output binding
    that names it evaluates to; a signal nobody binds is zero. -/
def signalValue (g : Graph) (I : Interp) (signal : Nat) : Fr :=
  if signal = 0 then 1
  else if g.numOutputs < signal ∧ signal ≤ g.numOutputs + g.numInputs then I.input (signal - 1)
  else (g.binding I signal).getD 0

end Graph

namespace Codegen

open GadgetSchedule

variable {g : Graph}

/-! ## What is compiled -/

/-- The program's tables, from the setting and the walk's last state. It leaves out the validation:
    a program `compile` returns has passed it. -/
structure Compiled (t : Setting g) (fin : Emitter) (p : ProgramParts) : Prop where
  walk : t.Walk 0 (Emitter.new g t.res t.lastUse) fin
  instructions : p.instructions = fin.instructions
  rounds : p.rounds = fin.rounds
  roundOperands : p.roundOperands = fin.roundOperands
  roundResults : p.roundResults = fin.roundResults
  batches : t.schedule.plans.mapM (assembleBatch t.res.gadgets fin.siteInputs) = .ok p.gadgetBatches
  constants : p.constants = t.res.constants
  inputs : p.inputs = t.res.inputBindings
  witness : buildWitnessSources g fin.slot = .ok p.witnessSources
  numInputs : p.numInputs = g.numInputs

theorem emit_meets (hg : g.Emittable) :
    Meets (fun _ => True) (fun p => ∃ t fin, Compiled (g := g) t fin p) (emit g) := by
  unfold emit
  rw [computeDomains_eq_ok hg.sited.hosted.indexed, lift_ok, ok_bind]
  apply Meets.bind (lift_meets (computeLastUse_meets g))
  intro lastUse hreads
  apply Meets.bind (lift_meets (planBatches_meets hg.sited hreads))
  rintro ⟨schedule, lastUse⟩ hplanned
  dsimp only at hplanned ⊢
  apply Meets.bind (reserveSlots_meets hg.sited.hosted)
  rintro res ⟨⟨home, hholds⟩, _⟩
  -- Everything the walk needs is known before it starts.
  let t : Setting g := ⟨schedule, lastUse, res, home, hg, hplanned, hholds⟩
  apply Meets.bind (Setting.run_meets (t := t) t.new_ok)
  intro fin hwalk
  apply Meets.bind_eq
  intro batches hbatches
  apply Meets.bind_eq
  intro sources hsources
  apply Meets.bind_any
  intro numPublic
  rw [lift_eq_ok] at hbatches
  exact ⟨t, fin, hwalk, rfl, rfl, rfl, rfl, hbatches, rfl, rfl, hsources, rfl⟩

theorem compile_eq_ok (hg : g.Emittable) {program : Program} (h : compile g = .ok program) :
    ∃ t fin, Compiled (g := g) t fin program.parts := by
  unfold compile at h
  obtain ⟨parts, hparts, h⟩ := bind_eq_ok.mp h
  cases hnew : Program.new parts with
  | error e =>
    rw [hnew] at h
    cases h
  | ok program' =>
    rw [hnew] at h
    cases h
    rw [Program.new_eq_ok.mp hnew]
    exact (emit_meets hg).of_ok hparts

/-- The tables of the gadget twin are those of an emitted program. -/
theorem Compiled.emitted {t : Setting g} {fin : Emitter} {program : Program}
    (h : Compiled t fin program.parts) : t.Emitted fin program.parts.gadgetTwin where
  wellEncoded := program.wellEncoded.gadgetTwin
  instructions := h.instructions
  rounds := h.rounds
  roundOperands := h.roundOperands
  roundResults := h.roundResults
  batches := ⟨_, h.batches, rfl⟩

/-! ## The start -/

section Start

variable {t : Setting g} {p : ProgramParts} {host : Poseidon2.Host} {inputs : List (InputValue Fr)}

/-- The writes that bind the inputs. -/
def bindings (p : ProgramParts) (inputs : List (InputValue Fr)) : List (ResultTarget × Fr) :=
  p.inputs.map fun b => (⟨b.bank, b.slot⟩, Effect.inputAt inputs b.inputIndex)

theorem initial_eq_writeAll :
    Effect.initial p [] inputs = (Effect.zeroed p []).writeAll (bindings p inputs) := by
  unfold Effect.initial Effect.bind bindings VmState.writeAll
  rw [List.foldl_map]

/-- The machine starts with the constants and the inputs in their homes. -/
theorem initial_values (hw : p.WellEncoded) (hconstants : p.constants = t.res.constants)
    (hinputs : p.inputs = t.res.inputBindings) {v : ValueId} {l : Loc} (hhome : t.home v = some l)
    (hresult : ∀ site k, ¬ g.ResultAt site k v) :
    (Effect.initial p [] inputs).read l.bank ⟨l.index⟩ =
      g.eval (.plain g host (g.inputOf inputs)) v := by
  have hord := t.emittable.lowered.indexed.ordered
  -- Who is bound to a place of `v` is `v`.
  have howner : ∀ w ∈ bindings p inputs, w.1.bank = l.bank → w.1.slot = ⟨l.index⟩ →
      ∃ signal, InputAt g signal v ∧ w.2 = g.inputOf inputs signal := by
    intro w hmem hbank hslot
    obtain ⟨b, hb, rfl⟩ := List.mem_map.mp hmem
    rw [hinputs] at hb
    obtain ⟨signal, u, slot, hat, hu, rfl⟩ := t.holds.bindings b hb
    have hl : (⟨bankOf (signalDomain g signal), slot⟩ : Loc) = l := by
      obtain ⟨bank, index⟩ := l
      cases hslot
      cases hbank
      rfl
    rw [hl] at hu
    cases t.holds.homed.apart u v l hu hhome
    exact ⟨signal, hat, rfl⟩
  rw [initial_eq_writeAll]
  rcases t.holds.only v l hhome with ⟨c, hat⟩ | ⟨signal, hat⟩ | ⟨site, k, hat⟩
  · obtain ⟨k, hk, hc⟩ := t.holds.constants c v hat
    rw [hhome] at hk
    cases hk
    obtain ⟨args, hnode⟩ := hat
    rw [VmState.read_writeAll_other]
    · rw [← hconstants] at hc
      have hvalue : g.eval (.plain g host (g.inputOf inputs)) v = c := by
        unfold eval
        rw [value_eq hord hnode]
        rfl
      show (p.constants ++ _).getD k 0 = _
      rw [hvalue, List.getD_eq_getElem?_getD,
        List.getElem?_append_left (List.getElem?_eq_some_iff.mp hc).1, hc, Option.getD_some]
    · intro w hmem hbank hslot
      obtain ⟨signal, ⟨args', hat'⟩, _⟩ := howner w hmem hbank hslot
      rw [hnode] at hat'
      cases hat'
  · obtain ⟨_, slot, hslot, hmem⟩ := t.holds.inputs signal v hat
    rw [hhome] at hslot
    cases hslot
    obtain ⟨args, hnode⟩ := hat
    have hvalue : g.eval (.plain g host (g.inputOf inputs)) v = g.inputOf inputs signal := by
      unfold eval
      rw [value_eq hord hnode]
      rfl
    rw [hvalue]
    rw [← hinputs] at hmem
    have hbinding := hw.bindings _ hmem
    apply VmState.read_writeAll_of_mem (zeroed_ready hw []) (binding_not_local hw hbinding)
      hbinding.slot
    · intro w hw' hbank hslot
      obtain ⟨signal', ⟨args', hat'⟩, hw'⟩ := howner w hw' hbank hslot
      rw [hnode] at hat'
      cases hat'
      exact hw'
    · exact ⟨_, List.mem_map.mpr ⟨_, hmem, rfl⟩, rfl, rfl⟩
  · exact absurd hat (hresult site k)

/-- The machine starts in agreement with the graph. -/
theorem initial_agrees (hw : p.WellEncoded) (hconstants : p.constants = t.res.constants)
    (hinputs : p.inputs = t.res.inputBindings) :
    t.Agrees p (.plain g host (g.inputOf inputs)) (t.servedBefore 0) 0
      (Emitter.new g t.res t.lastUse).slot (Emitter.new g t.res t.lastUse).siteInputs
      (Effect.initial p [] inputs) := by
  have hpending := VmState.writeAll_pending (Effect.zeroed p []) (bindings p inputs)
  rw [← initial_eq_writeAll] at hpending
  obtain ⟨hdst, hlhs, hrhs⟩ := hpending
  refine ⟨initial_ready hw [] inputs, ?_, ?_, ?_, ?_⟩
  · intro v l hv
    -- At the start the table holds homes only, and no gadget result's counts yet.
    have hhome : t.home v = some l ∧ ∀ site k, ¬ g.ResultAt site k v := by
      rcases hv.2 with ⟨hnone, hslot⟩ | ⟨hsome, hserved⟩
      · rw [t.holds.table v l hslot] at hnone
        cases hnone
      · refine ⟨hsome, fun site k hat => ?_⟩
        obtain ⟨_, _, _, hlt⟩ := hserved site k hat
        exact absurd hlt (Nat.not_lt_zero _)
    exact initial_values hw hconstants hinputs hhome.1 hhome.2
  · intro _ _ _ _ _ u _ hu
    exact absurd hu (Nat.not_lt_zero u)
  · rw [hdst]
    exact .nil
  · rw [hlhs, hrhs]
    rfl

end Start

/-! ## The witness -/

section Witness

variable {t : Setting g} {p : ProgramParts} {host : Poseidon2.Host} {inputs : List (InputValue Fr)}

/-- The source the table of signal sources has for a signal. -/
def sourceAt (sources : List (Option WitnessSource)) (signal : Nat) : WitnessSource :=
  sources[signal]?.join.getD .zero

theorem setSource_meets {sources : List (Option WitnessSource)} {signal : Nat}
    {source : WitnessSource} {error : CodegenError} :
    Meets (fun _ => True) (fun sources' => ∀ s, sourceAt sources' s =
      if s = signal then source else sourceAt sources s) (setSource sources signal source error) := by
  unfold setSource
  split
  · next hlt =>
    intro s
    unfold sourceAt
    by_cases hs : s = signal
    · subst hs
      rw [if_pos rfl, List.getElem?_set_self hlt]
      rfl
    · rw [if_neg hs, List.getElem?_set_ne (Ne.symm hs)]
  · trivial

/-- What the last of some output bindings that names a signal evaluates to. -/
def boundBy (g : Graph) (I : Interp) (outputs : List (SignalIdx × ValueId)) (signal : Nat) : Option Fr :=
  (outputs.filter fun o => o.1 + 1 == signal).getLast?.map fun o => g.eval I o.2

theorem boundBy_append (I : Interp) (outputs : List (SignalIdx × ValueId)) (o : SignalIdx × ValueId)
    (signal : Nat) : boundBy g I (outputs ++ [o]) signal =
      if signal = o.1 + 1 then some (g.eval I o.2) else boundBy g I outputs signal := by
  unfold boundBy
  rw [List.filter_append]
  by_cases h : signal = o.1 + 1
  · simp [h]
  · have hne : (o.1 + 1 == signal) = false := by simpa using Ne.symm h
    rw [List.filter_cons_of_neg (by rw [hne]; exact Bool.false_ne_true), if_neg h]
    simp

/-- One output binding: the value is where the walk has left it. -/
theorem outputSource_meets {slot : List (Option Loc)} {vm : VmState Unit Fr} {I : Interp}
    (hvalues : ∀ v (l : Loc), l.bank ≠ .local → slot[v]? = some (some l) →
      vm.read l.bank ⟨l.index⟩ = g.eval I v)
    {sources : List (Option WitnessSource)} {o : SignalIdx × ValueId} :
    Meets (fun _ => True) (fun sources' => ∀ s, Effect.source inputs vm (sourceAt sources' s) =
      if s = o.1 + 1 then g.eval I o.2 else Effect.source inputs vm (sourceAt sources s))
      (outputSource g slot sources o) := by
  unfold outputSource
  apply Meets.bind_eq
  intro l hl
  apply Meets.guard_bind (fun _ => trivial)
  intro hbank
  apply setSource_meets.post
  intro sources' h s
  rw [h s]
  split
  · rw [lift_eq_ok] at hl
    exact hvalues o.2 l hbank (Setting.resolve_eq_ok.mp hl)
  · rfl

/-- The output bindings, one after another, above the constant. -/
theorem outputSources_meets {slot : List (Option Loc)} {vm : VmState Unit Fr} {I : Interp}
    (hvalues : ∀ v (l : Loc), l.bank ≠ .local → slot[v]? = some (some l) →
      vm.read l.bank ⟨l.index⟩ = g.eval I v)
    {start : List (Option WitnessSource)} (hstart : ∀ s, Effect.source inputs vm (sourceAt start s) =
      if s = 0 then 1 else 0) :
    Meets (fun _ => True) (fun sources => ∀ s, Effect.source inputs vm (sourceAt sources s) =
      if s = 0 then 1 else (g.binding I s).getD 0)
      (g.outputs.foldlM (outputSource g slot) start) := by
  refine Meets.foldlM_prefix (fun done sources => ∀ s, Effect.source inputs vm (sourceAt sources s) =
    if s = 0 then 1 else (boundBy g I done s).getD 0) hstart ?_
  intro done o rest sources _ h
  apply (outputSource_meets hvalues).post
  intro sources' h' s
  rw [h' s, h s, boundBy_append]
  by_cases hs : s = o.1 + 1
  · rw [if_pos hs, if_pos hs, if_neg (by omega), Option.getD_some]
  · rw [if_neg hs, if_neg hs]

/-- The inputs over them. -/
theorem inputSources_meets {vm : VmState Unit Fr} {start : List (Option WitnessSource)}
    (hstart : ∀ s, Effect.source inputs vm (sourceAt start s) = if s = 0 then 1 else
      (g.binding (.plain g host (g.inputOf inputs)) s).getD 0) :
    Meets (fun _ => True) (fun sources => ∀ s, Effect.source inputs vm (sourceAt sources s) =
      g.signalValue (.plain g host (g.inputOf inputs)) s)
      ((List.range g.numInputs).foldlM (inputSource g) start) := by
  -- After `k` inputs their `k` signals are the inputs, and the others as before.
  refine Meets.foldlM_range (fun k sources => ∀ s, Effect.source inputs vm (sourceAt sources s) =
    if s = 0 then 1 else if g.numOutputs < s ∧ s ≤ g.numOutputs + k then g.inputOf inputs (s - 1)
    else (g.binding (.plain g host (g.inputOf inputs)) s).getD 0) ?_ ?_
  · intro s
    rw [hstart s]
    split
    · rfl
    · rw [if_neg (by omega)]
  · intro k _ sources h
    apply setSource_meets.post
    intro sources' h' s
    rw [h' s]
    by_cases hs : s = g.numOutputs + k + 1
    · have hk : s - 1 - g.numOutputs = k := by omega
      rw [if_pos hs, if_neg (by omega), if_pos (by omega)]
      show Effect.inputAt inputs ⟨k⟩ = Effect.inputAt inputs ⟨s - 1 - g.numOutputs⟩
      rw [hk]
    · have hiff : g.numOutputs < s ∧ s ≤ g.numOutputs + k ↔
          g.numOutputs < s ∧ s ≤ g.numOutputs + (k + 1) := by omega
      rw [if_neg hs, h s]
      simp only [hiff]

/-- **The sources of the witness have the values of its signals.** -/
theorem buildWitnessSources_meets {slot : List (Option Loc)} {vm : VmState Unit Fr}
    (hvalues : ∀ v (l : Loc), l.bank ≠ .local → slot[v]? = some (some l) →
      vm.read l.bank ⟨l.index⟩ = g.eval (.plain g host (g.inputOf inputs)) v) :
    Meets (fun _ => True) (fun sources => sources.map (Effect.source inputs vm) =
      g.signalToWitness.map (g.signalValue (.plain g host (g.inputOf inputs))))
      (buildWitnessSources g slot) := by
  unfold buildWitnessSources
  split
  · next hempty =>
    rw [List.isEmpty_iff.mp hempty]
    rfl
  apply Meets.bind setSource_meets
  intro start hstart
  apply Meets.bind (outputSources_meets hvalues _)
  · -- First the outputs, then the inputs over them, then the projection.
    intro outputs houtputs
    apply Meets.bind (inputSources_meets houtputs)
    intro sources hsources
    show (g.signalToWitness.map (sourceAt sources)).map _ = _
    rw [List.map_map]
    exact List.map_congr_left fun s _ => hsources s
  · intro s
    rw [hstart s]
    split
    · rfl
    · unfold sourceAt
      rw [List.getElem?_replicate]
      split <;> rfl

end Witness

/-! ## The run -/

section Run

variable {host : Poseidon2.Host} {program : Program} {inputs : List (InputValue Fr)}

/-- Inputs of the declared variants are bound. -/
theorem initializeInputs_eq_ok {p : ProgramParts} (hw : p.WellEncoded) (hinputs : p.InputsMatch inputs) :
    Vm.initializeInputs (plainDriver host) p [] () inputs = .ok (Effect.initial p [] inputs) := by
  have hfits : ∀ b ∈ p.inputs, ∀ value, inputs[b.inputIndex.index]? = some value →
      value.HasDomain b.bank := by
    intro b hb value hvalue
    rw [(hw.bindings b hb).bank]
    exact hinputs.variants _ value hvalue
  exact Vm.initializeInputs_fits hw [] hinputs.length hfits

/-- A program that services its batches itself needs no queue. -/
theorem queueMatches_nil
    (h : ∀ batch ∈ program.parts.gadgetBatches, batch.kind.isPrecomputed = false) :
    QueueMatches host program [] inputs where
  length := by
    have hnone : ∀ i, program.parts.precomputedBatch i = none := by
      intro i
      cases i with
      | arith op dst a b => rfl
      | reshare round => rfl
      | gadget index =>
        cases hbatch : program.parts.gadgetBatches[index.index]? with
        | none => simp [ProgramParts.precomputedBatch, hbatch]
        | some batch =>
          have hkind := h batch (List.mem_of_getElem? hbatch)
          cases hk : batch.kind with
          | precomputedPoseidon2 t =>
            rw [hk] at hkind
            cases hkind
          | gadget kind => simp [ProgramParts.precomputedBatch, hbatch, hk]
          | isZeroReveal => simp [ProgramParts.precomputedBatch, hbatch, hk]
    unfold ProgramParts.precomputedBatches
    rw [List.filterMap_eq_nil_iff.mpr fun i _ => hnone i]
    rfl
  entry k vm index batch t _ _ hbatch hkind := by
    have hserviced := h batch (List.mem_of_getElem? hbatch)
    rw [hkind] at hserviced
    cases hserviced

/-- What is compiled computes the witness if the rounds line up, and stops at one if they do not. -/
theorem Compiled.runs {t : Setting g} {fin : Emitter} (hcompiled : Compiled t fin program.parts)
    (hfits : program.parts.TracesFit host) (hinputs : program.parts.InputsMatch inputs)
    {queue : List (List (SiteTrace Fr))} (hqueue : QueueMatches host program queue inputs) :
    (g.LinedUp → ∃ w, Vm.runPlain host program queue inputs = .ok w ∧
      w.intoFull = g.signalToWitness.map (g.signalValue (.plain g host (g.inputOf inputs)))) ∧
    (¬ g.LinedUp → Vm.runPlain host program queue inputs = .error .roundMismatch) := by
  -- Where batches are precomputed, the twin that services them itself runs the same.
  let p := program.parts.gadgetTwin
  have hp : t.Emitted fin p := hcompiled.emitted
  have hstart : t.Agrees p (.plain g host (g.inputOf inputs)) _ 0 _ _ (Effect.initial p [] inputs) :=
    initial_agrees hp.wellEncoded hcompiled.constants hcompiled.inputs
  -- The walk's instructions are the program's, since it starts with none.
  obtain ⟨rest, hrest, hgood, hbad⟩ := hcompiled.walk.runs hp hfits.gadgetTwin hstart
  have hmatch : p.InputsMatch inputs := ⟨hinputs.length, hinputs.variants⟩
  have hinstructions : p.instructions = rest := hp.instructions.trans hrest
  have hstate : Vm.stateAfter (plainDriver host) p host [] () inputs p.instructions.length =
      rest.foldlM (Vm.executeInstruction (plainDriver host) p host) (Effect.initial p [] inputs) := by
    have hlen : inputs.length = p.numInputs := hinputs.length
    unfold Vm.stateAfter
    rw [ensure_of hlen, ok_bind, initializeInputs_eq_ok hp.wellEncoded hmatch, ok_bind,
      List.take_length, hinstructions]
  rw [← runPlain_twin hqueue]
  show (_ → ∃ w, Vm.run (plainDriver host) p host [] () inputs = .ok w ∧ _) ∧
    (_ → Vm.run (plainDriver host) p host [] () inputs = _)
  rw [Vm.run_eq, hstate]
  constructor
  · intro hlined
    obtain ⟨vm, hrun, n, hn, hend⟩ := hgood hlined
    -- At the end nothing is in flight, so the run finishes.
    have hpending : vm.pendingMulDst = [] := by
      have hproducts := hend.products
      rw [t.emittable.lowered.pendingAt_last hn] at hproducts
      exact List.forall₂_nil_left_iff.mp hproducts
    have hqueue : vm.precomputation = [] := by
      have hdrop : Meets (fun _ => True) _
          (Vm.stateAfter (plainDriver host) p host [] () inputs p.instructions.length) :=
        Vm.stateAfter_queue [] () inputs (Nat.le_refl _)
      rw [hstate, hrun] at hdrop
      exact hdrop.1.trans List.drop_nil
    obtain ⟨_, _, hok⟩ := hcompiled.walk.last
    have hvalues : ∀ v (l : Loc), l.bank ≠ .local → fin.slot[v]? = some (some l) →
        vm.read l.bank ⟨l.index⟩ = g.eval (.plain g host (g.inputOf inputs)) v := by
      intro v l hbank hslot
      apply hend.values v l
      apply Setting.placed_of_slot hok hslot hbank
      rintro site k ⟨_, _, hat⟩
      exact t.served_last hn hat
    -- The witness is read off the places that agree with the graph.
    have hsources := (buildWitnessSources_meets hvalues).of_ok hcompiled.witness
    rw [hrun, ok_bind, ensure_of hpending, ok_bind,
      finishWitness_eq_ok hp.wellEncoded hend.ready hmatch.length hqueue]
    refine ⟨_, rfl, ?_⟩
    rw [← hsources]
    unfold Witness.intoFull Effect.witness
    rw [← List.map_append, List.take_append_drop]
    rfl
  · intro hnot
    rw [hbad hnot]
    rfl

/-- **A compiled program computes the witness of its graph**, if every round reshares the products in
    flight in their order; otherwise the run stops at the first round that does not. -/
theorem compile_runs (hg : g.Emittable) (h : compile g = .ok program)
    (hfits : program.parts.TracesFit host) (hinputs : program.parts.InputsMatch inputs)
    {queue : List (List (SiteTrace Fr))} (hqueue : QueueMatches host program queue inputs) :
    (g.LinedUp → ∃ w, Vm.runPlain host program queue inputs = .ok w ∧
      w.intoFull = g.signalToWitness.map (g.signalValue (.plain g host (g.inputOf inputs)))) ∧
    (¬ g.LinedUp → Vm.runPlain host program queue inputs = .error .roundMismatch) := by
  obtain ⟨t, fin, hcompiled⟩ := compile_eq_ok hg h
  exact hcompiled.runs hfits hinputs hqueue

/-- The chained products, lowered and compiled. -/
theorem chainedProducts_compiles : ∃ g' program, PassManager.runLower chainedProducts = .ok g' ∧
    compile g' = .ok program ∧ g'.LinedUp ∧
      program.parts.InputsMatch [.secret 2, .secret 3, (.secret 5 : InputValue Fr)] ∧
        program.parts.gadgetBatches = [] := by
  -- One evaluation of both passes, taken apart below.
  have hcheck : ((PassManager.runLower chainedProducts).toOption.any fun g' =>
      (compile g').toOption.any fun program => decide (g'.LinedUp ∧ program.parts.numInputs = 3 ∧
        program.parts.inputDomains = [.shared, .shared, .shared] ∧
          program.parts.gadgetBatches = [])) = true := by
    decide +kernel
  cases hlower : PassManager.runLower chainedProducts with
  | error e =>
    rw [hlower] at hcheck
    cases hcheck
  | ok g' =>
    cases hcompile : compile g' with
    | error e =>
      simp only [hlower, Except.toOption, Option.any_some, hcompile, Option.any_none] at hcheck
      cases hcheck
    | ok program =>
      simp only [hlower, Except.toOption, Option.any_some, hcompile, decide_eq_true_eq] at hcheck
      obtain ⟨hlined, hcount, hdomains, hbatches⟩ := hcheck
      refine ⟨g', program, rfl, hcompile, hlined, ⟨hcount.symm, ?_⟩, hbatches⟩
      intro i value hvalue
      rw [hdomains]
      have hi : i < 3 := (List.getElem?_eq_some_iff.mp hvalue).1
      rcases i with _ | _ | _ | i
      · cases hvalue
        rfl
      · cases hvalue
        rfl
      · cases hvalue
        rfl
      · omega

theorem chainedProducts_compilable : chainedProducts.Compilable where
  frontend := by decide
  slots := by
    rintro site slot u v ⟨w, hw, _⟩
    have hmem := List.mem_of_getElem? hw
    simp [chainedProducts] at hmem
  arity v site inputs s _ hsite := by cases hsite
  host s hs := by cases hs

theorem compile_runs_chained : ∃ g' program w, PassManager.runLower chainedProducts = .ok g' ∧
    compile g' = .ok program ∧
      Vm.runPlain default program [] [.secret 2, .secret 3, .secret 5] = .ok w ∧
        w.intoFull = g'.signalToWitness.map (g'.signalValue
          (.plain g' default (g'.inputOf [.secret 2, .secret 3, .secret 5]))) := by
  obtain ⟨g', program, hlower, hcompile, hlined, hmatch, hbatches⟩ := chainedProducts_compiles
  obtain ⟨w, hrun, hw⟩ := (compile_runs (chainedProducts_compilable.emittable hlower) hcompile
    (.of_nil hbatches) hmatch (queueMatches_nil (by simp [hbatches]))).1 hlined
  exact ⟨g', program, w, hlower, hcompile, hrun, hw⟩

end Run

end Codegen
end CircomMpc
