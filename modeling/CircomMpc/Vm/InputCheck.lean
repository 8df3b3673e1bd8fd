import CircomMpc.Vm.Instructions

/-!
# Which inputs a run checks

`Vm::run` promises an error when its inputs do not match the program's declared ones, and its tests
ask that a wrong variant cost no communication. The variants are checked by walking the bindings, and
an input the optimiser removed every reader of has none, while the witness may still read it by
index. So the promise holds of exactly the programs that bind every input, and of those whose own
tables make every run fail before it communicates.

For the other direction a program that does neither is run on inputs of which one has the wrong
variant: nothing binds it, so the run gets as far as its first communication. `refusing` is the driver
that makes this visible: it computes as the plain one and fails at whatever would communicate, with a
reason no other failure has.
-/

namespace CircomMpc

open Lib

variable {σ S : Type}

/-- The declared inputs: as many, and each of its domain's variant. This is more than a run checks,
    which looks at the inputs with a binding. -/
structure ProgramParts.InputsMatch (p : ProgramParts) (inputs : List (InputValue S)) : Prop where
  length : inputs.length = p.numInputs
  variants : ∀ (i : Nat) (value : InputValue S), inputs[i]? = some value →
    value.HasDomain (p.inputDomains.getD i .local)

/-- A run that returns was given the declared inputs, and one that was not fails without calling an
    operation that communicates. -/
def Program.ChecksInputs (program : Program) : Prop :=
  ∀ (σ S : Type) (driver : VmDriver σ S) (host : Poseidon2.Host)
    (queue : List (List (SiteTrace S))) (s : σ) (inputs : List (InputValue S)),
    ((∃ witness, Vm.run driver program.parts host queue s inputs = .ok witness) →
      program.parts.InputsMatch inputs) ∧
    (¬ program.parts.InputsMatch inputs →
      Vm.FailsSilently driver program.parts host queue s inputs)

/-- Every input has a binding. -/
def ProgramParts.BindsInputs (p : ProgramParts) : Prop :=
  ∀ i < p.numInputs, ∃ binding ∈ p.inputs, binding.inputIndex.index = i

/-! ## Programs that bind every input -/

namespace Vm

variable {driver : VmDriver σ S} {p : ProgramParts}

/-- A binding that takes its input takes the variant of its bank. -/
theorem bindInput_checks {inputs : List (InputValue S)} {vm : VmState σ S}
    {binding : InputBinding} :
    Meets (fun _ => True)
      (fun _ => ∀ value, inputs[binding.inputIndex.index]? = some value →
        value.HasDomain binding.bank) (bindInput inputs vm binding) := by
  unfold bindInput readAt
  cases hvalue : inputs[binding.inputIndex.index]? with
  | none => exact trivial
  | some value =>
    rw [orElse_some, ok_bind]
    cases binding.bank <;> cases value
    case «public».«public» | shared.secret =>
      apply Meets.bind_any
      intro bank value' heq
      cases heq
      rfl
    all_goals exact trivial

theorem initializeInputs_checks {queue : List (List (SiteTrace S))} {s : σ}
    {inputs : List (InputValue S)} :
    Meets (fun _ => True)
      (fun _ => ∀ binding ∈ p.inputs, ∀ value,
        inputs[binding.inputIndex.index]? = some value → value.HasDomain binding.bank)
      (initializeInputs driver p queue s inputs) := by
  apply Meets.bind_any
  intro bank
  refine Meets.foldlM_prefix (fun (done : List InputBinding) _ => ∀ binding ∈ done,
    ∀ value : InputValue S, inputs[binding.inputIndex.index]? = some value →
      value.HasDomain binding.bank) ?_ ?_
  · intro binding hmem
    cases hmem
  · intro done binding rest vm _ hdone
    apply bindInput_checks.post
    intro vm' hbinding other hmem
    rcases List.mem_append.mp hmem with hold | hnew
    · exact hdone other hold
    · rw [List.mem_singleton.mp hnew]
      exact hbinding

/-- **Where every input is bound, a mismatch fails in front of everything.** -/
theorem failsSilently_of_mismatch (hw : p.WellEncoded) (hbinds : p.BindsInputs)
    (driver : VmDriver σ S) (host : Poseidon2.Host) (queue : List (List (SiteTrace S))) (s : σ)
    {inputs : List (InputValue S)} (hmatch : ¬ p.InputsMatch inputs) :
    FailsSilently driver p host queue s inputs := by
  by_cases hlen : inputs.length = p.numInputs
  · have hchecks : Meets (fun _ => True)
        (fun _ => ∀ binding ∈ p.inputs, ∀ value,
          inputs[binding.inputIndex.index]? = some value → value.HasDomain binding.bank)
        (initializeInputs driver p queue s inputs) := initializeInputs_checks
    cases hstart : initializeInputs driver p queue s inputs with
    | error e => exact failsSilently_of_unbound hlen hstart
    | ok vm =>
      rw [hstart] at hchecks
      exfalso
      apply hmatch
      refine ⟨hlen, ?_⟩
      intro i value hvalue
      have hi : i < p.numInputs := hlen ▸ (List.getElem?_eq_some_iff.mp hvalue).1
      obtain ⟨binding, hmem, rfl⟩ := hbinds i hi
      rw [← (hw.bindings binding hmem).bank]
      exact hchecks binding hmem value hvalue
  · exact failsSilently_of_count hlen

/-! ## Programs that leave an input unbound -/

/-- The single-party driver, except that every operation that communicates fails with `reason`. -/
def refusing (host : Poseidon2.Host) (reason : String) : VmDriver Unit Fr :=
  { plainDriver host with
    mulVec := fun _ _ _ => .error (.driver reason)
    openShares := fun _ _ => .error (.driver reason)
    poseidon2RequestedTraces := fun _ _ _ _ _ => .error (.driver reason)
    num2bitsTraces := fun _ _ _ => .error (.driver reason)
    isZeroTraces := fun _ _ => .error (.driver reason)
    isZeroRevealTraces := fun _ _ => .error (.driver reason)
    aliasCheckTraces := fun _ _ => .error (.driver reason) }

theorem refusing_sameLocally (host : Poseidon2.Host) (reason : String) :
    (plainDriver host).SameLocally (refusing host reason) :=
  ⟨rfl, rfl, rfl, rfl, rfl, rfl, rfl, rfl, rfl⟩

section Reaches

variable {host : Poseidon2.Host} {reason : String} {p : ProgramParts} {vm : VmState Unit Fr}
  {batch : GadgetBatch}

/-- A local step that overflows nothing performs its effect, with the queue for it in front. -/
theorem executeInstruction_local (hw : p.WellEncoded) (h : vm.Ready p) (hfits : p.TracesFit host)
    {i : Instruction} {rest : List Instruction} (hi : p.InstructionOk i)
    (hlocal : p.communicates i = false) (hqueue : vm.precomputation = zeroQueue p (i :: rest)) :
    executeInstruction (refusing host reason) p host vm i =
      .ok (Effect.instruction host p vm i) := by
  have haccepts : p.accepts vm.pendingMulDst i = true := by
    cases i with
    | reshare round => cases hlocal
    | arith | gadget => rfl
  rw [executeInstruction_sameLocally (refusing_sameLocally host reason) hlocal,
    ProgramParts.executeInstruction_eq host hw h hi (hqueue ▸ zeroQueue_supplied hw),
    hfits.overflows i, haccepts]
  rfl

/-- A batch that is serviced is refused. -/
theorem runBatch_refuses (h : vm.Ready p) (hb : p.BatchOk batch)
    (hcomm : batch.communicates = true) :
    runBatch (refusing host reason) host vm batch = .error (.driver reason) := by
  unfold GadgetBatch.communicates at hcomm
  unfold runBatch
  cases hkind : batch.kind with
  | precomputedPoseidon2 t => rw [hkind] at hcomm; cases hcomm
  | isZeroReveal =>
    have hsites : batch.inputSlots.length = batch.sites := by
      rw [hb.inputCount, hkind]
      exact Nat.mul_one _
    have hread : (batch.inputSlots.mapM fun (input : SiteInput) => do
        ensure (input.bank = Bank.shared) RunError.fusedInputBank
        readSlot vm.shared input.slot) = .ok (Effect.batchInputs vm batch) := by
      apply mapM_eq_ok
      intro input hi
      have hshared := hb.fused hkind input hi
      rw [ensure_of hshared, ok_bind,
        VmState.readSlot_shared h (hshared ▸ (hb.inputs input hi).2), hshared]
    dsimp only
    unfold runIsZeroRevealBatch
    rw [ensure_of hb.sites, ok_bind, ensure_of hsites, ok_bind, hread, ok_bind]
    rfl
  | gadget kind =>
    rw [hkind] at hcomm
    dsimp only at hcomm ⊢
    have hread : batch.inputSlots.mapM (batchInput (refusing host reason) vm) =
        .ok (Effect.batchInputs vm batch) := by
      apply mapM_eq_ok
      intro input hi
      show batchInput (plainDriver host) vm input = _
      exact batchInput_plain h (hb.inputs input hi).1 (hb.inputs input hi).2
    rw [if_pos hcomm]
    unfold runSharedBatch
    rw [hread, ok_bind]
    cases kind <;> rfl

/-- An instruction that gets as far as its call is refused. -/
theorem executeInstruction_refuses (hw : p.WellEncoded) (h : vm.Ready p) {i : Instruction}
    (hi : p.InstructionOk i) (hcomm : p.communicates i = true)
    (haccepts : p.accepts vm.pendingMulDst i = true) :
    executeInstruction (refusing host reason) p host vm i = .error (.driver reason) := by
  cases i with
  | arith op dst a b => cases hcomm
  | reshare round =>
    have hget : p.rounds[round.index]? = some p.rounds[round.index] := List.getElem?_eq_getElem hi
    have hround := hw.rounds _ (List.getElem_mem hi)
    generalize p.rounds[round.index] = entry at hget hround
    have hdst : vm.pendingMulDst = p.roundOperandsOf entry := by
      simpa [ProgramParts.accepts, hget] using haccepts
    show executeReshare _ p vm round = _
    unfold executeReshare readAt
    rw [hget, orElse_some, ok_bind, hround.rangeOf_operands, ok_bind, ensure_of hdst, ok_bind]
    rfl
  | gadget index =>
    have hget : p.gadgetBatches[index.index]? = some p.gadgetBatches[index.index] :=
      List.getElem?_eq_getElem hi
    have hb := hw.batches _ (List.getElem_mem hi)
    generalize p.gadgetBatches[index.index] = batch at hget hb
    have hbatch : batch.communicates = true := by
      simpa [ProgramParts.communicates, hget] using hcomm
    show (readAt _ _ _ >>= fun batch => runBatch _ host vm batch) = _
    unfold readAt
    rw [hget, orElse_some, ok_bind]
    exact runBatch_refuses h hb hbatch

/-- A run with nothing left over gets as far as opening its public prefix. -/
theorem finishWitness_refuses (hw : p.WellEncoded) (h : vm.Ready p)
    {inputs : List (InputValue Fr)} (hlen : inputs.length = p.numInputs)
    (hqueue : vm.precomputation = []) :
    finishWitness (refusing host reason) p inputs vm = .error (.driver reason) := by
  have hcollect : ∀ sources : List WitnessSource, (∀ source ∈ sources, source ∈ p.witnessSources) →
      collectWitness (refusing host reason) inputs vm sources =
        .ok (sources.map (Effect.source inputs vm)) := by
    intro sources hsources
    apply mapM_eq_ok
    intro source hmem
    show collectSource (plainDriver host) inputs vm source = _
    exact collectSource_plain h hlen (hw.witness source (hsources source hmem))
  unfold finishWitness
  rw [ensure_of hqueue, ok_bind]
  show (ensure _ _ >>= _) = _
  rw [ensure_of hw.publicLe, ok_bind, ensure_of hw.publicPos, ok_bind,
    hcollect _ fun _ => List.mem_of_mem_take, ok_bind, hcollect _ fun _ => List.mem_of_mem_drop,
    ok_bind]
  rfl

/-- **A run that does not stall gets as far as a call that communicates.** -/
theorem executeFrom_refuses (hw : p.WellEncoded) (hfits : p.TracesFit host)
    {inputs : List (InputValue Fr)} (hlen : inputs.length = p.numInputs) :
    ∀ (instructions : List Instruction) (vm : VmState Unit Fr), vm.Ready p →
      (∀ i ∈ instructions, p.InstructionOk i) → vm.precomputation = zeroQueue p instructions →
      p.stallsFrom vm.pendingMulDst instructions = false →
      ((instructions.foldlM (executeInstruction (refusing host reason) p host) vm >>= fun vm =>
        ensure (vm.pendingMulDst = []) .pendingMulLocal >>= fun _ => pure vm) >>=
          finishWitness (refusing host reason) p inputs) = .error (.driver reason) := by
  intro instructions
  induction instructions with
  | nil =>
    intro vm h _ hqueue hstalls
    have hnone : vm.pendingMulDst = [] := by simpa [ProgramParts.stallsFrom] using hstalls
    show ((ensure (vm.pendingMulDst = []) RunError.pendingMulLocal >>= fun _ => pure vm) >>= _) = _
    rw [ensure_of hnone, ok_bind]
    exact finishWitness_refuses hw h hlen hqueue
  | cons i rest ih =>
    intro vm h hok hqueue hstalls
    have hi := hok i List.mem_cons_self
    unfold ProgramParts.stallsFrom at hstalls
    rw [List.foldlM_cons]
    split at hstalls
    · -- The instruction communicates, and is not refused for the products in flight: the driver
      -- refuses it.
      rename_i hcomm
      have haccepts : p.accepts vm.pendingMulDst i = true := by simpa using hstalls
      rw [executeInstruction_refuses hw h hi hcomm haccepts]
      rfl
    · -- A local instruction performs its effect, since its traces are queued.
      rename_i hlocal
      have hlocal : p.communicates i = false := by simpa using hlocal
      have hstep : executeInstruction (refusing host reason) p host vm i =
          .ok (Effect.instruction host p vm i) :=
        executeInstruction_local hw h hfits hi hlocal hqueue
      have hwaiting : Meets (fun _ => True)
          (fun vm' => vm'.pendingMulDst = ProgramParts.waiting vm.pendingMulDst i)
          (executeInstruction (refusing host reason) p host vm i) :=
        executeInstruction_waiting hlocal
      have hrest : Meets (fun _ => True) (fun vm' => vm'.precomputation = zeroQueue p rest)
          (executeInstruction (refusing host reason) p host vm i) := zeroQueue_rest hqueue
      rw [hstep] at hwaiting hrest ⊢
      rw [ok_bind]
      apply ih _ (effect_ready h i) fun j hj => hok j (List.mem_cons_of_mem _ hj)
      · exact hrest
      · rw [hwaiting]
        exact hstalls

/-- **A run whose bound inputs are of the right variant gets as far as a call that communicates**,
    unless the program stalls. -/
theorem run_refuses (hw : p.WellEncoded) (hfits : p.TracesFit host) (hstalls : p.stalls = false)
    {inputs : List (InputValue Fr)} (hlen : inputs.length = p.numInputs)
    (hdomains : ∀ b ∈ p.inputs, ∀ value, inputs[b.inputIndex.index]? = some value →
      value.HasDomain b.bank) :
    run (refusing host reason) p host (zeroQueue p p.instructions) () inputs =
      .error (.driver reason) := by
  have hbind : initializeInputs (refusing host reason) p (zeroQueue p p.instructions) () inputs =
      .ok (Effect.initial p (zeroQueue p p.instructions) inputs) :=
    (initializeInputs_sameLocally (refusing_sameLocally host reason) _ _ _).trans
      (initializeInputs_fits hw _ hlen hdomains)
  obtain ⟨hqueue, hpending⟩ := initial_idle p (zeroQueue p p.instructions) inputs
  unfold run executeInstructions
  rw [ensure_of hlen, ok_bind, hbind, ok_bind]
  apply executeFrom_refuses hw hfits hlen _ _ (initial_ready hw _ _) hw.instructions hqueue
  rw [hpending]
  exact hstalls

end Reaches

end Vm

/-- An input of the other variant. -/
def InputValue.flipped : Bank → InputValue Fr
  | .public => .secret 0
  | .shared | .local => .public 0

/-- Inputs of the declared variants, but for the one at `i`. -/
def ProgramParts.flippedAt (p : ProgramParts) (i : Nat) : List (InputValue Fr) :=
  (p.inputDomains.map InputValue.ofDomain).set i (InputValue.flipped (p.inputDomains.getD i .local))

section Flipped

variable {p : ProgramParts}

theorem flippedAt_length (hw : p.WellEncoded) (i : Nat) : (p.flippedAt i).length = p.numInputs := by
  unfold ProgramParts.flippedAt
  rw [List.length_set, List.length_map, hw.domainsLength]

/-- Every other input is of its domain's variant. -/
theorem flippedAt_fits (hw : p.WellEncoded) {i : Nat} {b : InputBinding} (hb : p.BindingOk b)
    (hne : b.inputIndex.index ≠ i) (value : InputValue Fr)
    (hvalue : (p.flippedAt i)[b.inputIndex.index]? = some value) : value.HasDomain b.bank := by
  unfold ProgramParts.flippedAt at hvalue
  rw [List.getElem?_set_ne (Ne.symm hne)] at hvalue
  exact ofDomain_fits hw hb value hvalue

theorem flippedAt_mismatch (hw : p.WellEncoded) {i : Nat} (hi : i < p.numInputs) :
    ¬ p.InputsMatch (p.flippedAt i) := by
  intro hmatch
  have hlen : i < (p.inputDomains.map InputValue.ofDomain).length := by
    rw [List.length_map, hw.domainsLength]
    exact hi
  have hdomain := hmatch.variants i _ (List.getElem?_set_self hlen)
  cases hcase : p.inputDomains.getD i .local <;> rw [hcase] at hdomain <;> cases hdomain

end Flipped

/-- **Which programs check their inputs.** A run checks the variant of every input, in front of any
    communication, exactly when every input has a binding or the program's own tables make every
    run fail before it communicates. -/
theorem checksInputs_iff (program : Program) :
    program.ChecksInputs ↔ program.parts.BindsInputs ∨ program.parts.stalls = true := by
  have hw := program.wellEncoded
  constructor
  · intro hchecks
    by_contra hnot
    obtain ⟨hbinds, hstalls⟩ := not_or.mp hnot
    have hstalls : program.parts.stalls = false := by simpa using hstalls
    unfold ProgramParts.BindsInputs at hbinds
    push Not at hbinds
    obtain ⟨i, hi, hunbound⟩ := hbinds
    have hmismatch := flippedAt_mismatch hw hi
    -- Some host's vectors hold every decomposition of the program.
    obtain ⟨host, hfits⟩ := program.parts.exists_tracesFit default
    have hrun : ∀ reason, Vm.run (Vm.refusing host reason) program.parts host
        (Vm.zeroQueue program.parts program.parts.instructions) () (program.parts.flippedAt i) =
          .error (.driver reason) := by
      intro reason
      apply Vm.run_refuses hw hfits hstalls (flippedAt_length hw i)
      intro b hb
      exact flippedAt_fits hw (hw.bindings b hb) (hunbound b hb)
    obtain ⟨e, he⟩ := (hchecks Unit Fr (plainDriver host) host _ () _).2 hmismatch
    -- The run reports whatever reason the driver gives, so it has called the driver.
    have hone := (he _ (Vm.refusing_sameLocally host "")).symm.trans (hrun "")
    have hother := (he _ (Vm.refusing_sameLocally host "refused")).symm.trans (hrun "refused")
    rw [hother] at hone
    simp at hone
  · intro hcond σ S driver host queue s inputs
    have hsilent : ¬ program.parts.InputsMatch inputs →
        Vm.FailsSilently driver program.parts host queue s inputs := by
      intro hmatch
      rcases hcond with hbinds | hstalls
      · exact Vm.failsSilently_of_mismatch hw hbinds driver host queue s hmatch
      · exact Vm.failsSilently_of_stalls hstalls driver queue s inputs
    refine ⟨?_, hsilent⟩
    rintro ⟨witness, hrun⟩
    by_contra hmatch
    obtain ⟨e, he⟩ := hsilent hmatch
    rw [he driver ⟨rfl, rfl, rfl, rfl, rfl, rfl, rfl, rfl, rfl⟩] at hrun
    cases hrun

/-- One secret input that only the witness reads. -/
def witnessOnlyParts : ProgramParts where
  instructions := []
  constants := []
  inputDomains := [.shared]
  inputs := []
  inputSignals := [⟨"a", 0, 1⟩]
  rounds := []
  roundOperands := []
  roundResults := []
  gadgetBatches := []
  witnessSources := [.one, .input ⟨0⟩]
  numInputs := 1
  slots := ⟨0, 0, 0⟩
  numPublicWitness := 1

def witnessOnlyProgram : Program := ⟨witnessOnlyParts, by rfl⟩

/-- Given a public value for its secret input, the program opens its prefix and returns. -/
theorem witnessOnly_unchecked :
    Vm.runPlain default witnessOnlyProgram [] [.public 5] = .ok ⟨[1], [5]⟩ ∧
      ¬ witnessOnlyProgram.parts.InputsMatch [InputValue.public (S := Fr) 5] ∧
      ¬ ∀ program : Program, program.ChecksInputs := by
  have hrun : Vm.runPlain default witnessOnlyProgram [] [.public 5] = .ok ⟨[1], [5]⟩ := by rfl
  have hmismatch : ¬ witnessOnlyProgram.parts.InputsMatch [InputValue.public (S := Fr) 5] := by
    intro hmatch
    cases hmatch.variants 0 _ rfl
  refine ⟨hrun, hmismatch, ?_⟩
  intro hall
  exact hmismatch ((hall witnessOnlyProgram Unit Fr (plainDriver default) default [] () _).1
    ⟨_, hrun⟩)

end CircomMpc
