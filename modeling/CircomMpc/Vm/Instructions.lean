import CircomMpc.Vm.Communication
import CircomMpc.Vm.Safety

/-!
# What one instruction comes to

`executeInstruction_plain` lists what an instruction of an accepted program can fail for;
`executeInstruction_eq` says which of them it is. With the host's traces in the queue a plain run
has two outcomes besides an instruction's effect, and both are read off the program: a round that
names other products than those in flight, and a decomposition too wide for a vector. A queue that
always serves is `zeroQueue`, and inputs that always bind are those of the declared domains, so a run
that gets as far as its tables let it exists for every accepted program.
-/

namespace CircomMpc

open Lib

variable {σ S : Type}

/-- The variant a domain takes. -/
def InputValue.HasDomain (bank : Bank) : InputValue S → Prop
  | .public _ => bank = .public
  | .secret _ => bank = .shared

namespace ProgramParts

/-- The products in flight behind an instruction. -/
def waitingAfter (pending : List Slot) : Instruction → List Slot
  | .reshare _ => []
  | i => waiting pending i

/-- If the instruction runs a host-supplied batch, its traces are next in the queue. -/
def SuppliedNext (p : ProgramParts) (queue : List (List (SiteTrace Fr))) (i : Instruction) : Prop :=
  ∀ (index : BatchIdx) (batch : GadgetBatch) (t : Poseidon2Width), i = .gadget index →
    p.gadgetBatches[index.index]? = some batch → batch.kind = .precomputedPoseidon2 t →
      ∃ traces rest, queue = traces :: rest ∧ Supplied t.get batch traces

variable {p : ProgramParts} {host : Poseidon2.Host} {vm : VmState Unit Fr}

/-- A program the driver services asks nothing of the queue. -/
theorem SuppliedNext.of_serviced
    (hserviced : ∀ batch ∈ p.gadgetBatches, batch.kind.isPrecomputed = false)
    (queue : List (List (SiteTrace Fr))) (i : Instruction) : p.SuppliedNext queue i := by
  intro index batch t _ hbatch hkind
  have hnone := hserviced batch (List.mem_of_getElem? hbatch)
  rw [hkind] at hnone
  cases hnone

variable (host) in
theorem pending_effect {i : Instruction} (hi : p.InstructionOk i) :
    (Effect.instruction host p vm i).pendingMulDst = waitingAfter vm.pendingMulDst i := by
  cases i with
  | arith op dst a b => cases op <;> rfl
  | reshare round =>
    rw [effect_reshare (List.getElem?_eq_getElem hi)]
    rfl
  | gadget index =>
    rw [effect_gadget (List.getElem?_eq_getElem hi)]
    unfold Effect.batch
    split <;> exact (VmState.writeAll_pending _ _).1

variable (host) in
/-- **An instruction of an accepted program, exactly.** With its traces in the queue it performs its
    effect, unless it decomposes into more bits than a vector holds, or names other products than
    those in flight. -/
theorem executeInstruction_eq (hw : p.WellEncoded) (h : vm.Ready p) {i : Instruction}
    (hi : p.InstructionOk i) (hsupplied : p.SuppliedNext vm.precomputation i) :
    Vm.executeInstruction (plainDriver host) p host vm i =
      if p.overflows host i then .error .capacityOverflow
      else if p.accepts vm.pendingMulDst i then .ok (Effect.instruction host p vm i)
      else .error .roundMismatch := by
  cases i with
  | arith op dst a b =>
    show Vm.executeArithmetic _ vm op dst a b = _
    rw [executeArithmetic_plain h hi]
    rfl
  | reshare round =>
    have hentry : p.rounds[round.index]? = some p.rounds[round.index] :=
      List.getElem?_eq_getElem hi
    show Vm.executeReshare _ p vm round = _
    rw [executeReshare_plain hw h hentry, effect_reshare hentry]
    -- `accepts` is the comparison of the round's operands with the products in flight.
    unfold accepts
    simp only [hentry, Option.any_some, decide_eq_true_eq]
    rfl
  | gadget index =>
    have hget : p.gadgetBatches[index.index]? = some p.gadgetBatches[index.index] :=
      List.getElem?_eq_getElem hi
    have hb := hw.batches _ (List.getElem_mem hi)
    have hnext := fun t => hsupplied index _ t rfl hget
    show (readAt _ _ _ >>= fun batch => Vm.runBatch _ host vm batch) = _
    rw [readAt_eq_ok hi, ok_bind, effect_gadget hget, overflows, hget, Option.any_some]
    generalize p.gadgetBatches[index.index] = batch at hb hnext
    show Vm.runBatch _ host vm batch = if _ then _ else .ok _
    unfold Vm.runBatch
    cases hkind : batch.kind with
    | isZeroReveal => exact runIsZeroRevealBatch_plain h hb hkind
    -- The traces are supplied, so the failures of `runPrecomputedBatch_plain` are excluded.
    | precomputedPoseidon2 t =>
      obtain ⟨traces, rest, hqueue, htraces⟩ := hnext t hkind
      have hrun : Meets (fun e => e.Unvalidated ∧ ∀ traces rest,
            vm.precomputation = traces :: rest → ¬ Supplied t.get batch traces)
          (fun vm' => vm' = Effect.batch host vm batch ∧
            ∃ traces rest, vm.precomputation = traces :: rest)
          (Vm.runPrecomputedBatch vm t.get batch) := runPrecomputedBatch_plain h hb hkind
      dsimp only
      cases hcase : Vm.runPrecomputedBatch vm t.get batch with
      | error e =>
        rw [hcase] at hrun
        exact absurd htraces (hrun.2 _ _ hqueue)
      | ok vm' =>
        rw [hcase] at hrun
        exact congrArg Except.ok hrun.1
    | gadget kind =>
      dsimp only
      split
      · next hany => exact runSharedBatch_plain h hb hkind hany
      · next hany => exact runPublicBatch_plain h hb hkind (by simpa using hany)

end ProgramParts

namespace Vm

variable {host : Poseidon2.Host} {p : ProgramParts} {vm : VmState Unit Fr} {batch : GadgetBatch}

/-! ## A queue for every instruction -/

/-- A zero trace for every site of a host-supplied batch. -/
def zeroTraces (p : ProgramParts) : Instruction → Option (List (SiteTrace Fr))
  | .gadget index => do
    let batch ← p.gadgetBatches[index.index]?
    match batch.kind with
    | .precomputedPoseidon2 t =>
      some (List.replicate batch.sites
        ⟨List.replicate t.get 0, List.replicate batch.kind.capacity 0⟩)
    | .gadget _ | .isZeroReveal => none
  | .arith _ _ _ _ | .reshare _ => none

/-- The queue a list of instructions consumes. -/
def zeroQueue (p : ProgramParts) (instructions : List Instruction) : List (List (SiteTrace Fr)) :=
  instructions.filterMap (zeroTraces p)

theorem zeroTraces_supplied (hb : p.BatchOk batch) (t : Poseidon2Width) :
    Supplied t.get batch (List.replicate batch.sites
      ⟨List.replicate t.get 0, List.replicate batch.kind.capacity 0⟩) := by
  refine ⟨List.length_replicate, ?_, ?_⟩
  · intro trace htrace
    rw [List.eq_of_mem_replicate htrace, List.length_replicate]
  · intro site hsite r hr _
    rw [List.length_replicate] at hsite
    rw [List.getElem_replicate, List.length_replicate]
    exact (Nat.sub_le _ _).trans_lt (hb.request_lt hsite hr)

theorem zeroTraces_eq_none {i : Instruction} :
    zeroTraces p i = none ↔ p.precomputedBatch i = none := by
  cases i with
  | arith | reshare => exact ⟨fun _ => rfl, fun _ => rfl⟩
  | gadget index =>
    cases hbatch : p.gadgetBatches[index.index]? with
    | none => simp [zeroTraces, ProgramParts.precomputedBatch, hbatch]
    | some batch =>
      simp only [zeroTraces, ProgramParts.precomputedBatch, hbatch, Option.bind_eq_bind,
        Option.bind_some]
      cases batch.kind <;> simp

/-- A step takes its own traces off the queue. -/
theorem zeroQueue_rest {driver : VmDriver Unit Fr} {i : Instruction} {rest : List Instruction}
    (hqueue : vm.precomputation = zeroQueue p (i :: rest)) :
    Meets (fun _ => True) (fun vm' => vm'.precomputation = zeroQueue p rest)
      (executeInstruction driver p host vm i) := by
  apply (executeInstruction_queue i).post
  intro vm' hvm'
  cases htraces : zeroTraces p i with
  | none =>
    rw [if_pos (zeroTraces_eq_none.mp htraces), hqueue, zeroQueue,
      List.filterMap_cons_none htraces] at hvm'
    exact hvm'
  | some traces =>
    have hsome : p.precomputedBatch i ≠ none := by
      intro hnone
      rw [zeroTraces_eq_none.mpr hnone] at htraces
      cases htraces
    rw [if_neg hsome, hqueue, zeroQueue, List.filterMap_cons_some htraces] at hvm'
    obtain ⟨other, hother⟩ := hvm'
    exact (List.cons.inj hother).2.symm

/-- The queue serves the instruction it was made for. -/
theorem zeroQueue_supplied (hw : p.WellEncoded) {i : Instruction} {rest : List Instruction} :
    p.SuppliedNext (zeroQueue p (i :: rest)) i := by
  rintro index batch t rfl hbatch hkind
  have htraces : zeroTraces p (.gadget index) = some (List.replicate batch.sites
      ⟨List.replicate t.get 0, List.replicate batch.kind.capacity 0⟩) := by
    simp [zeroTraces, hbatch, hkind]
  exact ⟨_, _, List.filterMap_cons_some htraces,
    zeroTraces_supplied (hw.batches batch (List.mem_of_getElem? hbatch)) t⟩

end Vm

/-! ## Inputs of the right variant -/

/-- An input of the variant a domain takes. -/
def InputValue.ofDomain : Bank → InputValue Fr
  | .public => .public 0
  | .shared | .local => .secret 0

/-- Inputs made for the declared domains are what the bindings take. -/
theorem ofDomain_fits {p : ProgramParts} (hw : p.WellEncoded) {b : InputBinding}
    (hb : p.BindingOk b) (value : InputValue Fr)
    (hvalue : (p.inputDomains.map InputValue.ofDomain)[b.inputIndex.index]? = some value) :
    value.HasDomain b.bank := by
  have hi : b.inputIndex.index < p.inputDomains.length := hw.domainsLength ▸ hb.input
  have hdomain : p.inputDomains.getD b.inputIndex.index .local = p.inputDomains[b.inputIndex.index] := by
    rw [List.getD_eq_getElem?_getD, List.getElem?_eq_getElem hi, Option.getD_some]
  have hlocal := hw.domains _ (List.getElem_mem hi)
  rw [List.getElem?_map, List.getElem?_eq_getElem hi, Option.map_some] at hvalue
  rw [hb.bank, hdomain, ← Option.some.inj hvalue]
  cases hcase : p.inputDomains[b.inputIndex.index] with
  | «public» | shared => rfl
  | «local» => exact absurd hcase hlocal

namespace Vm

variable {host : Poseidon2.Host} {p : ProgramParts} {vm : VmState Unit Fr}

theorem bindInput_fits (h : vm.Ready p) {inputs : List (InputValue Fr)} {b : InputBinding}
    (hb : p.BindingOk b) (hlen : inputs.length = p.numInputs)
    (hfits : ∀ value, inputs[b.inputIndex.index]? = some value → value.HasDomain b.bank) :
    bindInput inputs vm b = .ok (vm.write b.bank b.slot (Effect.inputAt inputs b.inputIndex)) := by
  have hi : b.inputIndex.index < inputs.length := hlen ▸ hb.input
  have hslot := hb.slot
  have hdomain := hfits _ (List.getElem?_eq_getElem hi)
  unfold bindInput Effect.inputAt
  rw [readAt_eq_ok hi, ok_bind, List.getD_eq_getElem?_getD, List.getElem?_eq_getElem hi,
    Option.getD_some]
  cases hvalue : inputs[b.inputIndex.index] with
  | «public» value =>
    rw [hvalue] at hdomain
    rw [show b.bank = .public from hdomain] at hslot ⊢
    simp only []
    rw [VmState.writeSlot_public h hslot]
    rfl
  | secret value =>
    rw [hvalue] at hdomain
    rw [show b.bank = .shared from hdomain] at hslot ⊢
    simp only []
    rw [VmState.writeSlot_shared h hslot]
    rfl

theorem initializeInputs_fits (hw : p.WellEncoded) (queue : List (List (SiteTrace Fr)))
    {inputs : List (InputValue Fr)} (hlen : inputs.length = p.numInputs)
    (hfits : ∀ b ∈ p.inputs, ∀ value, inputs[b.inputIndex.index]? = some value →
      value.HasDomain b.bank) :
    initializeInputs (plainDriver host) p queue () inputs =
      .ok (Effect.initial p queue inputs) := by
  have hconst := foldlM_constants [] hw.constants
  rw [List.nil_append, List.nil_append, List.length_nil] at hconst
  have hbind : ∀ (bindings : List InputBinding), (∀ b ∈ bindings, b ∈ p.inputs) →
      ∀ vm : VmState Unit Fr, vm.Ready p →
        bindings.foldlM (bindInput inputs) vm = .ok (Effect.bind inputs vm bindings) := by
    intro bindings
    induction bindings with
    | nil => intro _ vm _; rfl
    | cons b bindings ih =>
      intro hmem vm h
      have hb := hmem b List.mem_cons_self
      rw [List.foldlM_cons, bindInput_fits h (hw.bindings b hb) hlen (hfits b hb), ok_bind]
      exact ih (fun c hc => hmem c (List.mem_cons_of_mem _ hc)) _ (h.write _ _ _)
  unfold initializeInputs
  show (p.constants.zipIdx.foldlM _ (List.replicate p.slots.public (0 : Fr)) >>= _) = _
  rw [hconst, ok_bind]
  exact hbind p.inputs (fun _ h => h) (Effect.zeroed p queue) (zeroed_ready hw queue)

/-- Binding inputs touches neither the queue nor the products in flight. -/
theorem initial_idle (p : ProgramParts) (queue : List (List (SiteTrace Fr)))
    (inputs : List (InputValue Fr)) : (Effect.initial p queue inputs).precomputation = queue ∧
      (Effect.initial p queue inputs).pendingMulDst = [] := by
  have hbind : ∀ (bindings : List InputBinding) (vm : VmState Unit Fr),
      (Effect.bind inputs vm bindings).precomputation = vm.precomputation ∧
        (Effect.bind inputs vm bindings).pendingMulDst = vm.pendingMulDst := by
    intro bindings
    induction bindings with
    | nil => intro vm; exact ⟨rfl, rfl⟩
    | cons b bindings ih =>
      intro vm
      have hrest := ih (vm.write b.bank b.slot (Effect.inputAt inputs b.inputIndex))
      cases hbank : b.bank <;> rw [hbank] at hrest
      all_goals
        unfold Effect.bind
        rw [List.foldl_cons, hbank]
        exact hrest
  exact hbind p.inputs (Effect.zeroed p queue)

end Vm

end CircomMpc
