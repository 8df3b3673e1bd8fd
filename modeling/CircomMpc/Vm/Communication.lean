import CircomMpc.Vm.Steps

/-!
# Which part of a run is local

Two drivers that compute the same locally run the same up to the first call that communicates. A
program whose own tables rule out that call — a round that names other products than those waiting,
or products nothing reshares — fails in front of it, whatever the driver and the inputs; `stalls` is
that condition, read off the instructions.

`SameLocally` is the agreement of two drivers on promotion and the linear operations, and says nothing
of the calls. Public batches and host-supplied ones are local too: no call is made for them. So what an
instruction does to the products in flight (`waiting`) is all the walk has to remember.
-/

namespace CircomMpc

open Lib

variable {σ S : Type}

/-- Two drivers that differ at most in the operations that communicate. What neither of them is
    asked for in a run may be anything. -/
structure VmDriver.SameLocally (driver driver' : VmDriver σ S) : Prop where
  default : driver'.default = driver.default
  promote : driver'.promote = driver.promote
  addSS : driver'.addSS = driver.addSS
  subSS : driver'.subSS = driver.subSS
  addSP : driver'.addSP = driver.addSP
  subSP : driver'.subSP = driver.subSP
  subPS : driver'.subPS = driver.subPS
  mulSP : driver'.mulSP = driver.mulSP
  finish : driver'.finish = driver.finish

/-- A batch a driver services with `open` or with one of its trace operations. -/
def GadgetBatch.communicates (batch : GadgetBatch) : Bool :=
  match batch.kind with
  | .isZeroReveal => true
  | .precomputedPoseidon2 _ => false
  | .gadget _ => batch.anyShared

namespace ProgramParts

variable (p : ProgramParts)

/-- An instruction that calls the driver's `mul_vec`, `open` or one of its trace operations. -/
def communicates : Instruction → Bool
  | .arith _ _ _ _ => false
  | .reshare _ => true
  | .gadget index => p.gadgetBatches[index.index]?.any (·.communicates)

/-- The round an instruction is names the products that wait. -/
def accepts (pending : List Slot) : Instruction → Bool
  | .reshare round =>
    p.rounds[round.index]?.any fun entry => pending = p.roundOperandsOf entry
  | _ => true

/-- The products that wait behind a local instruction. -/
def waiting (pending : List Slot) : Instruction → List Slot
  | .arith .mulLocal dst _ _ => pending ++ [dst]
  | _ => pending

/-- A run whose products `pending` wait fails before it communicates. -/
def stallsFrom : List Slot → List Instruction → Bool
  | pending, [] => pending ≠ []
  | pending, i :: rest =>
    if p.communicates i then !p.accepts pending i else stallsFrom (waiting pending i) rest

/-- Every run fails before it communicates. -/
def stalls : Bool := p.stallsFrom [] p.instructions

end ProgramParts

namespace Vm

variable {driver driver' : VmDriver σ S} {p : ProgramParts} {host : Poseidon2.Host}
  {vm : VmState σ S}

/-! ## Local steps -/

theorem initializeInputs_sameLocally (h : driver.SameLocally driver')
    (queue : List (List (SiteTrace S))) (s : σ) (inputs : List (InputValue S)) :
    initializeInputs driver' p queue s inputs = initializeInputs driver p queue s inputs := by
  unfold initializeInputs
  rw [h.default]

theorem executeArithmetic_sameLocally (h : driver.SameLocally driver') (op : Opcode)
    (dst a b : Slot) : executeArithmetic driver' vm op dst a b = executeArithmetic driver vm op dst a b := by
  unfold executeArithmetic
  rw [h.addSS, h.subSS, h.addSP, h.subSP, h.subPS, h.mulSP]

/-- **An instruction that does not communicate does not see the difference.** -/
theorem executeInstruction_sameLocally (h : driver.SameLocally driver') {i : Instruction}
    (hi : p.communicates i = false) :
    executeInstruction driver' p host vm i = executeInstruction driver p host vm i := by
  cases i with
  | arith op dst a b => exact executeArithmetic_sameLocally h op dst a b
  | reshare round => cases hi
  | gadget index =>
    show (readAt _ _ _ >>= fun batch => runBatch driver' host vm batch) =
      readAt _ _ _ >>= fun batch => runBatch driver host vm batch
    unfold readAt
    cases hbatch : p.gadgetBatches[index.index]? with
    | none => rfl
    | some batch =>
      rw [orElse_some, ok_bind, ok_bind]
      have hlocal : batch.communicates = false := by
        simpa [ProgramParts.communicates, hbatch] using hi
      unfold GadgetBatch.communicates at hlocal
      unfold runBatch
      cases hkind : batch.kind with
      | isZeroReveal => rw [hkind] at hlocal; cases hlocal
      | precomputedPoseidon2 t => rfl
      | gadget kind =>
        rw [hkind] at hlocal
        dsimp only at hlocal ⊢
        rw [hlocal]
        rfl

theorem executeArithmetic_waiting (op : Opcode) (dst a b : Slot) :
    Meets (fun _ => True)
      (fun vm' => vm'.pendingMulDst = ProgramParts.waiting vm.pendingMulDst (.arith op dst a b))
      (executeArithmetic driver vm op dst a b) := by
  cases op
  case reshare | gadget => exact trivial
  case mulLocal => exact Meets.bind_any fun _ => Meets.bind_any fun _ => rfl
  all_goals exact Meets.bind_any fun _ => Meets.bind_any fun _ => Meets.bind_any fun _ => rfl

theorem runPublicBatch_waiting (batch : GadgetBatch) (kind : GadgetKind) :
    Meets (fun _ => True) (fun vm' => vm'.pendingMulDst = vm.pendingMulDst)
      (runPublicBatch host vm batch kind) := by
  unfold runPublicBatch
  apply Meets.bind_any
  intro inputs
  cases kind with
  | poseidon2 t =>
    dsimp only
    apply Meets.bind_any
    intro selected
    exact Meets.bind_any fun _ => rfl
  | num2Bits _ | isZero | aliasCheck | reveal _ =>
    dsimp only
    apply Meets.bind_any
    intro results
    apply Meets.bind_any
    intro selected
    exact Meets.bind_any fun _ => rfl

/-- What waits behind an instruction that does not communicate. -/
theorem executeInstruction_waiting {i : Instruction} (hi : p.communicates i = false) :
    Meets (fun _ => True)
      (fun vm' => vm'.pendingMulDst = ProgramParts.waiting vm.pendingMulDst i)
      (executeInstruction driver p host vm i) := by
  cases i with
  | arith op dst a b => exact executeArithmetic_waiting op dst a b
  | reshare round => cases hi
  | gadget index =>
    show Meets _ (fun vm' => vm'.pendingMulDst = vm.pendingMulDst)
      (readAt _ _ _ >>= fun batch => runBatch driver host vm batch)
    unfold readAt
    cases hbatch : p.gadgetBatches[index.index]? with
    | none => exact trivial
    | some batch =>
      rw [orElse_some, ok_bind]
      have hlocal : batch.communicates = false := by
        simpa [ProgramParts.communicates, hbatch] using hi
      unfold GadgetBatch.communicates at hlocal
      unfold runBatch
      cases hkind : batch.kind with
      | isZeroReveal => rw [hkind] at hlocal; cases hlocal
      | precomputedPoseidon2 t =>
        dsimp only
        unfold runPrecomputedBatch
        cases vm.precomputation with
        | nil => exact trivial
        | cons traces rest => exact Meets.bind_any fun _ => Meets.bind_any fun _ => rfl
      | gadget kind =>
        rw [hkind] at hlocal
        dsimp only at hlocal ⊢
        rw [hlocal]
        exact runPublicBatch_waiting batch kind

/-! ## Failing in front of the first call -/

/-- A run that fails without calling an operation that communicates: it fails with the same error
    for every driver that computes the same locally. -/
def FailsSilently (driver : VmDriver σ S) (p : ProgramParts) (host : Poseidon2.Host)
    (queue : List (List (SiteTrace S))) (s : σ) (inputs : List (InputValue S)) : Prop :=
  ∃ e, ∀ driver', driver.SameLocally driver' → run driver' p host queue s inputs = .error e

/-- A round that names other products fails before its products are multiplied. -/
theorem executeReshare_refuses {round : RoundIdx}
    (h : p.accepts vm.pendingMulDst (.reshare round) = false) :
    ∃ e, ∀ driver : VmDriver σ S, executeReshare driver p vm round = .error e := by
  unfold executeReshare readAt
  cases hentry : p.rounds[round.index]? with
  | none => exact ⟨_, fun _ => rfl⟩
  | some entry =>
    have hne : vm.pendingMulDst ≠ p.roundOperandsOf entry := by
      simpa [ProgramParts.accepts, hentry] using h
    unfold rangeOf
    by_cases hrange : entry.operandStart ≤ entry.operandStart + entry.len ∧
        entry.operandStart + entry.len ≤ p.roundOperands.length
    · refine ⟨.roundMismatch, fun driver => ?_⟩
      have hguard : ¬ vm.pendingMulDst =
          slice p.roundOperands entry.operandStart (entry.operandStart + entry.len) := hne
      rw [orElse_some, ok_bind, if_pos hrange, ok_bind, ensure_of_not hguard, error_bind]
    · refine ⟨.indexOutOfRange "round_operands" (entry.operandStart + entry.len), fun driver => ?_⟩
      rw [orElse_some, ok_bind, if_neg hrange, error_bind]

/-- The instructions of a run that stalls fail, the same for all drivers that compute the same. -/
theorem executeFrom_stalls (driver : VmDriver σ S) :
    ∀ (instructions : List Instruction) (vm : VmState σ S),
      p.stallsFrom vm.pendingMulDst instructions = true →
      ∃ e, ∀ driver', driver.SameLocally driver' →
        (instructions.foldlM (executeInstruction driver' p host) vm >>= fun vm =>
          ensure (vm.pendingMulDst = []) .pendingMulLocal >>= fun _ => pure vm) = .error e := by
  intro instructions
  induction instructions with
  | nil =>
    intro vm h
    have hne : vm.pendingMulDst ≠ [] := by simpa [ProgramParts.stallsFrom] using h
    refine ⟨.pendingMulLocal, fun driver' _ => ?_⟩
    show (ensure (vm.pendingMulDst = []) RunError.pendingMulLocal >>= _) = _
    rw [ensure_of_not hne, error_bind]
  | cons i rest ih =>
    intro vm h
    unfold ProgramParts.stallsFrom at h
    split at h
    · -- The next call that communicates is one the tables refuse: only a round is refused.
      rename_i hcomm
      have hrefused : p.accepts vm.pendingMulDst i = false := by simpa using h
      cases i with
      | reshare round =>
        obtain ⟨e, he⟩ := executeReshare_refuses hrefused
        refine ⟨e, fun driver' _ => ?_⟩
        rw [List.foldlM_cons]
        show ((executeReshare driver' p vm round >>= _) >>= _) = _
        rw [he, error_bind, error_bind]
      | arith | gadget => cases hrefused
    · -- A local instruction fails for all drivers or none, and leaves the walk where it expects.
      rename_i hlocal
      have hlocal : p.communicates i = false := by simpa using hlocal
      have hwaiting : Meets (fun _ => True)
          (fun vm' => vm'.pendingMulDst = ProgramParts.waiting vm.pendingMulDst i)
          (executeInstruction driver p host vm i) := executeInstruction_waiting hlocal
      cases hstep : executeInstruction driver p host vm i with
      | error e =>
        refine ⟨e, fun driver' hsame => ?_⟩
        rw [List.foldlM_cons, executeInstruction_sameLocally hsame hlocal, hstep, error_bind,
          error_bind]
      | ok vm' =>
        rw [hstep] at hwaiting
        obtain ⟨e, he⟩ := ih vm' (hwaiting.symm ▸ h)
        refine ⟨e, fun driver' hsame => ?_⟩
        rw [List.foldlM_cons, executeInstruction_sameLocally hsame hlocal, hstep, ok_bind]
        exact he driver' hsame

theorem initializeInputs_waiting (queue : List (List (SiteTrace S))) (s : σ)
    (inputs : List (InputValue S)) :
    Meets (fun _ => True) (fun vm => vm.pendingMulDst = [])
      (initializeInputs driver p queue s inputs) := by
  apply Meets.bind_any
  intro bank
  apply Meets.foldlM
  · rfl
  intro binding _ vm hvm
  apply Meets.bind_any
  intro value
  rw [← hvm]
  cases binding.bank <;> cases value
  case «public».«public» => exact Meets.bind_any fun _ => rfl
  case shared.secret => exact Meets.bind_any fun _ => rfl
  all_goals exact trivial

/-- A run that cannot bind its inputs fails without communicating. -/
theorem failsSilently_of_unbound {queue : List (List (SiteTrace S))} {s : σ}
    {inputs : List (InputValue S)} {e : RunError} (hlen : inputs.length = p.numInputs)
    (h : initializeInputs driver p queue s inputs = .error e) :
    FailsSilently driver p host queue s inputs := by
  refine ⟨e, fun driver' hsame => ?_⟩
  unfold run
  rw [ensure_of hlen, ok_bind, initializeInputs_sameLocally hsame, h, error_bind]

/-- A run that is given another number of inputs fails without communicating. -/
theorem failsSilently_of_count {queue : List (List (SiteTrace S))} {s : σ}
    {inputs : List (InputValue S)} (hlen : inputs.length ≠ p.numInputs) :
    FailsSilently driver p host queue s inputs := by
  refine ⟨.inputCount p.numInputs inputs.length, fun driver' _ => ?_⟩
  unfold run
  rw [ensure_of_not hlen, error_bind]

/-- **A program that stalls never communicates.** -/
theorem failsSilently_of_stalls (hstalls : p.stalls = true) (driver : VmDriver σ S)
    (queue : List (List (SiteTrace S))) (s : σ) (inputs : List (InputValue S)) :
    FailsSilently driver p host queue s inputs := by
  by_cases hlen : inputs.length = p.numInputs
  · have hwaiting : Meets (fun _ => True) (fun vm => vm.pendingMulDst = [])
        (initializeInputs driver p queue s inputs) := initializeInputs_waiting queue s inputs
    cases hstart : initializeInputs driver p queue s inputs with
    | error e => exact failsSilently_of_unbound hlen hstart
    | ok vm =>
      rw [hstart] at hwaiting
      have hfrom : p.stallsFrom vm.pendingMulDst p.instructions = true := by
        rw [hwaiting]
        exact hstalls
      obtain ⟨e, he⟩ := @executeFrom_stalls σ S p host driver p.instructions vm hfrom
      refine ⟨e, fun driver' hsame => ?_⟩
      unfold run executeInstructions
      rw [ensure_of hlen, ok_bind, initializeInputs_sameLocally hsame, hstart, ok_bind]
      show (_ >>= _) = _
      rw [he driver' hsame, error_bind]
  · exact failsSilently_of_count hlen

end Vm
end CircomMpc
