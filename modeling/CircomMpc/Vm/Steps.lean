import CircomMpc.Vm.Machine

/-!
# A run, instruction by instruction

`stateAfter k` is the state a run has reached when its first `k` instructions are done. A run that
succeeds has gone through all of them (`run_stateAfter`), and each is one step from the one before
(`stateAfter_succ`), which is what an invariant over a run is proved along.

The one field that only a single instruction touches is the precomputation queue:
`executeInstruction_queue` says a host-supplied batch pops one entry and nothing else pops any.
-/

namespace CircomMpc

open Lib

variable {σ S : Type} {driver : VmDriver σ S} {p : ProgramParts} {host : Poseidon2.Host}

namespace Vm

/-- The state after the first `k` instructions. -/
def stateAfter (driver : VmDriver σ S) (p : ProgramParts) (host : Poseidon2.Host)
    (precomputation : List (List (SiteTrace S))) (s : σ) (inputs : List (InputValue S)) (k : Nat) :
    Except RunError (VmState σ S) := do
  ensure (inputs.length = p.numInputs) (.inputCount p.numInputs inputs.length)
  let vm ← initializeInputs driver p precomputation s inputs
  (p.instructions.take k).foldlM (executeInstruction driver p host) vm

variable {queue : List (List (SiteTrace S))} {s : σ} {inputs : List (InputValue S)}

/-- One more instruction is one more step. -/
theorem stateAfter_succ {k : Nat} {i : Instruction} (hi : p.instructions[k]? = some i) :
    stateAfter driver p host queue s inputs (k + 1) =
      stateAfter driver p host queue s inputs k >>= fun vm =>
        executeInstruction driver p host vm i := by
  have htake : p.instructions.take (k + 1) = p.instructions.take k ++ [i] := by
    rw [List.take_add_one, hi]
    rfl
  unfold stateAfter
  rw [htake]
  simp only [List.foldlM_append, List.foldlM_cons, List.foldlM_nil, bind_pure, bind_assoc]

/-- A run is its instructions, the check that no product is pending, and its finish. -/
theorem run_eq : run driver p host queue s inputs =
    stateAfter driver p host queue s inputs p.instructions.length >>= fun vm =>
      ensure (vm.pendingMulDst = []) .pendingMulLocal >>= fun _ => finishWitness driver p inputs vm := by
  unfold run stateAfter executeInstructions
  rw [List.take_length]
  simp only [bind_assoc, pure_bind]

/-- A run that succeeds reached a state after every instruction. -/
theorem run_stateAfter {witness : Witness S}
    (h : run driver p host queue s inputs = .ok witness) (k : Nat) :
    ∃ vm, stateAfter driver p host queue s inputs k = .ok vm := by
  rw [run_eq] at h
  obtain ⟨vm, hvm, _⟩ := bind_eq_ok.mp h
  unfold stateAfter at hvm ⊢
  obtain ⟨_, hcount, hvm⟩ := bind_eq_ok.mp hvm
  obtain ⟨start, hstart, hvm⟩ := bind_eq_ok.mp hvm
  rw [List.take_length, ← List.take_append_drop k p.instructions, foldlM_append_ok] at hvm
  obtain ⟨middle, hmiddle, _⟩ := hvm
  exact ⟨middle, by rw [hcount, ok_bind, hstart, ok_bind, hmiddle]⟩

end Vm

/-! ## The precomputation queue -/

/-- `PrecomputedBatch`: the shape of one host-supplied batch. -/
structure PrecomputedBatch where
  kind : GadgetKind
  sites : Nat
deriving DecidableEq, Repr

/-- The host-supplied batch an instruction runs, if it runs one. -/
def ProgramParts.precomputedBatch (p : ProgramParts) : Instruction → Option PrecomputedBatch
  | .gadget index => do
    let batch ← p.gadgetBatches[index.index]?
    match batch.kind with
    | .precomputedPoseidon2 t => some { kind := .poseidon2 t, sites := batch.sites }
    | .gadget _ | .isZeroReveal => none
  | .arith _ _ _ _ | .reshare _ => none

/-- `Program::precomputed_batches`. -/
def ProgramParts.precomputedBatches (p : ProgramParts) : List PrecomputedBatch :=
  p.instructions.filterMap p.precomputedBatch

/-- How many host-supplied batches the first `k` instructions run. -/
def ProgramParts.precomputedBefore (p : ProgramParts) (k : Nat) : Nat :=
  ((p.instructions.take k).filterMap p.precomputedBatch).length

namespace Vm

/-- A computation that, if it succeeds, leaves the queue alone. -/
def KeepsQueue (vm : VmState σ S) (x : Except RunError (VmState σ S)) : Prop :=
  Meets (fun _ => True) (fun vm' => vm'.precomputation = vm.precomputation) x

variable {vm : VmState σ S}

theorem executeArithmetic_queue (op : Opcode) (dst a b : Slot) :
    KeepsQueue vm (executeArithmetic driver vm op dst a b) := by
  have hpublic : ∀ f : Fr → Fr → Fr, KeepsQueue vm (publicArith f vm dst a b) := by
    intro f
    exact Meets.bind_any fun _ => Meets.bind_any fun _ => Meets.bind_any fun _ => rfl
  have hshared : ∀ {X Y : Type} (f : X → Y → S) (xs : List X) (ys : List Y),
      KeepsQueue vm (sharedArith f xs ys vm dst a b) := by
    intro X Y f xs ys
    exact Meets.bind_any fun _ => Meets.bind_any fun _ => Meets.bind_any fun _ => rfl
  cases op
  case addPP | subPP | mulPP => exact hpublic _
  case addSS | subSS | addSP | subSP | subPS | mulSP => exact hshared _ _ _
  case mulLocal => exact Meets.bind_any fun _ => Meets.bind_any fun _ => rfl
  case reshare | gadget => exact trivial

theorem executeReshare_queue (round : RoundIdx) :
    KeepsQueue vm (executeReshare driver p vm round) := by
  refine Meets.bind_any fun _ => Meets.bind_any fun _ => Meets.bind_any fun _ =>
    Meets.bind_any fun results => ?_
  exact Meets.bind_any fun _ => Meets.bind_any fun _ => rfl

theorem runSharedBatch_queue (batch : GadgetBatch) (kind : GadgetKind) :
    KeepsQueue vm (runSharedBatch driver vm batch kind) := by
  unfold runSharedBatch
  apply Meets.bind_any
  intro inputs
  cases kind with
  | poseidon2 t =>
    apply Meets.bind_any
    intro reply
    exact Meets.bind_any fun _ => rfl
  | num2Bits _ | isZero | aliasCheck | reveal _ =>
    apply Meets.bind_any
    intro reply
    apply Meets.bind_any
    intro selected
    exact Meets.bind_any fun _ => rfl

theorem runPublicBatch_queue (batch : GadgetBatch) (kind : GadgetKind) :
    KeepsQueue vm (runPublicBatch host vm batch kind) := by
  unfold runPublicBatch
  apply Meets.bind_any
  intro inputs
  cases kind with
  | poseidon2 t =>
    dsimp only
    apply Meets.bind_any
    intro selected
    exact Meets.bind_any fun _ => rfl
  | num2Bits _ | isZero | aliasCheck | reveal _ =>
    dsimp only
    apply Meets.bind_any
    intro results
    apply Meets.bind_any
    intro selected
    exact Meets.bind_any fun _ => rfl

theorem storeFused_queue (trace : IsZeroRevealTrace S) (entry : ResultSlot × ResultTarget) :
    KeepsQueue vm (storeFused trace vm entry) := by
  obtain ⟨logical, target⟩ := entry
  unfold storeFused
  dsimp only
  split
  · exact Meets.bind_any fun _ => Meets.bind_any fun _ => rfl
  · exact Meets.bind_any fun _ => Meets.bind_any fun _ => rfl
  · exact Meets.bind_any fun _ => Meets.bind_any fun _ => rfl
  · exact trivial

theorem storeFusedSite_queue (batch : GadgetBatch) (entry : IsZeroRevealTrace S × Nat) :
    KeepsQueue vm (storeFusedSite batch vm entry) := by
  obtain ⟨trace, site⟩ := entry
  unfold storeFusedSite
  apply Meets.bind_any
  intro lo
  apply Meets.bind_any
  intro hi
  apply Meets.bind_any
  intro _
  apply Meets.bind_any
  intro requests
  apply Meets.bind_any
  intro targets
  apply Meets.foldlM
  · rfl
  · intro request _ vm' hvm'
    exact (storeFused_queue trace request).post fun vm'' h => h.trans hvm'

theorem runIsZeroRevealBatch_queue (batch : GadgetBatch) :
    KeepsQueue vm (runIsZeroRevealBatch driver vm batch) := by
  unfold runIsZeroRevealBatch
  apply Meets.bind_any
  intro _
  apply Meets.bind_any
  intro _
  apply Meets.bind_any
  intro inputs
  apply Meets.bind_any
  intro reply
  apply Meets.bind_any
  intro _
  apply Meets.bind_any
  intro _
  apply Meets.foldlM
  · rfl
  · intro entry _ vm' hvm'
    exact (storeFusedSite_queue batch entry).post fun vm'' h => h.trans hvm'

/-- **Only a host-supplied batch takes from the queue, and it takes one entry.** -/
theorem executeInstruction_queue (i : Instruction) :
    Meets (fun _ => True)
      (fun vm' => if p.precomputedBatch i = none then vm'.precomputation = vm.precomputation
        else ∃ traces, vm.precomputation = traces :: vm'.precomputation)
      (executeInstruction driver p host vm i) := by
  cases i with
  | arith op dst a b => exact executeArithmetic_queue op dst a b
  | reshare round => exact executeReshare_queue round
  -- A batch that is not in the table is an error, and an error takes nothing.
  | gadget index =>
    show Meets _ _ (readAt _ _ _ >>= fun batch => runBatch driver host vm batch)
    cases hbatch : p.gadgetBatches[index.index]? with
    | none =>
      rw [readAt, hbatch]
      exact trivial
    | some batch =>
      rw [readAt, hbatch, orElse_some, ok_bind]
      unfold runBatch
      cases hkind : batch.kind with
      | isZeroReveal =>
        have hnone : p.precomputedBatch (.gadget index) = none := by
          simp [ProgramParts.precomputedBatch, hbatch, hkind]
        simp only [hnone, if_true]
        exact runIsZeroRevealBatch_queue batch
      | gadget kind =>
        have hnone : p.precomputedBatch (.gadget index) = none := by
          simp [ProgramParts.precomputedBatch, hbatch, hkind]
        simp only [hnone, if_true]
        by_cases hany : batch.anyShared = true
        · rw [if_pos hany]
          exact runSharedBatch_queue batch kind
        · rw [if_neg hany]
          exact runPublicBatch_queue batch kind
      | precomputedPoseidon2 t =>
        have hsome : p.precomputedBatch (.gadget index) ≠ none := by
          simp [ProgramParts.precomputedBatch, hbatch, hkind]
        simp only [hsome, if_false]
        unfold runPrecomputedBatch
        cases hqueue : vm.precomputation with
        | nil => exact trivial
        | cons traces rest => exact Meets.bind_any fun _ => Meets.bind_any fun _ => ⟨traces, rfl⟩

theorem precomputedBefore_succ {k : Nat} {i : Instruction} (hi : p.instructions[k]? = some i) :
    p.precomputedBefore (k + 1) =
      p.precomputedBefore k + if p.precomputedBatch i = none then 0 else 1 := by
  have htake : p.instructions.take (k + 1) = p.instructions.take k ++ [i] := by
    rw [List.take_add_one, hi]
    rfl
  unfold ProgramParts.precomputedBefore
  rw [htake, List.filterMap_append, List.length_append]
  congr 1
  cases hbatch : p.precomputedBatch i with
  | none => simp [hbatch]
  | some batch => simp [hbatch]

theorem initializeInputs_queue (queue : List (List (SiteTrace S))) (s : σ)
    (inputs : List (InputValue S)) :
    Meets (fun _ => True) (fun vm => vm.precomputation = queue)
      (initializeInputs driver p queue s inputs) := by
  apply Meets.bind_any
  intro bank
  apply Meets.foldlM
  · rfl
  intro binding _ vm hvm
  apply Meets.bind_any
  intro value
  rw [← hvm]
  cases binding.bank <;> cases value
  case «public».«public» => exact Meets.bind_any fun _ => rfl
  case shared.secret => exact Meets.bind_any fun _ => rfl
  all_goals exact trivial

/-- **After `k` instructions the queue has lost one entry for every host-supplied batch among
    them.** -/
theorem stateAfter_queue (queue : List (List (SiteTrace S))) (s : σ)
    (inputs : List (InputValue S)) {k : Nat} (hk : k ≤ p.instructions.length) :
    Meets (fun _ => True)
      (fun vm => vm.precomputation = queue.drop (p.precomputedBefore k) ∧
        p.precomputedBefore k ≤ queue.length)
      (stateAfter driver p host queue s inputs k) := by
  induction k with
  | zero =>
    apply Meets.bind_any
    intro _
    apply Meets.bind (initializeInputs_queue queue s inputs)
    intro vm hvm
    exact ⟨hvm, Nat.zero_le _⟩
  | succ k ih =>
    have hi : p.instructions[k]? = some p.instructions[k] := List.getElem?_eq_getElem hk
    rw [stateAfter_succ hi]
    apply Meets.bind (ih (Nat.le_of_succ_le hk))
    intro vm hvm
    obtain ⟨hqueue, hle⟩ := hvm
    apply (executeInstruction_queue p.instructions[k]).post
    intro vm' hvm'
    rw [precomputedBefore_succ hi]
    by_cases hnone : p.precomputedBatch p.instructions[k] = none
    · rw [if_pos hnone] at hvm' ⊢
      exact ⟨hvm'.trans hqueue, hle⟩
    · rw [if_neg hnone] at hvm' ⊢
      obtain ⟨traces, htraces⟩ := hvm'
      rw [hqueue] at htraces
      have hlt : p.precomputedBefore k < queue.length := by
        have hlen := congrArg List.length htraces
        rw [List.length_drop, List.length_cons] at hlen
        omega
      refine ⟨?_, hlt⟩
      rw [List.drop_eq_getElem_cons hlt] at htraces
      exact (List.cons.inj htraces).2.symm

theorem precomputedBefore_all :
    p.precomputedBefore p.instructions.length = p.precomputedBatches.length := by
  unfold ProgramParts.precomputedBefore
  rw [List.take_length]
  rfl

/-- A run that succeeds has left the queue empty. -/
theorem run_queue {queue : List (List (SiteTrace S))} {s : σ} {inputs : List (InputValue S)}
    {witness : Witness S} (h : run driver p host queue s inputs = .ok witness) :
    queue.length = p.precomputedBatches.length := by
  rw [run_eq] at h
  obtain ⟨vm, hvm, h⟩ := bind_eq_ok.mp h
  obtain ⟨_, _, h⟩ := bind_eq_ok.mp h
  have hqueue : Meets (fun _ => True) _
      (stateAfter driver p host queue s inputs p.instructions.length) :=
    stateAfter_queue queue s inputs (Nat.le_refl _)
  rw [hvm, precomputedBefore_all] at hqueue
  obtain ⟨hdrop, hle⟩ := hqueue
  unfold finishWitness at h
  obtain ⟨hempty, _⟩ := seq_eq_ok.mp h
  rw [ensure_eq_ok, hdrop, List.drop_eq_nil_iff] at hempty
  exact Nat.le_antisymm hempty hle

end Vm

end CircomMpc
