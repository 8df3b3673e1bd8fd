import CircomMpc.Program.Validate

/-!
# What an accepted program is

`WellEncoded` is `validateEncoding` with the loops and the messages gone, as predicates on the
tables; `validateEncoding_eq_ok` is the equivalence. The virtual machine's safety, the noninterference
theorem and the serializer all read an accepted program through it. So do the proofs about code
generation: its last step is `Program::new`, and what that returns is well encoded.

A table's predicate is about its entry and the tables the entry refers to (`SlotOk`, `BindingOk`,
`RoundOk`, `BatchOk`, `SourceOk`), and each has one lemma, by the order of the validator's checks.
What no validator looks at is not here either: which slots are written before they are read, how many
bits a decomposition has, whether the input ranges overlap.
-/

namespace CircomMpc

open Lib

namespace ProgramParts

/-- The slot exists in its bank. -/
def SlotOk (p : ProgramParts) (bank : Bank) (slot : Slot) : Prop :=
  slot.index < p.slots.of bank

/-- An input binding names an input of the declared domain and a slot of its bank. -/
structure BindingOk (p : ProgramParts) (binding : InputBinding) : Prop where
  input : binding.inputIndex.index < p.numInputs
  bank : binding.bank = p.inputDomains.getD binding.inputIndex.index .local
  slot : p.SlotOk binding.bank binding.slot

/-- An instruction's operands exist in the banks its opcode reads and writes, or its table entry
    exists. -/
def InstructionOk (p : ProgramParts) : Instruction → Prop
  | .arith op dst a b => ∃ banks, op.banks = some banks ∧
      p.SlotOk banks.1 dst ∧ p.SlotOk banks.2.1 a ∧ p.SlotOk banks.2.2 b
  | .reshare round => round.index < p.rounds.length
  | .gadget batch => batch.index < p.gadgetBatches.length

/-- A round's operands. -/
def roundOperandsOf (p : ProgramParts) (round : RoundEntry) : List Slot :=
  slice p.roundOperands round.operandStart (round.operandStart + round.len)

/-- A round's results. -/
def roundResultsOf (p : ProgramParts) (round : RoundEntry) : List Slot :=
  slice p.roundResults round.resultStart (round.resultStart + round.len)

structure RoundOk (p : ProgramParts) (round : RoundEntry) : Prop where
  nonempty : 0 < round.len
  operandRange : round.operandStart + round.len ≤ p.roundOperands.length
  resultRange : round.resultStart + round.len ≤ p.roundResults.length
  operands : ∀ slot ∈ p.roundOperandsOf round, p.SlotOk .local slot
  results : ∀ slot ∈ p.roundResultsOf round, p.SlotOk .shared slot

end ProgramParts

namespace GadgetBatch

/-- A site's requested logical slots. -/
def requestsOf (batch : GadgetBatch) (site : Nat) : List ResultSlot :=
  slice batch.resultRequests (batch.row site).1 (batch.row site).2

/-- A site's destinations, parallel to `requestsOf`. -/
def targetsOf (batch : GadgetBatch) (site : Nat) : List ResultTarget :=
  slice batch.resultTargets (batch.row site).1 (batch.row site).2

/-- The compressed-row table is one: `sites + 1` row pointers, from zero, never decreasing, to the
    end of the request list. -/
structure OffsetsOk (batch : GadgetBatch) : Prop where
  length : batch.resultOffsets.length = batch.sites + 1
  first : batch.resultOffsets.head? = some 0
  last : batch.resultOffsets.getLast? = some batch.resultRequests.length
  ascending : batch.resultOffsets.IsChain (· ≤ ·)

end GadgetBatch

namespace ProgramParts

/-- One requested result: a slot the gadget has, going to a bank it may go to. -/
structure RequestOk (p : ProgramParts) (batch : GadgetBatch) (request : ResultSlot)
    (target : ResultTarget) : Prop where
  capacity : request.index < batch.kind.capacity
  banked : target.bank ≠ .local
  bank : target.bank = batch.expectedBank request
  slot : p.SlotOk target.bank target.slot

structure BatchOk (p : ProgramParts) (batch : GadgetBatch) : Prop where
  sites : 0 < batch.sites
  inputCount : batch.inputSlots.length = batch.sites * batch.kind.inputsPerSite
  inputs : ∀ input ∈ batch.inputSlots, input.bank ≠ .local ∧ p.SlotOk input.bank input.slot
  fused : batch.kind = .isZeroReveal → ∀ input ∈ batch.inputSlots, input.bank = .shared
  precomputed : ∀ t, batch.kind = .precomputedPoseidon2 t → batch.anyShared = true
  offsets : batch.OffsetsOk
  targets : batch.resultRequests.length = batch.resultTargets.length
  rowRange : ∀ site < batch.sites, (batch.row site).2 ≤ batch.resultRequests.length
  rowOrder : ∀ site < batch.sites,
    (batch.requestsOf site).IsChain fun a b => a.index < b.index
  requests : ∀ site < batch.sites, ∀ r ∈ (batch.requestsOf site).zip (batch.targetsOf site),
    p.RequestOk batch r.1 r.2

def SourceOk (p : ProgramParts) : WitnessSource → Prop
  | .one | .zero => True
  | .input input => input.index < p.numInputs
  | .slot bank slot => bank ≠ .local ∧ p.SlotOk bank slot

structure WellEncoded (p : ProgramParts) : Prop where
  constants : p.constants.length ≤ p.slots.public
  domainsLength : p.inputDomains.length = p.numInputs
  domains : ∀ bank ∈ p.inputDomains, bank ≠ .local
  bindings : ∀ binding ∈ p.inputs, p.BindingOk binding
  signalTotal : (p.inputSignals.map (·.size)).sum % 2 ^ 64 = p.numInputs
  signalRange : ∀ signal ∈ p.inputSignals, (signal.offset + signal.size) % 2 ^ 64 ≤ p.numInputs
  signalNames : (p.inputSignals.map (·.name)).Nodup
  instructions : ∀ i ∈ p.instructions, p.InstructionOk i
  rounds : ∀ r ∈ p.rounds, p.RoundOk r
  batches : ∀ b ∈ p.gadgetBatches, p.BatchOk b
  witnessOne : p.witnessSources.head? = some .one
  witnessRest : ∀ source ∈ p.witnessSources.drop 1, source ≠ .one
  publicPos : 0 < p.numPublicWitness
  publicLe : p.numPublicWitness ≤ p.witnessSources.length
  witness : ∀ source ∈ p.witnessSources, p.SourceOk source

/-! ## Check by check -/

variable {p : ProgramParts}

theorem checkSlot_eq_ok {bank : Bank} {slot : Slot} {what : String} :
    p.checkSlot bank slot what = .ok () ↔ p.SlotOk bank slot := by
  simp [checkSlot, SlotOk]

theorem validateBinding_eq_ok {binding : InputBinding} :
    p.validateBinding binding = .ok () ↔ p.BindingOk binding := by
  simp only [validateBinding, seq_eq_ok, ensure_eq_ok, checkSlot_eq_ok]
  exact ⟨fun ⟨h1, h2, h3⟩ => ⟨h1, h2, h3⟩, fun h => ⟨h.input, h.bank, h.slot⟩⟩

theorem validateSignal_eq_ok {seen seen' : List String} {signal : InputSignal} :
    p.validateSignal seen signal = .ok seen' ↔
      (signal.offset + signal.size) % 2 ^ 64 ≤ p.numInputs ∧ signal.name ∉ seen ∧
        seen' = signal.name :: seen := by
  simp only [validateSignal, seq_eq_ok, ensure_eq_ok, pure_eq_ok]
  tauto

theorem validateInputs_eq_ok : p.validateInputs = .ok () ↔
    p.constants.length ≤ p.slots.public ∧ p.inputDomains.length = p.numInputs ∧
      (∀ bank ∈ p.inputDomains, bank ≠ .local) ∧ (∀ b ∈ p.inputs, p.BindingOk b) ∧
      (p.inputSignals.map (·.size)).sum % 2 ^ 64 = p.numInputs ∧
      (∀ s ∈ p.inputSignals, (s.offset + s.size) % 2 ^ 64 ≤ p.numInputs) ∧
      (p.inputSignals.map (·.name)).Nodup := by
  have hdom : (forM p.inputDomains.zipIdx fun (x : Bank × Nat) =>
      ensure (x.1 ≠ .local) (EncodingError.localInputDomain x.2)) = .ok () ↔
      ∀ bank ∈ p.inputDomains, bank ≠ .local :=
    forM_zipIdx_eq_ok fun x i => by simp
  have hsig : (p.inputSignals.foldlM p.validateSignal [] >>= fun _ => pure ()) = .ok () ↔
      (∀ s ∈ p.inputSignals, (s.offset + s.size) % 2 ^ 64 ≤ p.numInputs) ∧
        (p.inputSignals.map (·.name)).Nodup := by
    have h := foldlM_fresh (k := InputSignal.name)
      (P := fun s => (s.offset + s.size) % 2 ^ 64 ≤ p.numInputs)
      (fun seen x seen' => validateSignal_eq_ok (p := p)) p.inputSignals []
    simp only [List.not_mem_nil, not_false_eq_true, implies_true, and_true] at h
    rw [bind_eq_ok, ← h]
    simp [pure, Except.pure]
  simp only [validateInputs, seq_eq_ok, ensure_eq_ok, hdom, forM_eq_ok (f := p.validateBinding),
    validateBinding_eq_ok, hsig]

theorem validateInstruction_eq_ok {i : Instruction} {index : Nat} :
    p.validateInstruction (i, index) = .ok () ↔ p.InstructionOk i := by
  cases i with
  | arith op dst a b =>
    cases hb : op.banks with
    | none => simp [validateInstruction, InstructionOk, hb]
    | some banks =>
      obtain ⟨d, x, y⟩ := banks
      simp [validateInstruction, InstructionOk, hb, seq_eq_ok, checkSlot_eq_ok]
  | reshare round => simp [validateInstruction, InstructionOk]
  | gadget batch => simp [validateInstruction, InstructionOk]

theorem validateRound_eq_ok {r : RoundEntry} {index : Nat} :
    p.validateRound (r, index) = .ok () ↔ p.RoundOk r := by
  simp only [validateRound, seq_eq_ok, ensure_eq_ok, forM_eq_ok, checkSlot_eq_ok]
  exact ⟨fun ⟨h1, h2, h3, h4, h5⟩ => ⟨h1, h2, h3, h4, h5⟩,
    fun h => ⟨h.nonempty, h.operandRange, h.resultRange, h.operands, h.results⟩⟩

theorem validateRequest_eq_ok {index : Nat} {batch : GadgetBatch} {r : ResultSlot × ResultTarget} :
    p.validateRequest index batch r = .ok () ↔ p.RequestOk batch r.1 r.2 := by
  obtain ⟨request, target⟩ := r
  simp only [validateRequest, seq_eq_ok, ensure_eq_ok, checkSlot_eq_ok]
  exact ⟨fun ⟨h1, h2, h3, h4⟩ => ⟨h1, h2, h3, h4⟩,
    fun h => ⟨h.capacity, h.banked, h.bank, h.slot⟩⟩

theorem validateRow_eq_ok {index : Nat} {batch : GadgetBatch} {site : Nat} :
    p.validateRow index batch site = .ok () ↔
      (batch.row site).2 ≤ batch.resultRequests.length ∧
        (batch.requestsOf site).IsChain (fun a b => a.index < b.index) ∧
        ∀ r ∈ (batch.requestsOf site).zip (batch.targetsOf site), p.RequestOk batch r.1 r.2 := by
  simp only [validateRow, seq_eq_ok, ensure_eq_ok, forM_eq_ok, validateRequest_eq_ok]
  rw [windows_all (r := fun a b : ResultSlot => a.index < b.index)]
  rfl

theorem validateGadgetBatch_eq_ok {batch : GadgetBatch} {index : Nat} :
    p.validateGadgetBatch (batch, index) = .ok () ↔ p.BatchOk batch := by
  have hpre : (batch.kind.isPrecomputed = true → batch.anyShared = true) ↔
      ∀ t, batch.kind = .precomputedPoseidon2 t → batch.anyShared = true := by
    cases batch.kind <;> simp [BatchKind.isPrecomputed]
  have hfus : (batch.kind = .isZeroReveal → batch.inputSlots.all (·.bank == .shared) = true) ↔
      (batch.kind = .isZeroReveal → ∀ input ∈ batch.inputSlots, input.bank = .shared) := by
    simp
  simp only [validateGadgetBatch, validateGadgetResults, seq_eq_ok, ensure_eq_ok, forM_eq_ok,
    checkSlot_eq_ok, validateRow_eq_ok, List.mem_range]
  rw [windows_all (r := fun a b : Nat => a ≤ b), hfus, hpre]
  constructor
  · rintro ⟨h1, h2, h3, h4, h5, h6, ⟨h7, h8, h9⟩, h10, h11⟩
    exact ⟨h1, h2, h3, h4, h5, ⟨h6, h7, h8, h9⟩, h10, fun s hs => (h11 s hs).1,
      fun s hs => (h11 s hs).2.1, fun s hs => (h11 s hs).2.2⟩
  · intro h
    exact ⟨h.sites, h.inputCount, h.inputs, h.fused, h.precomputed, h.offsets.length,
      ⟨h.offsets.first, h.offsets.last, h.offsets.ascending⟩, h.targets,
      fun s hs => ⟨h.rowRange s hs, h.rowOrder s hs, h.requests s hs⟩⟩

theorem validateSource_eq_ok {source : WitnessSource} :
    p.validateSource source = .ok () ↔ p.SourceOk source := by
  cases source with
  | one | zero => simp [validateSource, SourceOk]
  | input i => simp [validateSource, SourceOk]
  | slot bank slot => simp [validateSource, SourceOk, seq_eq_ok, checkSlot_eq_ok]

theorem validateWitness_eq_ok : p.validateWitness = .ok () ↔
    p.witnessSources.head? = some .one ∧ (∀ s ∈ p.witnessSources.drop 1, s ≠ .one) ∧
      0 < p.numPublicWitness ∧ p.numPublicWitness ≤ p.witnessSources.length ∧
      ∀ s ∈ p.witnessSources, p.SourceOk s := by
  have hne : p.witnessSources.head? = some .one → p.witnessSources ≠ [] := by
    intro h hnil; simp [hnil] at h
  simp only [validateWitness, seq_eq_ok, ensure_eq_ok, forM_eq_ok, validateSource_eq_ok,
    List.all_eq_true, decide_eq_true_eq]
  tauto

/-- **The validators accept exactly the well-encoded parts.** -/
theorem validateEncoding_eq_ok : p.validateEncoding = .ok () ↔ p.WellEncoded := by
  have hins : p.validateInstructions = .ok () ↔ ∀ i ∈ p.instructions, p.InstructionOk i :=
    forM_zipIdx_eq_ok fun _ _ => validateInstruction_eq_ok
  have hrounds : p.validateRounds = .ok () ↔ ∀ r ∈ p.rounds, p.RoundOk r :=
    forM_zipIdx_eq_ok fun _ _ => validateRound_eq_ok
  have hbatches : p.validateGadgetBatches = .ok () ↔ ∀ b ∈ p.gadgetBatches, p.BatchOk b :=
    forM_zipIdx_eq_ok fun _ _ => validateGadgetBatch_eq_ok
  simp only [validateEncoding, seq_eq_ok, validateInputs_eq_ok, hins, hrounds, hbatches,
    validateWitness_eq_ok]
  constructor
  · rintro ⟨⟨h1, h2, h3, h4, h5, h6, h7⟩, h8, h9, h10, h11, h12, h13, h14, h15⟩
    exact ⟨h1, h2, h3, h4, h5, h6, h7, h8, h9, h10, h11, h12, h13, h14, h15⟩
  · intro h
    exact ⟨⟨h.constants, h.domainsLength, h.domains, h.bindings, h.signalTotal, h.signalRange,
      h.signalNames⟩, h.instructions, h.rounds, h.batches, h.witnessOne, h.witnessRest,
      h.publicPos, h.publicLe, h.witness⟩

end ProgramParts

/-- Every program is well encoded. -/
theorem Program.wellEncoded (p : Program) : p.parts.WellEncoded :=
  ProgramParts.validateEncoding_eq_ok.mp p.valid

/-- `Program::new` accepts exactly the well-encoded parts, and keeps them. -/
theorem Program.new_eq_ok {parts : ProgramParts} {p : Program} :
    Program.new parts = .ok p ↔ p.parts = parts := by
  unfold Program.new
  constructor
  · intro h
    split at h
    · cases h; rfl
    · cases h
  · rintro rfl
    split
    · rfl
    · rename_i e he
      rw [p.valid] at he
      cases he

theorem Program.new_of_wellEncoded {parts : ProgramParts} (h : parts.WellEncoded) :
    ∃ p, Program.new parts = .ok p ∧ p.parts = parts :=
  ⟨⟨parts, ProgramParts.validateEncoding_eq_ok.mpr h⟩, Program.new_eq_ok.mpr rfl, rfl⟩

/-- Programs are their parts. -/
theorem Program.ext {p q : Program} (h : p.parts = q.parts) : p = q := by
  cases p; cases q; cases h; rfl

end CircomMpc
