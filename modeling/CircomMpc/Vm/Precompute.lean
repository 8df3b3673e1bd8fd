import CircomMpc.Vm.Steps
import CircomMpc.Vm.Safety
import CircomMpc.Gadgets.Poseidon2Trace

/-!
# Host precomputation is transparent

A `PrecomputedPoseidon2` batch takes its traces from a queue the host filled; its *gadget twin* is
the same batch serviced by the driver. `precomputation_transparent` compares a program run on such a
queue with its twin run on none: if every queue entry is the host's own trace of the batch's inputs
as they stand when the instruction executes, the two runs are one.

The step is `executeInstruction_twin`: at every instruction the twin's state is the program's with
the queue dropped. Only one case has content — the host path splits a trace at the width and indexes
the halves, the driver path routes record calls through a lookup table, and both leave the requested
slots of each site's full trace.
-/

namespace CircomMpc

open Lib

/-! ## The twin -/

/-- The kind of the batch's gadget twin. -/
def BatchKind.gadgetTwin : BatchKind → BatchKind
  | .precomputedPoseidon2 t => .gadget (.poseidon2 t)
  | .gadget kind => .gadget kind
  | .isZeroReveal => .isZeroReveal

/-- The batch, serviced by the driver. -/
def GadgetBatch.gadgetTwin (batch : GadgetBatch) : GadgetBatch :=
  { batch with kind := batch.kind.gadgetTwin }

/-- The program with every host-supplied batch serviced by the driver. -/
def ProgramParts.gadgetTwin (p : ProgramParts) : ProgramParts :=
  { p with gadgetBatches := p.gadgetBatches.map GadgetBatch.gadgetTwin }

@[simp] theorem BatchKind.gadgetTwin_inputsPerSite (kind : BatchKind) :
    kind.gadgetTwin.inputsPerSite = kind.inputsPerSite := by
  cases kind <;> rfl

@[simp] theorem BatchKind.gadgetTwin_capacity (kind : BatchKind) :
    kind.gadgetTwin.capacity = kind.capacity := by
  cases kind <;> rfl

/-- A batch the driver services is its own twin. -/
theorem GadgetBatch.gadgetTwin_of_serviced {batch : GadgetBatch}
    (h : batch.kind.isPrecomputed = false) : batch.gadgetTwin = batch := by
  obtain ⟨kind, _, _, _, _, _⟩ := batch
  cases kind with
  | gadget kind => rfl
  | isZeroReveal => rfl
  | precomputedPoseidon2 t => cases h

/-- A host-supplied batch has a shared input, so the driver's results go to the shared bank too. -/
theorem GadgetBatch.gadgetTwin_normalResultBank {p : ProgramParts} {batch : GadgetBatch}
    (hb : p.BatchOk batch) : batch.gadgetTwin.normalResultBank = batch.normalResultBank := by
  cases hkind : batch.kind with
  | gadget kind => simp [gadgetTwin, normalResultBank, BatchKind.gadgetTwin, hkind, anyShared]
  | isZeroReveal => simp [gadgetTwin, normalResultBank, BatchKind.gadgetTwin, hkind]
  | precomputedPoseidon2 t =>
    have hany : batch.gadgetTwin.anyShared = true := hb.precomputed t hkind
    simp [normalResultBank, hany]
    simp [gadgetTwin, BatchKind.gadgetTwin, hkind]

namespace ProgramParts

variable {p : ProgramParts}

theorem BatchOk.gadgetTwin {batch : GadgetBatch} (hb : p.BatchOk batch) :
    p.gadgetTwin.BatchOk batch.gadgetTwin where
  sites := hb.sites
  inputCount := by
    rw [GadgetBatch.gadgetTwin, BatchKind.gadgetTwin_inputsPerSite]
    exact hb.inputCount
  inputs := hb.inputs
  fused := by
    intro hkind
    apply hb.fused
    cases hk : batch.kind with
    | isZeroReveal => rfl
    | gadget kind => simp [GadgetBatch.gadgetTwin, BatchKind.gadgetTwin, hk] at hkind
    | precomputedPoseidon2 t => simp [GadgetBatch.gadgetTwin, BatchKind.gadgetTwin, hk] at hkind
  precomputed := by
    intro t hkind
    cases hk : batch.kind <;> simp [GadgetBatch.gadgetTwin, BatchKind.gadgetTwin, hk] at hkind
  offsets := ⟨hb.offsets.length, hb.offsets.first, hb.offsets.last, hb.offsets.ascending⟩
  targets := hb.targets
  rowRange := hb.rowRange
  rowOrder := hb.rowOrder
  requests := by
    intro site hsite r hr
    obtain ⟨hcapacity, hbanked, hbank, hslot⟩ := hb.requests site hsite r hr
    refine ⟨?_, hbanked, ?_, hslot⟩
    · rw [GadgetBatch.gadgetTwin, BatchKind.gadgetTwin_capacity]
      exact hcapacity
    · rw [hbank, GadgetBatch.expectedBank, GadgetBatch.expectedBank,
        GadgetBatch.gadgetTwin_normalResultBank hb]

/-- The twin of an accepted program is accepted. -/
theorem WellEncoded.gadgetTwin (hw : p.WellEncoded) : p.gadgetTwin.WellEncoded where
  constants := hw.constants
  domainsLength := hw.domainsLength
  domains := hw.domains
  bindings := fun b hb => ⟨(hw.bindings b hb).input, (hw.bindings b hb).bank, (hw.bindings b hb).slot⟩
  signalTotal := hw.signalTotal
  signalRange := hw.signalRange
  signalNames := hw.signalNames
  instructions := by
    intro i hi
    have hok := hw.instructions i hi
    cases i with
    | arith op dst a b => exact hok
    | reshare round => exact hok
    | gadget batch =>
      show batch.index < (p.gadgetBatches.map GadgetBatch.gadgetTwin).length
      rw [List.length_map]
      exact hok
  rounds := fun r hr => ⟨(hw.rounds r hr).nonempty, (hw.rounds r hr).operandRange,
    (hw.rounds r hr).resultRange, (hw.rounds r hr).operands, (hw.rounds r hr).results⟩
  batches := by
    intro b hb
    obtain ⟨batch, hbatch, rfl⟩ := List.mem_map.mp hb
    exact (hw.batches batch hbatch).gadgetTwin
  witnessOne := hw.witnessOne
  witnessRest := hw.witnessRest
  publicPos := hw.publicPos
  publicLe := hw.publicLe
  witness := hw.witness

end ProgramParts

namespace ProgramParts

/-- A host-supplied permutation decomposes nothing. -/
theorem TracesFit.gadgetTwin {p : ProgramParts} {host : Poseidon2.Host} (h : p.TracesFit host) :
    p.gadgetTwin.TracesFit host := by
  intro twin htwin kind hkind
  obtain ⟨batch, hbatch, rfl⟩ := List.mem_map.mp htwin
  cases hk : batch.kind with
  | gadget kind' =>
    simp only [GadgetBatch.gadgetTwin, BatchKind.gadgetTwin, hk, BatchKind.gadget.injEq] at hkind
    exact hkind ▸ h batch hbatch kind' hk
  | isZeroReveal => simp [GadgetBatch.gadgetTwin, BatchKind.gadgetTwin, hk] at hkind
  | precomputedPoseidon2 t =>
    simp only [GadgetBatch.gadgetTwin, BatchKind.gadgetTwin, hk, BatchKind.gadget.injEq] at hkind
    rw [← hkind]
    rfl

/-- Nor does a program without batches. -/
theorem TracesFit.of_nil {p : ProgramParts} {host : Poseidon2.Host} (h : p.gadgetBatches = []) :
    p.TracesFit host := by
  intro batch hbatch
  rw [h] at hbatch
  cases hbatch

end ProgramParts

/-- The twin program. -/
def Program.gadgetTwin (program : Program) : Program where
  parts := program.parts.gadgetTwin
  valid := ProgramParts.validateEncoding_eq_ok.mpr program.wellEncoded.gadgetTwin

/-! ## Effects do not look at the queue -/

namespace VmState

variable {σ : Type}

/-- The state with another queue. -/
def withQueue (vm : VmState σ Fr) (queue : List (List (SiteTrace Fr))) : VmState σ Fr :=
  { vm with precomputation := queue }

variable {p : ProgramParts} {vm : VmState σ Fr} {queue : List (List (SiteTrace Fr))}

@[simp] theorem withQueue_read (bank : Bank) (slot : Slot) :
    (vm.withQueue queue).read bank slot = vm.read bank slot := by
  cases bank <;> rfl

@[simp] theorem withQueue_write (bank : Bank) (slot : Slot) (value : Fr) :
    (vm.withQueue queue).write bank slot value = (vm.write bank slot value).withQueue queue := by
  cases bank <;> rfl

@[simp] theorem withQueue_writeAll (writes : List (ResultTarget × Fr)) :
    (vm.withQueue queue).writeAll writes = (vm.writeAll writes).withQueue queue := by
  induction writes generalizing vm with
  | nil => rfl
  | cons w writes ih =>
    show ((vm.withQueue queue).write w.1.bank w.1.slot w.2).writeAll writes = _
    rw [withQueue_write, ih]
    rfl

theorem Ready.withQueue (h : vm.Ready p) : (vm.withQueue queue).Ready p.gadgetTwin :=
  ⟨h.public_length, h.shared_length, h.lhs_length, h.rhs_length⟩

end VmState

namespace Effect

variable {host : Poseidon2.Host} {p : ProgramParts} {vm : VmState Unit Fr}
  {queue : List (List (SiteTrace Fr))} {batch : GadgetBatch}

theorem arith_withQueue (op : Opcode) (dst a b : Slot) :
    arith (vm.withQueue queue) op dst a b = (arith vm op dst a b).withQueue queue := by
  cases op <;> rfl

theorem reshare_withQueue (entry : RoundEntry) :
    reshare p.gadgetTwin (vm.withQueue queue) entry = (reshare p vm entry).withQueue queue := by
  unfold reshare
  simp only [VmState.withQueue_writeAll]
  rfl

theorem batchInputs_withQueue :
    batchInputs (vm.withQueue queue) batch.gadgetTwin = batchInputs vm batch := by
  simp [batchInputs, GadgetBatch.gadgetTwin]

/-- A batch the driver services either way. -/
theorem batch_withQueue (hkind : batch.kind.isPrecomputed = false) :
    Effect.batch host (vm.withQueue queue) batch.gadgetTwin =
      (Effect.batch host vm batch).withQueue queue := by
  have hsame : batch.gadgetTwin = batch := GadgetBatch.gadgetTwin_of_serviced hkind
  have hinputs : batchInputs (vm.withQueue queue) batch = batchInputs vm batch := by
    simp [batchInputs]
  rw [hsame]
  unfold Effect.batch
  split
  · next t hk => simp [BatchKind.isPrecomputed, hk] at hkind
  · rw [hinputs, VmState.withQueue_writeAll]

end Effect

/-! ## One instruction -/

section Step

variable {host : Poseidon2.Host} {p : ProgramParts} {vm : VmState Unit Fr} {batch : GadgetBatch}
  {t : Poseidon2Width}

/-- The values a batch reads, tagged with the bank each came from: what the host is given. -/
def Effect.batchStates (vm : VmState Unit Fr) (batch : GadgetBatch) : List (InputValue Fr) :=
  batch.inputSlots.map fun input =>
    if input.bank = .public then .public (vm.read input.bank input.slot)
    else .secret (vm.read input.bank input.slot)

theorem Effect.batchStates_values :
    (Effect.batchStates vm batch).map Poseidon2.inputValue = Effect.batchInputs vm batch := by
  unfold batchStates batchInputs
  rw [List.map_map]
  apply List.map_congr_left
  intro input _
  simp only [Function.comp_apply]
  split <;> rfl

/-- The host's traces of a batch: every site's own full trace. -/
def Effect.hostTraces (host : Poseidon2.Host) (t : Poseidon2Width) (vm : VmState Unit Fr)
    (batch : GadgetBatch) : List (SiteTrace Fr) :=
  (Poseidon2.chunksExact t.get (Effect.batchInputs vm batch)).map
    (Poseidon2.siteTrace t.get (host.constants t))

/-- What `plain_trace` gives the host for a batch as it stands. -/
theorem plainTrace_batch (hb : p.BatchOk batch) (hkind : batch.kind = .precomputedPoseidon2 t) :
    Poseidon2.plainTrace host t.get (Effect.batchStates vm batch) =
      .ok (Effect.hostTraces host t vm batch) := by
  have hlen : (Effect.batchStates vm batch).length = batch.sites * t.get := by
    rw [Effect.batchStates, List.length_map, hb.inputCount, hkind]
    rfl
  rw [Poseidon2.plainTrace_eq_ok host t hb.sites hlen, Effect.batchStates_values]
  rfl

theorem hostTraces_length (host : Poseidon2.Host) (vm : VmState Unit Fr) (hb : p.BatchOk batch)
    (hkind : batch.kind = .precomputedPoseidon2 t) :
    (Effect.hostTraces host t vm batch).length = batch.sites := by
  have hlen : (Effect.batchInputs vm batch).length = batch.sites * t.get := by
    rw [Effect.batchInputs, List.length_map, hb.inputCount, hkind]
    rfl
  rw [Effect.hostTraces, List.length_map, (Poseidon2.flatten_chunksExact t.pos hlen).2.2]

/-- A site's own trace, among the host's. -/
theorem hostTraces_getElem? (host : Poseidon2.Host) (vm : VmState Unit Fr) (hb : p.BatchOk batch)
    (hkind : batch.kind = .precomputedPoseidon2 t)
    {site : Nat} (hsite : site < batch.sites) :
    (Effect.hostTraces host t vm batch)[site]? =
      some (Poseidon2.siteTrace t.get (host.constants t)
        (Effect.siteInputs batch (Effect.batchInputs vm batch) site)) := by
  have hlen : (Effect.batchInputs vm batch).length / t.get = batch.sites := by
    rw [Effect.batchInputs, List.length_map, hb.inputCount, hkind]
    exact Nat.mul_div_cancel _ t.pos
  have hips : batch.kind.inputsPerSite = t.get := by rw [hkind]; rfl
  rw [Effect.hostTraces, List.getElem?_map, Poseidon2.chunksExact, List.getElem?_map, hlen,
    List.getElem?_range hsite, Effect.siteInputs, hips, Nat.add_mul, Nat.one_mul]
  rfl

/-- The two halves of a trace, read at a logical slot. -/
theorem siteTrace_half (input : List Fr) {slot : Nat} (hslot : slot < Poseidon2.resultSlots t.get) :
    (if slot < t.get then (Poseidon2.siteTrace t.get (host.constants t) input).output.getD slot 0
      else (Poseidon2.siteTrace t.get (host.constants t) input).intermediate.getD (slot - t.get) 0) =
      Poseidon2.fullTrace t.get (host.constants t) input slot := by
  unfold Poseidon2.siteTrace
  split
  · next hlt =>
    rw [List.getD_eq_getElem?_getD, List.getElem?_take_of_lt hlt, List.getElem?_map,
      List.getElem?_range hslot]
    rfl
  · next hge =>
    rw [List.getD_eq_getElem?_getD, List.getElem?_drop, Nat.add_sub_cancel' (Nat.le_of_not_lt hge),
      List.getElem?_map, List.getElem?_range hslot]
    rfl

/-- **Both paths store the same values.** -/
theorem suppliedValues_hostTraces (hb : p.BatchOk batch)
    (hkind : batch.kind = .precomputedPoseidon2 t) :
    Effect.suppliedValues t.get batch (Effect.hostTraces host t vm batch) =
      Effect.batchValues host batch.gadgetTwin (Effect.batchInputs vm batch) := by
  unfold Effect.suppliedValues Effect.batchValues
  congr 1
  apply List.map_congr_left
  intro site hsite
  rw [List.mem_range] at hsite
  apply List.map_congr_left
  intro r hr
  have hslot : r.index < Poseidon2.resultSlots t.get := by
    have hcapacity := hb.request_lt hsite hr
    rw [hkind] at hcapacity
    rw [← Poseidon2.expectedResults_eq_resultSlots]
    exact hcapacity
  have htwin : batch.gadgetTwin.kind = .gadget (.poseidon2 t) := by
    rw [GadgetBatch.gadgetTwin, hkind]
    rfl
  have hinputs : Effect.siteInputs batch.gadgetTwin (Effect.batchInputs vm batch) site =
      Effect.siteInputs batch (Effect.batchInputs vm batch) site := by
    unfold Effect.siteInputs GadgetBatch.gadgetTwin
    rw [BatchKind.gadgetTwin_inputsPerSite]
  unfold Effect.suppliedValue Effect.siteValue
  rw [List.getD_eq_getElem?_getD, hostTraces_getElem? host vm hb hkind hsite, Option.getD_some,
    siteTrace_half _ hslot, htwin, hinputs]
  exact (GadgetKind.plainTrace_poseidon2_getD host t _ hslot).symm

/-- A batch the host supplies with its own traces performs its twin's effect. -/
theorem runPrecomputedBatch_twin (h : vm.Ready p) (hb : p.BatchOk batch)
    (hkind : batch.kind = .precomputedPoseidon2 t) {rest : List (List (SiteTrace Fr))}
    (hqueue : vm.precomputation = Effect.hostTraces host t vm batch :: rest) :
    Vm.runPrecomputedBatch vm t.get batch = .ok (Effect.batch host vm batch) ∧
      (Effect.batch host vm batch).withQueue [] =
        Effect.batch host (vm.withQueue []) batch.gadgetTwin := by
  -- The host's own traces have the right number, the right lengths and every slot.
  have hsupplied : Supplied t.get batch (Effect.hostTraces host t vm batch) := by
    constructor
    · exact hostTraces_length host vm hb hkind
    · intro trace htrace
      obtain ⟨input, _, rfl⟩ := List.mem_map.mp htrace
      have hle : t.get ≤ Poseidon2.resultSlots t.get := Poseidon2.le_resultSlots
      simp [Poseidon2.siteTrace, hle]
    · intro site hsite r hr hge
      have hsite' : site < batch.sites := hostTraces_length host vm hb hkind ▸ hsite
      have hcapacity := hb.request_lt hsite' hr
      rw [hkind] at hcapacity
      have hslot : r.index < Poseidon2.resultSlots t.get := by
        rw [← Poseidon2.expectedResults_eq_resultSlots]
        exact hcapacity
      have htrace := hostTraces_getElem? host vm hb hkind hsite'
      rw [List.getElem?_eq_getElem hsite, Option.some_inj] at htrace
      rw [htrace]
      simp only [Poseidon2.siteTrace, List.length_drop, List.length_map, List.length_range]
      omega
  constructor
  · have hmeets : Meets _ (fun vm' => vm' = Effect.batch host vm batch ∧
        ∃ traces rest, vm.precomputation = traces :: rest) (Vm.runPrecomputedBatch vm t.get batch) :=
      runPrecomputedBatch_plain h hb hkind
    cases hrun : Vm.runPrecomputedBatch vm t.get batch with
    | error e =>
      rw [hrun] at hmeets
      exact absurd hsupplied (hmeets.2 _ _ hqueue)
    | ok vm' =>
      rw [hrun] at hmeets
      rw [hmeets.1]
  · -- The values stored are the same: the slots of the halves put together are those of the trace.
    have htwin : batch.gadgetTwin.kind = .gadget (.poseidon2 t) := by
      rw [GadgetBatch.gadgetTwin, hkind]
      rfl
    unfold Effect.batch
    rw [hkind, htwin, hqueue]
    simp only [List.headD_cons, List.tail_cons, Effect.batchInputs_withQueue,
      VmState.withQueue_writeAll]
    rw [suppliedValues_hostTraces hb hkind]
    rfl

/-- **One instruction**: the twin does to the state without the queue what the program does to the
    state with it. -/
theorem executeInstruction_twin (hw : p.WellEncoded) (h : vm.Ready p) {i : Instruction}
    (hi : p.InstructionOk i)
    (hqueue : ∀ (index : BatchIdx) (batch : GadgetBatch) (t : Poseidon2Width), i = .gadget index →
      p.gadgetBatches[index.index]? = some batch → batch.kind = .precomputedPoseidon2 t →
        ∃ rest, vm.precomputation = Effect.hostTraces host t vm batch :: rest) :
    Vm.executeInstruction (plainDriver host) p.gadgetTwin host (vm.withQueue []) i =
      (Vm.executeInstruction (plainDriver host) p host vm i).map (·.withQueue []) := by
  have hready : (vm.withQueue []).Ready p.gadgetTwin := h.withQueue
  cases i with
  | arith op dst a b =>
    show Vm.executeArithmetic (plainDriver host) (vm.withQueue []) op dst a b =
      (Vm.executeArithmetic (plainDriver host) vm op dst a b).map (·.withQueue [])
    rw [executeArithmetic_plain hready hi, executeArithmetic_plain h hi, Effect.arith_withQueue]
    rfl
  | reshare round =>
    have hentry : p.rounds[round.index]? = some p.rounds[round.index] :=
      List.getElem?_eq_getElem hi
    show Vm.executeReshare (plainDriver host) p.gadgetTwin (vm.withQueue []) round =
      (Vm.executeReshare (plainDriver host) p vm round).map (·.withQueue [])
    rw [executeReshare_plain hw.gadgetTwin hready hentry, executeReshare_plain hw h hentry,
      Effect.reshare_withQueue]
    -- A round looks at the products in flight and at the tables, which the twin has unchanged.
    have hdestinations : (vm.withQueue []).pendingMulDst = vm.pendingMulDst := rfl
    have hoperands : p.gadgetTwin.roundOperandsOf p.rounds[round.index] =
        p.roundOperandsOf p.rounds[round.index] := rfl
    rw [hdestinations, hoperands]
    by_cases hdst : vm.pendingMulDst = p.roundOperandsOf p.rounds[round.index]
    · rw [if_pos hdst, if_pos hdst]
      rfl
    · rw [if_neg hdst, if_neg hdst]
      rfl
  | gadget index =>
    have hget : p.gadgetBatches[index.index]? = some p.gadgetBatches[index.index] :=
      List.getElem?_eq_getElem hi
    -- The twin has the same batch at the same place, or its twin.
    have hget' : p.gadgetTwin.gadgetBatches[index.index]? =
        some p.gadgetBatches[index.index].gadgetTwin := by
      show (p.gadgetBatches.map GadgetBatch.gadgetTwin)[index.index]? = _
      rw [List.getElem?_map, hget]
      rfl
    have hb := hw.batches _ (List.getElem_mem hi)
    have hb' := hb.gadgetTwin
    generalize p.gadgetBatches[index.index] = batch at hget hget' hb hb'
    show (readAt _ _ _ >>= fun batch => Vm.runBatch _ host (vm.withQueue []) batch) =
      (readAt _ _ _ >>= fun batch => Vm.runBatch _ host vm batch).map (·.withQueue [])
    rw [readAt, readAt, hget, hget', orElse_some, orElse_some, ok_bind, ok_bind]
    cases hkind : batch.kind with
    | isZeroReveal =>
      have hserviced : batch.kind.isPrecomputed = false := by rw [hkind]; rfl
      have heffect : Effect.batch host (vm.withQueue []) batch.gadgetTwin =
          (Effect.batch host vm batch).withQueue [] := Effect.batch_withQueue hserviced
      rw [GadgetBatch.gadgetTwin_of_serviced hserviced] at hb' heffect ⊢
      unfold Vm.runBatch
      rw [hkind]
      dsimp only
      rw [runIsZeroRevealBatch_plain hready hb' hkind, runIsZeroRevealBatch_plain h hb hkind,
        heffect]
      rfl
    | gadget kind =>
      have hserviced : batch.kind.isPrecomputed = false := by rw [hkind]; rfl
      have heffect : Effect.batch host (vm.withQueue []) batch.gadgetTwin =
          (Effect.batch host vm batch).withQueue [] := Effect.batch_withQueue hserviced
      rw [GadgetBatch.gadgetTwin_of_serviced hserviced] at hb' heffect ⊢
      unfold Vm.runBatch
      rw [hkind]
      dsimp only
      by_cases hany : batch.anyShared = true
      · rw [if_pos hany, if_pos hany, runSharedBatch_plain hready hb' hkind hany,
          runSharedBatch_plain h hb hkind hany, heffect]
        split <;> rfl
      · have hpub : batch.anyShared = false := by simpa using hany
        rw [if_neg hany, if_neg hany, runPublicBatch_plain hready hb' hkind hpub,
          runPublicBatch_plain h hb hkind hpub, heffect]
        split <;> rfl
    | precomputedPoseidon2 t =>
      obtain ⟨rest, hrest⟩ := hqueue index batch t rfl hget hkind
      obtain ⟨hrun, heffect⟩ := runPrecomputedBatch_twin h hb hkind hrest
      have hkind' : batch.gadgetTwin.kind = .gadget (.poseidon2 t) := by
        rw [GadgetBatch.gadgetTwin, hkind]
        rfl
      have hany : batch.gadgetTwin.anyShared = true := hb.precomputed t hkind
      unfold Vm.runBatch
      rw [hkind, hkind']
      dsimp only
      rw [if_pos hany, runSharedBatch_plain hready hb' hkind' hany, hrun, ← heffect]
      rfl

end Step

/-! ## The whole run -/

/-- A queue as a host fills it for a run: one entry per host-supplied batch, in order, each the
    host's trace of the batch's inputs as they stand when its instruction executes. -/
structure QueueMatches (host : Poseidon2.Host) (program : Program)
    (queue : List (List (SiteTrace Fr))) (inputs : List (InputValue Fr)) : Prop where
  length : queue.length = program.parts.precomputedBatches.length
  entry : ∀ (k : Nat) (vm : VmState Unit Fr) (index : BatchIdx) (batch : GadgetBatch)
    (t : Poseidon2Width),
    Vm.stateAfter (plainDriver host) program.parts host queue () inputs k = .ok vm →
    program.parts.instructions[k]? = some (.gadget index) →
    program.parts.gadgetBatches[index.index]? = some batch →
    batch.kind = .precomputedPoseidon2 t →
    ∃ traces, queue[program.parts.precomputedBefore k]? = some traces ∧
      Poseidon2.plainTrace host t.get (Effect.batchStates vm batch) = .ok traces

section Run

variable {host : Poseidon2.Host} {program : Program} {queue : List (List (SiteTrace Fr))}
  {inputs : List (InputValue Fr)}

/-- Every state of a plain run has its banks. -/
theorem stateAfter_ready {k : Nat} {vm : VmState Unit Fr}
    (h : Vm.stateAfter (plainDriver host) program.parts host queue () inputs k = .ok vm) :
    vm.Ready program.parts := by
  have hw := program.wellEncoded
  have hmeets : Meets (fun _ => True) (fun vm => vm.Ready program.parts)
      (Vm.stateAfter (plainDriver host) program.parts host queue () inputs k) := by
    unfold Vm.stateAfter
    apply Meets.guard_bind
    · intro _
      exact trivial
    intro hlen
    apply Meets.bind ((initializeInputs_plain host queue hw hlen).weaken (fun _ _ => trivial)
      fun _ => id)
    intro start hstart
    rw [hstart.1]
    apply (foldlM_executeInstruction hw (initial_ready hw queue inputs) fun i hi =>
      hw.instructions i (List.mem_of_mem_take hi)).weaken fun _ _ => trivial
    intro vm' hvm'
    rw [hvm']
    exact runFrom_ready (initial_ready hw queue inputs) _
  rw [h] at hmeets
  exact hmeets

/-- Binding the inputs does not look at the queue. -/
theorem initializeInputs_twin (host : Poseidon2.Host) (p : ProgramParts)
    (queue : List (List (SiteTrace Fr))) (inputs : List (InputValue Fr)) :
    Vm.initializeInputs (plainDriver host) p.gadgetTwin [] () inputs =
      (Vm.initializeInputs (plainDriver host) p queue () inputs).map (·.withQueue []) := by
  -- Binding is a loop of writes, and a write leaves the queue alone.
  have hbind : ∀ (bindings : List InputBinding) (vm : VmState Unit Fr),
      bindings.foldlM (Vm.bindInput inputs) (vm.withQueue []) =
        (bindings.foldlM (Vm.bindInput inputs) vm).map (·.withQueue []) := by
    intro bindings
    induction bindings with
    | nil => intro vm; rfl
    | cons b bindings ih =>
      intro vm
      have hstep : Vm.bindInput inputs (vm.withQueue []) b =
          (Vm.bindInput inputs vm b).map (·.withQueue []) := by
        unfold Vm.bindInput
        cases readAt "inputs" inputs b.inputIndex.index with
        | error e => rfl
        | ok value =>
          simp only [ok_bind]
          cases b.bank <;> cases value
          case «public».«public» v =>
            dsimp only [VmState.withQueue]
            cases writeSlot vm.public b.slot v <;> rfl
          case shared.secret v =>
            dsimp only [VmState.withQueue]
            cases writeSlot vm.shared b.slot v <;> rfl
          all_goals rfl
      rw [List.foldlM_cons, List.foldlM_cons, hstep]
      cases Vm.bindInput inputs vm b with
      | error e => rfl
      | ok vm' => exact ih vm'
  unfold Vm.initializeInputs
  dsimp only
  rw [except_map_bind]
  refine congrArg _ (funext fun bank => ?_)
  exact hbind p.inputs
    { driver := ()
      precomputation := queue
      «public» := bank
      shared := List.replicate p.slots.shared 0
      pendingMulLhs := []
      pendingMulRhs := []
      pendingMulDst := [] }

/-- **The twin's state is the program's, without the queue**, after every instruction. -/
theorem stateAfter_twin (hqueue : QueueMatches host program queue inputs) {k : Nat}
    (hk : k ≤ program.parts.instructions.length) :
    Vm.stateAfter (plainDriver host) program.gadgetTwin.parts host [] () inputs k =
      (Vm.stateAfter (plainDriver host) program.parts host queue () inputs k).map
        (·.withQueue []) := by
  have hw := program.wellEncoded
  induction k with
  | zero =>
    unfold Vm.stateAfter
    by_cases hlen : inputs.length = program.parts.numInputs
    · rw [ensure_of hlen, ensure_of (show _ = program.gadgetTwin.parts.numInputs from hlen),
        ok_bind, ok_bind, List.take_zero, List.take_zero,
        show program.gadgetTwin.parts = program.parts.gadgetTwin from rfl,
        initializeInputs_twin host program.parts queue inputs]
      cases Vm.initializeInputs (plainDriver host) program.parts queue () inputs <;> rfl
    · rw [ensure_of_not hlen,
        ensure_of_not (show ¬ _ = program.gadgetTwin.parts.numInputs from hlen)]
      rfl
  | succ k ih =>
    have hi : program.parts.instructions[k]? = some program.parts.instructions[k] :=
      List.getElem?_eq_getElem hk
    have hi' : program.gadgetTwin.parts.instructions[k]? =
        some program.parts.instructions[k] := hi
    rw [Vm.stateAfter_succ hi, Vm.stateAfter_succ hi', ih (Nat.le_of_succ_le hk)]
    cases hvm : Vm.stateAfter (plainDriver host) program.parts host queue () inputs k with
    -- Where the program's run has failed, so has the twin's.
    | error e => rfl
    | ok vm =>
      apply executeInstruction_twin hw (stateAfter_ready hvm)
        (hw.instructions _ (List.getElem_mem hk))
      intro index batch t hinstruction hbatch hkind
      rw [hinstruction] at hi
      obtain ⟨traces, hentry, htraces⟩ := hqueue.entry k vm index batch t hvm hi hbatch hkind
      rw [plainTrace_batch (hw.batches batch (List.mem_of_getElem? hbatch)) hkind] at htraces
      cases htraces
      have hdrop : Meets (fun _ => True) _
          (Vm.stateAfter (plainDriver host) program.parts host queue () inputs k) :=
        Vm.stateAfter_queue queue () inputs (Nat.le_of_succ_le hk)
      rw [hvm] at hdrop
      obtain ⟨hlt, hget⟩ := List.getElem?_eq_some_iff.mp hentry
      refine ⟨queue.drop (program.parts.precomputedBefore k + 1), ?_⟩
      rw [hdrop.1, List.drop_eq_getElem_cons hlt, hget]

/-- The two runs are one. -/
theorem runPlain_twin (hqueue : QueueMatches host program queue inputs) :
    Vm.runPlain host program.gadgetTwin [] inputs = Vm.runPlain host program queue inputs := by
  unfold Vm.runPlain
  rw [Vm.run_eq, Vm.run_eq,
    show program.gadgetTwin.parts.instructions = program.parts.instructions from rfl,
    stateAfter_twin hqueue (Nat.le_refl _)]
  have hdrop : Meets (fun _ => True) _ (Vm.stateAfter (plainDriver host) program.parts host queue ()
      inputs program.parts.instructions.length) :=
    Vm.stateAfter_queue queue () inputs (Nat.le_refl _)
  cases hvm : Vm.stateAfter (plainDriver host) program.parts host queue () inputs
      program.parts.instructions.length with
  | error e => rfl
  | ok vm =>
    rw [hvm, Vm.precomputedBefore_all, ← hqueue.length, List.drop_length] at hdrop
    have hempty : vm.withQueue [] = vm := by
      unfold VmState.withQueue
      rw [← hdrop.1]
    show (ensure ((vm.withQueue []).pendingMulDst = []) _ >>= fun _ =>
      Vm.finishWitness _ program.gadgetTwin.parts inputs (vm.withQueue [])) = _
    rw [hempty]
    rfl

end Run

/-- **Host precomputation is transparent.** A plain run on a queue the host filled with its own
    traces is the plain run of the gadget twin; and any run that succeeds, whatever its driver, has
    consumed one queue entry per host-supplied batch, in order, and left none. -/
theorem precomputation_transparent (host : Poseidon2.Host) (program : Program) :
    (∀ queue inputs, QueueMatches host program queue inputs →
      Vm.runPlain host program queue inputs = Vm.runPlain host program.gadgetTwin [] inputs) ∧
    ∀ (σ S : Type) (driver : VmDriver σ S) (queue : List (List (SiteTrace S))) (s : σ)
      (inputs : List (InputValue S)) (witness : Witness S),
      Vm.run driver program.parts host queue s inputs = .ok witness →
        queue.length = program.parts.precomputedBatches.length ∧
        ∀ k ≤ program.parts.instructions.length, ∃ vm,
          Vm.stateAfter driver program.parts host queue s inputs k = .ok vm ∧
            vm.precomputation = queue.drop (program.parts.precomputedBefore k) := by
  constructor
  · intro queue inputs hqueue
    exact (runPlain_twin hqueue).symm
  · intro σ S driver queue s inputs witness hrun
    refine ⟨Vm.run_queue hrun, ?_⟩
    intro k hk
    obtain ⟨vm, hvm⟩ := Vm.run_stateAfter hrun k
    have hqueue : Meets (fun _ => True) _
        (Vm.stateAfter driver program.parts host queue s inputs k) :=
      Vm.stateAfter_queue queue s inputs hk
    rw [hvm] at hqueue
    exact ⟨vm, hvm, hqueue.1⟩

/-- One host-supplied batch of one site of width two over the two secret inputs. -/
def suppliedParts : ProgramParts where
  instructions := [.gadget ⟨0⟩]
  constants := []
  inputDomains := [.shared, .shared]
  inputs := [⟨.shared, ⟨0⟩, ⟨0⟩⟩, ⟨.shared, ⟨1⟩, ⟨1⟩⟩]
  inputSignals := [⟨"in", 0, 2⟩]
  rounds := []
  roundOperands := []
  roundResults := []
  gadgetBatches := [⟨.precomputedPoseidon2 ⟨2, by decide⟩, 1,
    [⟨.shared, ⟨0⟩⟩, ⟨.shared, ⟨1⟩⟩], [⟨0⟩], [0, 1], [⟨.shared, ⟨2⟩⟩]⟩]
  witnessSources := [.one, .slot .shared ⟨2⟩]
  numInputs := 2
  slots := ⟨0, 3, 0⟩
  numPublicWitness := 1

def suppliedProgram : Program := ⟨suppliedParts, by rfl⟩

/-- The queue a host fills for the inputs `5` and `7`. -/
def suppliedQueue : List (List (SiteTrace Fr)) :=
  [[Poseidon2.siteTrace 2 ((default : Poseidon2.Host).constants ⟨2, by decide⟩)
    [Nat.cast 5, Nat.cast 7]]]

theorem suppliedQueue_matches :
    QueueMatches default suppliedProgram suppliedQueue [.secret 5, .secret 7] := by
  refine ⟨rfl, ?_⟩
  intro k vm index batch t hvm hinstruction hbatch hkind
  cases k with
  | succ k => cases hinstruction
  | zero =>
    cases hinstruction
    cases hbatch
    cases hkind
    have hstart : Vm.stateAfter (plainDriver default) suppliedParts default suppliedQueue ()
        [.secret 5, .secret 7] 0 = .ok ⟨(), suppliedQueue, [], [5, 7, 0], [], [], []⟩ := by
      generalize suppliedQueue = queue
      rfl
    rw [show suppliedProgram.parts = suppliedParts from rfl, hstart] at hvm
    cases hvm
    refine ⟨_, rfl, ?_⟩
    have hsingle (input : List Fr) (h : input.length = 2) :=
      Poseidon2.plainTrace_single default ⟨2, by decide⟩ h
    exact hsingle [5, 7] rfl

theorem precomputation_transparent_supplied :
    Vm.runPlain default suppliedProgram suppliedQueue [.secret 5, .secret 7] =
      Vm.runPlain default suppliedProgram.gadgetTwin [] [.secret 5, .secret 7] :=
  (precomputation_transparent default suppliedProgram).1 _ _ suppliedQueue_matches

end CircomMpc
