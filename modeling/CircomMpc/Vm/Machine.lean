import CircomMpc.Vm.Driver
import CircomMpc.Program.Inputs

/-!
# The virtual machine

`vm.rs`, function by function: one step per instruction over a state of two banks, the products
waiting for their round, the precomputation queue and the driver's own state. Every indexing of the
source is a read or a write here that may miss (`readSlot`, `writeSlot`, `rangeOf`), so that a run
that would panic is a run that returns `indexOutOfRange`.

`run` takes the positional inputs. The machine has no clock and no fuel: an instruction stream is a
list, and a run is a fold over it.
-/

namespace CircomMpc

open Lib

variable {σ S α : Type}

/-! ## The witness and the state -/

/-- A run's witness, split at the program's public count. -/
structure Witness (S : Type) where
  publicInputs : List Fr
  witness : List S
deriving DecidableEq, Repr

/-- `Witness::into_full`. -/
def Witness.intoFull (w : Witness Fr) : List Fr := w.publicInputs ++ w.witness

/-- `Vm`'s execution state: the driver, the host's traces still to be used, the two banks, and the
    products put off until their round. -/
structure VmState (σ S : Type) where
  driver : σ
  precomputation : List (List (SiteTrace S))
  «public» : List Fr
  shared : List S
  pendingMulLhs : List S
  pendingMulRhs : List S
  pendingMulDst : List Slot

/-! ## Indexing -/

/-- `xs[i]`. -/
def readAt (what : String) (xs : List α) (i : Nat) : Except RunError α :=
  orElse (.indexOutOfRange what i) xs[i]?

/-- `bank[slot]`. -/
def readSlot (bank : List α) (slot : Slot) : Except RunError α :=
  readAt "SlotBank" bank slot.index

/-- `bank[slot] = value`. -/
def writeSlot (bank : List α) (slot : Slot) (value : α) : Except RunError (List α) :=
  if slot.index < bank.length then .ok (bank.set slot.index value)
  else .error (.indexOutOfRange "SlotBank" slot.index)

/-- `&xs[lo..hi]`. -/
def rangeOf (what : String) (xs : List α) (lo hi : Nat) : Except RunError (List α) :=
  if lo ≤ hi ∧ hi ≤ xs.length then .ok (slice xs lo hi)
  else .error (.indexOutOfRange what hi)

namespace Vm

variable (driver : VmDriver σ S) (p : ProgramParts)

/-! ## Starting a run -/

/-- `initialize_inputs`, one binding. -/
def bindInput (inputs : List (InputValue S)) (vm : VmState σ S) (binding : InputBinding) :
    Except RunError (VmState σ S) := do
  let value ← readAt "inputs" inputs binding.inputIndex.index
  match binding.bank, value with
  | .public, .public v => do
    let bank ← writeSlot vm.public binding.slot v
    pure { vm with «public» := bank }
  | .shared, .secret v => do
    let bank ← writeSlot vm.shared binding.slot v
    pure { vm with shared := bank }
  | bank, _ => .error (.inputVariant binding.inputIndex bank)

/-- `initialize_inputs`: zeroed banks, then the constants at the front of the public one, then the
    bound inputs. -/
def initializeInputs (precomputation : List (List (SiteTrace S))) (s : σ)
    (inputs : List (InputValue S)) : Except RunError (VmState σ S) := do
  let zeroed := List.replicate p.slots.public (0 : Fr)
  let withConstants ← p.constants.zipIdx.foldlM
    (fun bank (c, i) => writeSlot bank ⟨i⟩ c) zeroed
  p.inputs.foldlM (bindInput inputs)
    { driver := s
      precomputation
      «public» := withConstants
      shared := List.replicate p.slots.shared driver.default
      pendingMulLhs := []
      pendingMulRhs := []
      pendingMulDst := [] }

/-! ## Arithmetic -/

/-- An operation on two public slots. -/
def publicArith (f : Fr → Fr → Fr) (vm : VmState σ S) (dst a b : Slot) :
    Except RunError (VmState σ S) := do
  let x ← readSlot vm.public a
  let y ← readSlot vm.public b
  let bank ← writeSlot vm.public dst (f x y)
  pure { vm with «public» := bank }

/-- An operation on a slot of each of two banks, into the shared one. -/
def sharedArith {X Y : Type} (f : X → Y → S) (xs : List X) (ys : List Y) (vm : VmState σ S)
    (dst a b : Slot) : Except RunError (VmState σ S) := do
  let x ← readSlot xs a
  let y ← readSlot ys b
  let bank ← writeSlot vm.shared dst (f x y)
  pure { vm with shared := bank }

/-- `execute_arithmetic`'s `MulLocal` arm: keep the operand values, because their slots may be
    recycled before the round. -/
def deferProduct (vm : VmState σ S) (dst a b : Slot) : Except RunError (VmState σ S) := do
  let x ← readSlot vm.shared a
  let y ← readSlot vm.shared b
  pure { vm with
    pendingMulLhs := vm.pendingMulLhs ++ [x]
    pendingMulRhs := vm.pendingMulRhs ++ [y]
    pendingMulDst := vm.pendingMulDst ++ [dst] }

/-- `execute_arithmetic`. -/
def executeArithmetic (vm : VmState σ S) (op : Opcode) (dst a b : Slot) :
    Except RunError (VmState σ S) :=
  match op with
  | .addPP => publicArith (· + ·) vm dst a b
  | .subPP => publicArith (· - ·) vm dst a b
  | .mulPP => publicArith (· * ·) vm dst a b
  | .addSS => sharedArith driver.addSS vm.shared vm.shared vm dst a b
  | .subSS => sharedArith driver.subSS vm.shared vm.shared vm dst a b
  | .addSP => sharedArith driver.addSP vm.shared vm.public vm dst a b
  | .subSP => sharedArith driver.subSP vm.shared vm.public vm dst a b
  | .subPS => sharedArith driver.subPS vm.public vm.shared vm dst a b
  | .mulSP => sharedArith driver.mulSP vm.shared vm.public vm dst a b
  | .mulLocal => deferProduct vm dst a b
  | .reshare | .gadget =>
    .error (.unreachable "Reshare/Gadget never appear in an Arith instruction")

/-! ## Rounds -/

/-- `execute_reshare`. -/
def executeReshare (vm : VmState σ S) (round : RoundIdx) : Except RunError (VmState σ S) := do
  let entry ← readAt "rounds" p.rounds round.index
  let operands ← rangeOf "round_operands" p.roundOperands entry.operandStart
    (entry.operandStart + entry.len)
  ensure (vm.pendingMulDst = operands) .roundMismatch
  let (results, s) ← driver.mulVec vm.pendingMulLhs vm.pendingMulRhs vm.driver
  ensure (results.length = entry.len) (.reshareLength results.length entry.len)
  let shared ← results.zipIdx.foldlM
    (fun bank (result, offset) => do
      let slot ← readAt "round_results" p.roundResults (entry.resultStart + offset)
      writeSlot bank slot result) vm.shared
  pure { vm with
    driver := s, shared, pendingMulLhs := [], pendingMulRhs := [], pendingMulDst := [] }

/-! ## Gadget batches -/

/-- `run_plain_batch`: everything but Poseidon2. -/
def runPlainBatch (host : Poseidon2.Host) (kind : GadgetKind) (inputs : List Fr) :
    Except RunError (List Fr) :=
  match kind with
  | .poseidon2 _ =>
    .error (.unreachable "public Poseidon2 takes the requested-trace path in run_batch")
  | .num2Bits n => Num2Bits.plainTraceMany host.isizeMax n inputs
  | .isZero => .ok (IsZero.plainTraceMany inputs)
  | .aliasCheck => aliasCheckTracesPlain inputs
  | .reveal _ => .ok inputs

/-- `select_requests`, one site: its requested slots out of its own part of the batch's trace. -/
def selectSite (full : List α) (batch : GadgetBatch) (capacity site : Nat) :
    Except RunError (List α) := do
  let siteFull ← rangeOf "full" full (site * capacity) ((site + 1) * capacity)
  let lo ← readAt "result_offsets" batch.resultOffsets site
  let hi ← readAt "result_offsets" batch.resultOffsets (site + 1)
  let requests ← rangeOf "result_requests" batch.resultRequests lo hi
  requests.mapM fun logical => do
    ensure (logical.index < capacity) (.batchSlotCapacity batch.kind logical.index capacity)
    readAt "site_full" siteFull logical.index

/-- `select_requests`. -/
def selectRequests (full : List α) (batch : GadgetBatch) : Except RunError (List α) := do
  ensure (0 < batch.sites) .batchEmpty
  ensure (full.length % batch.sites = 0)
    (.batchResultMultiple batch.kind batch.sites full.length)
  let capacity := full.length / batch.sites
  let selected ← (List.range batch.sites).mapM (selectSite full batch capacity)
  pure selected.flatten

/-- `store_batch_results`. -/
def storeBatchResults (batch : GadgetBatch) (results : List α) (expectedBank : Bank)
    (destination : List α) : Except RunError (List α) := do
  ensure (results.length = batch.resultTargets.length)
    (.batchResultCount batch.kind results.length batch.resultTargets.length)
  (batch.resultTargets.zip results).foldlM
    (fun bank (target, value) => do
      ensure (target.bank = expectedBank) (.batchTargetBank batch.kind)
      writeSlot bank target.slot value) destination

/-- `run_batch`'s all-public path. -/
def runPublicBatch (host : Poseidon2.Host) (vm : VmState σ S) (batch : GadgetBatch)
    (kind : GadgetKind) : Except RunError (VmState σ S) := do
  let inputs ← batch.inputSlots.mapM fun input => do
    ensure (input.bank = .public) .publicBatchInput
    readSlot vm.public input.slot
  let selected ← match kind with
    | .poseidon2 t =>
      Poseidon2.plainTraceRequested host t.get inputs (batch.resultRequests.map (·.index))
        batch.resultOffsets
    | kind => do
      let results ← runPlainBatch host kind inputs
      selectRequests results batch
  let bank ← storeBatchResults batch selected .public vm.public
  pure { vm with «public» := bank }

/-- `run_batch`'s input collection on the secret path: a public value is promoted. -/
def batchInput (vm : VmState σ S) (input : SiteInput) : Except RunError S :=
  match input.bank with
  | .public => do
    let value ← readSlot vm.public input.slot
    pure (driver.promote value)
  | .shared => readSlot vm.shared input.slot
  | .local => .error (.unreachable "codegen rejects an un-reshared MulLocal feeding a site")

/-- `run_batch`'s secret path. `Reveal` is the one kind whose result is public. -/
def runSharedBatch (vm : VmState σ S) (batch : GadgetBatch) (kind : GadgetKind) :
    Except RunError (VmState σ S) := do
  let inputs ← batch.inputSlots.mapM (batchInput driver vm)
  match kind with
  | .reveal _ => do
    let (opened, s) ← driver.openShares inputs vm.driver
    let selected ← selectRequests opened batch
    let bank ← storeBatchResults batch selected .public vm.public
    pure { vm with driver := s, «public» := bank }
  | .poseidon2 t => do
    let (selected, s) ← driver.poseidon2RequestedTraces t.get inputs
      (batch.resultRequests.map (·.index)) batch.resultOffsets vm.driver
    let bank ← storeBatchResults batch selected .shared vm.shared
    pure { vm with driver := s, shared := bank }
  | .num2Bits n => do
    let (results, s) ← driver.num2bitsTraces n inputs vm.driver
    let selected ← selectRequests results batch
    let bank ← storeBatchResults batch selected .shared vm.shared
    pure { vm with driver := s, shared := bank }
  | .isZero => do
    let (results, s) ← driver.isZeroTraces inputs vm.driver
    let selected ← selectRequests results batch
    let bank ← storeBatchResults batch selected .shared vm.shared
    pure { vm with driver := s, shared := bank }
  | .aliasCheck => do
    let (results, s) ← driver.aliasCheckTraces inputs vm.driver
    let selected ← selectRequests results batch
    let bank ← storeBatchResults batch selected .shared vm.shared
    pure { vm with driver := s, shared := bank }

/-- `run_is_zero_reveal_batch`, one requested result of one site. -/
def storeFused (trace : IsZeroRevealTrace S) (vm : VmState σ S) :
    ResultSlot × ResultTarget → Except RunError (VmState σ S)
  | (logical, target) =>
    match logical.index with
    | 0 => do
      ensure (target.bank = .shared) (.fusedTarget "IsZero.out" .shared)
      let bank ← writeSlot vm.shared target.slot trace.isZero
      pure { vm with shared := bank }
    | 1 => do
      ensure (target.bank = .shared) (.fusedTarget "IsZero.inv" .shared)
      let bank ← writeSlot vm.shared target.slot trace.inverse
      pure { vm with shared := bank }
    | 2 => do
      ensure (target.bank = .public) (.fusedTarget "Reveal.out" .public)
      let bank ← writeSlot vm.public target.slot trace.revealed
      pure { vm with «public» := bank }
    | other => .error (.fusedSlot other)

/-- `run_is_zero_reveal_batch`, one site. -/
def storeFusedSite (batch : GadgetBatch) (vm : VmState σ S) :
    IsZeroRevealTrace S × Nat → Except RunError (VmState σ S)
  | (trace, site) => do
    let lo ← readAt "result_offsets" batch.resultOffsets site
    let hi ← readAt "result_offsets" batch.resultOffsets (site + 1)
    ensure (lo ≤ hi ∧ hi ≤ batch.resultRequests.length) .fusedRow
    let requests ← rangeOf "result_requests" batch.resultRequests lo hi
    let targets ← rangeOf "result_targets" batch.resultTargets lo hi
    (requests.zip targets).foldlM (storeFused trace) vm

/-- `run_is_zero_reveal_batch`. -/
def runIsZeroRevealBatch (vm : VmState σ S) (batch : GadgetBatch) :
    Except RunError (VmState σ S) := do
  ensure (0 < batch.sites) .fusedEmpty
  ensure (batch.inputSlots.length = batch.sites)
    (.fusedInputCount batch.inputSlots.length batch.sites)
  let inputs ← batch.inputSlots.mapM fun input => do
    ensure (input.bank = .shared) .fusedInputBank
    readSlot vm.shared input.slot
  let (traces, s) ← driver.isZeroRevealTraces inputs vm.driver
  ensure (traces.length = batch.sites) (.fusedTraceCount traces.length batch.sites)
  ensure (batch.resultOffsets.length = batch.sites + 1 ∧
    batch.resultRequests.length = batch.resultTargets.length) .fusedTable
  traces.zipIdx.foldlM (storeFusedSite batch) { vm with driver := s }

/-- `run_precomputed_batch`, one requested result: the output or intermediate it names. -/
def precomputedValue (t site : Nat) (trace : SiteTrace S) (logical : Nat) : Except RunError S :=
  if logical < t then readAt "trace.output" trace.output logical
  else
    let idx := logical - t
    orElse (.precomputationIntermediate t site idx trace.intermediate.length)
      trace.intermediate[idx]?

/-- `run_precomputed_batch`, one site. -/
def storePrecomputedSite (t : Nat) (batch : GadgetBatch) (shared : List S) :
    (SiteTrace S × (Nat × Nat)) × Nat → Except RunError (List S)
  | ((trace, (lo, hi)), site) => do
    ensure (trace.output.length = t) (.precomputationOutputs t site trace.output.length)
    let requests ← rangeOf "result_requests" batch.resultRequests lo hi
    let targets ← rangeOf "result_targets" batch.resultTargets lo hi
    (requests.zip targets).foldlM
      (fun bank (logical, target) => do
        let value ← precomputedValue t site trace logical.index
        writeSlot bank target.slot value) shared

/-- `run_precomputed_batch`. -/
def runPrecomputedBatch (vm : VmState σ S) (t : Nat) (batch : GadgetBatch) :
    Except RunError (VmState σ S) :=
  match vm.precomputation with
  | [] => .error (.precomputationMissing t batch.sites)
  | sites :: queue => do
    ensure (sites.length = batch.sites) (.precomputationSites t sites.length batch.sites)
    let shared ← (sites.zip (windows batch.resultOffsets)).zipIdx.foldlM
      (storePrecomputedSite t batch) vm.shared
    pure { vm with precomputation := queue, shared }

/-- `run_batch`. -/
def runBatch (host : Poseidon2.Host) (vm : VmState σ S) (batch : GadgetBatch) :
    Except RunError (VmState σ S) :=
  match batch.kind with
  | .isZeroReveal => runIsZeroRevealBatch driver vm batch
  | .precomputedPoseidon2 t => runPrecomputedBatch vm t.get batch
  | .gadget kind =>
    if batch.anyShared then runSharedBatch driver vm batch kind
    else runPublicBatch host vm batch kind

/-! ## The run -/

/-- `execute_instructions`, one instruction. -/
def executeInstruction (host : Poseidon2.Host) (vm : VmState σ S) :
    Instruction → Except RunError (VmState σ S)
  | .arith op dst a b => executeArithmetic driver vm op dst a b
  | .reshare round => executeReshare driver p vm round
  | .gadget batch => do
    let batch ← readAt "gadget_batches" p.gadgetBatches batch.index
    runBatch driver host vm batch

/-- `execute_instructions`. -/
def executeInstructions (host : Poseidon2.Host) (vm : VmState σ S) :
    Except RunError (VmState σ S) := do
  let vm ← p.instructions.foldlM (executeInstruction driver p host) vm
  ensure (vm.pendingMulDst = []) .pendingMulLocal
  pure vm

/-- `collect_witness`, one source. -/
def collectSource (inputs : List (InputValue S)) (vm : VmState σ S) :
    WitnessSource → Except RunError S
  | .one => .ok (driver.promote 1)
  | .zero => .ok (driver.promote 0)
  | .input i => do
    match ← readAt "inputs" inputs i.index with
    | .public value => pure (driver.promote value)
    | .secret value => pure value
  | .slot .public slot => do
    let value ← readSlot vm.public slot
    pure (driver.promote value)
  | .slot .shared slot => readSlot vm.shared slot
  | .slot .local _ => .error (.unreachable "codegen never emits a Local witness source")

/-- `collect_witness`. -/
def collectWitness (inputs : List (InputValue S)) (vm : VmState σ S)
    (sources : List WitnessSource) : Except RunError (List S) :=
  sources.mapM (collectSource driver inputs vm)

/-- `finish_witness`. The length check after `open` is the source's `debug_assert_eq!`. -/
def finishWitness (inputs : List (InputValue S)) (vm : VmState σ S) :
    Except RunError (Witness S) := do
  ensure (vm.precomputation = []) (.precomputationLeftover vm.precomputation.length)
  let s ← driver.finish vm.driver
  let nPub := p.numPublicWitness
  ensure (nPub ≤ p.witnessSources.length) (.witnessPublicCount p.witnessSources.length nPub)
  ensure (0 < nPub) .witnessPublicZero
  let publicShares ← collectWitness driver inputs vm (p.witnessSources.take nPub)
  let secret ← collectWitness driver inputs vm (p.witnessSources.drop nPub)
  let (publicInputs, _) ← driver.openShares publicShares s
  ensure (publicInputs.length = nPub)
    (.assertion "open must return one value per opened share")
  let first ← readAt "public_inputs" publicInputs 0
  ensure (first = 1) .witnessNotOne
  pure { publicInputs, witness := secret }

/-- `Vm::run`, over positional inputs. -/
def run (host : Poseidon2.Host) (precomputation : List (List (SiteTrace S))) (s : σ)
    (inputs : List (InputValue S)) : Except RunError (Witness S) := do
  ensure (inputs.length = p.numInputs) (.inputCount p.numInputs inputs.length)
  let vm ← initializeInputs driver p precomputation s inputs
  let vm ← executeInstructions driver p host vm
  finishWitness driver p inputs vm

/-- `Vm::plain(program).with_precomputation(queue).run(inputs)`. -/
def runPlain (host : Poseidon2.Host) (program : Program)
    (precomputation : List (List (SiteTrace Fr))) (inputs : List (InputValue Fr)) :
    Except RunError (Witness Fr) :=
  run (plainDriver host) program.parts host precomputation () inputs

end Vm

end CircomMpc
