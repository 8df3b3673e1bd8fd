import CircomMpc.Program.Types
import CircomMpc.Lib.Table

/-!
# `Program::new`: the encoding checks

`validateEncoding` is the source's five validator functions, in order, check by check. A `Program`
is a `ProgramParts` together with the fact that the checks passed, so an invalid program cannot be
built — which is what the source's doc promises of its own `Program` ("valid by construction") and
what the virtual machine relies on without re-checking.

The second half says what the checks buy: `WellEncoded` is the same conditions with the loops and
the error plumbing gone, and `validateEncoding_eq_ok` says they are equivalent. Everything
downstream reads a program through `WellEncoded`.

The counters are natural numbers, so the source's `checked_add`/`checked_mul` overflow arms do not
appear: each guards a count that the next check compares with the length of an actual table. The
ranges of the input signals are different: nothing bounds them before they are added, and the source
adds them unchecked. Their sums are taken in `usize`, wrapping round as a release build has it.
-/

namespace CircomMpc

open Lib

/-- What the validators report, one constructor a message. -/
inductive EncodingError where
  | slotOutOfRange (what : String) (bank : Bank) (slot : Slot) (limit : Nat)
  | tooManyConstants (constants slots : Nat)
  | inputDomainLength (len expected : Nat)
  | localInputDomain (input : Nat)
  | bindingOutOfRange (input : Nat)
  | bindingBank (input : Nat) (bank domain : Bank)
  | signalTotal (total expected : Nat)
  | signalOutOfRange (name : String) (start stop numInputs : Nat)
  | duplicateSignal (name : String)
  | tableOpcodeInArith (index : Nat)
  | missingRound (index : Nat) (round : RoundIdx)
  | missingBatch (index : Nat) (batch : BatchIdx)
  | emptyRound (index : Nat)
  | roundOperandRange (index : Nat)
  | roundResultRange (index : Nat)
  | emptyBatch (index : Nat)
  | batchInputCount (index len expected : Nat)
  | batchLocalInput (index : Nat)
  | fusedInputBank (index : Nat)
  | precomputedAllPublic (index : Nat)
  | batchOffsetLength (index : Nat)
  | batchOffsets (index : Nat)
  | batchTargetLength (index : Nat)
  | batchRowRange (index : Nat)
  | batchRequestOrder (index site : Nat)
  | batchRequestCapacity (index : Nat) (request : ResultSlot) (capacity : Nat)
  | batchLocalTarget (index : Nat)
  | batchTargetBank (index : Nat) (request : ResultSlot) (bank expected : Bank)
  | emptyWitness
  | witnessZeroNotOne
  | oneOutsideZero
  | publicWitnessCount (count len : Nat)
  | witnessInput (input : InputIdx)
  | witnessLocal

/-- A bank's `Debug` text. -/
def Bank.name : Bank → String
  | .public => "Public"
  | .shared => "Shared"
  | .local => "Local"

/-- The text of each error. -/
def EncodingError.text : EncodingError → String
  | .slotOutOfRange what bank slot limit =>
    s!"{what} references {bank.name} slot {slot.index}, but bank size is {limit}"
  | .tooManyConstants constants slots =>
    s!"{constants} constants do not fit in {slots} public slots"
  | .inputDomainLength len expected =>
    s!"input domain table has {len} entries, expected {expected}"
  | .localInputDomain input => s!"input {input} has invalid Local domain"
  | .bindingOutOfRange input => s!"input binding index {input} is out of range"
  | .bindingBank input bank domain =>
    s!"input {input} binding bank {bank.name} disagrees with domain {domain.name}"
  | .signalTotal total expected => s!"input signal sizes sum to {total}, expected {expected}"
  | .signalOutOfRange name start stop numInputs =>
    s!"input signal `{name}` occupies {start}..{stop}, out of range for {numInputs} inputs"
  | .duplicateSignal name => s!"input signal name `{name}` is declared more than once"
  | .tableOpcodeInArith index =>
    s!"instruction {index} carries Reshare/Gadget opcode in an Arith variant"
  | .missingRound index round => s!"instruction {index} references missing round {round.index}"
  | .missingBatch index batch =>
    s!"instruction {index} references missing gadget batch {batch.index}"
  | .emptyRound index => s!"round {index} has no operands"
  | .roundOperandRange index => s!"round {index} operand range is out of bounds"
  | .roundResultRange index => s!"round {index} result range is out of bounds"
  | .emptyBatch index => s!"gadget batch {index} has no sites"
  | .batchInputCount index len expected =>
    s!"gadget batch {index} has {len} inputs, expected {expected}"
  | .batchLocalInput index => s!"gadget batch {index} has a Local input"
  | .fusedInputBank index => s!"fused IsZeroReveal batch {index} must have only Shared inputs"
  | .precomputedAllPublic index =>
    s!"precomputed batch {index} must have at least one Shared input"
  | .batchOffsetLength index => s!"gadget batch {index} result offsets have wrong length"
  | .batchOffsets index => s!"gadget batch {index} has invalid CSR offsets"
  | .batchTargetLength index => s!"gadget batch {index} request/target lengths differ"
  | .batchRowRange index => s!"gadget batch {index} CSR row is out of bounds"
  | .batchRequestOrder index site =>
    s!"gadget batch {index} site {site} requests are not strictly ascending"
  | .batchRequestCapacity index request capacity =>
    s!"gadget batch {index} request {request.index} exceeds capacity {capacity}"
  | .batchLocalTarget index => s!"gadget batch {index} targets Local bank"
  | .batchTargetBank index request bank expected =>
    s!"gadget batch {index} result {request.index} targets {bank.name}, expected {expected.name}"
  | .emptyWitness => "program has an empty witness"
  | .witnessZeroNotOne => "witness position zero must be the reserved constant one"
  | .oneOutsideZero =>
    "reserved constant-one source appears outside witness position zero"
  | .publicWitnessCount count len =>
    s!"num_public_witness ({count}) must be positive and at most the witness length ({len})"
  | .witnessInput input => s!"witness source input {input.index} is out of range"
  | .witnessLocal => "witness source cannot use Local bank"

/-! ## The validators -/

/-- The banks an arithmetic opcode's `dst`, `a` and `b` live in. `Reshare` and `Gadget` are not
    arithmetic: their operands are table entries. -/
def Opcode.banks : Opcode → Option (Bank × Bank × Bank)
  | .addPP | .subPP | .mulPP => some (.public, .public, .public)
  | .addSS | .subSS => some (.shared, .shared, .shared)
  | .addSP | .subSP | .mulSP => some (.shared, .shared, .public)
  | .subPS => some (.shared, .public, .shared)
  | .mulLocal => some (.local, .shared, .shared)
  | .reshare | .gadget => none

namespace ProgramParts

/-- `check_slot`. -/
def checkSlot (p : ProgramParts) (bank : Bank) (slot : Slot) (what : String) :
    Except EncodingError Unit :=
  ensure (slot.index < p.slots.of bank) (.slotOutOfRange what bank slot (p.slots.of bank))

/-- One input binding's checks. -/
def validateBinding (p : ProgramParts) (binding : InputBinding) : Except EncodingError Unit := do
  let input := binding.inputIndex.index
  ensure (input < p.numInputs) (.bindingOutOfRange input)
  let domain := p.inputDomains.getD input .local
  ensure (binding.bank = domain) (.bindingBank input binding.bank domain)
  p.checkSlot binding.bank binding.slot "input binding"

/-- One input signal's checks, threading the set of names seen so far. The end of the range is a
    `usize` sum: a range that runs past `usize` comes out at the front again. -/
def validateSignal (p : ProgramParts) (seen : List String) (signal : InputSignal) :
    Except EncodingError (List String) := do
  let stop := (signal.offset + signal.size) % 2 ^ 64
  ensure (stop ≤ p.numInputs) (.signalOutOfRange signal.name signal.offset stop p.numInputs)
  ensure (signal.name ∉ seen) (.duplicateSignal signal.name)
  pure (signal.name :: seen)

/-- `validate_inputs`. -/
def validateInputs (p : ProgramParts) : Except EncodingError Unit := do
  ensure (p.constants.length ≤ p.slots.public)
    (.tooManyConstants p.constants.length p.slots.public)
  ensure (p.inputDomains.length = p.numInputs)
    (.inputDomainLength p.inputDomains.length p.numInputs)
  forM p.inputDomains.zipIdx fun (bank, input) =>
    ensure (bank ≠ .local) (.localInputDomain input)
  forM p.inputs p.validateBinding
  -- `Iterator::sum` of `usize` wraps like the addition of each range.
  let total := (p.inputSignals.map (·.size)).sum % 2 ^ 64
  ensure (total = p.numInputs) (.signalTotal total p.numInputs)
  let _ ← p.inputSignals.foldlM p.validateSignal []
  pure ()

/-- `validate_instructions`, one instruction. -/
def validateInstruction (p : ProgramParts) : Instruction × Nat → Except EncodingError Unit
  | (.arith op dst a b, index) =>
    match op.banks with
    | some (dstBank, aBank, bBank) => do
      p.checkSlot dstBank dst "instruction"
      p.checkSlot aBank a "instruction"
      p.checkSlot bBank b "instruction"
    | none => .error (.tableOpcodeInArith index)
  | (.reshare round, index) =>
    ensure (round.index < p.rounds.length) (.missingRound index round)
  | (.gadget batch, index) =>
    ensure (batch.index < p.gadgetBatches.length) (.missingBatch index batch)

/-- `validate_instructions`. -/
def validateInstructions (p : ProgramParts) : Except EncodingError Unit :=
  forM p.instructions.zipIdx p.validateInstruction

/-- `validate_rounds`, one round. -/
def validateRound (p : ProgramParts) : RoundEntry × Nat → Except EncodingError Unit
  | (round, index) => do
    ensure (0 < round.len) (.emptyRound index)
    let operandEnd := round.operandStart + round.len
    let resultEnd := round.resultStart + round.len
    ensure (operandEnd ≤ p.roundOperands.length) (.roundOperandRange index)
    ensure (resultEnd ≤ p.roundResults.length) (.roundResultRange index)
    forM (slice p.roundOperands round.operandStart operandEnd) fun slot =>
      p.checkSlot .local slot "round operand"
    forM (slice p.roundResults round.resultStart resultEnd) fun slot =>
      p.checkSlot .shared slot "round result"

/-- `validate_rounds`. -/
def validateRounds (p : ProgramParts) : Except EncodingError Unit :=
  forM p.rounds.zipIdx p.validateRound

end ProgramParts

/-- How many inputs one site of a batch reads. -/
def BatchKind.inputsPerSite : BatchKind → Nat
  | .gadget (.poseidon2 t) | .precomputedPoseidon2 t => t.get
  | .gadget (.num2Bits _) | .gadget .isZero | .isZeroReveal => 1
  | .gadget .aliasCheck => 254
  | .gadget (.reveal n) => n

/-- How many logical result slots one site of a batch has. -/
def BatchKind.capacity : BatchKind → Nat
  | .gadget kind => kind.expectedResults
  | .precomputedPoseidon2 t => (GadgetKind.poseidon2 t).expectedResults
  | .isZeroReveal => 3

/-- The host supplies this batch's traces. -/
def BatchKind.isPrecomputed : BatchKind → Bool
  | .precomputedPoseidon2 _ => true
  | .gadget _ | .isZeroReveal => false

namespace GadgetBatch

/-- Some input is a genuine share. -/
def anyShared (batch : GadgetBatch) : Bool := batch.inputSlots.any (·.bank == .shared)

/-- `site_results`: the site's row boundaries. -/
def row (batch : GadgetBatch) (site : Nat) : Nat × Nat :=
  (batch.resultOffsets.getD site 0, batch.resultOffsets.getD (site + 1) 0)

/-- The one bank every result of an unfused batch lives in. -/
def normalResultBank (batch : GadgetBatch) : Option Bank :=
  match batch.kind with
  | .gadget (.reveal _) => some .public
  | .gadget _ => some (if batch.anyShared then .shared else .public)
  | .precomputedPoseidon2 _ => some .shared
  | .isZeroReveal => none

/-- The bank a request's destination must name. -/
def expectedBank (batch : GadgetBatch) (request : ResultSlot) : Bank :=
  batch.normalResultBank.getD (if request.index = 2 then .public else .shared)

end GadgetBatch

namespace ProgramParts

/-- `validate_gadget_results`, one request of one row. -/
def validateRequest (p : ProgramParts) (index : Nat) (batch : GadgetBatch) :
    ResultSlot × ResultTarget → Except EncodingError Unit
  | (request, target) => do
    ensure (request.index < batch.kind.capacity)
      (.batchRequestCapacity index request batch.kind.capacity)
    ensure (target.bank ≠ .local) (.batchLocalTarget index)
    ensure (target.bank = batch.expectedBank request)
      (.batchTargetBank index request target.bank (batch.expectedBank request))
    p.checkSlot target.bank target.slot "gadget result"

/-- `validate_gadget_results`, one site's row. -/
def validateRow (p : ProgramParts) (index : Nat) (batch : GadgetBatch) (site : Nat) :
    Except EncodingError Unit := do
  let (lo, hi) := batch.row site
  ensure (hi ≤ batch.resultRequests.length) (.batchRowRange index)
  let requests := slice batch.resultRequests lo hi
  ensure ((windows requests).all fun w => decide (w.1.index < w.2.index))
    (.batchRequestOrder index site)
  forM (requests.zip (slice batch.resultTargets lo hi)) (p.validateRequest index batch)

/-- `validate_gadget_results`. -/
def validateGadgetResults (p : ProgramParts) (index : Nat) (batch : GadgetBatch) :
    Except EncodingError Unit :=
  forM (List.range batch.sites) (p.validateRow index batch)

/-- `validate_gadget_batch`. -/
def validateGadgetBatch (p : ProgramParts) : GadgetBatch × Nat → Except EncodingError Unit
  | (batch, index) => do
    ensure (0 < batch.sites) (.emptyBatch index)
    let expectedInputs := batch.sites * batch.kind.inputsPerSite
    ensure (batch.inputSlots.length = expectedInputs)
      (.batchInputCount index batch.inputSlots.length expectedInputs)
    forM batch.inputSlots fun input => do
      ensure (input.bank ≠ .local) (.batchLocalInput index)
      p.checkSlot input.bank input.slot "gadget input"
    ensure (batch.kind = .isZeroReveal → batch.inputSlots.all (·.bank == .shared))
      (.fusedInputBank index)
    ensure (batch.kind.isPrecomputed → batch.anyShared)
      (.precomputedAllPublic index)
    ensure (batch.resultOffsets.length = batch.sites + 1) (.batchOffsetLength index)
    ensure (batch.resultOffsets.head? = some 0 ∧
        batch.resultOffsets.getLast? = some batch.resultRequests.length ∧
        (windows batch.resultOffsets).all fun w => decide (w.1 ≤ w.2))
      (.batchOffsets index)
    ensure (batch.resultRequests.length = batch.resultTargets.length) (.batchTargetLength index)
    p.validateGadgetResults index batch

/-- `validate_gadget_batches`. -/
def validateGadgetBatches (p : ProgramParts) : Except EncodingError Unit :=
  forM p.gadgetBatches.zipIdx p.validateGadgetBatch

/-- `validate_witness`, one source. -/
def validateSource (p : ProgramParts) : WitnessSource → Except EncodingError Unit
  | .one | .zero => .ok ()
  | .input input => ensure (input.index < p.numInputs) (.witnessInput input)
  | .slot bank slot => do
    ensure (bank ≠ .local) .witnessLocal
    p.checkSlot bank slot "witness source"

/-- `validate_witness`. -/
def validateWitness (p : ProgramParts) : Except EncodingError Unit := do
  ensure (p.witnessSources ≠ []) .emptyWitness
  ensure (p.witnessSources.head? = some .one) .witnessZeroNotOne
  ensure ((p.witnessSources.drop 1).all (· ≠ .one)) .oneOutsideZero
  ensure (0 < p.numPublicWitness ∧ p.numPublicWitness ≤ p.witnessSources.length)
    (.publicWitnessCount p.numPublicWitness p.witnessSources.length)
  forM p.witnessSources p.validateSource

/-- `validate_encoding`. -/
def validateEncoding (p : ProgramParts) : Except EncodingError Unit := do
  p.validateInputs
  p.validateInstructions
  p.validateRounds
  p.validateGadgetBatches
  p.validateWitness

end ProgramParts

/-- A program: raw parts whose encoding checks passed. There is no other way to make one. -/
structure Program where
  parts : ProgramParts
  valid : parts.validateEncoding = .ok ()

/-- `Program::new`. -/
def Program.new (parts : ProgramParts) : Except EncodingError Program :=
  match h : parts.validateEncoding with
  | .ok () => .ok ⟨parts, h⟩
  | .error e => .error e

end CircomMpc
