import CircomMpc.Program.Validate

/-!
# How a run can fail

One constructor for every `ensure!`, `bail!`, panic, index and `unreachable!` the virtual machine
and the gadgets contain, with the values its message shows. The last four are the ones the source
does not report as errors: an index past the end of a table, an assertion, an arm the source calls
unreachable, and a vector of more bytes than the target allows. Making them values is what lets a
theorem say that a run never gets there, or when it does.
-/

namespace CircomMpc

inductive RunError where
  /- What a caller can get wrong: `Vm::run`'s arguments. -/
  | inputCount (expected got : Nat)
  | inputVariant (input : InputIdx) (bank : Bank)
  | precomputationMissing (t sites : Nat)
  | precomputationSites (t got expected : Nat)
  | precomputationOutputs (t site got : Nat)
  | precomputationIntermediate (t site idx supplied : Nat)
  | precomputationLeftover (batches : Nat)
  /- What a program can get wrong that `Program::new` does not check. -/
  | roundMismatch
  | pendingMulLocal
  /- The machine's own consistency checks. -/
  | reshareLength (got expected : Nat)
  | publicBatchInput
  | fusedEmpty
  | fusedInputCount (inputs sites : Nat)
  | fusedInputBank
  | fusedTraceCount (got expected : Nat)
  | fusedTable
  | fusedRow
  | fusedTarget (what : String) (bank : Bank)
  | fusedSlot (slot : Nat)
  | batchEmpty
  | batchResultMultiple (kind : BatchKind) (sites got : Nat)
  | batchSlotCapacity (kind : BatchKind) (slot capacity : Nat)
  | batchResultCount (kind : BatchKind) (got expected : Nat)
  | batchTargetBank (kind : BatchKind)
  | witnessPublicCount (len count : Nat)
  | witnessPublicZero
  | witnessNotOne
  /- The gadgets' own checks. -/
  | aliasCheckInputs (got : Nat)
  | poseidon2Width (t : Nat)
  | poseidon2States (t states : Nat)
  | poseidon2OffsetCount (got expected sites : Nat)
  | poseidon2OffsetStart
  | poseidon2OffsetEnd (got requests : Nat)
  | poseidon2Row (site lo hi : Nat)
  | poseidon2RowOrder (site : Nat)
  | poseidon2RowCapacity (site slot capacity : Nat)
  | poseidon2Unrecorded (site position : Nat)
  /- The three-party gadgets' checks, and their mask pool's. -/
  | maskedRevealEmpty
  | aliasCheckShares (got : Nat)
  | maskFullOverflow (t : Nat)
  | maskSiteOverflow (t : Nat)
  | maskBatchOverflow (t sites : Nat)
  | maskBudgetBatch (instruction : Nat) (batch : BatchIdx)
  | maskBudgetOverflow (instruction : Nat)
  | maskPowersOverflow
  | maskCursorOverflow
  | maskPoolExhausted (requested remaining : Nat)
  | maskPoolMismatch (consumed prepared : Nat)
  | poseidon2Consumed (t consumed expected : Nat)
  | serviceWidth (prepared called : Nat)
  /- What the protocol library reports: a network round failed, or a zero was to be inverted. -/
  | driver (reason : String)
  | inverseOfZero
  /- What the source does not report: it panics. -/
  | indexOutOfRange (what : String) (index : Nat)
  | assertion (what : String)
  | unreachable (what : String)
  | capacityOverflow

/-- A gadget kind's `Debug` text. -/
def GadgetKind.debug : GadgetKind → String
  | poseidon2 t => s!"Poseidon2 \x7b t: Poseidon2Width({t.get}) \x7d"
  | num2Bits n => s!"Num2Bits \x7b n: {n} \x7d"
  | isZero => "IsZero"
  | aliasCheck => "AliasCheck"
  | reveal n => s!"Reveal \x7b n: {n} \x7d"

/-- A batch kind's. -/
def BatchKind.debug : BatchKind → String
  | gadget kind => s!"Gadget({kind.debug})"
  | precomputedPoseidon2 t => s!"PrecomputedPoseidon2 \x7b t: Poseidon2Width({t.get}) \x7d"
  | isZeroReveal => "IsZeroReveal"

namespace RunError

/-- The text of each error; a panic's text is its payload. -/
def text : RunError → String
  | inputCount expected got => s!"expected {expected} inputs, got {got}"
  | inputVariant input bank =>
    s!"input {input.index} is {bank.name}-domain but was supplied as the other InputValue variant"
  | precomputationMissing t sites =>
    s!"missing precomputed trace for a Poseidon2\x7bt={t}\x7d batch ({sites} sites) - " ++
      "GadgetPrecomputation was exhausted before the run reached it"
  | precomputationSites t got expected =>
    s!"precomputed Poseidon2\x7bt={t}\x7d batch was supplied {got} site trace(s), " ++
      s!"expected {expected}"
  | precomputationOutputs t site got =>
    s!"precomputed Poseidon2\x7bt={t}\x7d site {site} supplied {got} outputs, expected {t}"
  | precomputationIntermediate t site idx supplied =>
    s!"precomputed Poseidon2\x7bt={t}\x7d site {site} requested intermediate slot {idx}, " ++
      s!"but only {supplied} were supplied"
  | precomputationLeftover batches =>
    s!"GadgetPrecomputation has {batches} unconsumed batch(es) after the run"
  | roundMismatch => "MulLocal instructions do not match the following round's operand table"
  | pendingMulLocal => "program ended with MulLocal instructions not followed by Reshare"
  | reshareLength got expected => s!"reshare returned {got} results, expected {expected}"
  | publicBatchInput => "public gadget batch has a non-public input"
  | fusedEmpty => "fused IsZero/Reveal batch has no sites"
  | fusedInputCount inputs sites =>
    s!"fused IsZero/Reveal batch has {inputs} inputs for {sites} sites"
  | fusedInputBank => "fused IsZero/Reveal requires one Shared input per site"
  | fusedTraceCount got expected =>
    s!"fused IsZero/Reveal returned {got} site traces, expected {expected}"
  | fusedTable => "malformed fused IsZero/Reveal CSR result table"
  | fusedRow => "invalid fused CSR row"
  | fusedTarget what bank => s!"{what} must target {bank.name}"
  | fusedSlot slot => s!"fused IsZero/Reveal requested invalid logical slot {slot}"
  | batchEmpty => "gadget batch has no sites"
  | batchResultMultiple kind sites got =>
    s!"gadget batch ({kind.debug}, {sites} sites) returned {got} results, " ++
      "not an even multiple of the site count"
  | batchSlotCapacity kind slot capacity =>
    s!"gadget batch ({kind.debug}) requested slot {slot}, exceeding the {capacity} " ++
      "the circuit's own signal layout reserves"
  | batchResultCount kind got expected =>
    s!"gadget batch ({kind.debug}) produced {got} results, expected exactly {expected} " ++
      "(one per requested slot)"
  | batchTargetBank kind =>
    s!"gadget batch ({kind.debug}) result targets mixed banks unexpectedly"
  | witnessPublicCount len count =>
    s!"witness has {len} entries but the program declares {count} public witness entries"
  | witnessPublicZero =>
    "num_public_witness must count the reserved constant-1 witness entry, so it is never 0"
  | witnessNotOne =>
    "witness position 0 must be the reserved constant 1, got something else - either the program " ++
      "is malformed or num_public_witness is misaligned"
  | aliasCheckInputs got => s!"alias_check_traces: {got} inputs is not a multiple of 254"
  | poseidon2Width t =>
    s!"unsupported Poseidon2 width t={t} - circuits/node_modules/@taceo/circom-lib/circuits/" ++
      s!"poseidon2.circom only defines {poseidon2SupportedWidths}"
  | poseidon2States t states =>
    s!"Poseidon2(t={t}): {states} state elements is not a non-zero multiple of t"
  | poseidon2OffsetCount got expected sites =>
    s!"Poseidon2 request offsets has length {got}, expected {expected} for {sites} sites"
  | poseidon2OffsetStart => "Poseidon2 request offsets must start at zero"
  | poseidon2OffsetEnd got requests =>
    s!"Poseidon2 final request offset is {got}, but there are {requests} requests"
  | poseidon2Row site lo hi => s!"Poseidon2 site {site} has invalid request range {lo}..{hi}"
  | poseidon2RowOrder site =>
    s!"Poseidon2 site {site} result requests must be strictly ascending"
  | poseidon2RowCapacity site slot capacity =>
    s!"Poseidon2 site {site} requested result slot {slot}, but capacity is {capacity}"
  | poseidon2Unrecorded site position =>
    s!"Poseidon2 site {site} did not emit requested result position {position}"
  | maskedRevealEmpty => "masked IsZero/Reveal batch is empty"
  | aliasCheckShares got => s!"AliasCheck rep3_trace: {got} inputs is not a multiple of 254"
  | maskFullOverflow t => s!"Poseidon2(t={t}) full-round mask count overflows"
  | maskSiteOverflow t => s!"Poseidon2(t={t}) per-site mask count overflows"
  | maskBatchOverflow t sites => s!"Poseidon2(t={t}) mask budget overflows for {sites} sites"
  | maskBudgetBatch instruction batch =>
    s!"instruction {instruction} references missing gadget batch {batch.index}"
  | maskBudgetOverflow instruction =>
    s!"program-wide Poseidon2 mask budget overflows at instruction {instruction}"
  | maskPowersOverflow => "Poseidon2 power-preprocessing vector length overflows"
  | maskCursorOverflow => "Poseidon2 mask-pool cursor overflows"
  | maskPoolExhausted requested remaining =>
    s!"Poseidon2 mask pool exhausted: {requested} elements requested, {remaining} remain"
  | maskPoolMismatch consumed prepared =>
    s!"Poseidon2 mask pool consumption mismatch: consumed {consumed}, prepared {prepared}"
  | poseidon2Consumed t consumed expected =>
    s!"Poseidon2(t={t}) consumed {consumed} masks, expected {expected}"
  | serviceWidth prepared called =>
    s!"Poseidon2Service was prepared for t={prepared}, called with t={called}"
  | driver reason => reason
  | inverseOfZero => "During execution of inverse in MPC: cannot compute inverse of zero"
  | indexOutOfRange what index => s!"{what}: index {index} out of range"
  | assertion what => what
  | unreachable what => what
  | capacityOverflow => "capacity overflow"

/-- The causes a caller or an unchecked property of the program is responsible for: everything
    `Vm::run` documents as its own error, and the two schedule mismatches the encoding checks do
    not rule out. -/
inductive Unvalidated : RunError → Prop where
  | inputCount {expected got} : Unvalidated (.inputCount expected got)
  | inputVariant {input bank} : Unvalidated (.inputVariant input bank)
  | roundMismatch : Unvalidated .roundMismatch
  | pendingMulLocal : Unvalidated .pendingMulLocal
  | precomputationMissing {t sites} : Unvalidated (.precomputationMissing t sites)
  | precomputationSites {t got expected} : Unvalidated (.precomputationSites t got expected)
  | precomputationOutputs {t site got} : Unvalidated (.precomputationOutputs t site got)
  | precomputationIntermediate {t site idx supplied} :
      Unvalidated (.precomputationIntermediate t site idx supplied)
  | precomputationLeftover {batches} : Unvalidated (.precomputationLeftover batches)

end RunError

end CircomMpc
