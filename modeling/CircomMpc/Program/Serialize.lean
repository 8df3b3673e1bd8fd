import CircomMpc.Program.Validate
import CircomMpc.Lib.Codec

/-!
# The binary format

`serialize.rs`: the encoder and the separately written decoder. An 8-byte magic and a `u32` version,
then twelve tables in a fixed order, every one a `u64` count and its entries, then the scalars.
Integers are little-endian, enumerations are one-byte tags, an instruction is a 16-byte record.

Two things the source leaves to its environment are parameters. `FrCodec` is `ark_serialize`'s
compressed encoding of a field element. `MemSizes` is what `size_of` answers for the entry types
whose layout the compiler chooses; the sizes the language fixes (`u8`, `u32`, `u64`, `()`) are
written out where they are used. A `usize` is 64 bits wide.
-/

namespace CircomMpc

open Lib

/-! ## The environment -/

/-- `ark_serialize`'s compressed encoding of a field element, which the repository uses and does not
    contain. -/
structure FrCodec where
  size : Nat
  serialize : Fr → List UInt8
  deserialize : List UInt8 → Option Fr

/-- The encoding has one length, and every value has exactly one encoding: what the crate documents
    of canonical serialization. -/
structure FrCodec.Lawful (codec : FrCodec) : Prop where
  length : ∀ x, (codec.serialize x).length = codec.size
  roundTrip : ∀ x, codec.deserialize (codec.serialize x) = some x
  canonical : ∀ bs x, bs.length = codec.size → codec.deserialize bs = some x →
    bs = codec.serialize x

/-- `std::mem::size_of` of the entry types, which the read limits multiply counts with. The compiler
    decides them, so they are a parameter. -/
structure MemSizes where
  instruction : Nat
  fr : Nat
  bank : Nat
  inputBinding : Nat
  roundEntry : Nat
  siteInput : Nat
  resultTarget : Nat
  gadgetBatch : Nat
  witnessSource : Nat

/-- The bytes of a string. -/
def utf8Bytes (s : String) : List UInt8 := s.toByteArray.data.toList

/-- `String::from_utf8`. -/
def fromUtf8 (bytes : List UInt8) : Option String := String.fromUTF8? ⟨bytes.toArray⟩

theorem fromUtf8_utf8Bytes (s : String) : fromUtf8 (utf8Bytes s) = some s := by
  unfold fromUtf8 utf8Bytes String.fromUTF8?
  rw [dif_pos s.isValidUTF8]
  rfl

theorem utf8Bytes_fromUtf8 {bytes : List UInt8} {s : String} (h : fromUtf8 bytes = some s) :
    bytes = utf8Bytes s := by
  unfold fromUtf8 String.fromUTF8? at h
  split at h
  · cases h
    rfl
  · cases h

/-- `ProgramReadLimits`. -/
structure ReadLimits where
  /-- Maximum number of bytes `read` will consume from the source. -/
  maxSerializedBytes : UInt64
  /-- Maximum total bytes any single table is allowed to pre-allocate for. -/
  maxEstimatedAllocation : UInt64
  /-- Maximum number of entries any single table may declare. -/
  maxTableEntries : UInt64
deriving DecidableEq, Repr

/-- `ProgramReadLimits::default`. -/
def ReadLimits.default : ReadLimits where
  maxSerializedBytes := 256 * 1024 * 1024
  maxEstimatedAllocation := 256 * 1024 * 1024
  maxTableEntries := 0x01000000

/-! ## Errors -/

/-- Why a program could not be written. -/
inductive WriteError where
  | gadgetParam (gadget : String)
deriving DecidableEq, Repr

def WriteError.text : WriteError → String
  | .gadgetParam gadget => s!"{gadget} n exceeds u32"

/-- Why a byte string could not be read. -/
inductive ReadError where
  | unexpectedEof
  | badMagic
  | version (found : Nat)
  | countLimit (table : String) (count limit : Nat)
  | allocationOverflow (table : String)
  | allocationLimit (table : String)
  | utf8 (what : String)
  | unknownOpcode (byte : UInt8)
  | instructionPadding
  | field
  | unknownBank (byte : UInt8)
  | unknownGadgetKind (tag : UInt8)
  | unknownBatchKind (tag : UInt8)
  | unknownWitnessSource (tag : UInt8)
  | poseidon2Width (t : Nat)
  | noSites
  | inputLocal
  | resultLocal
  | siteOverflow
  | offsetCount (len expected : Nat)
  | requestCount (requests targets : Nat)
  | tooManyRequests
  | offsets
  | witnessLocal
  | invalid (error : EncodingError)
  | byteLimit
  | trailing

def ReadError.text : ReadError → String
  | .unexpectedEof => "failed to fill whole buffer"
  | .badMagic => "not a circom-mpc-compiler program (bad magic)"
  | .version found => s!"unsupported program format version {found}"
  | .countLimit table count limit => s!"{table} count {count} exceeds limit {limit}"
  | .allocationOverflow table => s!"{table} allocation overflows"
  | .allocationLimit table => s!"{table} allocation exceeds limit"
  | .utf8 what => s!"{what} is not valid UTF-8"
  | .unknownOpcode byte => s!"unknown opcode byte {byte}"
  | .instructionPadding => "instruction padding must be zero"
  | .field => "the input buffer contained invalid data"
  | .unknownBank byte => s!"unknown bank byte {byte}"
  | .unknownGadgetKind tag => s!"unknown GadgetKind tag {tag}"
  | .unknownBatchKind tag => s!"unknown BatchKind tag {tag}"
  | .unknownWitnessSource tag => s!"unknown WitnessSource tag {tag}"
  | .poseidon2Width t => s!"unsupported Poseidon2 width {t}"
  | .noSites => "gadget batch has no sites"
  | .inputLocal => "gadget input bank cannot be Local"
  | .resultLocal => "gadget result bank cannot be Local"
  | .siteOverflow => "gadget batch site count overflows"
  | .offsetCount len expected =>
    s!"gadget batch result_offsets has {len} entries, expected sites + 1 = {expected}"
  | .requestCount requests targets =>
    s!"gadget batch result_requests ({requests}) and result_targets ({targets}) must have the same length - one destination per requested slot"
  | .tooManyRequests => "gadget batch has too many result requests"
  | .offsets => "gadget batch has invalid CSR result offsets"
  | .witnessLocal => "witness source bank cannot be Local"
  | .invalid error => error.text
  | .byteLimit => "serialized program exceeds byte limit"
  | .trailing => "trailing bytes after program"

/-! ## Tags -/

/-- `Opcode::to_u8`. -/
def Opcode.toU8 : Opcode → UInt8
  | .addPP => 0
  | .subPP => 1
  | .mulPP => 2
  | .addSS => 3
  | .subSS => 4
  | .addSP => 5
  | .subSP => 6
  | .subPS => 7
  | .mulSP => 8
  | .mulLocal => 9
  | .reshare => 10
  | .gadget => 11

/-- `Opcode::from_u8`. -/
def Opcode.fromU8 (b : UInt8) : Except ReadError Opcode :=
  match b.toNat with
  | 0 => .ok .addPP
  | 1 => .ok .subPP
  | 2 => .ok .mulPP
  | 3 => .ok .addSS
  | 4 => .ok .subSS
  | 5 => .ok .addSP
  | 6 => .ok .subSP
  | 7 => .ok .subPS
  | 8 => .ok .mulSP
  | 9 => .ok .mulLocal
  | 10 => .ok .reshare
  | 11 => .ok .gadget
  | _ => .error (.unknownOpcode b)

/-- `Bank::to_u8`. -/
def Bank.toU8 : Bank → UInt8
  | .public => 0
  | .shared => 1
  | .local => 2

/-- `Bank::from_u8`. -/
def Bank.fromU8 (b : UInt8) : Except ReadError Bank :=
  match b.toNat with
  | 0 => .ok .public
  | 1 => .ok .shared
  | 2 => .ok .local
  | _ => .error (.unknownBank b)

/-! ## The encoder -/

/-- `MAGIC`. -/
def magic : List UInt8 := [0x43, 0x4d, 0x50, 0x43, 0x56, 0x4d, 0, 0]

/-- `VERSION`. -/
def version : Nat := 1

/-- `write_u32`. -/
def writeU32 (n : Nat) : List UInt8 := leBytes 4 n

/-- `write_u64`. -/
def writeU64 (n : Nat) : List UInt8 := leBytes 8 n

/-- `write_len`. -/
def writeLen (n : Nat) : List UInt8 := writeU64 n

/-- `write_string`. -/
def writeString (s : String) : List UInt8 := writeLen (utf8Bytes s).length ++ utf8Bytes s

/-- A count and the entries. -/
def writeTable {α : Type} (entry : α → List UInt8) (xs : List α) : List UInt8 :=
  writeLen xs.length ++ xs.flatMap entry

/-- `write_u32_vec`. -/
def writeU32Vec (xs : List Nat) : List UInt8 := writeTable writeU32 xs

/-- `write_index_vec`. -/
def writeIndexVec {α : Type} (toU32 : α → Nat) (xs : List α) : List UInt8 :=
  writeTable (fun x => writeU32 (toU32 x)) xs

/-- `u32::try_from(n)` before writing a gadget's parameter. -/
def writeParam (gadget : String) (n : Nat) : Except WriteError (List UInt8) := do
  ensure (n < 2 ^ 32) (.gadgetParam gadget)
  pure (writeU32 n)

/-- `GadgetKind::write`. -/
def GadgetKind.write : GadgetKind → Except WriteError (List UInt8)
  | .poseidon2 t => .ok (0 :: writeU32 t.get)
  | .num2Bits n => do
    let param ← writeParam "Num2Bits" n
    pure (1 :: param)
  | .isZero => .ok [2]
  | .aliasCheck => .ok [3]
  | .reveal n => do
    let param ← writeParam "Reveal" n
    pure (5 :: param)

/-- `BatchKind::write`. -/
def BatchKind.write : BatchKind → Except WriteError (List UInt8)
  | .gadget kind => do
    let bytes ← kind.write
    pure (0 :: bytes)
  | .isZeroReveal => .ok [1]
  | .precomputedPoseidon2 t => .ok (2 :: writeU32 t.get)

/-- An instruction's operand fields. The table-index variants write their index as `a`. -/
def Instruction.fields : Instruction → Nat × Nat × Nat
  | .arith _ dst a b => (dst.index, a.index, b.index)
  | .reshare round => (0, round.index, 0)
  | .gadget batch => (0, batch.index, 0)

/-- One 16-byte instruction record. -/
def Instruction.write (i : Instruction) : List UInt8 :=
  let (dst, a, b) := i.fields
  [i.op.toU8] ++ [0, 0, 0] ++ writeU32 dst ++ writeU32 a ++ writeU32 b

def InputBinding.write (binding : InputBinding) : List UInt8 :=
  [binding.bank.toU8] ++ writeU32 binding.slot.index ++ writeU32 binding.inputIndex.index

def InputSignal.write (signal : InputSignal) : List UInt8 :=
  writeString signal.name ++ writeLen signal.offset ++ writeLen signal.size

def RoundEntry.write (round : RoundEntry) : List UInt8 :=
  writeU32 round.operandStart ++ writeU32 round.len ++ writeU32 round.resultStart

/-- A banked slot: a site input or a result target. -/
def writeBanked (bank : Bank) (slot : Slot) : List UInt8 :=
  [bank.toU8] ++ writeU32 slot.index

/-- Everything of a batch behind its kind. -/
def GadgetBatch.writeBody (batch : GadgetBatch) : List UInt8 :=
  writeLen batch.sites ++
    writeTable (fun input => writeBanked input.bank input.slot) batch.inputSlots ++
    writeIndexVec ResultSlot.index batch.resultRequests ++
    writeU32Vec batch.resultOffsets ++
    writeTable (fun target => writeBanked target.bank target.slot) batch.resultTargets

/-- One gadget batch. -/
def GadgetBatch.write (batch : GadgetBatch) : Except WriteError (List UInt8) := do
  let kind ← batch.kind.write
  pure (kind ++ batch.writeBody)

def WitnessSource.write : WitnessSource → List UInt8
  | .one => [0]
  | .zero => [3]
  | .input i => [1] ++ writeU32 i.index
  | .slot bank target => [2] ++ writeBanked bank target

namespace ProgramParts

/-- The header and the instruction stream. -/
def writeHead (p : ProgramParts) : List UInt8 :=
  magic ++ writeU32 version ++ writeTable Instruction.write p.instructions

/-- The tables between the instruction stream and the gadget batches. -/
def writeTables (codec : FrCodec) (p : ProgramParts) : List UInt8 :=
  writeTable codec.serialize p.constants ++
    writeTable (fun bank => [bank.toU8]) p.inputDomains ++
    writeTable InputBinding.write p.inputs ++
    writeTable InputSignal.write p.inputSignals ++
    writeTable RoundEntry.write p.rounds ++
    writeIndexVec Slot.index p.roundOperands ++
    writeIndexVec Slot.index p.roundResults

/-- What follows the gadget batches. -/
def writeTail (p : ProgramParts) : List UInt8 :=
  writeTable WitnessSource.write p.witnessSources ++ writeLen p.numInputs ++
    writeU32 p.slots.public ++ writeU32 p.slots.shared ++ writeU32 p.slots.local ++
    writeU32 p.numPublicWitness

/-- `Program::write`. -/
def write (codec : FrCodec) (p : ProgramParts) : Except WriteError (List UInt8) := do
  let batches ← p.gadgetBatches.mapM GadgetBatch.write
  pure (p.writeHead ++ p.writeTables codec ++
    (writeLen p.gadgetBatches.length ++ batches.flatten) ++ p.writeTail)

end ProgramParts

/-! ## The decoder -/

/-- `Read::read_exact`. -/
def readBytes (n : Nat) : Reader ReadError (List UInt8) := Reader.take .unexpectedEof n

/-- `read_u8`. -/
def readU8 : Reader ReadError UInt8 := do
  let bytes ← readBytes 1
  pure (bytes.headD 0)

/-- `read_u32`. -/
def readU32 : Reader ReadError Nat := do
  let bytes ← readBytes 4
  pure (ofLeBytes bytes)

/-- `read_u64`. -/
def readU64 : Reader ReadError Nat := do
  let bytes ← readBytes 8
  pure (ofLeBytes bytes)

/-- A check that consumes nothing. -/
def check (c : Prop) [Decidable c] (e : ReadError) : Reader ReadError Unit :=
  Reader.lift (ensure c e)

section Readers

variable (codec : FrCodec) (sizes : MemSizes) (limits : ReadLimits)

/-- `checked_count`, for an entry type of `size` bytes. -/
def checkedCount (size : Nat) (table : String) (count : Nat) : Except ReadError Nat := do
  ensure (count ≤ limits.maxTableEntries.toNat)
    (.countLimit table count limits.maxTableEntries.toNat)
  ensure (count * size < 2 ^ 64) (.allocationOverflow table)
  ensure (count * size ≤ limits.maxEstimatedAllocation.toNat) (.allocationLimit table)
  pure count

/-- `checked_count(r.read_u64()?, ..)`. -/
def readCount (size : Nat) (table : String) : Reader ReadError Nat := do
  let count ← readU64
  Reader.lift (checkedCount limits size table count)

/-- A count and that many entries. -/
def readTable {α : Type} (size : Nat) (table : String) (entry : Reader ReadError α) :
    Reader ReadError (List α) := do
  let count ← readCount limits size table
  entry.many count

/-- `read_string`. -/
def readString (field : String) : Reader ReadError String := do
  let len ← readCount limits 1 field
  let bytes ← readBytes len
  Reader.lift (orElse (.utf8 field) (fromUtf8 bytes))

/-- `read_u32_vec`. -/
def readU32Vec (table : String) : Reader ReadError (List Nat) := readTable limits 4 table readU32

/-- `read_index_vec`. -/
def readIndexVec {α : Type} (fromU32 : Nat → α) (table : String) : Reader ReadError (List α) :=
  readTable limits 4 table do
    let n ← readU32
    pure (fromU32 n)

/-- `Bank::from_u8(r.read_u8()?)?`. -/
def readBank : Reader ReadError Bank := do
  let b ← readU8
  Reader.lift (Bank.fromU8 b)

/-- `Poseidon2Width::from_u32(r.read_u32()?)?`. -/
def readWidth : Reader ReadError Poseidon2Width := do
  let t ← readU32
  Reader.lift (orElse (.poseidon2Width t) (Poseidon2Width.new? t))

/-- `GadgetKind::read`. -/
def GadgetKind.read : Reader ReadError GadgetKind := do
  let tag ← readU8
  match tag.toNat with
  | 0 => do
    let t ← readWidth
    pure (.poseidon2 t)
  | 1 => do
    let n ← readU32
    pure (.num2Bits n)
  | 2 => pure .isZero
  | 3 => pure .aliasCheck
  | 5 => do
    let n ← readU32
    pure (.reveal n)
  | _ => Reader.lift (.error (.unknownGadgetKind tag))

/-- `BatchKind::read`. -/
def BatchKind.read : Reader ReadError BatchKind := do
  let tag ← readU8
  match tag.toNat with
  | 0 => do
    let kind ← GadgetKind.read
    pure (.gadget kind)
  | 1 => pure .isZeroReveal
  | 2 => do
    let t ← readWidth
    pure (.precomputedPoseidon2 t)
  | _ => Reader.lift (.error (.unknownBatchKind tag))

/-- `read_instructions`, one record. The fields a table-index variant has no use for are read and
    dropped. -/
def readInstruction : Reader ReadError Instruction := do
  let byte ← readU8
  let op ← Reader.lift (Opcode.fromU8 byte)
  let pad ← readBytes 3
  check (pad = [0, 0, 0]) .instructionPadding
  let dst ← readU32
  let a ← readU32
  let b ← readU32
  pure (match op with
    | .reshare => .reshare ⟨a⟩
    | .gadget => .gadget ⟨a⟩
    | op => .arith op ⟨dst⟩ ⟨a⟩ ⟨b⟩)

/-- `read_instructions`. -/
def readInstructions : Reader ReadError (List Instruction) :=
  readTable limits sizes.instruction "instruction" readInstruction

/-- `Fr::deserialize_compressed`. -/
def readFr : Reader ReadError Fr := do
  let bytes ← readBytes codec.size
  Reader.lift (orElse .field (codec.deserialize bytes))

/-- `read_constants`. -/
def readConstants : Reader ReadError (List Fr) :=
  readTable limits sizes.fr "constant" (readFr codec)

/-- `read_input_domains`. -/
def readInputDomains : Reader ReadError (List Bank) :=
  readTable limits sizes.bank "input domain" readBank

/-- `read_input_bindings`. -/
def readInputBindings : Reader ReadError (List InputBinding) :=
  readTable limits sizes.inputBinding "input binding" do
    let bank ← readBank
    let slot ← readU32
    let index ← readU32
    pure { bank, slot := ⟨slot⟩, inputIndex := ⟨index⟩ }

/-- `read_input_signals`. The entry size is the estimate the source writes, `u64`. -/
def readInputSignals : Reader ReadError (List InputSignal) :=
  readTable limits 8 "input signal" do
    let name ← readString limits "input signal name"
    let offset ← readCount limits 0 "input signal offset"
    let size ← readCount limits 0 "input signal size"
    pure { name, offset, size }

/-- `read_round_entries`. -/
def readRoundEntries : Reader ReadError (List RoundEntry) :=
  readTable limits sizes.roundEntry "round" do
    let operandStart ← readU32
    let len ← readU32
    let resultStart ← readU32
    pure { operandStart, len, resultStart }

/-- A banked slot that may not be `Local`. -/
def readBanked {α : Type} (mk : Bank → Slot → α) (e : ReadError) : Reader ReadError α := do
  let bank ← readBank
  check (bank ≠ .local) e
  let slot ← readU32
  pure (mk bank ⟨slot⟩)

/-- `read_gadget_batch`, the checks once everything is read. -/
def checkBatch (sites : Nat) (resultRequests : List ResultSlot) (resultOffsets : List Nat)
    (resultTargets : List ResultTarget) : Except ReadError Unit := do
  ensure (sites + 1 < 2 ^ 64) .siteOverflow
  ensure (resultOffsets.length = sites + 1) (.offsetCount resultOffsets.length (sites + 1))
  ensure (resultRequests.length = resultTargets.length)
    (.requestCount resultRequests.length resultTargets.length)
  ensure (resultRequests.length < 2 ^ 32) .tooManyRequests
  ensure (resultOffsets.head? = some 0 ∧ resultOffsets.getLast? = some resultRequests.length ∧
    (windows resultOffsets).all fun w => decide (w.1 ≤ w.2)) .offsets

/-- `read_gadget_batch`. -/
def readGadgetBatch : Reader ReadError GadgetBatch := do
  let kind ← BatchKind.read
  let sites ← readCount limits 0 "gadget site"
  check (0 < sites) .noSites
  let inputSlots ← readTable limits sizes.siteInput "gadget input"
    (readBanked SiteInput.mk .inputLocal)
  let resultRequests ← readIndexVec limits ResultSlot.mk "gadget result request"
  let resultOffsets ← readU32Vec limits "gadget result offset"
  let resultTargets ← readTable limits sizes.resultTarget "gadget target"
    (readBanked ResultTarget.mk .resultLocal)
  Reader.lift (checkBatch sites resultRequests resultOffsets resultTargets)
  pure { kind, sites, inputSlots, resultRequests, resultOffsets, resultTargets }

/-- `read_gadget_batches`. -/
def readGadgetBatches : Reader ReadError (List GadgetBatch) :=
  readTable limits sizes.gadgetBatch "gadget batch" (readGadgetBatch sizes limits)

/-- `read_witness_sources`, one source. -/
def readWitnessSource : Reader ReadError WitnessSource := do
  let tag ← readU8
  match tag.toNat with
  | 0 => pure .one
  | 1 => do
    let i ← readU32
    pure (.input ⟨i⟩)
  | 2 => do
    let bank ← readBank
    let slot ← readU32
    check (bank ≠ .local) .witnessLocal
    pure (.slot bank ⟨slot⟩)
  | 3 => pure .zero
  | _ => Reader.lift (.error (.unknownWitnessSource tag))

/-- `read_witness_sources`. -/
def readWitnessSources : Reader ReadError (List WitnessSource) :=
  readTable limits sizes.witnessSource "witness source" readWitnessSource

/-- `read_with_limits`'s header checks. -/
def readHeader : Reader ReadError Unit := do
  let found ← readBytes 8
  check (found = magic) .badMagic
  let v ← readU32
  check (v = version) (.version v)

/-- `read_with_limits`, the parts in the order they were written. -/
def readParts : Reader ReadError ProgramParts := do
  readHeader
  let instructions ← readInstructions sizes limits
  let constants ← readConstants codec sizes limits
  let inputDomains ← readInputDomains sizes limits
  let inputs ← readInputBindings sizes limits
  let inputSignals ← readInputSignals limits
  let rounds ← readRoundEntries sizes limits
  let roundOperands ← readIndexVec limits Slot.mk "round operand"
  let roundResults ← readIndexVec limits Slot.mk "round result"
  let gadgetBatches ← readGadgetBatches sizes limits
  let witnessSources ← readWitnessSources sizes limits
  let numInputs ← readCount limits 0 "input"
  let publicSlots ← readU32
  let sharedSlots ← readU32
  let localSlots ← readU32
  let numPublicWitness ← readU32
  pure { instructions, constants, inputDomains, inputs, inputSignals, rounds, roundOperands,
         roundResults, gadgetBatches, witnessSources, numInputs,
         slots := ⟨publicSlots, sharedSlots, localSlots⟩, numPublicWitness }

/-- `Program::new`, its error a reader's. -/
def checkParts (parts : ProgramParts) : Except ReadError Program :=
  match Program.new parts with
  | .ok program => .ok program
  | .error e => .error (.invalid e)

/-- The parts, validated. -/
def readProgram : Reader ReadError Program := do
  let parts ← readParts codec sizes limits
  Reader.lift (checkParts parts)

/-- `max_serialized_bytes.saturating_add(1)`. -/
def ReadLimits.budget : Nat := min (limits.maxSerializedBytes.toNat + 1) (2 ^ 64 - 1)

/-- `Program::read_with_limits`: read from at most `budget` bytes of the source, and require that
    some budget is left. -/
def readWithLimits : Reader ReadError Program := fun s => do
  let window := s.take limits.budget
  let (program, left) ← readProgram codec sizes limits window
  let consumed := window.length - left.length
  ensure (0 < limits.budget - consumed) .byteLimit
  pure (program, s.drop consumed)

/-- `Program::read`. -/
def read : Reader ReadError Program := readWithLimits codec sizes ReadLimits.default

/-- `Program::read_exact`. -/
def readExact (bytes : List UInt8) : Except ReadError Program := do
  let (program, left) ← read codec sizes bytes
  ensure (left = []) .trailing
  pure program

end Readers

end CircomMpc
