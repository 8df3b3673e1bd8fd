import CircomMpc.Program.RoundTrip

/-!
# Which accepted byte strings are canonical

The other direction: what `read_exact` accepts, against what `write` would have written. Every byte
of every table is significant, with one exception. The record of a `Reshare` or a `Gadget`
instruction carries its table index in the `a` field, and the reader drops the other two fields
without looking at them. So an accepted byte string is the encoding of the program it decodes to
exactly when those fields are zero.

`Consumes` is the rule for this direction: of whatever a reader accepts, the bytes it took are related
to the value it returned. For every piece but an instruction the relation is that they are the value's
encoding. `CleanRecords` reads the condition off the bytes alone, which needs the number of records,
and that is the count in front of them.
-/

namespace CircomMpc

open Lib

section Readers

variable {codec : FrCodec} {sizes : MemSizes} {limits : ReadLimits}

/-! ## Words, counts and tables -/

theorem readU8_consumes : Consumes readU8 fun b bs => bs = [b] := by
  refine ((Consumes.take ReadError.unexpectedEof 1).bind fun bytes =>
    Consumes.pure (bytes.headD 0)).weaken ?_
  rintro b _ ⟨_, x, _, rfl, ⟨rfl, hlen⟩, rfl, rfl⟩
  obtain ⟨y, rfl⟩ := List.length_eq_one_iff.mp hlen
  rfl

theorem readU32_consumes : Consumes readU32 fun n bs => bs = writeU32 n ∧ n < 2 ^ 32 := by
  refine ((Consumes.take ReadError.unexpectedEof 4).bind fun bytes =>
    Consumes.pure (ofLeBytes bytes)).weaken ?_
  rintro n _ ⟨_, x, _, rfl, ⟨rfl, hlen⟩, rfl, rfl⟩
  have hbytes := leBytes_ofLeBytes x
  have hlt := ofLeBytes_lt x
  rw [hlen] at hbytes hlt
  exact ⟨by rw [List.append_nil, writeU32, hbytes], by simpa using hlt⟩

theorem readU64_consumes : Consumes readU64 fun n bs => bs = writeU64 n ∧ n < 2 ^ 64 := by
  refine ((Consumes.take ReadError.unexpectedEof 8).bind fun bytes =>
    Consumes.pure (ofLeBytes bytes)).weaken ?_
  rintro n _ ⟨_, x, _, rfl, ⟨rfl, hlen⟩, rfl, rfl⟩
  have hbytes := leBytes_ofLeBytes x
  have hlt := ofLeBytes_lt x
  rw [hlen] at hbytes hlt
  exact ⟨by rw [List.append_nil, writeU64, hbytes], by simpa using hlt⟩

theorem check_consumes {c : Prop} [Decidable c] {e : ReadError} :
    Consumes (check c e) fun _ bs => c ∧ bs = [] :=
  (Consumes.lift _).weaken fun _ _ ⟨h, hbs⟩ => ⟨ensure_eq_ok.mp h, hbs⟩

theorem checkedCount_eq_ok {size n m : Nat} {table : String}
    (h : checkedCount limits size table n = .ok m) : m = n := by
  unfold checkedCount at h
  obtain ⟨-, h⟩ := seq_eq_ok.mp h
  obtain ⟨-, h⟩ := seq_eq_ok.mp h
  obtain ⟨-, h⟩ := seq_eq_ok.mp h
  cases h
  rfl

theorem readCount_consumes {size : Nat} {table : String} :
    Consumes (readCount limits size table) fun n bs => bs = writeLen n ∧ n < 2 ^ 64 := by
  refine (readU64_consumes.bind fun n => Consumes.lift _).weaken ?_
  rintro m _ ⟨n, _, _, rfl, ⟨rfl, hlt⟩, hcount, rfl⟩
  obtain rfl := checkedCount_eq_ok hcount
  exact ⟨List.append_nil _, hlt⟩

/-- A table's entries, related one by one to the pieces they were read from. -/
theorem readTable_consumes_pieces {α : Type} {size : Nat} {table : String}
    {entry : Reader ReadError α} {E : α → List UInt8 → Prop} (h : Consumes entry E) :
    Consumes (readTable limits size table entry) fun xs bs =>
      xs.length < 2 ^ 64 ∧ ∃ pieces, List.Forall₂ E xs pieces ∧
        bs = writeLen xs.length ++ pieces.flatten := by
  refine (readCount_consumes.bind fun n => Consumes.many h n).weaken ?_
  rintro xs _ ⟨n, _, _, rfl, ⟨rfl, hlt⟩, rfl, pieces, hall, rfl⟩
  exact ⟨hlt, pieces, hall, rfl⟩

/-- A table whose entries are read from their encodings. -/
theorem readTable_consumes_of {α : Type} {size : Nat} {table : String}
    {entry : Reader ReadError α} {e : α → List UInt8} {p : α → Prop}
    (h : Consumes entry fun x bs => bs = e x ∧ p x) :
    Consumes (readTable limits size table entry) fun xs bs =>
      bs = writeTable e xs ∧ ∀ x ∈ xs, p x := by
  refine (readCount_consumes.bind fun n => Consumes.many_of h n).weaken ?_
  rintro xs _ ⟨n, _, _, rfl, ⟨rfl, -⟩, rfl, rfl, hall⟩
  exact ⟨rfl, hall⟩

theorem readTable_consumes {α : Type} {size : Nat} {table : String} {entry : Reader ReadError α}
    {e : α → List UInt8} (h : Consumes entry fun x bs => bs = e x) :
    Consumes (readTable limits size table entry) fun xs bs => bs = writeTable e xs :=
  (readTable_consumes_of (p := fun _ => True) (h.weaken fun _ _ h => ⟨h, trivial⟩)).weaken
    fun _ _ h => h.1

theorem readIndexVec_consumes {α : Type} {table : String} (toU32 : α → Nat) {fromU32 : Nat → α}
    (hinv : ∀ n, toU32 (fromU32 n) = n) :
    Consumes (readIndexVec limits fromU32 table) fun xs bs => bs = writeIndexVec toU32 xs := by
  refine readTable_consumes ((readU32_consumes.bind fun n =>
    Consumes.pure (fromU32 n)).weaken ?_)
  rintro x _ ⟨n, _, _, rfl, ⟨rfl, -⟩, rfl, rfl⟩
  rw [hinv, List.append_nil]

theorem readU32Vec_consumes {table : String} :
    Consumes (readU32Vec limits table) fun xs bs => bs = writeU32Vec xs :=
  readTable_consumes (readU32_consumes.weaken fun _ _ h => h.1)

theorem readString_consumes {field : String} :
    Consumes (readString limits field) fun s bs => bs = writeString s := by
  refine (readCount_consumes.bind fun n => (Consumes.take _ n).bind fun _ =>
    Consumes.lift _).weaken ?_
  rintro s _ ⟨n, _, _, rfl, ⟨rfl, -⟩, bytes, _, _, rfl, ⟨rfl, rfl⟩, hutf8, rfl⟩
  obtain rfl := utf8Bytes_fromUtf8 (orElse_eq_ok.mp hutf8)
  rw [List.append_nil]
  rfl

/-! ## Tags and records -/

theorem Opcode.toU8_of_fromU8 {b : UInt8} {op : Opcode} (h : Opcode.fromU8 b = .ok op) :
    b = op.toU8 := by
  apply UInt8.toNat_inj.mp
  unfold Opcode.fromU8 at h
  split at h <;> cases h <;> assumption

theorem Bank.toU8_of_fromU8 {b : UInt8} {bank : Bank} (h : Bank.fromU8 b = .ok bank) :
    b = bank.toU8 := by
  apply UInt8.toNat_inj.mp
  unfold Bank.fromU8 at h
  split at h <;> cases h <;> assumption

theorem readBank_consumes : Consumes readBank fun bank bs => bs = [bank.toU8] := by
  refine (readU8_consumes.bind fun b => Consumes.lift _).weaken ?_
  rintro bank _ ⟨b, _, _, rfl, rfl, hbank, rfl⟩
  rw [Bank.toU8_of_fromU8 hbank, List.append_nil]

theorem readWidth_consumes : Consumes readWidth fun t bs => bs = writeU32 t.get := by
  refine (readU32_consumes.bind fun n => Consumes.lift _).weaken ?_
  rintro t _ ⟨n, _, _, rfl, ⟨rfl, -⟩, hwidth, rfl⟩
  rw [Poseidon2Width.new?_eq_some (orElse_eq_ok.mp hwidth), List.append_nil]

/-- A tag byte is the one its case is for. -/
theorem tag_eq {tag : UInt8} {n : Nat} (h : tag.toNat = n) : tag = UInt8.ofNat n := by
  rw [← h, UInt8.ofNat_toNat]

theorem GadgetKind.read_consumes : Consumes GadgetKind.read fun kind bs =>
    bs = kind.bytes ∧ kind.ParamFits := by
  refine (readU8_consumes.bind (F := fun tag kind bs =>
    [tag] ++ bs = kind.bytes ∧ kind.ParamFits) fun tag => ?_).weaken ?_
  · split
    · next h =>
      rw [tag_eq h]
      refine (readWidth_consumes.bind fun t => Consumes.pure _).weaken ?_
      rintro kind _ ⟨t, _, _, rfl, rfl, rfl, rfl⟩
      exact ⟨by rw [List.append_nil]; rfl, trivial⟩
    · next h =>
      rw [tag_eq h]
      refine (readU32_consumes.bind fun n => Consumes.pure _).weaken ?_
      rintro kind _ ⟨n, _, _, rfl, ⟨rfl, hlt⟩, rfl, rfl⟩
      exact ⟨by rw [List.append_nil]; rfl, hlt⟩
    · next h =>
      rw [tag_eq h]
      refine (Consumes.pure _).weaken ?_
      rintro kind _ ⟨rfl, rfl⟩
      exact ⟨rfl, trivial⟩
    · next h =>
      rw [tag_eq h]
      refine (Consumes.pure _).weaken ?_
      rintro kind _ ⟨rfl, rfl⟩
      exact ⟨rfl, trivial⟩
    · next h =>
      rw [tag_eq h]
      refine (readU32_consumes.bind fun n => Consumes.pure _).weaken ?_
      rintro kind _ ⟨n, _, _, rfl, ⟨rfl, hlt⟩, rfl, rfl⟩
      exact ⟨by rw [List.append_nil]; rfl, hlt⟩
    · refine (Consumes.lift _).weaken ?_
      rintro kind _ ⟨h, -⟩
      cases h
  · rintro kind _ ⟨tag, _, b, rfl, rfl, h⟩
    exact h

theorem BatchKind.read_consumes : Consumes BatchKind.read fun kind bs =>
    bs = kind.bytes ∧ kind.ParamFits := by
  refine (readU8_consumes.bind (F := fun tag kind bs =>
    [tag] ++ bs = kind.bytes ∧ kind.ParamFits) fun tag => ?_).weaken ?_
  · split
    · next h =>
      rw [tag_eq h]
      refine (GadgetKind.read_consumes.bind fun kind => Consumes.pure _).weaken ?_
      rintro kind _ ⟨inner, _, _, rfl, ⟨rfl, hfits⟩, rfl, rfl⟩
      exact ⟨by rw [List.append_nil]; rfl, hfits⟩
    · next h =>
      rw [tag_eq h]
      refine (Consumes.pure _).weaken ?_
      rintro kind _ ⟨rfl, rfl⟩
      exact ⟨rfl, trivial⟩
    · next h =>
      rw [tag_eq h]
      refine (readWidth_consumes.bind fun t => Consumes.pure _).weaken ?_
      rintro kind _ ⟨t, _, _, rfl, rfl, rfl, rfl⟩
      exact ⟨by rw [List.append_nil]; rfl, trivial⟩
    · refine (Consumes.lift _).weaken ?_
      rintro kind _ ⟨h, -⟩
      cases h
  · rintro kind _ ⟨tag, _, b, rfl, rfl, h⟩
    exact h

/-- The bytes of an instruction record. -/
def recordBytes (op : Opcode) (dst a b : Nat) : List UInt8 :=
  [op.toU8] ++ [0, 0, 0] ++ writeU32 dst ++ writeU32 a ++ writeU32 b

/-- A 16-byte record the reader takes for `i`: what it holds in the two fields a table-index variant
    does not use is anybody's guess. -/
def Instruction.Record (i : Instruction) (bs : List UInt8) : Prop :=
  ∃ dst b, dst < 2 ^ 32 ∧ b < 2 ^ 32 ∧
    bs = recordBytes i.op dst i.fields.2.1 b ∧
    (i.op ≠ .reshare → i.op ≠ .gadget → dst = i.fields.1 ∧ b = i.fields.2.2) ∧
    (i.op = .reshare ∨ i.op = .gadget → i.fields.1 = 0 ∧ i.fields.2.2 = 0)

theorem readInstruction_consumes : Consumes readInstruction Instruction.Record := by
  refine (readU8_consumes.bind fun byte => (Consumes.lift _).bind fun op =>
    (Consumes.take _ 3).bind fun pad => check_consumes.bind fun _ =>
    readU32_consumes.bind fun dst => readU32_consumes.bind fun a =>
    readU32_consumes.bind fun b => Consumes.pure _).weaken ?_
  rintro i _ ⟨byte, _, _, rfl, rfl, op, _, _, rfl, ⟨hop, rfl⟩, _, pad, _, rfl, ⟨rfl, -⟩, _, _, _, rfl,
    ⟨rfl, rfl⟩, dst, _, _, rfl, ⟨rfl, hdst⟩, a, _, _, rfl, ⟨rfl, -⟩, b, _, _, rfl, ⟨rfl, hb⟩, rfl,
    rfl⟩
  rw [Opcode.toU8_of_fromU8 hop]
  refine ⟨dst, b, hdst, hb, ?_, ?_, ?_⟩
  · cases op <;> simp [Instruction.op, Instruction.fields, recordBytes]
  · cases op <;> simp [Instruction.op, Instruction.fields]
  · cases op <;> simp [Instruction.op, Instruction.fields]

theorem readFr_consumes (hcodec : codec.Lawful) :
    Consumes (readFr codec) fun x bs => bs = codec.serialize x := by
  refine ((Consumes.take _ codec.size).bind fun bytes => Consumes.lift _).weaken ?_
  rintro x _ ⟨_, bytes, _, rfl, ⟨rfl, hlen⟩, hfield, rfl⟩
  rw [List.append_nil]
  exact hcodec.canonical _ x hlen (orElse_eq_ok.mp hfield)

theorem readInputBinding_consumes : Consumes (do
    let bank ← readBank
    let slot ← readU32
    let index ← readU32
    pure ({ bank, slot := ⟨slot⟩, inputIndex := ⟨index⟩ } : InputBinding))
    fun binding bs => bs = binding.write := by
  refine (readBank_consumes.bind fun bank => readU32_consumes.bind fun slot =>
    readU32_consumes.bind fun index => Consumes.pure _).weaken ?_
  rintro binding _ ⟨bank, _, _, rfl, rfl, slot, _, _, rfl, ⟨rfl, -⟩, index, _, _, rfl, ⟨rfl, -⟩, rfl,
    rfl⟩
  simp [InputBinding.write]

theorem readInputSignal_consumes : Consumes (do
    let name ← readString limits "input signal name"
    let offset ← readCount limits 0 "input signal offset"
    let size ← readCount limits 0 "input signal size"
    pure ({ name, offset, size } : InputSignal)) fun signal bs => bs = signal.write := by
  refine (readString_consumes.bind fun name => readCount_consumes.bind fun offset =>
    readCount_consumes.bind fun size => Consumes.pure _).weaken ?_
  rintro signal _ ⟨name, _, _, rfl, rfl, offset, _, _, rfl, ⟨rfl, -⟩, size, _, _, rfl, ⟨rfl, -⟩, rfl,
    rfl⟩
  simp [InputSignal.write]

theorem readRoundEntry_consumes : Consumes (do
    let operandStart ← readU32
    let len ← readU32
    let resultStart ← readU32
    pure ({ operandStart, len, resultStart } : RoundEntry)) fun round bs => bs = round.write := by
  refine (readU32_consumes.bind fun start => readU32_consumes.bind fun len =>
    readU32_consumes.bind fun result => Consumes.pure _).weaken ?_
  rintro round _ ⟨start, _, _, rfl, ⟨rfl, -⟩, len, _, _, rfl, ⟨rfl, -⟩, result, _, _, rfl, ⟨rfl, -⟩,
    rfl, rfl⟩
  simp [RoundEntry.write]

theorem readBanked_consumes {α : Type} {mk : Bank → Slot → α} (bank : α → Bank) (slot : α → Slot)
    {e : ReadError} (hbank : ∀ b s, bank (mk b s) = b) (hslot : ∀ b s, slot (mk b s) = s) :
    Consumes (readBanked mk e) fun x bs => bs = writeBanked (bank x) (slot x) := by
  refine (readBank_consumes.bind fun b => check_consumes.bind fun _ =>
    readU32_consumes.bind fun s => Consumes.pure _).weaken ?_
  rintro x _ ⟨b, _, _, rfl, rfl, _, _, _, rfl, ⟨-, rfl⟩, s, _, _, rfl, ⟨rfl, -⟩, rfl, rfl⟩
  rw [hbank, hslot]
  simp [writeBanked]

theorem readGadgetBatch_consumes : Consumes (readGadgetBatch sizes limits) fun batch bs =>
    bs = batch.bytes ∧ batch.kind.ParamFits := by
  refine (BatchKind.read_consumes.bind fun kind => readCount_consumes.bind fun sites =>
    check_consumes.bind fun _ =>
    (readTable_consumes (readBanked_consumes SiteInput.bank SiteInput.slot
      (fun _ _ => rfl) fun _ _ => rfl)).bind fun inputs =>
    (readIndexVec_consumes ResultSlot.index fun _ => rfl).bind fun requests =>
    readU32Vec_consumes.bind fun offsets =>
    (readTable_consumes (readBanked_consumes ResultTarget.bank
      ResultTarget.slot (fun _ _ => rfl) fun _ _ => rfl)).bind fun targets =>
    (Consumes.lift _).bind fun _ => Consumes.pure _).weaken ?_
  rintro batch _ ⟨kind, _, _, rfl, ⟨rfl, hfits⟩, sites, _, _, rfl, ⟨rfl, -⟩, _, _, _, rfl, ⟨-, rfl⟩,
    inputs, _, _, rfl, rfl, requests, _, _, rfl, rfl, offsets, _, _, rfl, rfl, targets, _, _, rfl,
    rfl, _, _, _, rfl, ⟨-, rfl⟩, rfl, rfl⟩
  exact ⟨by simp [GadgetBatch.bytes, GadgetBatch.writeBody], hfits⟩

theorem readWitnessSource_consumes : Consumes readWitnessSource fun source bs =>
    bs = source.write := by
  refine (readU8_consumes.bind (F := fun tag source bs => [tag] ++ bs = source.write)
    fun tag => ?_).weaken ?_
  · split
    · next h =>
      rw [tag_eq h]
      refine (Consumes.pure _).weaken ?_
      rintro source _ ⟨rfl, rfl⟩
      rfl
    · next h =>
      rw [tag_eq h]
      refine (readU32_consumes.bind fun i => Consumes.pure _).weaken ?_
      rintro source _ ⟨i, _, _, rfl, ⟨rfl, -⟩, rfl, rfl⟩
      rw [List.append_nil]
      rfl
    · next h =>
      rw [tag_eq h]
      refine (readBank_consumes.bind fun bank => readU32_consumes.bind fun s =>
        check_consumes.bind fun _ => Consumes.pure _).weaken ?_
      rintro source _ ⟨bank, _, _, rfl, rfl, s, _, _, rfl, ⟨rfl, -⟩, _, _, _, rfl, ⟨-, rfl⟩, rfl, rfl⟩
      simp [WitnessSource.write, writeBanked]
    · next h =>
      rw [tag_eq h]
      refine (Consumes.pure _).weaken ?_
      rintro source _ ⟨rfl, rfl⟩
      rfl
    · refine (Consumes.lift _).weaken ?_
      rintro source _ ⟨h, -⟩
      cases h
  · rintro source _ ⟨tag, _, b, rfl, rfl, h⟩
    exact h

/-! ## The whole program -/

theorem readHeader_consumes :
    Consumes readHeader fun _ bs => bs = magic ++ writeU32 version := by
  refine ((Consumes.take _ 8).bind fun found => check_consumes.bind fun _ =>
    readU32_consumes.bind fun v => check_consumes).weaken ?_
  rintro _ _ ⟨_, found, _, rfl, ⟨rfl, -⟩, _, _, _, rfl, ⟨rfl, rfl⟩, v, _, _, rfl, ⟨rfl, -⟩, rfl, rfl⟩
  simp

/-- The encoding of parts, behind the instruction stream. -/
def ProgramParts.bytesBehind (codec : FrCodec) (p : ProgramParts) : List UInt8 :=
  p.writeTables codec ++ writeTable GadgetBatch.bytes p.gadgetBatches ++ p.writeTail

/-- Everything the decoder accepts is the encoding of what it returns, up to the instruction
    records. -/
theorem readParts_consumes (hcodec : codec.Lawful) :
    Consumes (readParts codec sizes limits) fun p bs =>
      (∀ batch ∈ p.gadgetBatches, batch.kind.ParamFits) ∧ p.instructions.length < 2 ^ 64 ∧
        ∃ records, List.Forall₂ Instruction.Record p.instructions records ∧
          bs = magic ++ writeU32 version ++ writeLen p.instructions.length ++ records.flatten ++
            p.bytesBehind codec := by
  refine (readHeader_consumes.bind fun _ =>
    (readTable_consumes_pieces readInstruction_consumes).bind fun instructions =>
    (readTable_consumes (readFr_consumes hcodec)).bind fun constants =>
    (readTable_consumes readBank_consumes).bind fun domains =>
    (readTable_consumes readInputBinding_consumes).bind fun inputs =>
    (readTable_consumes readInputSignal_consumes).bind fun signals =>
    (readTable_consumes readRoundEntry_consumes).bind fun rounds =>
    (readIndexVec_consumes Slot.index fun _ => rfl).bind fun operands =>
    (readIndexVec_consumes Slot.index fun _ => rfl).bind fun results =>
    (readTable_consumes_of readGadgetBatch_consumes).bind fun batches =>
    (readTable_consumes readWitnessSource_consumes).bind fun sources =>
    readCount_consumes.bind fun numInputs => readU32_consumes.bind fun publicSlots =>
    readU32_consumes.bind fun sharedSlots => readU32_consumes.bind fun localSlots =>
    readU32_consumes.bind fun numPublic => Consumes.pure _).weaken ?_
  rintro p _ ⟨_, _, _, rfl, rfl, instructions, _, _, rfl, ⟨hcount, records, hrecords, rfl⟩,
    constants, _, _, rfl, rfl, domains, _, _, rfl, rfl, inputs, _, _, rfl, rfl,
    signals, _, _, rfl, rfl, rounds, _, _, rfl, rfl, operands, _, _, rfl, rfl,
    results, _, _, rfl, rfl, batches, _, _, rfl, ⟨rfl, hfits⟩, sources, _, _, rfl, rfl,
    numInputs, _, _, rfl, ⟨rfl, -⟩, publicSlots, _, _, rfl, ⟨rfl, -⟩, sharedSlots, _, _, rfl,
    ⟨rfl, -⟩, localSlots, _, _, rfl, ⟨rfl, -⟩, numPublic, _, _, rfl, ⟨rfl, -⟩, rfl, rfl⟩
  refine ⟨hfits, hcount, records, hrecords, ?_⟩
  simp [ProgramParts.bytesBehind, ProgramParts.writeTables, ProgramParts.writeTail]

end Readers

/-! ## Canonical records -/

/-- The number of instructions a byte string announces. -/
def recordCount (bytes : List UInt8) : Nat := ofLeBytes (slice bytes 12 20)

/-- The 16 bytes of one instruction. -/
def recordAt (bytes : List UInt8) (i : Nat) : List UInt8 :=
  slice bytes (20 + 16 * i) (20 + 16 * (i + 1))

/-- The record of a `Reshare` or a `Gadget` has zero `dst` and `b` fields. -/
def CleanRecord (record : List UInt8) : Prop :=
  record.getD 0 0 = Opcode.reshare.toU8 ∨ record.getD 0 0 = Opcode.gadget.toU8 →
    slice record 4 8 = [0, 0, 0, 0] ∧ slice record 12 16 = [0, 0, 0, 0]

/-- Every instruction record is clean. -/
def CleanRecords (bytes : List UInt8) : Prop :=
  ∀ i < recordCount bytes, CleanRecord (recordAt bytes i)

instance (record : List UInt8) : Decidable (CleanRecord record) :=
  inferInstanceAs (Decidable (_ → _))

instance (bytes : List UInt8) : Decidable (CleanRecords bytes) :=
  inferInstanceAs (Decidable (∀ i < _, _))

theorem writeU32_inj {m n : Nat} (hm : m < 2 ^ 32) (hn : n < 2 ^ 32)
    (h : writeU32 m = writeU32 n) : m = n := by
  have hread := congrArg ofLeBytes h
  unfold writeU32 at hread
  rwa [ofLeBytes_leBytes (by simpa using hm), ofLeBytes_leBytes (by simpa using hn)] at hread

@[simp] theorem writeU32_length (n : Nat) : (writeU32 n).length = 4 := leBytes_length 4 n

theorem Opcode.toU8_inj {op op' : Opcode} (h : op.toU8 = op'.toU8) : op = op' := by
  have hop := op.fromU8_toU8
  rw [h, op'.fromU8_toU8] at hop
  cases hop
  rfl

@[simp] theorem recordBytes_length (op : Opcode) (dst a b : Nat) :
    (recordBytes op dst a b).length = 16 := by
  simp [recordBytes]

theorem recordBytes_op (op : Opcode) (dst a b : Nat) :
    (recordBytes op dst a b).getD 0 0 = op.toU8 := rfl

theorem recordBytes_dst (op : Opcode) (dst a b : Nat) :
    slice (recordBytes op dst a b) 4 8 = writeU32 dst := by
  simp [slice, recordBytes]

theorem recordBytes_b (op : Opcode) (dst a b : Nat) :
    slice (recordBytes op dst a b) 12 16 = writeU32 b := by
  have hfront : ([op.toU8] ++ [0, 0, 0] ++ writeU32 dst ++ writeU32 a).length = 12 := by simp
  unfold recordBytes
  rw [show (12 : Nat) = 12 + 0 from rfl, show (16 : Nat) = 12 + 4 from rfl,
    slice_append_right hfront]
  simp [slice]

theorem Instruction.write_length (i : Instruction) : i.write.length = 16 :=
  recordBytes_length _ _ _ _

theorem Instruction.Record.length {i : Instruction} {bs : List UInt8} (h : i.Record bs) :
    bs.length = 16 := by
  obtain ⟨dst, b, -, -, rfl, -⟩ := h
  exact recordBytes_length _ _ _ _

/-- A record is the one `write` emits exactly when it is clean. -/
theorem Instruction.Record.eq_write_iff {i : Instruction} {bs : List UInt8} (h : i.Record bs) :
    bs = i.write ↔ CleanRecord bs := by
  obtain ⟨dst, b, hdst, hb, rfl, hused, hunused⟩ := h
  have hwrite : i.write = recordBytes i.op i.fields.1 i.fields.2.1 i.fields.2.2 := rfl
  unfold CleanRecord
  rw [hwrite, recordBytes_op, recordBytes_dst, recordBytes_b]
  constructor
  · intro heq htable
    have hd := congrArg (slice · 4 8) heq
    have hb' := congrArg (slice · 12 16) heq
    simp only [recordBytes_dst, recordBytes_b] at hd hb'
    obtain ⟨h1, h2⟩ := hunused (htable.imp Opcode.toU8_inj Opcode.toU8_inj)
    rw [hd, hb', h1, h2]
    exact ⟨rfl, rfl⟩
  · intro hclean
    by_cases htable : i.op = .reshare ∨ i.op = .gadget
    · obtain ⟨hd, hb'⟩ := hclean (htable.imp (congrArg Opcode.toU8) (congrArg Opcode.toU8))
      obtain ⟨h1, h2⟩ := hunused htable
      rw [h1, h2, writeU32_inj hdst (by decide) (hd : writeU32 dst = writeU32 0),
        writeU32_inj hb (by decide) (hb' : writeU32 b = writeU32 0)]
    · rw [not_or] at htable
      obtain ⟨h1, h2⟩ := hused htable.1 htable.2
      rw [h1, h2]

/-- A run of records is the one `write` emits exactly when every record is clean. -/
theorem records_eq_write_iff {instructions : List Instruction} {records : List (List UInt8)}
    (h : List.Forall₂ Instruction.Record instructions records) :
    records.flatten = instructions.flatMap Instruction.write ↔
      ∀ record ∈ records, CleanRecord record := by
  induction h with
  | nil => simp
  | cons hrecord _ ih =>
    rw [List.flatten_cons, List.flatMap_cons, List.forall_mem_cons, ← ih,
      ← hrecord.eq_write_iff]
    constructor
    · intro heq
      exact List.append_inj heq (by rw [hrecord.length, Instruction.write_length])
    · rintro ⟨h1, h2⟩
      rw [h1, h2]

/-! ## The whole byte string -/

section Accepted

variable {codec : FrCodec} {sizes : MemSizes} {limits : ReadLimits}

/-- An accepted byte string: the encoding of its program, up to the instruction records, of which
    `each` says what they may be. -/
structure Accepted (codec : FrCodec) (p : ProgramParts) (records : List (List UInt8))
    (bytes : List UInt8) : Prop where
  params : ∀ batch ∈ p.gadgetBatches, batch.kind.ParamFits
  count : p.instructions.length < 2 ^ 64
  each : List.Forall₂ Instruction.Record p.instructions records
  bytes : bytes = magic ++ writeU32 version ++ writeLen p.instructions.length ++
    (records.flatten ++ p.bytesBehind codec)

theorem Accepted.write_eq_iff {p : ProgramParts} {records : List (List UInt8)}
    {bytes : List UInt8} (h : Accepted codec p records bytes) :
    p.write codec = .ok bytes ↔ ∀ record ∈ records, CleanRecord record := by
  have hbytes : p.bytes codec = magic ++ writeU32 version ++ writeLen p.instructions.length ++
      (p.instructions.flatMap Instruction.write ++ p.bytesBehind codec) := by
    simp [ProgramParts.bytes, ProgramParts.writeHead, ProgramParts.bytesBehind, writeTable]
  rw [ProgramParts.write_eq_ok codec h.params, h.bytes, hbytes, ← records_eq_write_iff h.each]
  constructor
  · intro heq
    injection heq with heq
    exact (List.append_cancel_right (List.append_cancel_left heq)).symm
  · intro heq
    rw [heq]

theorem Accepted.recordCount {p : ProgramParts} {records : List (List UInt8)}
    {bytes : List UInt8} (h : Accepted codec p records bytes) :
    recordCount bytes = records.length := by
  have hslice : slice bytes 12 20 = writeLen p.instructions.length := by
    rw [h.bytes]
    simp [slice, magic, writeLen, writeU64]
  unfold CircomMpc.recordCount
  rw [hslice, ← h.each.length_eq]
  exact ofLeBytes_leBytes (by simpa using h.count)

theorem Accepted.recordAt {p : ProgramParts} {records : List (List UInt8)}
    {bytes : List UInt8} (h : Accepted codec p records bytes) {i : Nat} (hi : i < records.length) :
    recordAt bytes i = records[i] := by
  have hlen : ∀ record ∈ records, record.length = 16 := by
    intro record hmem
    obtain ⟨k, hk, rfl⟩ := List.mem_iff_getElem.mp hmem
    exact ((List.forall₂_iff_get.mp h.each).2 k (by rw [h.each.length_eq]; exact hk) hk).length
  have hfront : (magic ++ writeU32 version ++ writeLen p.instructions.length).length = 20 := by
    simp [magic, writeLen, writeU64]
  rw [← slice_flatten (p.bytesBehind codec) hlen hi, h.bytes]
  exact slice_append_right hfront

theorem Accepted.cleanRecords_iff {p : ProgramParts} {records : List (List UInt8)}
    {bytes : List UInt8} (h : Accepted codec p records bytes) :
    CleanRecords bytes ↔ ∀ record ∈ records, CleanRecord record := by
  unfold CleanRecords
  rw [h.recordCount]
  constructor
  · intro hclean record hmem
    obtain ⟨i, hi, rfl⟩ := List.mem_iff_getElem.mp hmem
    rw [← h.recordAt hi]
    exact hclean i hi
  · intro hclean i hi
    rw [h.recordAt hi]
    exact hclean _ (List.getElem_mem hi)

theorem checkParts_eq_ok {parts : ProgramParts} {program : Program}
    (h : checkParts parts = .ok program) : program.parts = parts := by
  unfold checkParts at h
  split at h
  · next q hq =>
    cases h
    exact Program.new_eq_ok.mp hq
  · cases h

theorem readProgram_consumes (hcodec : codec.Lawful) :
    Consumes (readProgram codec sizes limits) fun program bs =>
      ∃ records, Accepted codec program.parts records bs := by
  refine ((readParts_consumes hcodec).bind fun parts => Consumes.lift _).weaken ?_
  rintro program _ ⟨parts, _, _, rfl, ⟨hfits, hcount, records, heach, rfl⟩, hcheck, rfl⟩
  obtain rfl := checkParts_eq_ok hcheck
  exact ⟨records, hfits, hcount, heach, by rw [List.append_nil, List.append_assoc]⟩

/-- What `read_with_limits` accepts is an accepted byte string and whatever it left. -/
theorem accepted_of_readWithLimits (hcodec : codec.Lawful) {s left : List UInt8} {program : Program}
    (h : readWithLimits codec sizes limits s = .ok (program, left)) :
    ∃ records bytes, Accepted codec program.parts records bytes ∧ s = bytes ++ left := by
  obtain ⟨⟨program', rest⟩, hread, h⟩ := bind_eq_ok.mp h
  obtain ⟨bytes, hwindow, records, hacc⟩ := readProgram_consumes hcodec _ _ _ hread
  obtain ⟨-, hret⟩ := seq_eq_ok.mp h
  have hconsumed : (s.take limits.budget).length - rest.length = bytes.length := by
    rw [hwindow, List.length_append, Nat.add_sub_cancel]
  rw [hconsumed] at hret
  cases hret
  have htake : s.take bytes.length = bytes := by
    have hle : bytes.length ≤ limits.budget := by
      have hlen := congrArg List.length hwindow
      rw [List.length_append, List.length_take] at hlen
      omega
    have hwin := congrArg (List.take bytes.length) hwindow
    rwa [List.take_take, Nat.min_eq_left hle, List.take_left] at hwin
  refine ⟨records, bytes, hacc, ?_⟩
  conv_lhs => rw [← List.take_append_drop bytes.length s, htake]

theorem accepted_of_readExact (hcodec : codec.Lawful) {bytes : List UInt8} {program : Program}
    (h : readExact codec sizes bytes = .ok program) :
    ∃ records, Accepted codec program.parts records bytes := by
  obtain ⟨⟨program', left⟩, hread, h⟩ := bind_eq_ok.mp h
  obtain ⟨hleft, hret⟩ := seq_eq_ok.mp h
  cases hret
  obtain rfl := ensure_eq_ok.mp hleft
  obtain ⟨records, consumed, hacc, rfl⟩ := accepted_of_readWithLimits hcodec hread
  rw [List.append_nil]
  exact ⟨records, hacc⟩

end Accepted

/-- **An accepted byte string is canonical exactly when its table-index records are clean**: the
    `dst` and `b` fields of every `Reshare` and `Gadget` record are zero. -/
theorem write_readExact_iff (codec : FrCodec) (sizes : MemSizes) (hcodec : codec.Lawful)
    (bytes : List UInt8) (program : Program) (h : readExact codec sizes bytes = .ok program) :
    program.parts.write codec = .ok bytes ↔ CleanRecords bytes := by
  obtain ⟨records, hacc⟩ := accepted_of_readExact hcodec h
  rw [hacc.write_eq_iff, hacc.cleanRecords_iff]

/-- The squaring program's bytes. -/
def squareBytes : List UInt8 := squareParts.bytes .littleEndian

theorem readExact_square :
    ∃ program, readExact .littleEndian squareSizes squareBytes = .ok program := by
  have hread : (readExact .littleEndian squareSizes squareBytes).toOption.isSome = true := by
    decide +kernel
  cases h : readExact .littleEndian squareSizes squareBytes with
  | ok program => exact ⟨program, rfl⟩
  | error e => rw [h] at hread; cases hread

theorem write_readExact_iff_square :
    ∃ program, readExact .littleEndian squareSizes squareBytes = .ok program ∧
      program.parts.write .littleEndian = .ok squareBytes := by
  obtain ⟨program, hread⟩ := readExact_square
  exact ⟨program, hread, (write_readExact_iff _ _ FrCodec.littleEndian_lawful _ _ hread).mpr
    (by decide +kernel)⟩

/-- The same program, with the `dst` field of its `Reshare` record set. -/
def dirtyBytes : List UInt8 := squareBytes.set 40 1

/-- The dirty bytes are accepted, and `write` does not give them back. -/
theorem dirtyBytes_not_canonical :
    ¬ ∀ bytes program, readExact .littleEndian squareSizes bytes = .ok program →
      program.parts.write .littleEndian = .ok bytes := by
  intro hcanonical
  have hread : (readExact .littleEndian squareSizes dirtyBytes).toOption.isSome = true := by
    decide +kernel
  have hdirty : ¬ CleanRecords dirtyBytes := by decide +kernel
  cases h : readExact .littleEndian squareSizes dirtyBytes with
  | error e => rw [h] at hread; cases hread
  | ok program =>
    obtain ⟨records, hacc⟩ := accepted_of_readExact FrCodec.littleEndian_lawful h
    exact hdirty (hacc.cleanRecords_iff.mpr (hacc.write_eq_iff.mp (hcanonical _ _ h)))

end CircomMpc
