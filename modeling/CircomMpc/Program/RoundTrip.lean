import CircomMpc.Program.Serialize
import CircomMpc.Program.Rows

/-!
# Reading back what was written

Every piece of the encoder has a piece of the decoder that reads it back, so `readParts` decodes
`write`: it returns the program when every count is within the limits, fails when one is not, and
fails on every truncation. The byte budget is settled from that alone: a program longer than the
budget is truncated by it, and one that fills it exactly leaves no budget over.

`Sized` says what the source's own field types say: an index fits `u32`, a count or a length fits
`usize`.

`Decodes` is the rule of the library for a reader and the bytes of one value: it consumes exactly
them, or fails if the value is not allowed, and fails on every proper prefix. It composes, so there is
one lemma for a table of entries and one line for each table of the format.
-/

namespace CircomMpc

open Lib

/-! ## What the field types guarantee -/

/-- A gadget's parameter fits the `u32` it is written as. -/
def GadgetKind.ParamFits : GadgetKind → Prop
  | .num2Bits n | .reveal n => n < 2 ^ 32
  | .poseidon2 _ | .isZero | .aliasCheck => True

def BatchKind.ParamFits : BatchKind → Prop
  | .gadget kind => kind.ParamFits
  | .isZeroReveal | .precomputedPoseidon2 _ => True

def Instruction.Sized (i : Instruction) : Prop :=
  i.fields.1 < 2 ^ 32 ∧ i.fields.2.1 < 2 ^ 32 ∧ i.fields.2.2 < 2 ^ 32

def InputBinding.Sized (binding : InputBinding) : Prop :=
  binding.slot.index < 2 ^ 32 ∧ binding.inputIndex.index < 2 ^ 32

def InputSignal.Sized (signal : InputSignal) : Prop :=
  (utf8Bytes signal.name).length < 2 ^ 64 ∧ signal.offset < 2 ^ 64 ∧ signal.size < 2 ^ 64

def RoundEntry.Sized (round : RoundEntry) : Prop :=
  round.operandStart < 2 ^ 32 ∧ round.len < 2 ^ 32 ∧ round.resultStart < 2 ^ 32

def WitnessSource.Sized : WitnessSource → Prop
  | .one | .zero => True
  | .input i => i.index < 2 ^ 32
  | .slot _ s => s.index < 2 ^ 32

instance : DecidablePred Instruction.Sized := fun _ => inferInstanceAs (Decidable (_ ∧ _ ∧ _))

instance : DecidablePred InputBinding.Sized := fun _ => inferInstanceAs (Decidable (_ ∧ _))

instance : DecidablePred InputSignal.Sized := fun _ => inferInstanceAs (Decidable (_ ∧ _ ∧ _))

instance : DecidablePred RoundEntry.Sized := fun _ => inferInstanceAs (Decidable (_ ∧ _ ∧ _))

instance : DecidablePred WitnessSource.Sized
  | .one | .zero => inferInstanceAs (Decidable True)
  | .input _ | .slot _ _ => inferInstanceAs (Decidable (_ < _))

/-- A table has a length, and its entries are sized. -/
def SizedTable {α : Type} (p : α → Prop) (xs : List α) : Prop :=
  xs.length < 2 ^ 64 ∧ ∀ x ∈ xs, p x

instance {α : Type} (p : α → Prop) [DecidablePred p] (xs : List α) : Decidable (SizedTable p xs) :=
  inferInstanceAs (Decidable (_ ∧ _))

structure GadgetBatch.Sized (batch : GadgetBatch) : Prop where
  sites : batch.sites < 2 ^ 64
  inputSlots : SizedTable (fun input : SiteInput => input.slot.index < 2 ^ 32) batch.inputSlots
  resultRequests : SizedTable (fun r : ResultSlot => r.index < 2 ^ 32) batch.resultRequests
  resultOffsets : SizedTable (· < 2 ^ 32) batch.resultOffsets
  resultTargets : SizedTable (fun t : ResultTarget => t.slot.index < 2 ^ 32) batch.resultTargets

structure ProgramParts.Sized (p : ProgramParts) : Prop where
  instructions : SizedTable Instruction.Sized p.instructions
  constants : p.constants.length < 2 ^ 64
  inputDomains : p.inputDomains.length < 2 ^ 64
  inputs : SizedTable InputBinding.Sized p.inputs
  inputSignals : SizedTable InputSignal.Sized p.inputSignals
  rounds : SizedTable RoundEntry.Sized p.rounds
  roundOperands : SizedTable (fun s : Slot => s.index < 2 ^ 32) p.roundOperands
  roundResults : SizedTable (fun s : Slot => s.index < 2 ^ 32) p.roundResults
  gadgetBatches : SizedTable GadgetBatch.Sized p.gadgetBatches
  witnessSources : SizedTable WitnessSource.Sized p.witnessSources
  numInputs : p.numInputs < 2 ^ 64
  slots : p.slots.public < 2 ^ 32 ∧ p.slots.shared < 2 ^ 32 ∧ p.slots.local < 2 ^ 32
  numPublicWitness : p.numPublicWitness < 2 ^ 32

/-! ## What the limits allow -/

namespace ReadLimits

/-- `n` entries of `size` bytes are within the limits. -/
def Allows (limits : ReadLimits) (size n : Nat) : Prop :=
  n ≤ limits.maxTableEntries.toNat ∧ n * size ≤ limits.maxEstimatedAllocation.toNat

instance (limits : ReadLimits) (size n : Nat) : Decidable (limits.Allows size n) :=
  inferInstanceAs (Decidable (_ ∧ _))

structure AllowsSignal (limits : ReadLimits) (signal : InputSignal) : Prop where
  name : limits.Allows 1 (utf8Bytes signal.name).length
  offset : limits.Allows 0 signal.offset
  size : limits.Allows 0 signal.size

structure AllowsBatch (limits : ReadLimits) (sizes : MemSizes) (batch : GadgetBatch) : Prop where
  sites : limits.Allows 0 batch.sites
  inputSlots : limits.Allows sizes.siteInput batch.inputSlots.length
  resultRequests : limits.Allows 4 batch.resultRequests.length
  resultOffsets : limits.Allows 4 batch.resultOffsets.length
  resultTargets : limits.Allows sizes.resultTarget batch.resultTargets.length

/-- Every table, string, site count, signal range and the input count are within the limits. -/
structure AllowsTables (limits : ReadLimits) (sizes : MemSizes) (p : ProgramParts) : Prop where
  instructions : limits.Allows sizes.instruction p.instructions.length
  constants : limits.Allows sizes.fr p.constants.length
  inputDomains : limits.Allows sizes.bank p.inputDomains.length
  inputs : limits.Allows sizes.inputBinding p.inputs.length
  inputSignals : limits.Allows 8 p.inputSignals.length
  signals : ∀ signal ∈ p.inputSignals, limits.AllowsSignal signal
  rounds : limits.Allows sizes.roundEntry p.rounds.length
  roundOperands : limits.Allows 4 p.roundOperands.length
  roundResults : limits.Allows 4 p.roundResults.length
  gadgetBatches : limits.Allows sizes.gadgetBatch p.gadgetBatches.length
  batches : ∀ batch ∈ p.gadgetBatches, limits.AllowsBatch sizes batch
  witnessSources : limits.Allows sizes.witnessSource p.witnessSources.length
  numInputs : limits.Allows 0 p.numInputs

/-- The tables are within the limits, and so is the whole encoding. -/
def AllowsProgram (limits : ReadLimits) (sizes : MemSizes) (p : ProgramParts)
    (bytes : List UInt8) : Prop :=
  bytes.length ≤ limits.maxSerializedBytes.toNat ∧ limits.AllowsTables sizes p

end ReadLimits

/-! ## Words, counts and tables -/

section Readers

variable {codec : FrCodec} {sizes : MemSizes} {limits : ReadLimits}

theorem readU8_decodes (b : UInt8) : Decodes readU8 [b] b True :=
  (Decodes.take ReadError.unexpectedEof [b] (n := 1) rfl).map

theorem readU32_decodes {n : Nat} (h : n < 2 ^ 32) : Decodes readU32 (writeU32 n) n True := by
  have hread := (Decodes.take ReadError.unexpectedEof _ (leBytes_length 4 n)).map (f := ofLeBytes)
  rw [ofLeBytes_leBytes (by simpa using h)] at hread
  exact hread

theorem readU64_decodes {n : Nat} (h : n < 2 ^ 64) : Decodes readU64 (writeU64 n) n True := by
  have hread := (Decodes.take ReadError.unexpectedEof _ (leBytes_length 8 n)).map (f := ofLeBytes)
  rw [ofLeBytes_leBytes (by simpa using h)] at hread
  exact hread

theorem check_decodes {c : Prop} [Decidable c] (e : ReadError) (h : c) :
    Decodes (check c e) [] () True :=
  Decodes.lift (ensure_of h)

theorem checkedCount_of_allows {size n : Nat} {table : String} (h : limits.Allows size n) :
    checkedCount limits size table n = .ok n := by
  have hsmall : n * size < 2 ^ 64 :=
    Nat.lt_of_le_of_lt h.2 limits.maxEstimatedAllocation.toNat_lt
  unfold checkedCount
  rw [ensure_of h.1, ok_bind, ensure_of hsmall, ok_bind, ensure_of h.2, ok_bind]
  rfl

theorem checkedCount_of_not_allows {size n : Nat} {table : String} (h : ¬ limits.Allows size n) :
    ∃ e, checkedCount limits size table n = .error e := by
  cases hcount : checkedCount limits size table n with
  | error e => exact ⟨e, rfl⟩
  | ok m =>
    unfold checkedCount at hcount
    obtain ⟨h1, hcount⟩ := seq_eq_ok.mp hcount
    obtain ⟨-, hcount⟩ := seq_eq_ok.mp hcount
    obtain ⟨h2, -⟩ := seq_eq_ok.mp hcount
    exact absurd ⟨ensure_eq_ok.mp h1, ensure_eq_ok.mp h2⟩ h

theorem readCount_decodes {size n : Nat} {table : String} (h : n < 2 ^ 64) :
    Decodes (readCount limits size table) (writeLen n) n (limits.Allows size n) :=
  ((readU64_decodes h).bind fun _ =>
    Decodes.guard checkedCount_of_allows checkedCount_of_not_allows).cast
      (List.append_nil _) (iff_of_eq (true_and _))

theorem readTable_decodes {α : Type} {size : Nat} {table : String} {entry : Reader ReadError α}
    {e : α → List UInt8} {p : α → Prop} {xs : List α} (hlen : xs.length < 2 ^ 64)
    (h : ∀ x ∈ xs, Decodes entry (e x) x (p x)) :
    Decodes (readTable limits size table entry) (writeTable e xs) xs
      (limits.Allows size xs.length ∧ ∀ x ∈ xs, p x) :=
  (readCount_decodes hlen).bind fun _ => Decodes.many h

/-- A table whose entries have no limits of their own. -/
theorem readPlainTable_decodes {α : Type} {size : Nat} {table : String}
    {entry : Reader ReadError α} {e : α → List UInt8} {p : α → Prop} {xs : List α}
    (hxs : SizedTable p xs) (h : ∀ x ∈ xs, p x → Decodes entry (e x) x True) :
    Decodes (readTable limits size table entry) (writeTable e xs) xs
      (limits.Allows size xs.length) :=
  (readTable_decodes hxs.1 fun x hx => h x hx (hxs.2 x hx)).cast rfl (by simp)

theorem readIndexVec_decodes {α : Type} {table : String} {toU32 : α → Nat} {fromU32 : Nat → α}
    {xs : List α} (hinv : ∀ x, fromU32 (toU32 x) = x)
    (hxs : SizedTable (fun x => toU32 x < 2 ^ 32) xs) :
    Decodes (readIndexVec limits fromU32 table) (writeIndexVec toU32 xs) xs
      (limits.Allows 4 xs.length) := by
  refine readPlainTable_decodes hxs fun x _ hx => ?_
  have hread := (readU32_decodes hx).map (f := fromU32)
  rw [hinv] at hread
  exact hread

theorem readU32Vec_decodes {table : String} {xs : List Nat} (hxs : SizedTable (· < 2 ^ 32) xs) :
    Decodes (readU32Vec limits table) (writeU32Vec xs) xs (limits.Allows 4 xs.length) :=
  readPlainTable_decodes hxs fun _ _ hx => readU32_decodes hx

theorem readString_decodes {field s : String} (h : (utf8Bytes s).length < 2 ^ 64) :
    Decodes (readString limits field) (writeString s) s
      (limits.Allows 1 (utf8Bytes s).length) := by
  have hutf8 : orElse (ReadError.utf8 field) (fromUtf8 (utf8Bytes s)) = .ok s := by
    rw [fromUtf8_utf8Bytes, orElse_some]
  refine ((readCount_decodes h).bind fun _ =>
    (Decodes.take _ _ rfl).bind fun _ => Decodes.lift hutf8).cast ?_ ?_
  · rw [List.append_nil]; rfl
  · simp

/-! ## Tags and records -/

theorem Opcode.fromU8_toU8 (op : Opcode) : Opcode.fromU8 op.toU8 = .ok op := by
  cases op <;> rfl

theorem Bank.fromU8_toU8 (bank : Bank) : Bank.fromU8 bank.toU8 = .ok bank := by
  cases bank <;> rfl

theorem readBank_decodes (bank : Bank) : Decodes readBank [bank.toU8] bank True :=
  ((readU8_decodes _).bind fun _ => Decodes.lift bank.fromU8_toU8).cast rfl (iff_of_eq (true_and _))

theorem Poseidon2Width.get_lt (t : Poseidon2Width) : t.get < 2 ^ 32 := by
  have h := t.supported
  simp only [poseidon2SupportedWidths, List.mem_cons, List.not_mem_nil, or_false] at h
  omega

theorem readWidth_decodes (t : Poseidon2Width) :
    Decodes readWidth (writeU32 t.get) t True := by
  have hnew : orElse (ReadError.poseidon2Width t.get) (Poseidon2Width.new? t.get) = .ok t := by
    rw [Poseidon2Width.new?_get, orElse_some]
  exact ((readU32_decodes t.get_lt).bind fun _ => Decodes.lift hnew).cast
    (List.append_nil _) (iff_of_eq (true_and _))

theorem writeParam_eq_ok {gadget : String} {n : Nat} (h : n < 2 ^ 32) :
    writeParam gadget n = .ok (writeU32 n) := by
  unfold writeParam
  rw [ensure_of h]
  rfl

/-- The bytes of a kind whose parameter fits. -/
def GadgetKind.bytes : GadgetKind → List UInt8
  | .poseidon2 t => [0] ++ writeU32 t.get
  | .num2Bits n => [1] ++ writeU32 n
  | .isZero => [2]
  | .aliasCheck => [3]
  | .reveal n => [5] ++ writeU32 n

theorem GadgetKind.write_eq_ok {kind : GadgetKind} (h : kind.ParamFits) :
    kind.write = .ok kind.bytes := by
  cases kind with
  | num2Bits n | reveal n =>
    simp only [GadgetKind.write, writeParam_eq_ok h, ok_bind]
    rfl
  | poseidon2 _ | isZero | aliasCheck => rfl

theorem GadgetKind.read_decodes {kind : GadgetKind} (h : kind.ParamFits) :
    Decodes GadgetKind.read kind.bytes kind True := by
  cases kind with
  | poseidon2 t =>
    exact ((readU8_decodes 0).bind fun _ => (readWidth_decodes t).map).cast rfl (and_self_iff)
  | num2Bits n =>
    exact ((readU8_decodes 1).bind fun _ => (readU32_decodes h).map).cast rfl (and_self_iff)
  | isZero => exact (readU8_decodes 2).bind_pure rfl
  | aliasCheck => exact (readU8_decodes 3).bind_pure rfl
  | reveal n =>
    exact ((readU8_decodes 5).bind fun _ => (readU32_decodes h).map).cast rfl (and_self_iff)

/-- The bytes of a batch kind whose parameter fits. -/
def BatchKind.bytes : BatchKind → List UInt8
  | .gadget kind => [0] ++ kind.bytes
  | .isZeroReveal => [1]
  | .precomputedPoseidon2 t => [2] ++ writeU32 t.get

theorem BatchKind.write_eq_ok {kind : BatchKind} (h : kind.ParamFits) :
    kind.write = .ok kind.bytes := by
  cases kind with
  | gadget kind =>
    simp only [BatchKind.write, GadgetKind.write_eq_ok h, ok_bind]
    rfl
  | isZeroReveal | precomputedPoseidon2 _ => rfl

theorem BatchKind.read_decodes {kind : BatchKind} (h : kind.ParamFits) :
    Decodes BatchKind.read kind.bytes kind True := by
  cases kind with
  | gadget kind =>
    exact ((readU8_decodes 0).bind fun _ => (GadgetKind.read_decodes h).map).cast rfl
      (and_self_iff)
  | isZeroReveal => exact (readU8_decodes 1).bind_pure rfl
  | precomputedPoseidon2 t =>
    exact ((readU8_decodes 2).bind fun _ => (readWidth_decodes t).map).cast rfl (and_self_iff)

theorem readInstruction_decodes {i : Instruction} (hi : i.Sized)
    (hop : ∀ op dst a b, i = .arith op dst a b → op.banks ≠ none) :
    Decodes readInstruction i.write i True := by
  obtain ⟨hd, ha, hb⟩ := hi
  refine Decodes.cast ((readU8_decodes i.op.toU8).bind fun _ =>
    (Decodes.lift (Opcode.fromU8_toU8 i.op)).bind fun _ =>
    (Decodes.take _ [0, 0, 0] rfl).bind fun _ =>
    (check_decodes _ rfl).bind fun _ =>
    (readU32_decodes hd).bind fun _ =>
    (readU32_decodes ha).bind fun _ =>
    (readU32_decodes hb).bind_pure (congrArg pure ?_)) ?_ ?_
  · cases i with
    | arith op dst a b =>
      have hbanks := hop op dst a b rfl
      cases op <;> first | rfl | exact absurd rfl hbanks
    | reshare round => rfl
    | gadget batch => rfl
  · simp [Instruction.write]
  · simp

theorem readFr_decodes (hcodec : codec.Lawful) (x : Fr) :
    Decodes (readFr codec) (codec.serialize x) x True := by
  have hfield : orElse ReadError.field (codec.deserialize (codec.serialize x)) = .ok x := by
    rw [hcodec.roundTrip, orElse_some]
  exact ((Decodes.take _ _ (hcodec.length x)).bind fun _ => Decodes.lift hfield).cast
    (List.append_nil _) (and_self_iff)

theorem readBanked_decodes {α : Type} {mk : Bank → Slot → α} {e : ReadError} {bank : Bank}
    {slot : Slot} (hbank : bank ≠ .local) (hslot : slot.index < 2 ^ 32) :
    Decodes (readBanked mk e) (writeBanked bank slot) (mk bank slot) True := by
  refine Decodes.cast ((readBank_decodes bank).bind fun _ => (check_decodes e hbank).bind fun _ =>
    (readU32_decodes hslot).map) rfl ?_
  simp

theorem readWitnessSource_decodes {p : ProgramParts} {source : WitnessSource}
    (hok : p.SourceOk source) (hs : source.Sized) :
    Decodes readWitnessSource source.write source True := by
  cases source with
  | one => exact (readU8_decodes 0).bind_pure rfl
  | zero => exact (readU8_decodes 3).bind_pure rfl
  | input i =>
    exact ((readU8_decodes 1).bind fun _ => (readU32_decodes hs).map).cast rfl (and_self_iff)
  | slot bank target =>
    refine Decodes.cast ((readU8_decodes 2).bind fun _ => (readBank_decodes bank).bind fun _ =>
      (readU32_decodes hs).bind fun _ => (check_decodes .witnessLocal hok.1).bind_pure rfl) ?_ ?_
    · simp [WitnessSource.write, writeBanked]
    · simp

/-! ## Gadget batches -/

/-- The bytes of a batch whose parameter fits. -/
def GadgetBatch.bytes (batch : GadgetBatch) : List UInt8 := batch.kind.bytes ++ batch.writeBody

theorem GadgetBatch.write_eq_ok {batch : GadgetBatch} (h : batch.kind.ParamFits) :
    batch.write = .ok batch.bytes := by
  unfold GadgetBatch.write
  rw [BatchKind.write_eq_ok h]
  rfl

/-- The checks the reader repeats are checks an accepted batch has passed. -/
theorem checkBatch_eq_ok {p : ProgramParts} {batch : GadgetBatch} (hb : p.BatchOk batch)
    (hs : batch.Sized) :
    checkBatch batch.sites batch.resultRequests batch.resultOffsets batch.resultTargets =
      .ok () := by
  have hsites : batch.sites + 1 < 2 ^ 64 := by
    rw [← hb.offsets.length]
    exact hs.resultOffsets.1
  have hcount : batch.resultRequests.length < 2 ^ 32 :=
    hs.resultOffsets.2 _ (List.mem_of_getLast? hb.offsets.last)
  unfold checkBatch
  rw [ensure_of hsites, ok_bind, ensure_of hb.offsets.length, ok_bind, ensure_of hb.targets,
    ok_bind, ensure_of hcount, ok_bind, ensure_of]
  exact ⟨hb.offsets.first, hb.offsets.last, (windows_all _).mpr hb.offsets.ascending⟩

theorem readGadgetBatch_decodes {p : ProgramParts} {batch : GadgetBatch} (hb : p.BatchOk batch)
    (hs : batch.Sized) (hkind : batch.kind.ParamFits) :
    Decodes (readGadgetBatch sizes limits) batch.bytes batch (limits.AllowsBatch sizes batch) := by
  have hinputs : Decodes (readTable limits sizes.siteInput "gadget input"
      (readBanked SiteInput.mk .inputLocal))
      (writeTable (fun input => writeBanked input.bank input.slot) batch.inputSlots)
      batch.inputSlots (limits.Allows sizes.siteInput batch.inputSlots.length) :=
    readPlainTable_decodes hs.inputSlots fun input hi hslot =>
      readBanked_decodes (hb.inputs input hi).1 hslot
  have htargets : Decodes (readTable limits sizes.resultTarget "gadget target"
      (readBanked ResultTarget.mk .resultLocal))
      (writeTable (fun target => writeBanked target.bank target.slot) batch.resultTargets)
      batch.resultTargets (limits.Allows sizes.resultTarget batch.resultTargets.length) :=
    readPlainTable_decodes hs.resultTargets fun target ht hslot =>
      readBanked_decodes (hb.target_ok ht).choose_spec.banked hslot
  refine Decodes.cast ((BatchKind.read_decodes hkind).bind fun _ =>
    (readCount_decodes hs.sites).bind fun _ =>
    (check_decodes .noSites hb.sites).bind fun _ =>
    hinputs.bind fun _ =>
    (readIndexVec_decodes (fun _ => rfl) hs.resultRequests).bind fun _ =>
    (readU32Vec_decodes hs.resultOffsets).bind fun _ =>
    htargets.bind fun _ =>
    (Decodes.lift (checkBatch_eq_ok hb hs)).bind_pure rfl) ?_ ?_
  · simp [GadgetBatch.bytes, GadgetBatch.writeBody]
  · constructor
    · rintro ⟨-, h1, -, h2, h3, h4, h5, -⟩
      exact ⟨h1, h2, h3, h4, h5⟩
    · intro h
      exact ⟨trivial, h.sites, trivial, h.inputSlots, h.resultRequests, h.resultOffsets,
        h.resultTargets, trivial⟩

/-! ## The whole program -/

theorem readHeader_decodes : Decodes readHeader (magic ++ writeU32 version) () True := by
  refine Decodes.cast ((Decodes.take _ magic rfl).bind fun _ =>
    (check_decodes .badMagic rfl).bind fun _ =>
    (readU32_decodes (n := version) (by decide)).bind fun _ => check_decodes _ rfl) ?_ ?_
  · simp
  · simp

/-- The encoding of parts whose gadget parameters fit. -/
def ProgramParts.bytes (codec : FrCodec) (p : ProgramParts) : List UInt8 :=
  p.writeHead ++ p.writeTables codec ++ writeTable GadgetBatch.bytes p.gadgetBatches ++ p.writeTail

theorem ProgramParts.write_eq_ok (codec : FrCodec) {p : ProgramParts}
    (h : ∀ batch ∈ p.gadgetBatches, batch.kind.ParamFits) :
    p.write codec = .ok (p.bytes codec) := by
  unfold ProgramParts.write
  rw [mapM_eq_ok fun batch hb => GadgetBatch.write_eq_ok (h batch hb), ok_bind,
    ← List.flatMap_def]
  rfl

theorem ProgramParts.WellEncoded.arith_banks {p : ProgramParts} (hw : p.WellEncoded)
    {i : Instruction} (hi : i ∈ p.instructions) :
    ∀ op dst a b, i = .arith op dst a b → op.banks ≠ none := by
  rintro op dst a b rfl hnone
  obtain ⟨banks, hbanks, -⟩ := hw.instructions _ hi
  rw [hnone] at hbanks
  cases hbanks

theorem readInputBinding_decodes {binding : InputBinding} (h : binding.Sized) :
    Decodes (do
      let bank ← readBank
      let slot ← readU32
      let index ← readU32
      pure { bank, slot := ⟨slot⟩, inputIndex := ⟨index⟩ }) binding.write binding True := by
  refine Decodes.cast ((readBank_decodes binding.bank).bind fun _ =>
    (readU32_decodes h.1).bind fun _ => (readU32_decodes h.2).bind_pure rfl) ?_ ?_
  · simp [InputBinding.write]
  · simp

theorem readInputSignal_decodes {signal : InputSignal} (h : signal.Sized) :
    Decodes (do
      let name ← readString limits "input signal name"
      let offset ← readCount limits 0 "input signal offset"
      let size ← readCount limits 0 "input signal size"
      pure { name, offset, size }) signal.write signal (limits.AllowsSignal signal) := by
  refine Decodes.cast ((readString_decodes h.1).bind fun _ => (readCount_decodes h.2.1).bind fun _ =>
    (readCount_decodes h.2.2).bind_pure rfl) ?_ ?_
  · simp [InputSignal.write]
  · exact ⟨fun ⟨h1, h2, h3⟩ => ⟨h1, h2, h3⟩, fun h => ⟨h.name, h.offset, h.size⟩⟩

theorem readRoundEntry_decodes {round : RoundEntry} (h : round.Sized) :
    Decodes (do
      let operandStart ← readU32
      let len ← readU32
      let resultStart ← readU32
      pure { operandStart, len, resultStart }) round.write round True := by
  refine Decodes.cast ((readU32_decodes h.1).bind fun _ => (readU32_decodes h.2.1).bind fun _ =>
    (readU32_decodes h.2.2).bind_pure rfl) ?_ ?_
  · simp [RoundEntry.write]
  · simp

/-- **The decoder reads the encoding back.** -/
theorem readParts_decodes (hcodec : codec.Lawful) {p : ProgramParts} (hw : p.WellEncoded)
    (hs : p.Sized) (hparams : ∀ batch ∈ p.gadgetBatches, batch.kind.ParamFits) :
    Decodes (readParts codec sizes limits) (p.bytes codec) p (limits.AllowsTables sizes p) := by
  have hinstructions : Decodes (readInstructions sizes limits)
      (writeTable Instruction.write p.instructions) p.instructions
      (limits.Allows sizes.instruction p.instructions.length) :=
    readPlainTable_decodes hs.instructions fun _ hi hsized =>
      readInstruction_decodes hsized (hw.arith_banks hi)
  have hconstants : Decodes (readConstants codec sizes limits)
      (writeTable codec.serialize p.constants) p.constants
      (limits.Allows sizes.fr p.constants.length) :=
    readPlainTable_decodes (p := fun _ => True) ⟨hs.constants, fun _ _ => trivial⟩
      fun x _ _ => readFr_decodes hcodec x
  have hdomains : Decodes (readInputDomains sizes limits)
      (writeTable (fun bank => [bank.toU8]) p.inputDomains) p.inputDomains
      (limits.Allows sizes.bank p.inputDomains.length) :=
    readPlainTable_decodes (p := fun _ => True) ⟨hs.inputDomains, fun _ _ => trivial⟩
      fun bank _ _ => readBank_decodes bank
  have hinputs : Decodes (readInputBindings sizes limits)
      (writeTable InputBinding.write p.inputs) p.inputs
      (limits.Allows sizes.inputBinding p.inputs.length) :=
    readPlainTable_decodes hs.inputs fun _ _ => readInputBinding_decodes
  have hsignals : Decodes (readInputSignals limits)
      (writeTable InputSignal.write p.inputSignals) p.inputSignals
      (limits.Allows 8 p.inputSignals.length ∧ ∀ s ∈ p.inputSignals, limits.AllowsSignal s) :=
    readTable_decodes hs.inputSignals.1 fun s hmem =>
      readInputSignal_decodes (hs.inputSignals.2 s hmem)
  have hrounds : Decodes (readRoundEntries sizes limits)
      (writeTable RoundEntry.write p.rounds) p.rounds
      (limits.Allows sizes.roundEntry p.rounds.length) :=
    readPlainTable_decodes hs.rounds fun _ _ => readRoundEntry_decodes
  have hbatches : Decodes (readGadgetBatches sizes limits)
      (writeTable GadgetBatch.bytes p.gadgetBatches) p.gadgetBatches
      (limits.Allows sizes.gadgetBatch p.gadgetBatches.length ∧
        ∀ b ∈ p.gadgetBatches, limits.AllowsBatch sizes b) :=
    readTable_decodes hs.gadgetBatches.1 fun b hmem =>
      readGadgetBatch_decodes (hw.batches b hmem) (hs.gadgetBatches.2 b hmem) (hparams b hmem)
  have hsources : Decodes (readWitnessSources sizes limits)
      (writeTable WitnessSource.write p.witnessSources) p.witnessSources
      (limits.Allows sizes.witnessSource p.witnessSources.length) :=
    readPlainTable_decodes hs.witnessSources fun source hmem =>
      readWitnessSource_decodes (hw.witness source hmem)
  -- The tables in the order of the format; each reader starts where the one before has stopped.
  refine Decodes.cast (readHeader_decodes.bind fun _ => hinstructions.bind fun _ =>
    hconstants.bind fun _ => hdomains.bind fun _ => hinputs.bind fun _ => hsignals.bind fun _ =>
    hrounds.bind fun _ =>
    (readIndexVec_decodes (fun _ => rfl) hs.roundOperands).bind fun _ =>
    (readIndexVec_decodes (fun _ => rfl) hs.roundResults).bind fun _ =>
    hbatches.bind fun _ => hsources.bind fun _ => (readCount_decodes hs.numInputs).bind fun _ =>
    (readU32_decodes hs.slots.1).bind fun _ => (readU32_decodes hs.slots.2.1).bind fun _ =>
    (readU32_decodes hs.slots.2.2).bind fun _ =>
    (readU32_decodes hs.numPublicWitness).bind_pure rfl) ?_ ?_
  · simp [ProgramParts.bytes, ProgramParts.writeHead, ProgramParts.writeTables,
      ProgramParts.writeTail]
  · -- The limits are asked table by table, and `AllowsTables` lists them.
    constructor
    · rintro ⟨-, h1, h2, h3, h4, ⟨h5, h6⟩, h7, h8, h9, ⟨h10, h11⟩, h12, h13, -⟩
      exact ⟨h1, h2, h3, h4, h5, h6, h7, h8, h9, h10, h11, h12, h13⟩
    · intro h
      exact ⟨trivial, h.instructions, h.constants, h.inputDomains, h.inputs,
        ⟨h.inputSignals, h.signals⟩, h.rounds, h.roundOperands, h.roundResults,
        ⟨h.gadgetBatches, h.batches⟩, h.witnessSources, h.numInputs, trivial, trivial, trivial,
        trivial⟩

theorem readProgram_decodes (hcodec : codec.Lawful) {program : Program}
    (hs : program.parts.Sized)
    (hparams : ∀ batch ∈ program.parts.gadgetBatches, batch.kind.ParamFits) :
    Decodes (readProgram codec sizes limits) (program.parts.bytes codec) program
      (limits.AllowsTables sizes program.parts) := by
  have hcheck : checkParts program.parts = .ok program := by
    unfold checkParts
    rw [Program.new_eq_ok.mpr rfl]
  exact Decodes.cast ((readParts_decodes hcodec program.wellEncoded hs hparams).bind fun _ =>
    Decodes.lift hcheck) (List.append_nil _) (and_iff_left trivial)

/-! ## The byte budget -/

theorem ReadLimits.budget_le (limits : ReadLimits) :
    limits.budget ≤ limits.maxSerializedBytes.toNat + 1 :=
  Nat.min_le_left _ _

/-- What the tables' limits say of an encoding that is read through the budget's window. -/
theorem readWithLimits_of_decodes {bytes : List UInt8} {program : Program} {ok : Prop}
    (hread : Decodes (readProgram codec sizes limits) bytes program ok)
    (hlen : bytes.length < 2 ^ 64 - 1) (rest : List UInt8) :
    (bytes.length ≤ limits.maxSerializedBytes.toNat ∧ ok →
      readWithLimits codec sizes limits (bytes ++ rest) = .ok (program, rest)) ∧
    (¬ (bytes.length ≤ limits.maxSerializedBytes.toNat ∧ ok) →
      ∃ e, readWithLimits codec sizes limits (bytes ++ rest) = .error e) := by
  have hbudget := limits.budget_le
  by_cases hfit : bytes.length ≤ limits.budget
  · -- The window holds the whole encoding, and perhaps some of what follows.
    have hwindow : (bytes ++ rest).take limits.budget =
        bytes ++ rest.take (limits.budget - bytes.length) := by
      rw [List.take_append, List.take_of_length_le hfit]
    have hconsumed : (bytes ++ rest.take (limits.budget - bytes.length)).length -
        (rest.take (limits.budget - bytes.length)).length = bytes.length := by
      rw [List.length_append, Nat.add_sub_cancel]
    unfold readWithLimits
    rw [hwindow]
    constructor
    · rintro ⟨hmax, hok⟩
      have hleft : 0 < limits.budget - bytes.length := by
        unfold ReadLimits.budget
        omega
      simp only [hread.accepts hok, ok_bind, hconsumed, ensure_of hleft]
      rw [List.drop_left]
      rfl
    · intro hnot
      by_cases hok : ok
      · -- Only the byte limit is left to fail: the encoding fills the whole window.
        have hfull : ¬ 0 < limits.budget - bytes.length := fun h =>
          hnot ⟨by omega, hok⟩
        refine ⟨.byteLimit, ?_⟩
        simp only [hread.accepts hok, ok_bind, hconsumed, ensure_of_not hfull]
        rfl
      · obtain ⟨e, he⟩ := hread.rejects hok (rest.take (limits.budget - bytes.length))
        exact ⟨e, by simp only [he]; rfl⟩
  · -- The window cuts the encoding short.
    have hwindow : (bytes ++ rest).take limits.budget = bytes.take limits.budget :=
      List.take_append_of_le_length (by omega)
    obtain ⟨e, he⟩ := hread.truncated (bytes.take limits.budget) (bytes.drop limits.budget)
      (List.take_append_drop _ _).symm (by
        intro hnil
        exact hfit (List.drop_eq_nil_iff.mp hnil))
    refine ⟨fun h => ?_, fun _ => ⟨e, ?_⟩⟩
    · refine absurd ?_ hfit
      unfold ReadLimits.budget
      omega
    · unfold readWithLimits
      rw [hwindow]
      simp only [he]
      rfl

/-- `read_exact` is `read` and nothing left. -/
theorem readExact_of_read {bytes : List UInt8} {program : Program} {left : List UInt8}
    (h : read codec sizes bytes = .ok (program, left)) :
    readExact codec sizes bytes = if left = [] then .ok program else .error .trailing := by
  unfold readExact
  rw [h, ok_bind]
  by_cases hleft : left = []
  · simp only [ensure_of hleft, if_pos hleft, ok_bind]
    rfl
  · simp only [ensure_of_not hleft, if_neg hleft]
    rfl

theorem readExact_of_error {bytes : List UInt8} {e : ReadError}
    (h : read codec sizes bytes = .error e) : readExact codec sizes bytes = .error e := by
  unfold readExact
  rw [h]
  rfl

end Readers

/-- **Serialization round-trips and frames itself.** Whatever follows the written bytes, reading
    them returns the program and stops right behind them when the limits allow the program, and
    fails when they do not; `read_exact` moreover wants nothing to follow. -/
theorem serialize_roundTrip (codec : FrCodec) (sizes : MemSizes) (limits : ReadLimits)
    (hcodec : codec.Lawful) (program : Program) (hs : program.parts.Sized)
    (hparams : ∀ batch ∈ program.parts.gadgetBatches, batch.kind.ParamFits)
    (hlen : ∀ bytes, program.parts.write codec = .ok bytes → bytes.length < 2 ^ 64 - 1)
    (rest : List UInt8) :
    ∃ bytes, program.parts.write codec = .ok bytes ∧
      (readWithLimits codec sizes limits (bytes ++ rest) = .ok (program, rest) ↔
        limits.AllowsProgram sizes program.parts bytes) ∧
      (¬ limits.AllowsProgram sizes program.parts bytes →
        ∃ e, readWithLimits codec sizes limits (bytes ++ rest) = .error e) ∧
      (readExact codec sizes (bytes ++ rest) = .ok program ↔
        ReadLimits.default.AllowsProgram sizes program.parts bytes ∧ rest = []) ∧
      (¬ (ReadLimits.default.AllowsProgram sizes program.parts bytes ∧ rest = []) →
        ∃ e, readExact codec sizes (bytes ++ rest) = .error e) := by
  have hwrite := ProgramParts.write_eq_ok codec hparams
  have hread : ∀ limits, Decodes (readProgram codec sizes limits) (program.parts.bytes codec)
      program (limits.AllowsTables sizes program.parts) :=
    fun limits => readProgram_decodes hcodec hs hparams
  obtain ⟨haccept, hreject⟩ := readWithLimits_of_decodes (hread limits) (hlen _ hwrite) rest
  obtain ⟨haccept', hreject'⟩ := readWithLimits_of_decodes (hread .default) (hlen _ hwrite) rest
  -- `read_exact` is the default limits and nothing behind: one of the two is missing.
  have hexact : ¬ (ReadLimits.default.AllowsProgram sizes program.parts
      (program.parts.bytes codec) ∧ rest = []) →
      ∃ e, readExact codec sizes (program.parts.bytes codec ++ rest) = .error e := by
    intro hnot
    by_cases hallow : ReadLimits.default.AllowsProgram sizes program.parts
        (program.parts.bytes codec)
    · have hrest : rest ≠ [] := fun h => hnot ⟨hallow, h⟩
      exact ⟨.trailing, (readExact_of_read (haccept' hallow)).trans (if_neg hrest)⟩
    · obtain ⟨e, he⟩ := hreject' hallow
      exact ⟨e, readExact_of_error he⟩
  -- Each equivalence from its two halves, the refusals being the contrapositive.
  refine ⟨_, hwrite, ⟨fun h => ?_, haccept⟩, hreject, ⟨fun h => ?_, ?_⟩, hexact⟩
  · by_contra hnot
    obtain ⟨e, he⟩ := hreject hnot
    rw [h] at he
    cases he
  · by_contra hnot
    obtain ⟨e, he⟩ := hexact hnot
    rw [h] at he
    cases he
  · rintro ⟨hallow, hrest⟩
    exact (readExact_of_read (haccept' hallow)).trans (if_pos hrest)

/-! ## A concrete encoding -/

/-- 32 little-endian bytes of the canonical representative. -/
def frBytes (x : Fr) : List UInt8 := leBytes 32 (intoBigint x)

/-- The number the bytes stand for, if it is a canonical representative. -/
def frOfBytes (bytes : List UInt8) : Option Fr :=
  if ofLeBytes bytes < modulus then some (ofLeBytes bytes : Fr) else none

theorem frBytes_length (x : Fr) : (frBytes x).length = 32 := leBytes_length 32 _

theorem frOfBytes_frBytes (x : Fr) : frOfBytes (frBytes x) = some x := by
  have hx := intoBigint_lt x
  have hread : ofLeBytes (frBytes x) = intoBigint x :=
    ofLeBytes_leBytes (Nat.lt_trans hx (by decide))
  unfold frOfBytes
  rw [hread, if_pos hx]
  exact congrArg some (ZMod.natCast_zmod_val x)

theorem frBytes_frOfBytes {bytes : List UInt8} {x : Fr} (hlen : bytes.length = 32)
    (h : frOfBytes bytes = some x) : bytes = frBytes x := by
  unfold frOfBytes at h
  split at h
  · next hlt =>
    cases h
    have hval : intoBigint (ofLeBytes bytes : Fr) = ofLeBytes bytes := ZMod.val_natCast_of_lt hlt
    have hbytes := leBytes_ofLeBytes bytes
    rw [hlen] at hbytes
    unfold frBytes
    rw [hval, hbytes]
  · cases h

def FrCodec.littleEndian : FrCodec where
  size := 32
  serialize := frBytes
  deserialize := frOfBytes

theorem FrCodec.littleEndian_lawful : FrCodec.littleEndian.Lawful where
  length := frBytes_length
  roundTrip x := by
    -- Projections only: unfolding `frOfBytes` here would compare with `modulus` in unary.
    simp only [FrCodec.littleEndian]
    exact frOfBytes_frBytes x
  canonical _ _ hlen h := frBytes_frOfBytes hlen h

/-- One secret, squared in one round. -/
def squareParts : ProgramParts where
  instructions := [.arith .mulLocal ⟨0⟩ ⟨0⟩ ⟨0⟩, .reshare ⟨0⟩]
  constants := [7]
  inputDomains := [.shared]
  inputs := [⟨.shared, ⟨0⟩, ⟨0⟩⟩]
  inputSignals := [⟨"x", 0, 1⟩]
  rounds := [⟨0, 1, 0⟩]
  roundOperands := [⟨0⟩]
  roundResults := [⟨1⟩]
  gadgetBatches := []
  witnessSources := [.one, .slot .shared ⟨1⟩]
  numInputs := 1
  slots := ⟨1, 2, 1⟩
  numPublicWitness := 1

def squareProgram : Program := ⟨squareParts, by rfl⟩

theorem squareParts_sized : squareParts.Sized where
  instructions := by decide
  constants := by decide
  inputDomains := by decide
  inputs := by decide
  inputSignals := by decide
  rounds := by decide
  roundOperands := by decide
  roundResults := by decide
  gadgetBatches := ⟨by decide, by simp [squareParts]⟩
  witnessSources := by decide
  numInputs := by decide
  slots := by decide
  numPublicWitness := by decide

theorem squareParts_paramFits :
    ∀ batch ∈ squareProgram.parts.gadgetBatches, batch.kind.ParamFits := by
  intro batch h
  cases h

theorem squareParts_length : (squareParts.bytes .littleEndian).length = 242 := by
  decide +kernel

/-- The sizes of the entry types on a 64-bit target. -/
def squareSizes : MemSizes where
  instruction := 16
  fr := 32
  bank := 1
  inputBinding := 12
  roundEntry := 12
  siteInput := 8
  resultTarget := 8
  gadgetBatch := 120
  witnessSource := 8

theorem squareParts_allowed : ReadLimits.default.AllowsProgram squareSizes squareParts
    (squareParts.bytes .littleEndian) := by
  refine ⟨by rw [squareParts_length]; decide, ?_⟩
  exact {
    instructions := by decide
    constants := by decide
    inputDomains := by decide
    inputs := by decide
    inputSignals := by decide
    signals := by
      intro signal h
      obtain rfl : signal = ⟨"x", 0, 1⟩ := by simpa [squareParts] using h
      exact ⟨by decide, by decide, by decide⟩
    rounds := by decide
    roundOperands := by decide
    roundResults := by decide
    gadgetBatches := by decide
    batches := by
      intro batch h
      cases h
    witnessSources := by decide
    numInputs := by decide }

/-- Written, followed by a stray byte, and read back. -/
theorem serialize_roundTrip_square : ∃ bytes, squareParts.write .littleEndian = .ok bytes ∧
    readWithLimits .littleEndian squareSizes .default (bytes ++ [0]) =
      .ok (squareProgram, [0]) := by
  have hwrite := ProgramParts.write_eq_ok .littleEndian squareParts_paramFits
  obtain ⟨bytes, hbytes, hread, -⟩ := serialize_roundTrip .littleEndian squareSizes .default
    FrCodec.littleEndian_lawful squareProgram squareParts_sized squareParts_paramFits (by
      intro bytes h
      cases hwrite.symm.trans h
      have hlen : (squareProgram.parts.bytes .littleEndian).length = 242 := squareParts_length
      omega) [0]
  cases hwrite.symm.trans hbytes
  exact ⟨_, hbytes, hread.mpr squareParts_allowed⟩

end CircomMpc
