import CircomMpc.Field

/-!
# The bytecode: its tables and their entries

The data model of `circom-mpc-program`: a slot machine over three domain-typed banks, plus the side
tables that carry everything that is program *structure* rather than a per-value operation. Names
and fields are the source's.

The five index newtypes of `index.rs` stay five types, so that a slot can never be mistaken for a
round or a batch here either. They wrap a natural number: the width of the wire field they travel in
(`u32`) only matters to the serializer, and is stated there.
-/

namespace CircomMpc

/-- A bank-relative physical slot index. -/
structure Slot where
  index : Nat
deriving DecidableEq, Repr

/-- An index into `Program::rounds`. -/
structure RoundIdx where
  index : Nat
deriving DecidableEq, Repr

/-- An index into `Program::gadget_batches`. -/
structure BatchIdx where
  index : Nat
deriving DecidableEq, Repr

/-- A flat circuit input index. -/
structure InputIdx where
  index : Nat
deriving DecidableEq, Repr

/-- A gadget site's logical result ordinal. -/
structure ResultSlot where
  index : Nat
deriving DecidableEq, Repr

/-- Which physical slot bank a value lives in. -/
inductive Bank where
  | «public»
  | shared
  /-- A post-`MulLocal`, pre-reshare additive sharing. -/
  | «local»
deriving DecidableEq, Repr

/-- One operation, named `<Op><BankOfA><BankOfB>` (`P` public, `S` shared). -/
inductive Opcode where
  | addPP | subPP | mulPP
  | addSS | subSS
  | addSP | subSP | subPS | mulSP
  /-- The free local half of a secret x secret product. -/
  | mulLocal
  | reshare
  | gadget
deriving DecidableEq, Repr

/-- One instruction: an arithmetic opcode over bank-relative slots, or an index into one of the two
    side tables. -/
inductive Instruction where
  | arith (op : Opcode) (dst a b : Slot)
  | reshare (round : RoundIdx)
  | gadget (batch : BatchIdx)
deriving DecidableEq, Repr

/-- `Instruction::op`: the tag the wire format stores. -/
def Instruction.op : Instruction → Opcode
  | .arith op _ _ _ => op
  | .reshare _ => .reshare
  | .gadget _ => .gadget

/-- One batched round: `operandStart/len` into `round_operands`, `resultStart/len` into
    `round_results`. -/
structure RoundEntry where
  operandStart : Nat
  len : Nat
  resultStart : Nat
deriving DecidableEq, Repr

/-- One input value of one gadget site; banked, because a circuit may pass a literal. -/
structure SiteInput where
  bank : Bank
  slot : Slot
deriving DecidableEq, Repr

/-- One requested batch result's physical destination. -/
structure ResultTarget where
  bank : Bank
  slot : Slot
deriving DecidableEq, Repr

/-! ## Gadgets -/

/-- `POSEIDON2_SUPPORTED_WIDTHS`. -/
def poseidon2SupportedWidths : List Nat := [2, 3, 4, 8, 16]

/-- A Poseidon2 state width, checked at construction. -/
structure Poseidon2Width where
  get : Nat
  supported : get ∈ poseidon2SupportedWidths
deriving DecidableEq, Repr

/-- `Poseidon2Width::new`. -/
def Poseidon2Width.new? (t : Nat) : Option Poseidon2Width :=
  if h : t ∈ poseidon2SupportedWidths then some ⟨t, h⟩ else none

@[simp] theorem Poseidon2Width.new?_get (t : Poseidon2Width) :
    Poseidon2Width.new? t.get = some t := by
  simp [Poseidon2Width.new?, t.supported]

theorem Poseidon2Width.new?_eq_some {t : Nat} {w : Poseidon2Width}
    (h : Poseidon2Width.new? t = some w) : w.get = t := by
  unfold Poseidon2Width.new? at h
  split at h
  · cases h; rfl
  · cases h

theorem Poseidon2Width.pos (t : Poseidon2Width) : 0 < t.get := by
  have h := t.supported
  simp only [poseidon2SupportedWidths, List.mem_cons, List.not_mem_nil, or_false] at h
  omega

/-- Which gadget a site runs. -/
inductive GadgetKind where
  | poseidon2 (t : Poseidon2Width)
  | num2Bits (n : Nat)
  | isZero
  | aliasCheck
  | reveal (n : Nat)
deriving DecidableEq, Repr

/-- `GadgetKind::expected_results`: how many result slots (outputs plus intermediates) the gadget
    produces. The Poseidon2 arm mirrors the circuit's template structure. -/
def GadgetKind.expectedResults : GadgetKind → Nat
  | .poseidon2 t =>
    let t := t.get
    let pr := if t ≤ 4 then 56 else 57
    let acc := fun n : Nat => 2 * n + 1
    let emmLeaf := fun t : Nat => if t = 2 then 5 else if t = 3 then 7 else 18
    let emmt := fun t : Nat =>
      if 2 ≤ t ∧ t ≤ 4 then 2 * t + emmLeaf t
      else
        let m := t / 4
        2 * t + m * 18 + 4 * acc m
    let immt := fun t : Nat =>
      if t = 2 then 2 * t + 5 else if t = 3 then 2 * t + 7 else (2 * t + 1) + acc t
    let full := 5 * t + emmt t + 6 * t
    let partialRound := (2 * t + 3) + 4 + immt t
    let total := 2 * t + (9 + pr) * t + emmt t + 8 * full + pr * partialRound
    total - t
  | .num2Bits n | .reveal n => n
  | .isZero => 2
  | .aliasCheck => 255 + 127 + 1 + 136

/-- The service executed by a gadget batch. -/
inductive BatchKind where
  | gadget (kind : GadgetKind)
  /-- A zero test's `[out, inv]` shares and the explicitly revealed `out` together. -/
  | isZeroReveal
  /-- A site whose trace the host supplies. -/
  | precomputedPoseidon2 (t : Poseidon2Width)
deriving DecidableEq, Repr

/-- Compatible gadget sites batched into a single service. `resultOffsets` are the row pointers of
    the compressed-row table `resultRequests`/`resultTargets`, one row a site. -/
structure GadgetBatch where
  kind : BatchKind
  sites : Nat
  inputSlots : List SiteInput
  resultRequests : List ResultSlot
  resultOffsets : List Nat
  resultTargets : List ResultTarget
deriving DecidableEq, Repr

/-! ## Inputs, witness, and the whole program -/

/-- One declared circuit input signal and the flat input range it occupies. -/
structure InputSignal where
  name : String
  offset : Nat
  size : Nat
deriving DecidableEq, Repr

/-- Binds one circuit input to the slot it is read from. -/
structure InputBinding where
  bank : Bank
  slot : Slot
  inputIndex : InputIdx
deriving DecidableEq, Repr

/-- Where one final witness entry comes from once the instruction stream has run. -/
inductive WitnessSource where
  | one
  | zero
  | input (i : InputIdx)
  | slot (bank : Bank) (slot : Slot)
deriving DecidableEq, Repr

/-- How many slots each bank needs. -/
structure SlotCounts where
  «public» : Nat
  shared : Nat
  «local» : Nat
deriving DecidableEq, Repr

/-- `SlotCounts` read at a bank. -/
def SlotCounts.of (slots : SlotCounts) : Bank → Nat
  | .public => slots.public
  | .shared => slots.shared
  | .local => slots.local

/-- A program's raw parts, not yet validated. -/
structure ProgramParts where
  instructions : List Instruction
  constants : List Fr
  inputDomains : List Bank
  inputs : List InputBinding
  inputSignals : List InputSignal
  rounds : List RoundEntry
  roundOperands : List Slot
  roundResults : List Slot
  gadgetBatches : List GadgetBatch
  witnessSources : List WitnessSource
  numInputs : Nat
  slots : SlotCounts
  numPublicWitness : Nat

end CircomMpc
