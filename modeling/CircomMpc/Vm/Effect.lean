import CircomMpc.Vm.Rows
import CircomMpc.Gadgets.Site

/-!
# What an instruction does, in the clear

The machine of `Vm.Machine` is full of checks. For an accepted program almost none of them can fire,
and with the plain driver what remains of an instruction is a list of writes. `Effect` is that
machine: total functions on the state, no errors. `executeInstruction_plain` connects the two — an
instruction of an accepted program either performs its effect or fails for a cause the program
cannot rule out — and everything proved about plain runs is proved about effects.

The effect of a batch is one list of writes, its destinations zipped with the requested slots of every
site's trace, whichever of the five paths of `run_batch` computed the traces. So most of the file shows
that a path comes to that list: the public one, the one over shares, the fused one, the host-supplied
one. `Ready` is what the machine keeps, that the banks have their declared lengths and the three lists
of products in flight one length.
-/

namespace CircomMpc

open Lib

/-! ## Reading and writing a bank -/

namespace VmState

variable {σ : Type}

/-- The value in a slot of a bank. -/
def read (vm : VmState σ Fr) (bank : Bank) (slot : Slot) : Fr :=
  match bank with
  | .public => vm.public.getD slot.index 0
  | .shared => vm.shared.getD slot.index 0
  | .local => 0

/-- The state with one slot overwritten. -/
def write (vm : VmState σ Fr) (bank : Bank) (slot : Slot) (value : Fr) : VmState σ Fr :=
  match bank with
  | .public => { vm with «public» := vm.public.set slot.index value }
  | .shared => { vm with shared := vm.shared.set slot.index value }
  | .local => vm

/-- A list of writes, in order. -/
def writeAll (vm : VmState σ Fr) (writes : List (ResultTarget × Fr)) : VmState σ Fr :=
  writes.foldl (fun vm w => vm.write w.1.bank w.1.slot w.2) vm

/-- The banks have the sizes the program declares, and every waiting product has its destination and
    both of its operands. -/
structure Ready (p : ProgramParts) (vm : VmState σ Fr) : Prop where
  public_length : vm.public.length = p.slots.public
  shared_length : vm.shared.length = p.slots.shared
  lhs_length : vm.pendingMulLhs.length = vm.pendingMulDst.length
  rhs_length : vm.pendingMulRhs.length = vm.pendingMulDst.length

variable {p : ProgramParts} {vm : VmState σ Fr}

theorem Ready.write (h : vm.Ready p) (bank : Bank) (slot : Slot) (value : Fr) :
    (vm.write bank slot value).Ready p := by
  obtain ⟨h1, h2, h3, h4⟩ := h
  cases bank
  · exact ⟨by simpa [VmState.write] using h1, h2, h3, h4⟩
  · exact ⟨h1, by simpa [VmState.write] using h2, h3, h4⟩
  · exact ⟨h1, h2, h3, h4⟩

theorem Ready.writeAll (h : vm.Ready p) (writes : List (ResultTarget × Fr)) :
    (vm.writeAll writes).Ready p := by
  unfold VmState.writeAll
  induction writes generalizing vm with
  | nil => exact h
  | cons w writes ih => exact ih (h.write _ _ _)

/-- Writes leave the products in flight alone. -/
theorem writeAll_pending (vm : VmState σ Fr) (ws : List (ResultTarget × Fr)) :
    (vm.writeAll ws).pendingMulDst = vm.pendingMulDst ∧
      (vm.writeAll ws).pendingMulLhs = vm.pendingMulLhs ∧
        (vm.writeAll ws).pendingMulRhs = vm.pendingMulRhs := by
  induction ws generalizing vm with
  | nil => exact ⟨rfl, rfl, rfl⟩
  | cons w ws ih =>
    have hwrite : (vm.write w.1.bank w.1.slot w.2).pendingMulDst = vm.pendingMulDst ∧
        (vm.write w.1.bank w.1.slot w.2).pendingMulLhs = vm.pendingMulLhs ∧
          (vm.write w.1.bank w.1.slot w.2).pendingMulRhs = vm.pendingMulRhs := by
      cases w.1.bank <;> exact ⟨rfl, rfl, rfl⟩
    obtain ⟨hdst, hlhs, hrhs⟩ := ih (vm.write w.1.bank w.1.slot w.2)
    exact ⟨hdst.trans hwrite.1, hlhs.trans hwrite.2.1, hrhs.trans hwrite.2.2⟩

theorem readSlot_public (h : vm.Ready p) {slot : Slot} (hs : p.SlotOk .public slot) :
    readSlot vm.public slot = .ok (vm.read .public slot) :=
  readAt_getD 0 (by rw [h.public_length]; exact hs)

theorem readSlot_shared (h : vm.Ready p) {slot : Slot} (hs : p.SlotOk .shared slot) :
    readSlot vm.shared slot = .ok (vm.read .shared slot) :=
  readAt_getD 0 (by rw [h.shared_length]; exact hs)

theorem writeSlot_public (h : vm.Ready p) {slot : Slot} {value : Fr}
    (hs : p.SlotOk .public slot) :
    writeSlot vm.public slot value = .ok (vm.write .public slot value).public :=
  writeSlot_eq_ok (by rw [h.public_length]; exact hs)

theorem writeSlot_shared (h : vm.Ready p) {slot : Slot} {value : Fr}
    (hs : p.SlotOk .shared slot) :
    writeSlot vm.shared slot value = .ok (vm.write .shared slot value).shared :=
  writeSlot_eq_ok (by rw [h.shared_length]; exact hs)

theorem writeAll_append (writes writes' : List (ResultTarget × Fr)) :
    vm.writeAll (writes ++ writes') = (vm.writeAll writes).writeAll writes' :=
  List.foldl_append

/-- A write is read back. -/
theorem read_write_self (h : vm.Ready p) {bank : Bank} {slot : Slot} (hbank : bank ≠ .local)
    (hslot : p.SlotOk bank slot) (value : Fr) : (vm.write bank slot value).read bank slot = value := by
  cases bank with
  | «public» =>
    have hlt : slot.index < vm.public.length := h.public_length ▸ hslot
    simp [VmState.write, VmState.read, hlt]
  | shared =>
    have hlt : slot.index < vm.shared.length := h.shared_length ▸ hslot
    simp [VmState.write, VmState.read, hlt]
  | «local» => exact absurd rfl hbank

/-- A write elsewhere is not. -/
theorem read_write_other {bank bank' : Bank} {slot slot' : Slot} (value : Fr)
    (h : bank = bank' → slot ≠ slot') :
    (vm.write bank slot value).read bank' slot' = vm.read bank' slot' := by
  have hindex : bank = bank' → slot.index ≠ slot'.index := by
    intro hbank hindex
    apply h hbank
    cases slot
    cases slot'
    cases hindex
    rfl
  cases bank <;> cases bank' <;> simp_all [VmState.write, VmState.read]

/-- Slots nobody writes to keep their values. -/
theorem read_writeAll_other {bank : Bank} {slot : Slot} {writes : List (ResultTarget × Fr)}
    (h : ∀ w ∈ writes, w.1.bank = bank → w.1.slot ≠ slot) :
    (vm.writeAll writes).read bank slot = vm.read bank slot := by
  induction writes generalizing vm with
  | nil => rfl
  | cons w writes ih =>
    rw [writeAll, List.foldl_cons]
    exact (ih fun v hv => h v (by simp [hv])).trans (read_write_other w.2 (h w (by simp)))

/-- Where all writes to a slot agree, the slot has what they write. -/
theorem read_writeAll_of_mem (h : vm.Ready p) {bank : Bank} {slot : Slot} (hbank : bank ≠ .local)
    (hslot : p.SlotOk bank slot) {writes : List (ResultTarget × Fr)} {value : Fr}
    (hvalue : ∀ w ∈ writes, w.1.bank = bank → w.1.slot = slot → w.2 = value)
    (hmem : ∃ w ∈ writes, w.1.bank = bank ∧ w.1.slot = slot) :
    (vm.writeAll writes).read bank slot = value := by
  induction writes generalizing vm with
  | nil =>
    obtain ⟨w, hw, _⟩ := hmem
    cases hw
  | cons w writes ih =>
    rw [writeAll, List.foldl_cons]
    by_cases hlater : ∃ w ∈ writes, w.1.bank = bank ∧ w.1.slot = slot
    · exact ih (h.write _ _ _) (fun v hv => hvalue v (by simp [hv])) hlater
    · -- Then it is the first one.
      have hfirst : w.1.bank = bank ∧ w.1.slot = slot := by
        obtain ⟨v, hv, hat⟩ := hmem
        rcases List.mem_cons.mp hv with rfl | hv
        · exact hat
        · exact absurd ⟨v, hv, hat⟩ hlater
      have hother : ∀ v ∈ writes, v.1.bank = bank → v.1.slot ≠ slot :=
        fun v hv hb hs => hlater ⟨v, hv, hb, hs⟩
      have hkept : ((vm.write w.1.bank w.1.slot w.2).writeAll writes).read bank slot =
          (vm.write w.1.bank w.1.slot w.2).read bank slot := read_writeAll_other hother
      refine hkept.trans ?_
      rw [hfirst.1, hfirst.2, read_write_self h hbank hslot]
      exact hvalue w (by simp) hfirst.1 hfirst.2

/-- Writes to the shared bank leave everything else alone. -/
theorem writeAll_shared {writes : List (ResultTarget × Fr)} (h : ∀ w ∈ writes, w.1.bank = .shared) :
    vm.writeAll writes = { vm with shared := (vm.writeAll writes).shared } := by
  induction writes generalizing vm with
  | nil => rfl
  | cons w writes ih =>
    have hw := h w (by simp)
    rw [writeAll, List.foldl_cons, hw]
    exact ih fun v hv => h v (by simp [hv])

/-- Writes to the public bank leave everything else alone. -/
theorem writeAll_public {writes : List (ResultTarget × Fr)} (h : ∀ w ∈ writes, w.1.bank = .public) :
    vm.writeAll writes = { vm with «public» := (vm.writeAll writes).public } := by
  induction writes generalizing vm with
  | nil => rfl
  | cons w writes ih =>
    have hw := h w (by simp)
    rw [writeAll, List.foldl_cons, hw]
    exact ih fun v hv => h v (by simp [hv])

/-- Checked writes to existing shared slots are the unchecked ones. -/
theorem foldlM_writeSlot_shared {writes : List (ResultTarget × Fr)} (h : vm.Ready p)
    (hw : ∀ w ∈ writes, w.1.bank = .shared ∧ p.SlotOk .shared w.1.slot) :
    writes.foldlM (fun bank w => writeSlot bank w.1.slot w.2) vm.shared =
      .ok (vm.writeAll writes).shared := by
  induction writes generalizing vm with
  | nil => rfl
  | cons w writes ih =>
    obtain ⟨hbank, hslot⟩ := hw w (by simp)
    rw [List.foldlM_cons, writeSlot_shared h hslot, ok_bind,
      ih (h.write .shared w.1.slot w.2) fun v hv => hw v (by simp [hv]), ← hbank]
    rfl

/-- Checked writes to existing public slots are the unchecked ones. -/
theorem foldlM_writeSlot_public {writes : List (ResultTarget × Fr)} (h : vm.Ready p)
    (hw : ∀ w ∈ writes, w.1.bank = .public ∧ p.SlotOk .public w.1.slot) :
    writes.foldlM (fun bank w => writeSlot bank w.1.slot w.2) vm.public =
      .ok (vm.writeAll writes).public := by
  induction writes generalizing vm with
  | nil => rfl
  | cons w writes ih =>
    obtain ⟨hbank, hslot⟩ := hw w (by simp)
    rw [List.foldlM_cons, writeSlot_public h hslot, ok_bind,
      ih (h.write .public w.1.slot w.2) fun v hv => hw v (by simp [hv]), ← hbank]
    rfl

end VmState

/-! ## Arithmetic -/

/-- The field operation an opcode performs. -/
def Opcode.apply (op : Opcode) (x y : Fr) : Fr :=
  match op with
  | .addPP | .addSS | .addSP => x + y
  | .subPP | .subSS | .subSP | .subPS => x - y
  | .mulPP | .mulSP | .mulLocal => x * y
  | .reshare | .gadget => 0

namespace Effect

variable (host : Poseidon2.Host) (p : ProgramParts)

/-- The effect of an arithmetic instruction: a write, or a product put off. -/
def arith (vm : VmState Unit Fr) (op : Opcode) (dst a b : Slot) : VmState Unit Fr :=
  match op.banks with
  | some (.local, aBank, bBank) =>
    { vm with
      pendingMulLhs := vm.pendingMulLhs ++ [vm.read aBank a]
      pendingMulRhs := vm.pendingMulRhs ++ [vm.read bBank b]
      pendingMulDst := vm.pendingMulDst ++ [dst] }
  | some (bank, aBank, bBank) => vm.write bank dst (op.apply (vm.read aBank a) (vm.read bBank b))
  | none => vm

/-- The effect of a round whose operands are the waiting products. -/
def reshare (vm : VmState Unit Fr) (entry : RoundEntry) : VmState Unit Fr :=
  let results := (vm.pendingMulLhs.zip vm.pendingMulRhs).map fun (a, b) => a * b
  let vm := vm.writeAll (((p.roundResultsOf entry).map fun slot => ⟨.shared, slot⟩).zip results)
  { vm with pendingMulLhs := [], pendingMulRhs := [], pendingMulDst := [] }

/-- The values a batch reads. -/
def batchInputs (vm : VmState Unit Fr) (batch : GadgetBatch) : List Fr :=
  batch.inputSlots.map fun input => vm.read input.bank input.slot

/-- One site's inputs. -/
def siteInputs (batch : GadgetBatch) (inputs : List Fr) (site : Nat) : List Fr :=
  slice inputs (site * batch.kind.inputsPerSite) ((site + 1) * batch.kind.inputsPerSite)

/-- One requested value of one site: a slot of the site's own plain trace. -/
def siteValue (batch : GadgetBatch) (inputs : List Fr) (site : Nat) (r : ResultSlot) : Fr :=
  (batch.kind.plainTrace host (siteInputs batch inputs site)).getD r.index 0

/-- The values a batch stores: every site's requested slots. -/
def batchValues (batch : GadgetBatch) (inputs : List Fr) : List Fr :=
  ((List.range batch.sites).map fun site =>
    (batch.requestsOf site).map (siteValue host batch inputs site)).flatten

/-- One requested value of one host-supplied site. -/
def suppliedValue (t : Nat) (traces : List (SiteTrace Fr)) (site : Nat) (r : ResultSlot) : Fr :=
  let trace := traces.getD site ⟨[], []⟩
  if r.index < t then trace.output.getD r.index 0 else trace.intermediate.getD (r.index - t) 0

/-- The values a host-supplied batch stores. -/
def suppliedValues (t : Nat) (batch : GadgetBatch) (traces : List (SiteTrace Fr)) : List Fr :=
  ((List.range batch.sites).map fun site =>
    (batch.requestsOf site).map (suppliedValue t traces site)).flatten

/-- The effect of a batch. -/
def batch (vm : VmState Unit Fr) (batch : GadgetBatch) : VmState Unit Fr :=
  match batch.kind with
  | .precomputedPoseidon2 t =>
    { vm.writeAll (batch.resultTargets.zip (suppliedValues t.get batch (vm.precomputation.headD [])))
      with precomputation := vm.precomputation.tail }
  | _ => vm.writeAll (batch.resultTargets.zip (batchValues host batch (batchInputs vm batch)))

/-- The effect of an instruction. -/
def instruction (vm : VmState Unit Fr) : Instruction → VmState Unit Fr
  | .arith op dst a b => arith vm op dst a b
  | .reshare round =>
    match p.rounds[round.index]? with
    | some entry => reshare p vm entry
    | none => vm
  | .gadget index =>
    match p.gadgetBatches[index.index]? with
    | some b => batch host vm b
    | none => vm

end Effect

/-! ## Batches too wide for a vector -/

/-- A `Num2Bits` whose bits are more than one vector of the host can hold. -/
def GadgetKind.tooWide (host : Poseidon2.Host) : GadgetKind → Bool
  | .num2Bits n => decide (host.isizeMax < n * sizeOfFr)
  | .poseidon2 _ | .isZero | .aliasCheck | .reveal _ => false

namespace ProgramParts

/-- An instruction that executes such a batch. Nothing in `Program::new` rules it out: the width of a
    `Num2Bits` only bounds which of its bits are requested. -/
def overflows (p : ProgramParts) (host : Poseidon2.Host) : Instruction → Bool
  | .gadget index => p.gadgetBatches[index.index]?.any fun batch =>
    match batch.kind with
    | .gadget kind => kind.tooWide host
    | .precomputedPoseidon2 _ | .isZeroReveal => false
  | .arith _ _ _ _ | .reshare _ => false

/-- What a plain run of an accepted program's `instructions` can fail for: a cause `Program::new`
    does not validate, or one of them overflowing. -/
def Fails (p : ProgramParts) (host : Poseidon2.Host) (instructions : List Instruction)
    (e : RunError) : Prop :=
  e.Unvalidated ∨ e = .capacityOverflow ∧ ∃ i ∈ instructions, p.overflows host i = true

/-- No instruction of the program does. -/
def TracesFit (p : ProgramParts) (host : Poseidon2.Host) : Prop :=
  ∀ batch ∈ p.gadgetBatches, ∀ kind, batch.kind = .gadget kind → kind.tooWide host = false

theorem TracesFit.overflows {p : ProgramParts} {host : Poseidon2.Host} (h : p.TracesFit host)
    (i : Instruction) : p.overflows host i = false := by
  cases i with
  | arith | reshare => rfl
  | gadget index =>
    cases hbatch : p.gadgetBatches[index.index]? with
    | none => simp [ProgramParts.overflows, hbatch]
    | some batch =>
      have hfits := h batch (List.mem_of_getElem? hbatch)
      rw [ProgramParts.overflows, hbatch, Option.any_some]
      cases hkind : batch.kind with
      | gadget kind => exact hfits kind hkind
      | precomputedPoseidon2 | isZeroReveal => rfl

/-- Some host's vectors hold every decomposition of the program. -/
theorem exists_tracesFit (p : ProgramParts) (host : Poseidon2.Host) :
    ∃ host' : Poseidon2.Host, p.TracesFit host' := by
  let width (batch : GadgetBatch) : Nat :=
    match batch.kind with
    | .gadget (.num2Bits n) => n * sizeOfFr
    | _ => 0
  have hle : ∀ batch ∈ p.gadgetBatches, width batch ≤ (p.gadgetBatches.map width).sum :=
    fun batch hbatch => List.single_le_sum (by simp) _ (List.mem_map_of_mem hbatch)
  refine ⟨{ host with
    isizeMax := host.isizeMax + (p.gadgetBatches.map width).sum
    isizeMax_ge := Nat.le_add_right_of_le host.isizeMax_ge }, ?_⟩
  intro batch hbatch kind hkind
  cases kind with
  | num2Bits n =>
    have hn : n * sizeOfFr ≤ (p.gadgetBatches.map width).sum := by
      have := hle batch hbatch
      simpa [width, hkind] using this
    simp only [GadgetKind.tooWide, decide_eq_false_iff_not, not_lt]
    omega
  | poseidon2 | isZero | aliasCheck | reveal => rfl

theorem Fails.mono {p : ProgramParts} {host : Poseidon2.Host} {is js : List Instruction}
    {e : RunError} (h : p.Fails host is e) (hsub : is ⊆ js) : p.Fails host js e := by
  rcases h with h | ⟨he, i, hi, hover⟩
  · exact .inl h
  · exact .inr ⟨he, i, hsub hi, hover⟩

end ProgramParts

/-! ## The machine performs its effects -/

section Plain

variable {host : Poseidon2.Host} {p : ProgramParts} {vm : VmState Unit Fr}

theorem publicArith_plain (h : vm.Ready p) {f : Fr → Fr → Fr} {dst a b : Slot}
    (hd : p.SlotOk .public dst) (ha : p.SlotOk .public a) (hb : p.SlotOk .public b) :
    Vm.publicArith f vm dst a b =
      .ok (vm.write .public dst (f (vm.read .public a) (vm.read .public b))) := by
  unfold Vm.publicArith
  rw [VmState.readSlot_public h ha, ok_bind, VmState.readSlot_public h hb, ok_bind,
    VmState.writeSlot_public h hd]
  rfl

/-- The arithmetic opcodes whose result is shared differ in the banks they read only. -/
theorem sharedArith_plain (h : vm.Ready p) {f : Fr → Fr → Fr} {xs ys : List Fr} {x y : Fr}
    {dst a b : Slot} (hd : p.SlotOk .shared dst) (ha : readSlot xs a = .ok x)
    (hb : readSlot ys b = .ok y) :
    Vm.sharedArith f xs ys vm dst a b = .ok (vm.write .shared dst (f x y)) := by
  unfold Vm.sharedArith
  rw [ha, ok_bind, hb, ok_bind, VmState.writeSlot_shared h hd]
  rfl

theorem executeArithmetic_plain (h : vm.Ready p) {op : Opcode} {dst a b : Slot}
    (hi : p.InstructionOk (.arith op dst a b)) :
    Vm.executeArithmetic (plainDriver host) vm op dst a b = .ok (Effect.arith vm op dst a b) := by
  obtain ⟨banks, hbanks, hd, ha, hb⟩ := hi
  cases op <;> cases hbanks
  case addPP | subPP | mulPP => exact publicArith_plain h hd ha hb
  case addSS | subSS =>
    exact sharedArith_plain h hd (VmState.readSlot_shared h ha) (VmState.readSlot_shared h hb)
  case addSP | subSP | mulSP =>
    exact sharedArith_plain h hd (VmState.readSlot_shared h ha) (VmState.readSlot_public h hb)
  case subPS =>
    exact sharedArith_plain h hd (VmState.readSlot_public h ha) (VmState.readSlot_shared h hb)
  case mulLocal =>
    show Vm.deferProduct vm dst a b = _
    unfold Vm.deferProduct
    rw [VmState.readSlot_shared h ha, ok_bind, VmState.readSlot_shared h hb, ok_bind]
    rfl

theorem arith_ready (h : vm.Ready p) {op : Opcode} {dst a b : Slot} :
    (Effect.arith vm op dst a b).Ready p := by
  unfold Effect.arith
  split
  · refine ⟨h.public_length, h.shared_length, ?_, ?_⟩
    · simp [h.lhs_length]
    · simp [h.rhs_length]
  · exact h.write _ _ _
  · exact h

/-- A round's results go to its slots in order. -/
theorem foldlM_results (slots : List Slot) (start : Nat) :
    ∀ (results : List Fr) (k : Nat) (bank : List Fr),
      start + k + results.length ≤ slots.length →
      (results.zipIdx k).foldlM (fun bank (x : Fr × Nat) => do
          let slot ← readAt "round_results" slots (start + x.2)
          writeSlot bank slot x.1) bank =
        (((slice slots (start + k) (start + k + results.length)).map fun slot =>
            (⟨.shared, slot⟩ : ResultTarget)).zip results).foldlM
          (fun bank w => writeSlot bank w.1.slot w.2) bank
  | [], _, _, _ => by simp
  | r :: results, k, bank, h => by
    rw [List.length_cons] at h
    have hk : start + k < slots.length := by omega
    have hslice : slice slots (start + k) (start + k + (r :: results).length) =
        slots[start + k] :: slice slots (start + (k + 1)) (start + (k + 1) + results.length) := by
      unfold slice
      rw [List.drop_eq_getElem_cons hk, List.length_cons, Nat.add_sub_cancel_left,
        Nat.add_sub_cancel_left, List.take_succ_cons, Nat.add_assoc]
    rw [hslice, List.zipIdx_cons, List.map_cons, List.zip_cons_cons, List.foldlM_cons,
      List.foldlM_cons, readAt_eq_ok hk, ok_bind]
    congr 1
    funext bank
    exact foldlM_results slots start results (k + 1) bank (by omega)

theorem executeReshare_plain (hw : p.WellEncoded) (h : vm.Ready p) {round : RoundIdx}
    {entry : RoundEntry} (hentry : p.rounds[round.index]? = some entry) :
    Vm.executeReshare (plainDriver host) p vm round =
      if vm.pendingMulDst = p.roundOperandsOf entry then .ok (Effect.reshare p vm entry)
      else .error .roundMismatch := by
  obtain ⟨hi, hget⟩ := List.getElem?_eq_some_iff.mp hentry
  have hok := hw.rounds entry (hget ▸ List.getElem_mem hi)
  unfold Vm.executeReshare
  rw [readAt_eq_ok hi, ok_bind, hget, hok.rangeOf_operands, ok_bind]
  split
  · next hdst =>
    -- One product for every operand, so one result for every destination of the table.
    have hlen : vm.pendingMulDst.length = entry.len := by rw [hdst, hok.operands_length]
    have hresults : ((vm.pendingMulLhs.zip vm.pendingMulRhs).map fun x => x.1 * x.2).length =
        entry.len := by
      rw [List.length_map, List.length_zip, h.lhs_length, h.rhs_length, Nat.min_self, hlen]
    have hwrites : ∀ w ∈ ((p.roundResultsOf entry).map fun slot =>
        (⟨.shared, slot⟩ : ResultTarget)).zip
          ((vm.pendingMulLhs.zip vm.pendingMulRhs).map fun x => x.1 * x.2),
        w.1.bank = .shared ∧ p.SlotOk .shared w.1.slot := by
      intro w hmem
      obtain ⟨slot, hslot, heq⟩ := List.mem_map.mp (List.of_mem_zip hmem).1
      rw [← heq]
      exact ⟨rfl, hok.results slot hslot⟩
    have hstore := foldlM_results p.roundResults entry.resultStart
      ((vm.pendingMulLhs.zip vm.pendingMulRhs).map fun x => x.1 * x.2) 0 vm.shared
      (by rw [hresults]; exact hok.resultRange)
    rw [hresults, Nat.add_zero] at hstore
    rw [ensure_of hdst, ok_bind]
    show (ensure (((vm.pendingMulLhs.zip vm.pendingMulRhs).map fun x => x.1 * x.2).length =
        entry.len) _ >>= fun _ => _) = _
    rw [ensure_of hresults, ok_bind]
    refine (congrArg (· >>= _) (hstore.trans (VmState.foldlM_writeSlot_shared h hwrites))).trans ?_
    rw [ok_bind]
    have heffect : Effect.reshare p vm entry =
        { vm.writeAll (((p.roundResultsOf entry).map fun slot =>
            (⟨.shared, slot⟩ : ResultTarget)).zip
              ((vm.pendingMulLhs.zip vm.pendingMulRhs).map fun x => x.1 * x.2)) with
          pendingMulLhs := [], pendingMulRhs := [], pendingMulDst := [] } := rfl
    rw [heffect, VmState.writeAll_shared fun w hw => (hwrites w hw).1]
    rfl
  · next hdst => rw [ensure_of_not hdst]; rfl

theorem reshare_ready (h : vm.Ready p) (entry : RoundEntry) : (Effect.reshare p vm entry).Ready p :=
  have hr := h.writeAll (((p.roundResultsOf entry).map fun slot =>
      (⟨.shared, slot⟩ : ResultTarget)).zip
        ((vm.pendingMulLhs.zip vm.pendingMulRhs).map fun x : Fr × Fr => x.1 * x.2))
  ⟨hr.public_length, hr.shared_length, rfl, rfl⟩

/-! ### Batches -/

variable {batch : GadgetBatch}

theorem inputsPerSite_gadget (kind : GadgetKind) :
    (BatchKind.gadget kind).inputsPerSite = kind.arity := by
  cases kind <;> rfl

theorem batchInputs_length (vm : VmState Unit Fr) (batch : GadgetBatch) :
    (Effect.batchInputs vm batch).length = batch.inputSlots.length := List.length_map _

/-- Every site of a batch has as many inputs as its kind reads. -/
theorem siteInputs_length (hb : p.BatchOk batch) {inputs : List Fr}
    (hlen : inputs.length = batch.inputSlots.length) {site : Nat} (hs : site < batch.sites) :
    (Effect.siteInputs batch inputs site).length = batch.kind.inputsPerSite := by
  have hle : (site + 1) * batch.kind.inputsPerSite ≤ inputs.length := by
    rw [hlen, hb.inputCount]; exact Nat.mul_le_mul_right _ hs
  rw [Effect.siteInputs, slice_length hle, Nat.succ_mul, Nat.add_sub_cancel_left]

/-- A concatenation of equally long traces, read at a site and a slot of it. -/
theorem flatMap_getD {α : Type} {f : α → List Fr} {cap : Nat} :
    ∀ {xs : List α} {i r : Nat} (hi : i < xs.length), (∀ x ∈ xs, (f x).length = cap) → r < cap →
      (xs.flatMap f).getD (i * cap + r) 0 = (f xs[i]).getD r 0
  | x :: xs, 0, r, _, hlen, hr => by
    have hx := hlen x (by simp)
    simp only [List.flatMap_cons, Nat.zero_mul, Nat.zero_add, List.getElem_cons_zero,
      List.getD_eq_getElem?_getD]
    rw [List.getElem?_append_left (by omega)]
  | x :: xs, i + 1, r, hi, hlen, hr => by
    have hx := hlen x (by simp)
    have ih := flatMap_getD (i := i) (r := r) (by simpa using hi)
      (fun y hy => hlen y (by simp [hy])) hr
    simp only [List.getD_eq_getElem?_getD] at ih ⊢
    rw [List.flatMap_cons, List.getElem?_append_right (by rw [hx, Nat.succ_mul]; omega), hx,
      show (i + 1) * cap + r - cap = i * cap + r by rw [Nat.succ_mul]; omega, ih]
    rfl

/-- A flat trace is the batch's: as long as all its sites' traces together, and site by site that
    site's own plain trace. -/
structure Traces (host : Poseidon2.Host) (batch : GadgetBatch) (inputs full : List Fr) : Prop where
  length : full.length = batch.sites * batch.kind.capacity
  site : ∀ site < batch.sites, ∀ r < batch.kind.capacity,
    full.getD (site * batch.kind.capacity + r) 0 =
      (batch.kind.plainTrace host (Effect.siteInputs batch inputs site)).getD r 0

theorem Traces.selected {inputs full : List Fr} (h : Traces host batch inputs full) (hb : p.BatchOk batch) :
    selected 0 full batch batch.kind.capacity = Effect.batchValues host batch inputs := by
  unfold CircomMpc.selected Effect.batchValues
  congr 1
  refine List.map_congr_left fun site hs => List.map_congr_left fun r hr => ?_
  rw [List.mem_range] at hs
  exact h.site site hs _ (hb.request_lt hs hr)

/-- One input a site: the batch's trace is the sites' traces, joined. -/
theorem traces_flatMap (hb : p.BatchOk batch) {inputs : List Fr} {f : Fr → List Fr}
    (hlen : inputs.length = batch.inputSlots.length) (hone : batch.kind.inputsPerSite = 1)
    (hf : ∀ x, (f x).length = batch.kind.capacity)
    (htrace : ∀ xs : List Fr, batch.kind.plainTrace host xs = f (xs.getD 0 0)) :
    Traces host batch inputs (inputs.flatMap f) := by
  have hsites : inputs.length = batch.sites := by rw [hlen, hb.inputCount, hone, Nat.mul_one]
  refine ⟨?_, fun site hs r hr => ?_⟩
  · rw [List.length_flatMap, List.map_congr_left fun x _ => hf x, List.map_const',
      List.sum_replicate, smul_eq_mul, hsites]
  · rw [flatMap_getD (by rw [hsites]; exact hs) (fun x _ => hf x) hr, htrace]
    congr 2
    simp [Effect.siteInputs, hone, slice, hsites ▸ hs]

/-- The sites' inputs, as the pieces the batch is cut into. -/
theorem chunks_siteInputs (hb : p.BatchOk batch) {inputs : List Fr}
    (hlen : inputs.length = batch.inputSlots.length) (hpos : 0 < batch.kind.inputsPerSite) :
    Poseidon2.chunksExact batch.kind.inputsPerSite inputs =
      (List.range batch.sites).map (Effect.siteInputs batch inputs) := by
  have hdiv : inputs.length / batch.kind.inputsPerSite = batch.sites := by
    rw [hlen, hb.inputCount, Nat.mul_div_cancel _ hpos]
  unfold Poseidon2.chunksExact
  rw [hdiv]
  refine List.map_congr_left fun site _ => ?_
  rw [Effect.siteInputs, Nat.succ_mul]

/-- `AliasCheck` in the clear: never fails on whole sites, and traces each alone. -/
theorem aliasCheckTracesPlain_eq_ok (hb : p.BatchOk batch) {inputs : List Fr}
    (hkind : batch.kind = .gadget .aliasCheck) (hlen : inputs.length = batch.inputSlots.length) :
    ∃ full, aliasCheckTracesPlain inputs = .ok full ∧ Traces host batch inputs full := by
  have hips : batch.kind.inputsPerSite = 254 := by rw [hkind]; rfl
  have hcap : batch.kind.capacity = 519 := by rw [hkind]; rfl
  have hchunks := chunks_siteInputs hb hlen (by rw [hips]; decide)
  rw [hips] at hchunks
  have hsite : ∀ site ∈ List.range batch.sites,
      (AliasCheck.trace (Effect.siteInputs batch inputs site)).length = batch.kind.capacity := by
    intro site hs
    rw [hcap]
    exact (AliasCheck.plainTrace_eq_ok (by
      rw [siteInputs_length hb hlen (List.mem_range.mp hs), hips])).2
  refine ⟨(List.range batch.sites).flatMap fun site =>
    AliasCheck.trace (Effect.siteInputs batch inputs site), ?_, ?_, fun site hs r hr => ?_⟩
  · unfold aliasCheckTracesPlain
    have htraces : ∀ xs ∈ (List.range batch.sites).map (Effect.siteInputs batch inputs),
        AliasCheck.plainTrace xs = .ok (AliasCheck.trace xs) := by
      intro xs hxs
      obtain ⟨site, hs, rfl⟩ := List.mem_map.mp hxs
      exact (AliasCheck.plainTrace_eq_ok (by
        rw [siteInputs_length hb hlen (List.mem_range.mp hs), hips])).1
    rw [ensure_of (by rw [hlen, hb.inputCount, hips, Nat.mul_mod_left]), ok_bind, hchunks,
      mapM_eq_ok htraces, ok_bind, List.map_map, List.flatMap_def]
    rfl
  · rw [List.length_flatMap, List.map_congr_left hsite, List.map_const', List.sum_replicate,
      smul_eq_mul, List.length_range]
  · rw [flatMap_getD (by rw [List.length_range]; exact hs) hsite hr, List.getElem_range, hkind]
    rfl

/-- `Reveal` is the identity, site by site. -/
theorem traces_reveal (hb : p.BatchOk batch) {inputs : List Fr} {n : Nat}
    (hkind : batch.kind = .gadget (.reveal n)) (hlen : inputs.length = batch.inputSlots.length) :
    Traces host batch inputs inputs := by
  have hips : batch.kind.inputsPerSite = n := by rw [hkind]; rfl
  have hcap : batch.kind.capacity = n := by rw [hkind]; rfl
  refine ⟨by rw [hlen, hb.inputCount, hips, hcap], fun site hs r hr => ?_⟩
  have htrace : batch.kind.plainTrace host (Effect.siteInputs batch inputs site) =
      slice inputs (site * n) ((site + 1) * n) := by
    rw [Effect.siteInputs, hips, hkind]; rfl
  rw [hcap] at hr ⊢
  rw [htrace]
  simp only [slice, List.getD_eq_getElem?_getD]
  rw [List.getElem?_take_of_lt (by rw [Nat.succ_mul, Nat.add_sub_cancel_left]; exact hr),
    List.getElem?_drop]

/-- A Poseidon2 batch's requested trace is the batch's values, on either path. -/
theorem poseidon2_eq_ok (hb : p.BatchOk batch) {inputs : List Fr} {t : Poseidon2Width}
    (hkind : batch.kind = .gadget (.poseidon2 t)) (hlen : inputs.length = batch.inputSlots.length) :
    Poseidon2.plainTraceRequested host t.get inputs (batch.resultRequests.map (·.index))
      batch.resultOffsets = .ok (Effect.batchValues host batch inputs) := by
  have hips : batch.kind.inputsPerSite = t.get := by rw [hkind]; rfl
  have hcap : batch.kind.capacity = Poseidon2.resultSlots t.get := by
    rw [hkind]; exact Poseidon2.expectedResults_eq_resultSlots t
  have hcount : inputs.length = batch.sites * t.get := by rw [hlen, hb.inputCount, hips]
  obtain ⟨hjoin, hpieces, hn⟩ := Poseidon2.flatten_chunksExact t.pos hcount
  have hchunks := chunks_siteInputs hb hlen (by rw [hips]; exact t.pos)
  rw [hips] at hchunks
  have hrows := hb.rowsOk
  rw [hcap] at hrows
  have hrun := Poseidon2.plainTraceRequested_eq_ok host t
   
   
    (by intro hnil; rw [hnil] at hn; have := hb.sites; simp at hn; omega) hpieces
    (by rw [hn]; exact hrows)
  rw [hjoin] at hrun
  rw [hrun]
  congr 1
  unfold Poseidon2.requestedTrace Effect.batchValues
  rw [hchunks, Poseidon2.zipIdx_eq_zip_range, List.length_map, List.length_range, zip_map_self,
    List.map_map]
  congr 1
  refine List.map_congr_left fun site hs => ?_
  rw [List.mem_range] at hs
  show (Poseidon2.rowOf _ _ site).map _ = _
  rw [Poseidon2.rowOf, slice_map, List.map_map]
  refine List.map_congr_left fun r hr => ?_
  have hr' : r.index < Poseidon2.resultSlots t.get := hcap ▸ hb.request_lt hs hr
  have hsite : batch.kind.plainTrace host = (GadgetKind.poseidon2 t).plainTrace host := by
    rw [hkind]; rfl
  rw [Effect.siteValue, hsite, GadgetKind.plainTrace_poseidon2_getD host t _ hr']
  rfl

/-! ### Storing a batch's values -/

theorem batchValues_length (host : Poseidon2.Host) (hb : p.BatchOk batch) (inputs : List Fr) :
    (Effect.batchValues host batch inputs).length = batch.resultTargets.length := by
  rw [← hb.targets, ← hb.requests_flatten]
  unfold Effect.batchValues
  simp [List.length_flatten, List.map_map, Function.comp_def]

/-- What one destination must satisfy for an unfused batch's store. -/
def Stores (p : ProgramParts) (batch : GadgetBatch) (bank : Bank) : Prop :=
  ∀ target ∈ batch.resultTargets, target.bank = bank ∧ p.SlotOk bank target.slot

theorem stores_of (hb : p.BatchOk batch) {bank : Bank} (h : batch.normalResultBank = some bank) :
    Stores p batch bank := by
  intro target ht
  obtain ⟨request, hreq⟩ := hb.target_ok ht
  have hbank : target.bank = bank := by
    rw [hreq.bank, GadgetBatch.expectedBank, h, Option.getD_some]
  exact ⟨hbank, hbank ▸ hreq.slot⟩

theorem storeBatchResults_public (h : vm.Ready p) {values : List Fr} (hs : Stores p batch .public)
    (hlen : values.length = batch.resultTargets.length) :
    Vm.storeBatchResults batch values .public vm.public =
      .ok (vm.writeAll (batch.resultTargets.zip values)).public := by
  have hmem : ∀ w ∈ batch.resultTargets.zip values, w.1.bank = .public ∧ p.SlotOk .public w.1.slot :=
    fun w hw => hs w.1 (List.of_mem_zip hw).1
  unfold Vm.storeBatchResults
  rw [ensure_of hlen, ok_bind, ← VmState.foldlM_writeSlot_public h hmem]
  refine foldlM_congr_mem fun w hw bank => ?_
  obtain ⟨target, value⟩ := w
  simp only [ensure_of (hmem _ hw).1, ok_bind]

theorem storeBatchResults_shared (h : vm.Ready p) {values : List Fr} (hs : Stores p batch .shared)
    (hlen : values.length = batch.resultTargets.length) :
    Vm.storeBatchResults batch values .shared vm.shared =
      .ok (vm.writeAll (batch.resultTargets.zip values)).shared := by
  have hmem : ∀ w ∈ batch.resultTargets.zip values, w.1.bank = .shared ∧ p.SlotOk .shared w.1.slot :=
    fun w hw => hs w.1 (List.of_mem_zip hw).1
  unfold Vm.storeBatchResults
  rw [ensure_of hlen, ok_bind, ← VmState.foldlM_writeSlot_shared h hmem]
  refine foldlM_congr_mem fun w hw bank => ?_
  obtain ⟨target, value⟩ := w
  simp only [ensure_of (hmem _ hw).1, ok_bind]

theorem writeAll_stores_public {values : List Fr} (hs : Stores p batch .public) :
    vm.writeAll (batch.resultTargets.zip values) =
      { vm with «public» := (vm.writeAll (batch.resultTargets.zip values)).public } :=
  VmState.writeAll_public fun w hw => (hs w.1 (List.of_mem_zip hw).1).1

theorem writeAll_stores_shared {values : List Fr} (hs : Stores p batch .shared) :
    vm.writeAll (batch.resultTargets.zip values) =
      { vm with shared := (vm.writeAll (batch.resultTargets.zip values)).shared } :=
  VmState.writeAll_shared fun w hw => (hs w.1 (List.of_mem_zip hw).1).1

/-! ### The gadget batches -/

/-- What every kind but Poseidon2 computes for a whole batch, on the public path and by the plain
    driver alike. -/
theorem runPlainBatch_eq_ok (host : Poseidon2.Host) (hb : p.BatchOk batch) {kind : GadgetKind}
    {inputs : List Fr} (hkind : batch.kind = .gadget kind) (hp2 : ∀ t, kind ≠ .poseidon2 t)
    (hfits : kind.tooWide host = false) (hlen : inputs.length = batch.inputSlots.length) :
    ∃ full, Vm.runPlainBatch host kind inputs = .ok full ∧ Traces host batch inputs full := by
  cases kind with
  | poseidon2 t => exact absurd rfl (hp2 t)
  | num2Bits n =>
    have hn : n * sizeOfFr ≤ host.isizeMax := by simpa [GadgetKind.tooWide] using hfits
    exact ⟨_, Num2Bits.plainTraceMany_eq_ok hn, traces_flatMap hb hlen (by rw [hkind]; rfl)
      (fun x => by rw [hkind]; exact Num2Bits.bits_length x n) fun xs => by rw [hkind]; rfl⟩
  | isZero =>
    refine ⟨_, rfl, ?_⟩
    rw [IsZero.plainTraceMany_eq]
    exact traces_flatMap hb hlen (by rw [hkind]; rfl)
      (fun x => by rw [hkind]; exact IsZero.plainTrace_length x) fun xs => by rw [hkind]; rfl
  | aliasCheck => exact aliasCheckTracesPlain_eq_ok hb hkind hlen
  | reveal n => exact ⟨inputs, rfl, traces_reveal hb hkind hlen⟩

/-- A batch of bits too wide for a vector has a site, and stops at it. -/
theorem plainTraceMany_tooWide (hb : p.BatchOk batch) {n : Nat}
    (hkind : batch.kind = .gadget (.num2Bits n)) (hwide : (GadgetKind.num2Bits n).tooWide host = true)
    {inputs : List Fr} (hlen : inputs.length = batch.inputSlots.length) :
    Num2Bits.plainTraceMany host.isizeMax n inputs = .error .capacityOverflow := by
  have hn : ¬ n * sizeOfFr ≤ host.isizeMax := by simpa [GadgetKind.tooWide] using hwide
  refine Num2Bits.plainTraceMany_overflows hn fun hnil => ?_
  have hsites := hb.sites
  rw [hnil, hb.inputCount, hkind, show (BatchKind.gadget (.num2Bits n)).inputsPerSite = 1 from rfl,
    Nat.mul_one, List.length_nil] at hlen
  omega

theorem selectRequests_plain (hb : p.BatchOk batch) {inputs full : List Fr}
    (h : Traces host batch inputs full) :
    Vm.selectRequests full batch = .ok (Effect.batchValues host batch inputs) := by
  rw [selectRequests_eq_ok 0 hb h.length, h.selected hb]

/-- The all-public path. -/
theorem runPublicBatch_plain (h : vm.Ready p) (hb : p.BatchOk batch) {kind : GadgetKind}
    (hkind : batch.kind = .gadget kind) (hpub : batch.anyShared = false) :
    Vm.runPublicBatch host vm batch kind =
      if kind.tooWide host then .error .capacityOverflow else .ok (Effect.batch host vm batch) := by
  have hbank : batch.normalResultBank = some .public := by
    unfold GadgetBatch.normalResultBank
    rw [hkind, hpub]
    cases kind <;> rfl
  have hstores := stores_of hb hbank
  -- With no shared input every input is read from the public bank.
  have hinput : ∀ input ∈ batch.inputSlots, input.bank = .public := by
    intro input hi
    have hnot : input.bank ≠ .shared := by
      intro hs
      have hany : batch.anyShared = true := List.any_eq_true.mpr ⟨input, hi, by simp [hs]⟩
      rw [hpub] at hany
      cases hany
    have hlocal := (hb.inputs input hi).1
    cases hbk : input.bank <;> simp_all
  have hread : (batch.inputSlots.mapM fun (input : SiteInput) => do
      ensure (input.bank = Bank.public) RunError.publicBatchInput
      readSlot vm.public input.slot) = .ok (Effect.batchInputs vm batch) := by
    refine mapM_eq_ok fun input hi => ?_
    have hb' := hinput input hi
    rw [ensure_of hb', ok_bind, VmState.readSlot_public h (hb' ▸ (hb.inputs input hi).2), hb']
  have hlen := batchInputs_length vm batch
  -- The effect, with the bank of the results known.
  have heffect : Effect.batch host vm batch = vm.writeAll (batch.resultTargets.zip
      (Effect.batchValues host batch (Effect.batchInputs vm batch))) := by
    unfold Effect.batch
    rw [hkind]
  have hstore := storeBatchResults_public h hstores (batchValues_length host hb
    (Effect.batchInputs vm batch))
  unfold Vm.runPublicBatch
  rw [hread, ok_bind, heffect, writeAll_stores_public hstores]
  by_cases hwide : kind.tooWide host = true
  · -- Only a decomposition is ever too wide.
    rw [if_pos hwide]
    cases kind with
    | num2Bits n =>
      dsimp only
      rw [Vm.runPlainBatch, plainTraceMany_tooWide hb hkind hwide hlen]
      rfl
    | poseidon2 _ | isZero | aliasCheck | reveal _ => cases hwide
  rw [if_neg hwide]
  by_cases hp2 : ∃ t, kind = .poseidon2 t
  · obtain ⟨t, rfl⟩ := hp2
    simp only [poseidon2_eq_ok hb hkind hlen, ok_bind, hstore]
    rfl
  · obtain ⟨full, hfull, htraces⟩ := runPlainBatch_eq_ok host hb hkind
      (fun t ht => hp2 ⟨t, ht⟩) (by simpa using hwide) hlen
    cases kind with
    | poseidon2 t => exact absurd ⟨t, rfl⟩ hp2
    | num2Bits _ | isZero | aliasCheck | reveal _ =>
      simp only [hfull, ok_bind, selectRequests_plain hb htraces, hstore]
      rfl

theorem batchInput_plain (h : vm.Ready p) {input : SiteInput} (hlocal : input.bank ≠ .local)
    (hslot : p.SlotOk input.bank input.slot) :
    Vm.batchInput (plainDriver host) vm input = .ok (vm.read input.bank input.slot) := by
  unfold Vm.batchInput
  cases hb : input.bank with
  | «public» =>
    rw [hb] at hslot
    simp only [VmState.readSlot_public h hslot, ok_bind]
    rfl
  | shared =>
    rw [hb] at hslot
    exact VmState.readSlot_shared h hslot
  | «local» => exact absurd hb hlocal

/-- The secret path: with the plain driver, the same values, stored where the kind's results go. -/
theorem runSharedBatch_plain (h : vm.Ready p) (hb : p.BatchOk batch) {kind : GadgetKind}
    (hkind : batch.kind = .gadget kind) (hany : batch.anyShared = true) :
    Vm.runSharedBatch (plainDriver host) vm batch kind =
      if kind.tooWide host then .error .capacityOverflow else .ok (Effect.batch host vm batch) := by
  have hread : batch.inputSlots.mapM (Vm.batchInput (plainDriver host) vm) =
      .ok (Effect.batchInputs vm batch) :=
    mapM_eq_ok fun input hi => batchInput_plain h (hb.inputs input hi).1 (hb.inputs input hi).2
  have hlen := batchInputs_length vm batch
  have heffect : Effect.batch host vm batch = vm.writeAll (batch.resultTargets.zip
      (Effect.batchValues host batch (Effect.batchInputs vm batch))) := by
    unfold Effect.batch
    rw [hkind]
  have hcount := batchValues_length host hb (Effect.batchInputs vm batch)
  by_cases hwide : kind.tooWide host = true
  · rw [if_pos hwide]
    unfold Vm.runSharedBatch
    rw [hread, ok_bind]
    cases kind with
    | num2Bits n =>
      show ((Num2Bits.plainTraceMany host.isizeMax n _ >>= fun values =>
        pure (values, vm.driver)) >>= fun r => _) = _
      rw [plainTraceMany_tooWide hb hkind hwide hlen]
      rfl
    | poseidon2 _ | isZero | aliasCheck | reveal _ => cases hwide
  rw [if_neg hwide]
  -- Every gadget but Poseidon2 makes full traces, and the requested slots are selected after.
  have hrun : (∀ t, kind ≠ .poseidon2 t) → ∃ full,
      Vm.runPlainBatch host kind (Effect.batchInputs vm batch) = .ok full ∧
      Vm.selectRequests full batch =
        .ok (Effect.batchValues host batch (Effect.batchInputs vm batch)) := by
    intro hp2
    obtain ⟨full, hfull, htraces⟩ := runPlainBatch_eq_ok host hb hkind hp2 (by simpa using hwide) hlen
    exact ⟨full, hfull, selectRequests_plain hb htraces⟩
  -- Results over shares are shares, except for a reveal's.
  have hshared : (∀ n, kind ≠ .reveal n) → Stores p batch .shared := by
    intro hrev
    refine stores_of hb ?_
    unfold GadgetBatch.normalResultBank
    rw [hkind, hany]
    cases kind with
    | reveal n => exact absurd rfl (hrev n)
    | poseidon2 _ | num2Bits _ | isZero | aliasCheck => rfl
  unfold Vm.runSharedBatch
  rw [hread, ok_bind, heffect]
  cases kind with
  | reveal n =>
    have hstores : Stores p batch .public := stores_of hb (by
      unfold GadgetBatch.normalResultBank; rw [hkind])
    obtain ⟨full, hfull, hsel⟩ := hrun (by simp)
    cases hfull
    show (Vm.selectRequests _ batch >>= fun _ => _) = _
    rw [hsel, ok_bind, storeBatchResults_public h hstores hcount, ok_bind,
      writeAll_stores_public hstores]
    rfl
  | poseidon2 t =>
    show ((Poseidon2.plainTraceRequested host t.get _ _ _ >>= fun values =>
      pure (values, vm.driver)) >>= fun r => _) = _
    rw [poseidon2_eq_ok hb hkind hlen, ok_bind]
    show (Vm.storeBatchResults batch _ .shared vm.shared >>= fun _ => _) = _
    rw [storeBatchResults_shared h (hshared (by simp)) hcount, ok_bind,
      writeAll_stores_shared (hshared (by simp))]
    rfl
  | num2Bits n =>
    obtain ⟨full, hfull, hsel⟩ := hrun (by simp)
    show ((Num2Bits.plainTraceMany host.isizeMax n _ >>= fun values =>
      pure (values, vm.driver)) >>= fun r => _) = _
    rw [show Num2Bits.plainTraceMany host.isizeMax n _ = _ from hfull, ok_bind]
    show (Vm.selectRequests _ batch >>= fun _ => _) = _
    rw [hsel, ok_bind, storeBatchResults_shared h (hshared (by simp)) hcount, ok_bind,
      writeAll_stores_shared (hshared (by simp))]
    rfl
  | isZero =>
    obtain ⟨full, hfull, hsel⟩ := hrun (by simp)
    cases hfull
    show (Vm.selectRequests _ batch >>= fun _ => _) = _
    rw [hsel, ok_bind, storeBatchResults_shared h (hshared (by simp)) hcount, ok_bind,
      writeAll_stores_shared (hshared (by simp))]
    rfl
  | aliasCheck =>
    obtain ⟨full, hfull, hsel⟩ := hrun (by simp)
    show ((aliasCheckTracesPlain _ >>= fun values => pure (values, vm.driver)) >>= fun r => _) = _
    rw [show aliasCheckTracesPlain _ = _ from hfull, ok_bind]
    show (Vm.selectRequests _ batch >>= fun _ => _) = _
    rw [hsel, ok_bind, storeBatchResults_shared h (hshared (by simp)) hcount, ok_bind,
      writeAll_stores_shared (hshared (by simp))]
    rfl

/-! ### The fused zero test -/

/-- A loop of writes is one list of writes. -/
theorem foldlM_writeAll {α : Type} {f : VmState Unit Fr → α → Except RunError (VmState Unit Fr)}
    {ws : α → List (ResultTarget × Fr)} :
    ∀ {xs : List α} {vm : VmState Unit Fr}, vm.Ready p →
      (∀ x ∈ xs, ∀ vm : VmState Unit Fr, vm.Ready p → f vm x = .ok (vm.writeAll (ws x))) →
      xs.foldlM f vm = .ok (vm.writeAll (xs.flatMap ws))
  | [], _, _, _ => rfl
  | x :: xs, vm, h, hf => by
    rw [List.foldlM_cons, hf x (by simp) vm h, ok_bind,
      foldlM_writeAll (h.writeAll _) fun y hy => hf y (by simp [hy]), List.flatMap_cons,
      VmState.writeAll_append]

/-- A batch's writes, row by row. -/
theorem zip_rows (hb : p.BatchOk batch) {value : Nat → ResultSlot → Fr} :
    batch.resultTargets.zip
      (((List.range batch.sites).map fun site => (batch.requestsOf site).map (value site)).flatten) =
      (List.range batch.sites).flatMap fun site =>
        (batch.targetsOf site).zip ((batch.requestsOf site).map (value site)) := by
  conv_lhs => rw [← hb.targets_flatten]
  exact flatten_zip_flatten fun site hs => by
    rw [List.length_map, hb.row_lengths (List.mem_range.mp hs)]

/-- The fused service's answer for one site. -/
def fusedTrace (x : Fr) : IsZeroRevealTrace Fr :=
  { isZero := (IsZero.plainTrace x).getD 0 0
    inverse := (IsZero.plainTrace x).getD 1 0
    revealed := (IsZero.plainTrace x).getD 0 0 }

theorem storeFused_plain (h : vm.Ready p) (hkind : batch.kind = .isZeroReveal) {x : Fr}
    {xs : List Fr} (hx : xs.getD 0 0 = x) {request : ResultSlot} {target : ResultTarget}
    (hreq : p.RequestOk batch request target) :
    Vm.storeFused (fusedTrace x) vm (request, target) =
      .ok (vm.writeAll [(target, (batch.kind.plainTrace host xs).getD request.index 0)]) := by
  show _ = Except.ok (vm.write target.bank target.slot _)
  obtain ⟨hcap, -, hbank, hslot⟩ := hreq
  have hnone : batch.normalResultBank = none := by
    unfold GadgetBatch.normalResultBank; rw [hkind]
  have hcap3 : request.index < 3 := by rw [hkind] at hcap; exact hcap
  have htrace : batch.kind.plainTrace host xs =
      IsZero.plainTrace x ++ [(IsZero.plainTrace x).getD 0 0] := by
    rw [hkind, ← hx]; rfl
  have hlen := IsZero.plainTrace_length x
  rw [GadgetBatch.expectedBank, hnone, Option.getD_none] at hbank
  unfold Vm.storeFused
  have h012 : request.index = 0 ∨ request.index = 1 ∨ request.index = 2 := by omega
  rcases h012 with h0 | h0 | h0
  all_goals
    rw [h0] at hbank
    simp only [if_true, if_false, OfNat.zero_ne_ofNat, OfNat.one_ne_ofNat] at hbank
    rw [hbank] at hslot
    simp only [h0, htrace, hbank]
  · rw [ensure_of trivial, ok_bind, VmState.writeSlot_shared h hslot, ok_bind]
    simp only [List.getD_eq_getElem?_getD, fusedTrace]
    rw [List.getElem?_append_left (by omega)]
    rfl
  · rw [ensure_of trivial, ok_bind, VmState.writeSlot_shared h hslot, ok_bind]
    simp only [List.getD_eq_getElem?_getD, fusedTrace]
    rw [List.getElem?_append_left (by omega)]
    rfl
  · rw [ensure_of trivial, ok_bind, VmState.writeSlot_public h hslot, ok_bind]
    simp only [List.getD_eq_getElem?_getD, fusedTrace]
    rw [List.getElem?_append_right (by omega), hlen]
    rfl

/-- The fused batch: every site's `[out, inv, revealed]`, each to the bank its slot goes to. -/
theorem runIsZeroRevealBatch_plain (h : vm.Ready p) (hb : p.BatchOk batch)
    (hkind : batch.kind = .isZeroReveal) :
    Vm.runIsZeroRevealBatch (plainDriver host) vm batch = .ok (Effect.batch host vm batch) := by
  have hips : batch.kind.inputsPerSite = 1 := by rw [hkind]; rfl
  -- One site: its trace is `[out, inv, revealed]` of its input, and each requested slot goes to
  -- the bank the slot has.
  have hsites : batch.inputSlots.length = batch.sites := by rw [hb.inputCount, hips, Nat.mul_one]
  have hread : (batch.inputSlots.mapM fun (input : SiteInput) => do
      ensure (input.bank = Bank.shared) RunError.fusedInputBank
      readSlot vm.shared input.slot) = .ok (Effect.batchInputs vm batch) := by
    refine mapM_eq_ok fun input hi => ?_
    have hsh := hb.fused hkind input hi
    rw [ensure_of hsh, ok_bind, VmState.readSlot_shared h (hsh ▸ (hb.inputs input hi).2), hsh]
  have hlen : (Effect.batchInputs vm batch).length = batch.sites := by
    rw [batchInputs_length, hsites]
  have heffect : Effect.batch host vm batch = vm.writeAll (batch.resultTargets.zip
      (Effect.batchValues host batch (Effect.batchInputs vm batch))) := by
    unfold Effect.batch
    rw [hkind]
  have hsite : ∀ e ∈ ((Effect.batchInputs vm batch).map fusedTrace).zipIdx,
      ∀ vm' : VmState Unit Fr, vm'.Ready p → Vm.storeFusedSite batch vm' e =
        .ok (vm'.writeAll ((batch.targetsOf e.2).zip ((batch.requestsOf e.2).map
          (Effect.siteValue host batch (Effect.batchInputs vm batch) e.2)))) := by
    rintro ⟨trace, site⟩ hmem vm' h'
    rw [List.mem_zipIdx_iff_getElem?, List.getElem?_map] at hmem
    obtain ⟨x, hx, rfl⟩ := Option.map_eq_some_iff.mp hmem
    obtain ⟨hs, hget⟩ := List.getElem?_eq_some_iff.mp hx
    rw [hlen] at hs
    have hx0 : (Effect.siteInputs batch (Effect.batchInputs vm batch) site).getD 0 0 = x := by
      simp [Effect.siteInputs, hips, slice, hx]
    have hstep : ∀ w ∈ (batch.requestsOf site).zip (batch.targetsOf site),
        ∀ vm'' : VmState Unit Fr, vm''.Ready p → Vm.storeFused (fusedTrace x) vm'' w =
          .ok (vm''.writeAll
            [(w.2, Effect.siteValue host batch (Effect.batchInputs vm batch) site w.1)]) :=
      fun w hw vm'' h'' => storeFused_plain h'' hkind hx0 (hb.requests site hs w hw)
    unfold Vm.storeFusedSite
    simp only [hb.readOffset (Nat.le_of_lt hs), hb.readOffset hs, ok_bind,
      hb.rangeOf_requests hs, hb.rangeOf_targets hs]
    rw [ensure_of ⟨hb.row_le hs, hb.rowRange site hs⟩, ok_bind, foldlM_writeAll h' hstep]
    rw [zip_flatMap_swap]
  unfold Vm.runIsZeroRevealBatch
  rw [ensure_of hb.sites, ok_bind, ensure_of hsites, ok_bind, hread, ok_bind]
  show (ensure (((Effect.batchInputs vm batch).map fusedTrace).length = batch.sites) _ >>= fun _ =>
    _) = _
  rw [ensure_of (by rw [List.length_map, hlen]), ok_bind,
    ensure_of ⟨hb.offsets.length, hb.targets⟩, ok_bind]
  refine (foldlM_writeAll h hsite).trans ?_
  rw [heffect]
  unfold Effect.batchValues
  rw [zip_rows hb, zipIdx_flatMap_snd (f := fun site => (batch.targetsOf site).zip
    ((batch.requestsOf site).map (Effect.siteValue host batch (Effect.batchInputs vm batch) site))),
    List.length_map, hlen]

/-! ### Host-supplied batches -/

/-- The traces a host may supply for a batch: one per site, with its outputs and every requested
    intermediate. -/
structure Supplied (t : Nat) (batch : GadgetBatch) (traces : List (SiteTrace Fr)) : Prop where
  sites : traces.length = batch.sites
  outputs : ∀ trace ∈ traces, trace.output.length = t
  intermediates : ∀ site (h : site < traces.length), ∀ r ∈ batch.requestsOf site,
    t ≤ r.index → r.index - t < traces[site].intermediate.length

/-- A failure a host's traces are to blame for. -/
def Unsupplied (t : Nat) (batch : GadgetBatch) (traces : List (SiteTrace Fr)) (e : RunError) :
    Prop :=
  e.Unvalidated ∧ ¬ Supplied t batch traces

/-- A loop over the shared bank whose turns are lists of writes, or fail for an allowed reason. -/
theorem meets_foldlM_shared {α : Type} {Bad : RunError → Prop}
    {f : List Fr → α → Except RunError (List Fr)} {ws : α → List (ResultTarget × Fr)} :
    ∀ {xs : List α} {vm : VmState Unit Fr}, vm.Ready p →
      (∀ x ∈ xs, ∀ vm : VmState Unit Fr, vm.Ready p →
        Meets Bad (fun bank => bank = (vm.writeAll (ws x)).shared) (f vm.shared x)) →
      Meets Bad (fun bank => bank = (vm.writeAll (xs.flatMap ws)).shared) (xs.foldlM f vm.shared)
  | [], _, _, _ => rfl
  | x :: xs, vm, h, hf => by
    rw [List.foldlM_cons]
    refine Meets.bind (hf x (by simp) vm h) fun bank hbank => ?_
    rw [hbank, List.flatMap_cons, VmState.writeAll_append]
    exact meets_foldlM_shared (h.writeAll _) fun y hy => hf y (by simp [hy])

/-- One site's results out of its supplied trace. -/
theorem storePrecomputedSite_plain (h : vm.Ready p) (hb : p.BatchOk batch) {t : Nat}
    {traces : List (SiteTrace Fr)} (hstores : Stores p batch .shared) {site : Nat}
    (hs : site < traces.length) (hsites : traces.length = batch.sites) :
    Meets (Unsupplied t batch traces)
      (fun bank => bank = (vm.writeAll ((batch.targetsOf site).zip
        ((batch.requestsOf site).map (Effect.suppliedValue t traces site)))).shared)
      (Vm.storePrecomputedSite t batch vm.shared
        ((traces[site], (batch.row site).1, (batch.row site).2), site)) := by
  have hsite : site < batch.sites := hsites ▸ hs
  have htrace : traces.getD site ⟨[], []⟩ = traces[site] := by
    rw [List.getD_eq_getElem?_getD, List.getElem?_eq_getElem hs, Option.getD_some]
  unfold Vm.storePrecomputedSite
  refine Meets.guard_bind (fun hne => ⟨.precomputationOutputs, fun hok =>
    hne (hok.outputs _ (List.getElem_mem hs))⟩) fun houtputs => ?_
  rw [show rangeOf _ batch.resultRequests (batch.row site).1 (batch.row site).2 = _ from
      hb.rangeOf_requests hsite, ok_bind,
    show rangeOf _ batch.resultTargets (batch.row site).1 (batch.row site).2 = _ from
      hb.rangeOf_targets hsite, ok_bind]
  -- Request by request: a value the trace has, or the one failure the trace allows.
  have hstep : ∀ w ∈ (batch.requestsOf site).zip (batch.targetsOf site),
      ∀ vm : VmState Unit Fr, vm.Ready p → Meets (Unsupplied t batch traces)
        (fun bank => bank = (vm.writeAll [(w.2, Effect.suppliedValue t traces site w.1)]).shared)
        (Vm.precomputedValue t site traces[site] w.1.index >>= fun value =>
          writeSlot vm.shared w.2.slot value) := by
    intro w hw vm h
    obtain ⟨hreq, ht⟩ := List.of_mem_zip hw
    obtain ⟨hbank, hslot⟩ := hstores w.2 (mem_of_mem_slice ht)
    have hvalue : Meets (Unsupplied t batch traces)
        (fun v => v = Effect.suppliedValue t traces site w.1)
        (Vm.precomputedValue t site traces[site] w.1.index) := by
      unfold Vm.precomputedValue Effect.suppliedValue
      rw [htrace]
      split
      · next hlt =>
        rw [readAt_getD 0 (by rw [houtputs]; exact hlt)]
        rfl
      · next hge =>
        simp only []
        by_cases hi : w.1.index - t < traces[site].intermediate.length
        · rw [List.getElem?_eq_getElem hi, orElse_some, List.getD_eq_getElem?_getD,
            List.getElem?_eq_getElem hi]
          rfl
        · rw [List.getElem?_eq_none (by omega)]
          exact ⟨.precomputationIntermediate, fun hok =>
            hi (hok.intermediates site hs w.1 hreq (by omega))⟩
    refine Meets.bind hvalue fun v hv => ?_
    rw [hv, VmState.writeSlot_shared h hslot, ← hbank]
    rfl
  rw [← zip_flatMap_swap]
  exact meets_foldlM_shared h hstep

/-- A host-supplied batch: the queue's next traces, if they are the batch's. -/
theorem runPrecomputedBatch_plain (h : vm.Ready p) (hb : p.BatchOk batch) {t : Poseidon2Width}
    (hkind : batch.kind = .precomputedPoseidon2 t) :
    Meets (fun e => e.Unvalidated ∧ ∀ traces rest, vm.precomputation = traces :: rest →
        ¬ Supplied t.get batch traces)
      (fun vm' => vm' = Effect.batch host vm batch ∧
        ∃ traces rest, vm.precomputation = traces :: rest)
      (Vm.runPrecomputedBatch vm t.get batch) := by
  have hstores : Stores p batch .shared := stores_of hb (by
    unfold GadgetBatch.normalResultBank; rw [hkind])
  unfold Vm.runPrecomputedBatch
  cases hq : vm.precomputation with
  | nil => exact ⟨.precomputationMissing, by simp⟩
  | cons traces queue =>
    -- A failure behind the pop is the fault of the traces popped.
    have hblame : ∀ e, Unsupplied t.get batch traces e → e.Unvalidated ∧
        ∀ traces' rest, traces :: queue = traces' :: rest → ¬ Supplied t.get batch traces' := by
      rintro e ⟨he, hno⟩
      refine ⟨he, fun traces' rest heq => ?_⟩
      cases heq
      exact hno
    refine Meets.guard_bind
      (fun hne => hblame _ ⟨.precomputationSites, fun hok => hne hok.sites⟩) fun hsites => ?_
    -- One site: its row is stored if its trace has the halves' lengths and the slots asked for.
    have hstep : ∀ e ∈ (traces.zip (windows batch.resultOffsets)).zipIdx,
        ∀ vm : VmState Unit Fr, vm.Ready p → Meets (Unsupplied t.get batch traces)
          (fun bank => bank = (vm.writeAll ((batch.targetsOf e.2).zip ((batch.requestsOf e.2).map
            (Effect.suppliedValue t.get traces e.2)))).shared)
          (Vm.storePrecomputedSite t.get batch vm.shared e) := by
      rintro ⟨⟨trace, lo, hi⟩, site⟩ hmem vm h
      replace hmem := List.mem_zipIdx_iff_getElem?.mp hmem
      simp only at hmem
      obtain ⟨hlt, hget⟩ := List.getElem?_eq_some_iff.mp hmem
      rw [List.length_zip] at hlt
      have hs : site < traces.length := by omega
      rw [List.getElem_zip, windows_getElem (d := 0)] at hget
      obtain ⟨rfl, hrow⟩ := Prod.mk.inj hget
      obtain ⟨rfl, rfl⟩ := Prod.mk.inj hrow
      exact storePrecomputedSite_plain h hb hstores hs hsites
    refine Meets.bind ((meets_foldlM_shared h hstep).weaken hblame fun _ hbank => hbank)
      fun bank hbank => ?_
    refine ⟨?_, traces, queue, rfl⟩
    have hlen : (traces.zip (windows batch.resultOffsets)).length = batch.sites := by
      rw [List.length_zip, windows_length, hb.offsets.length, hsites]; omega
    rw [zipIdx_flatMap_snd (f := fun site => (batch.targetsOf site).zip
      ((batch.requestsOf site).map (Effect.suppliedValue t.get traces site))), hlen,
      ← zip_rows hb] at hbank
    change bank = (vm.writeAll (batch.resultTargets.zip
      (Effect.suppliedValues t.get batch traces))).shared at hbank
    -- The queue without its first entry is the only thing the effect has besides the writes.
    have heffect : Effect.batch host vm batch =
        { vm.writeAll (batch.resultTargets.zip (Effect.suppliedValues t.get batch traces)) with
          precomputation := queue } := by
      unfold Effect.batch
      rw [hkind, hq]
      rfl
    rw [heffect, writeAll_stores_shared hstores, ← hbank]

/-! ## The instruction -/

theorem batch_ready (h : vm.Ready p) (batch : GadgetBatch) :
    (Effect.batch host vm batch).Ready p := by
  unfold Effect.batch
  split
  · next t _ =>
    have hr := h.writeAll (batch.resultTargets.zip
      (Effect.suppliedValues t.get batch (vm.precomputation.headD [])))
    exact ⟨hr.public_length, hr.shared_length, hr.lhs_length, hr.rhs_length⟩
  · exact h.writeAll _

@[simp] theorem effect_reshare {round : RoundIdx} {entry : RoundEntry}
    (hentry : p.rounds[round.index]? = some entry) :
    Effect.instruction host p vm (.reshare round) = Effect.reshare p vm entry := by
  simp only [Effect.instruction, hentry]

@[simp] theorem effect_gadget {index : BatchIdx}
    (hbatch : p.gadgetBatches[index.index]? = some batch) :
    Effect.instruction host p vm (.gadget index) = Effect.batch host vm batch := by
  simp only [Effect.instruction, hbatch]

theorem effect_ready (h : vm.Ready p) (i : Instruction) :
    (Effect.instruction host p vm i).Ready p := by
  cases i with
  | arith op dst a b => exact arith_ready h
  | reshare round =>
    cases hentry : p.rounds[round.index]? with
    | some entry => rw [effect_reshare hentry]; exact reshare_ready h entry
    | none => simpa only [Effect.instruction, hentry] using h
  | gadget index =>
    cases hbatch : p.gadgetBatches[index.index]? with
    | some batch => rw [effect_gadget hbatch]; exact batch_ready h batch
    | none => simpa only [Effect.instruction, hbatch] using h

/-- **An instruction of an accepted program performs its effect**, or fails for a cause the program
    cannot rule out: one of the unvalidated ones, or bits too wide for a vector. -/
theorem executeInstruction_plain (host : Poseidon2.Host) (hw : p.WellEncoded) (h : vm.Ready p)
    {i : Instruction} (hi : p.InstructionOk i) :
    Meets (p.Fails host [i]) (fun vm' => vm' = Effect.instruction host p vm i)
      (Vm.executeInstruction (plainDriver host) p host vm i) := by
  cases i with
  | arith op dst a b =>
    show Meets _ _ (Vm.executeArithmetic _ vm op dst a b)
    rw [executeArithmetic_plain h hi]
    rfl
  | reshare round =>
    have hentry : p.rounds[round.index]? = some p.rounds[round.index] :=
      List.getElem?_eq_getElem hi
    show Meets _ _ (Vm.executeReshare _ p vm round)
    rw [executeReshare_plain hw h hentry]
    -- The round names the products in flight, or it is refused.
    split
    · exact (effect_reshare hentry).symm
    · exact .inl .roundMismatch
  | gadget index =>
    have hget : p.gadgetBatches[index.index]? = some p.gadgetBatches[index.index] :=
      List.getElem?_eq_getElem hi
    have hb := hw.batches _ (List.getElem_mem hi)
    -- The batch is in the table, and which path services it is its kind's.
    show Meets _ _ (readAt _ _ _ >>= fun batch => Vm.runBatch _ host vm batch)
    rw [readAt_eq_ok hi, ok_bind, effect_gadget hget]
    unfold Vm.runBatch
    split
    · next hkind => rw [runIsZeroRevealBatch_plain h hb hkind]; rfl
    · next t hkind =>
      exact (runPrecomputedBatch_plain h hb hkind).weaken (fun _ he => .inl he.1) fun _ hv => hv.1
    · next kind hkind =>
      have hgadget : Meets
          (p.Fails host [.gadget index])
          (fun vm' => vm' = Effect.batch host vm p.gadgetBatches[index.index])
          (if kind.tooWide host then .error .capacityOverflow
            else .ok (Effect.batch host vm p.gadgetBatches[index.index])) := by
        split
        · next hwide =>
          refine .inr ⟨rfl, _, List.mem_singleton_self _, ?_⟩
          rw [ProgramParts.overflows, hget, Option.any_some, hkind]
          exact hwide
        · rfl
      split
      · next hany => rw [runSharedBatch_plain h hb hkind hany]; exact hgadget
      · next hany => rw [runPublicBatch_plain h hb hkind (by simpa using hany)]; exact hgadget

end Plain

end CircomMpc
