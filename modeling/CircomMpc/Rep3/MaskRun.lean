import CircomMpc.Rep3.Driver
import CircomMpc.Rep3.Poseidon2Spending
import CircomMpc.Vm.Effect
import CircomMpc.Vm.Steps

/-!
# A run's masks, instruction by instruction

The machine with the three-party driver, read for one thing: what happens to the mask pool. Only a
Poseidon2 batch that runs on sharings touches it, and then it takes exactly the batch's masks, in
layers that lie end to end. No other failure of the machine is one of the pool's.

`Quiet` is the second half alone, a computation none of whose failures is the pool's; `KeepsDriver` and
`KeepsPool` are computations that leave the driver, or its pool, as it was. They compose over `bind`
like the library's triples, and the machine's functions are gone through one by one.
-/

namespace CircomMpc

open Lib Poseidon2

variable {σ S α β : Type}

/-! ## Failures that are not the pool's -/

/-- A computation no failure of which is the pool's. -/
def Quiet (x : Except RunError α) : Prop := Meets (fun e => ¬ PoolFailed e) (fun _ => True) x

namespace Quiet

theorem meets {x : Except RunError α} {f : α → Except RunError β} {P : β → Prop} (h : Quiet x)
    (hf : ∀ a, Meets (fun e => ¬ PoolFailed e) P (f a)) :
    Meets (fun e => ¬ PoolFailed e) P (x >>= f) :=
  Meets.bind h fun a _ => hf a

theorem bind {x : Except RunError α} {f : α → Except RunError β} (h : Quiet x)
    (hf : ∀ a, Quiet (f a)) : Quiet (x >>= f) :=
  h.meets hf

theorem ensure {c : Prop} [Decidable c] {e : RunError} (he : ¬ PoolFailed e) :
    Quiet (Lib.ensure c e) := by
  unfold Lib.ensure
  split
  · exact trivial
  · exact he

theorem orElse {e : RunError} {o : Option α} (he : ¬ PoolFailed e) : Quiet (Lib.orElse e o) := by
  cases o with
  | none => exact he
  | some a => exact trivial

theorem mapM {f : α → Except RunError β} {xs : List α} (h : ∀ x ∈ xs, Quiet (f x)) :
    Quiet (xs.mapM f) :=
  (Meets.mapM h).post fun _ _ => trivial

/-- The same, with how many came out. -/
theorem mapM_length {f : α → Except RunError β} {xs : List α} (h : ∀ x ∈ xs, Quiet (f x)) :
    Meets (fun e => ¬ PoolFailed e) (fun ys => ys.length = xs.length) (xs.mapM f) :=
  (Meets.mapM h).post fun _ h => h.1

theorem foldlM {f : β → α → Except RunError β} {xs : List α} {b : β}
    (h : ∀ b, ∀ x ∈ xs, Quiet (f b x)) : Quiet (xs.foldlM f b) :=
  Meets.foldlM trivial fun x hx b _ => h b x hx

theorem readAt (what : String) (xs : List α) (i : Nat) : Quiet (CircomMpc.readAt what xs i) :=
  (readAt_not_pool what xs i).post fun _ _ => trivial

theorem rangeOf (what : String) (xs : List α) (lo hi : Nat) :
    Quiet (CircomMpc.rangeOf what xs lo hi) :=
  (rangeOf_not_pool what xs lo hi).post fun _ _ => trivial

theorem readSlot (bank : List α) (slot : Slot) : Quiet (CircomMpc.readSlot bank slot) :=
  readAt _ _ _

theorem writeSlot (bank : List α) (slot : Slot) (value : α) :
    Quiet (CircomMpc.writeSlot bank slot value) := by
  unfold CircomMpc.writeSlot
  split
  · exact trivial
  · exact id

end Quiet

namespace Vm

variable {driver : VmDriver σ S} {p : ProgramParts} {host : Host} {vm : VmState σ S}

/-- A step that leaves the driver's state alone. -/
def KeepsDriver (vm : VmState σ S) (x : Except RunError (VmState σ S)) : Prop :=
  Meets (fun e => ¬ PoolFailed e) (fun vm' => vm'.driver = vm.driver) x

theorem executeArithmetic_keeps (op : Opcode) (dst a b : Slot) :
    KeepsDriver vm (executeArithmetic driver vm op dst a b) := by
  have hpublic : ∀ f : Fr → Fr → Fr, KeepsDriver vm (publicArith f vm dst a b) := by
    intro f
    exact (Quiet.readSlot _ _).meets fun _ => (Quiet.readSlot _ _).meets fun _ =>
      (Quiet.writeSlot _ _ _).meets fun _ => rfl
  have hshared : ∀ {X Y : Type} (f : X → Y → S) (xs : List X) (ys : List Y),
      KeepsDriver vm (sharedArith f xs ys vm dst a b) := by
    intro X Y f xs ys
    exact (Quiet.readSlot _ _).meets fun _ => (Quiet.readSlot _ _).meets fun _ =>
      (Quiet.writeSlot _ _ _).meets fun _ => rfl
  cases op
  case addPP | subPP | mulPP => exact hpublic _
  case addSS | subSS | addSP | subSP | subPS | mulSP => exact hshared _ _ _
  case mulLocal =>
    exact (Quiet.readSlot _ _).meets fun _ => (Quiet.readSlot _ _).meets fun _ => rfl
  case reshare | gadget => exact id

theorem selectRequests_quiet (full : List α) (batch : GadgetBatch) :
    Quiet (selectRequests full batch) := by
  refine (Quiet.ensure id).bind fun _ => (Quiet.ensure id).bind fun _ => ?_
  refine (Quiet.mapM fun site _ => ?_).bind fun _ => trivial
  refine (Quiet.rangeOf _ _ _ _).bind fun _ => (Quiet.readAt _ _ _).bind fun _ =>
    (Quiet.readAt _ _ _).bind fun _ => (Quiet.rangeOf _ _ _ _).bind fun _ => ?_
  exact Quiet.mapM fun _ _ => (Quiet.ensure id).bind fun _ => Quiet.readAt _ _ _

theorem storeBatchResults_quiet (batch : GadgetBatch) (results : List α) (bank : Bank)
    (destination : List α) : Quiet (storeBatchResults batch results bank destination) :=
  (Quiet.ensure id).bind fun _ => Quiet.foldlM fun _ _ _ =>
    (Quiet.ensure id).bind fun _ => Quiet.writeSlot _ _ _

theorem aliasCheckTracesPlain_quiet (inputs : List Fr) : Quiet (aliasCheckTracesPlain inputs) := by
  refine (Quiet.ensure id).bind fun _ => (Quiet.mapM fun input _ => ?_).bind fun _ => trivial
  exact (Quiet.ensure id).bind fun _ => trivial

theorem plainTraceMany_quiet (isizeMax n : Nat) (inputs : List Fr) :
    Quiet (Num2Bits.plainTraceMany isizeMax n inputs) := by
  refine (Quiet.mapM fun input _ => ?_).bind fun _ => trivial
  exact (Quiet.ensure id).bind fun _ => trivial

theorem runPublicBatch_keeps {batch : GadgetBatch} (hb : p.BatchOk batch) {kind : GadgetKind}
    (hkind : batch.kind = .gadget kind) : KeepsDriver vm (runPublicBatch host vm batch kind) := by
  have hinputs : Meets (fun e => ¬ PoolFailed e)
      (fun inputs => inputs.length = batch.inputSlots.length)
      (batch.inputSlots.mapM fun input => do
        ensure (input.bank = .public) .publicBatchInput
        readSlot vm.public input.slot) :=
    Quiet.mapM_length fun input _ => (Quiet.ensure id).bind fun _ => Quiet.readSlot _ _
  refine Meets.bind hinputs fun inputs hlen => ?_
  have hstore : ∀ selected : List Fr, KeepsDriver vm (do
      let bank ← storeBatchResults batch selected .public vm.public
      pure { vm with «public» := bank }) :=
    fun selected => (storeBatchResults_quiet _ _ _ _).meets fun _ => rfl
  cases kind with
  | poseidon2 t =>
    dsimp only
    rw [poseidon2_eq_ok hb hkind hlen, ok_bind]
    exact hstore _
  | num2Bits n =>
    exact (plainTraceMany_quiet _ n inputs).meets fun _ => (selectRequests_quiet _ _).meets hstore
  | isZero => exact (selectRequests_quiet _ _).meets hstore
  | aliasCheck =>
    exact (aliasCheckTracesPlain_quiet inputs).meets fun _ => (selectRequests_quiet _ _).meets hstore
  | reveal n => exact (selectRequests_quiet _ _).meets hstore

theorem runPrecomputedBatch_keeps (t : Nat) (batch : GadgetBatch) :
    KeepsDriver vm (runPrecomputedBatch vm t batch) := by
  unfold runPrecomputedBatch
  cases vm.precomputation with
  | nil => exact id
  | cons sites queue =>
    refine (Quiet.ensure id).meets fun _ => Quiet.meets (Quiet.foldlM fun shared entry _ => ?_)
      fun _ => rfl
    obtain ⟨⟨trace, lo, hi⟩, site⟩ := entry
    refine (Quiet.ensure id).bind fun _ => (Quiet.rangeOf _ _ _ _).bind fun _ =>
      (Quiet.rangeOf _ _ _ _).bind fun _ => Quiet.foldlM fun bank request _ => ?_
    refine Quiet.bind ?_ fun _ => Quiet.writeSlot _ _ _
    unfold precomputedValue
    split
    · exact Quiet.readAt _ _ _
    · exact Quiet.orElse id

theorem storeFused_keeps (trace : IsZeroRevealTrace S) (entry : ResultSlot × ResultTarget) :
    KeepsDriver vm (storeFused trace vm entry) := by
  obtain ⟨logical, target⟩ := entry
  unfold storeFused
  dsimp only
  split
  · exact (Quiet.ensure id).meets fun _ => (Quiet.writeSlot _ _ _).meets fun _ => rfl
  · exact (Quiet.ensure id).meets fun _ => (Quiet.writeSlot _ _ _).meets fun _ => rfl
  · exact (Quiet.ensure id).meets fun _ => (Quiet.writeSlot _ _ _).meets fun _ => rfl
  · exact id

theorem storeFusedSite_keeps (batch : GadgetBatch) (entry : IsZeroRevealTrace S × Nat) :
    KeepsDriver vm (storeFusedSite batch vm entry) := by
  obtain ⟨trace, site⟩ := entry
  refine (Quiet.readAt _ _ _).meets fun _ => (Quiet.readAt _ _ _).meets fun _ =>
    (Quiet.ensure id).meets fun _ => (Quiet.rangeOf _ _ _ _).meets fun _ =>
    (Quiet.rangeOf _ _ _ _).meets fun _ => ?_
  exact Meets.foldlM rfl fun request _ vm' hvm' =>
    (storeFused_keeps trace request).post fun _ h => h.trans hvm'

end Vm

/-! ## The three-party driver's calls -/

section Calls

variable {net : Rep3 σ S} {host : Host} {state : σ × MaskPool S}

/-- A call of anything but the Poseidon2 service. -/
theorem besidePool_keeps {f : σ → Except RunError (α × σ)} (h : ∀ s, Quiet (f s)) :
    Meets (fun e => ¬ PoolFailed e) (fun r => r.2.2 = state.2) (besidePool f state) :=
  (h state.1).meets fun _ => rfl

theorem call_quiet (x : Except Rep3Error α) : Quiet (call x) :=
  meets_call_any raise_not_pool fun _ _ => trivial

theorem isZero_quiet (inputs : List S) (s : σ) : Quiet (IsZero.rep3Trace net inputs s) :=
  (call_quiet _).bind fun _ => (call_quiet _).bind fun _ => (call_quiet _).bind fun _ =>
    (call_quiet _).bind fun _ => trivial

theorem maskedReveal_quiet (inputs : List S) (s : σ) :
    Quiet (IsZero.rep3MaskedRevealTrace net inputs s) :=
  (Quiet.ensure id).bind fun _ => (call_quiet _).bind fun _ => trivial

theorem num2bits_quiet (n : Nat) (inputs : List S) (s : σ) :
    Quiet (Num2Bits.rep3Trace net n inputs s) :=
  (call_quiet _).bind fun _ => call_quiet _

theorem aliasCheck_quiet (inputs : List S) (s : σ) :
    Quiet (AliasCheck.rep3Trace net inputs s) := by
  refine (Quiet.ensure id).bind fun _ => (call_quiet _).bind fun _ => (call_quiet _).bind fun _ =>
    (call_quiet _).bind fun _ => (Quiet.mapM fun site _ => ?_).bind fun _ => trivial
  exact (Quiet.rangeOf _ _ _ _).bind fun _ => (Quiet.readAt _ _ _).bind fun _ =>
    (Quiet.rangeOf _ _ _ _).bind fun _ => (Quiet.readAt _ _ _).bind fun _ => trivial

/-- A Poseidon2 batch that runs on sharings takes its masks, and nothing else. -/
theorem poseidon2_spends {p : ProgramParts} {batch : GadgetBatch} (hb : p.BatchOk batch)
    {t : Poseidon2Width} (hkind : batch.kind = .gadget (.poseidon2 t)) {inputs : List S}
    (hlen : inputs.length = batch.inputSlots.length)
    (hholds : state.2.Holds (batch.sites * siteMasks t.get)) :
    Meets (fun e => ¬ PoolFailed e)
      (fun r => Spending state.2 (batch.sites * siteMasks t.get) 0 r.2.2)
      ((rep3Driver net host).poseidon2RequestedTraces t.get inputs
        (batch.resultRequests.map (·.index)) batch.resultOffsets state) := by
  have hips : batch.kind.inputsPerSite = t.get := by rw [hkind]; rfl
  have hcap : batch.kind.capacity = resultSlots t.get := by
    rw [hkind]
    exact expectedResults_eq_resultSlots t
  -- The cleartext walk of any states runs, so the one on sharings can only fail with the network.
  have hflat : (List.replicate batch.sites (List.replicate t.get (0 : Fr))).flatten.length =
      inputs.length := by
    rw [hlen, hb.inputCount, hips]
    simp
  have hstates : List.Forall₂ (fun (_ : S) (_ : Fr) => True) inputs
      (List.replicate batch.sites (List.replicate t.get (0 : Fr))).flatten := by
    rw [List.forall₂_iff_get]
    exact ⟨hflat.symm, fun _ _ _ => trivial⟩
  have hrows := hb.rowsOk
  have hsites : (List.replicate batch.sites (List.replicate t.get (0 : Fr))).length = batch.sites :=
    List.length_replicate
  rw [hcap, ← hsites] at hrows
  rw [← hsites] at hholds
  have hmirrored : Mirrored (fun (_ : S) (_ : Fr) => True) (rep3Ops net) plainOps :=
    ⟨trivial, fun _ => trivial, fun _ _ => trivial, fun _ _ => trivial, fun _ _ => trivial⟩
  have hcall := rep3TraceRequested_mirrors hmirrored (rep3Ops_spends net state.2) host t state.1
    (fun hnil => by have hpos := hb.sites; rw [hnil] at hsites; simp at hsites; omega)
    (fun input hinput => by rw [List.eq_of_mem_replicate hinput, List.length_replicate])
    hstates hrows hholds
  rw [hsites] at hcall
  exact (hcall.post fun r hr => hr.2).mapError fun e he => he

end Calls

/-! ## One instruction -/

/-- The width and the number of sites of a Poseidon2 batch that runs on sharings. -/
def GadgetBatch.sharedPoseidon2 (batch : GadgetBatch) : Option (Poseidon2Width × Nat) :=
  match batch.kind with
  | .gadget (.poseidon2 t) => if batch.anyShared then some (t, batch.sites) else none
  | .gadget (.num2Bits _) | .gadget .isZero | .gadget .aliasCheck | .gadget (.reveal _)
  | .precomputedPoseidon2 _ | .isZeroReveal => none

/-- The same of the batch an instruction runs, if it runs one. -/
def ProgramParts.sharedPoseidon2 (p : ProgramParts) : Instruction → Option (Poseidon2Width × Nat)
  | .gadget index => p.gadgetBatches[index.index]?.bind (·.sharedPoseidon2)
  | .arith _ _ _ _ | .reshare _ => none

/-- How many masks a batch uses. -/
def masksFor : Option (Poseidon2Width × Nat) → Nat
  | some (t, sites) => sites * siteMasks t.get
  | none => 0

theorem GadgetBatch.sharedPoseidon2_eq_some {batch : GadgetBatch} {t : Poseidon2Width} {n : Nat} :
    batch.sharedPoseidon2 = some (t, n) ↔
      batch.kind = .gadget (.poseidon2 t) ∧ batch.anyShared = true ∧ batch.sites = n := by
  unfold GadgetBatch.sharedPoseidon2
  cases hkind : batch.kind with
  | gadget kind =>
    cases kind <;> simp [and_left_comm]
  | precomputedPoseidon2 t => simp
  | isZeroReveal => simp

section Step

variable {net : Rep3 σ S} {host : Host} {p : ProgramParts} {vm : VmState (σ × MaskPool S) S}

/-- A step that leaves the pool alone. -/
def KeepsPool (vm : VmState (σ × MaskPool S) S)
    (x : Except RunError (VmState (σ × MaskPool S) S)) : Prop :=
  Meets (fun e => ¬ PoolFailed e) (fun vm' => vm'.driver.2 = vm.driver.2) x

theorem executeReshare_keeps (round : RoundIdx) :
    KeepsPool vm (Vm.executeReshare (rep3Driver net host) p vm round) := by
  refine (Quiet.readAt _ _ _).meets fun _ => (Quiet.rangeOf _ _ _ _).meets fun _ =>
    (Quiet.ensure id).meets fun _ => ?_
  refine (besidePool_keeps fun s => call_quiet _).bind fun reply hreply => ?_
  refine (Quiet.ensure id).meets fun _ => Quiet.meets (Quiet.foldlM fun _ _ _ => ?_) fun _ => hreply
  exact (Quiet.readAt _ _ _).bind fun _ => Quiet.writeSlot _ _ _

theorem runIsZeroRevealBatch_keeps (batch : GadgetBatch) :
    KeepsPool vm (Vm.runIsZeroRevealBatch (rep3Driver net host) vm batch) := by
  refine (Quiet.ensure id).meets fun _ => (Quiet.ensure id).meets fun _ =>
    Quiet.meets (Quiet.mapM fun _ _ => (Quiet.ensure id).bind fun _ => Quiet.readSlot _ _)
    fun inputs => ?_
  refine (besidePool_keeps fun s => maskedReveal_quiet inputs s).bind fun reply hreply => ?_
  refine (Quiet.ensure id).meets fun _ => (Quiet.ensure id).meets fun _ => ?_
  exact Meets.foldlM hreply fun entry _ vm' hvm' =>
    (Vm.storeFusedSite_keeps batch entry).post fun _ h => (congrArg Prod.snd h).trans hvm'

theorem batchInput_quiet (input : SiteInput) :
    Quiet (Vm.batchInput (rep3Driver net host) vm input) := by
  unfold Vm.batchInput
  cases input.bank with
  | «public» => exact (Quiet.readSlot _ _).bind fun _ => trivial
  | shared => exact Quiet.readSlot _ _
  | «local» => exact id

theorem rep3_batchInputs_length (batch : GadgetBatch) :
    Meets (fun e => ¬ PoolFailed e) (fun inputs => inputs.length = batch.inputSlots.length)
      (batch.inputSlots.mapM (Vm.batchInput (rep3Driver net host) vm)) :=
  Quiet.mapM_length fun input _ => batchInput_quiet input

theorem runSharedBatch_spends {batch : GadgetBatch} (hb : p.BatchOk batch) {t : Poseidon2Width}
    (hkind : batch.kind = .gadget (.poseidon2 t))
    (hholds : vm.driver.2.Holds (batch.sites * siteMasks t.get)) :
    Meets (fun e => ¬ PoolFailed e)
      (fun vm' => Spending vm.driver.2 (batch.sites * siteMasks t.get) 0 vm'.driver.2)
      (Vm.runSharedBatch (rep3Driver net host) vm batch (.poseidon2 t)) := by
  refine (rep3_batchInputs_length batch).bind fun inputs hlen => ?_
  refine (poseidon2_spends hb hkind hlen hholds).bind fun reply hreply => ?_
  exact (Vm.storeBatchResults_quiet _ _ _ _).meets fun _ => hreply

theorem runSharedBatch_keeps (batch : GadgetBatch) {kind : GadgetKind}
    (hkind : ∀ t, kind ≠ .poseidon2 t) :
    KeepsPool vm (Vm.runSharedBatch (rep3Driver net host) vm batch kind) := by
  refine (rep3_batchInputs_length batch).bind fun inputs _ => ?_
  cases kind with
  | poseidon2 t => exact absurd rfl (hkind t)
  | num2Bits n =>
    refine (besidePool_keeps fun s => num2bits_quiet n inputs s).bind fun reply hreply => ?_
    exact (Vm.selectRequests_quiet _ _).meets fun _ =>
      (Vm.storeBatchResults_quiet _ _ _ _).meets fun _ => hreply
  | isZero =>
    refine (besidePool_keeps fun s => isZero_quiet inputs s).bind fun reply hreply => ?_
    exact (Vm.selectRequests_quiet _ _).meets fun _ =>
      (Vm.storeBatchResults_quiet _ _ _ _).meets fun _ => hreply
  | aliasCheck =>
    refine (besidePool_keeps fun s => aliasCheck_quiet inputs s).bind fun reply hreply => ?_
    exact (Vm.selectRequests_quiet _ _).meets fun _ =>
      (Vm.storeBatchResults_quiet _ _ _ _).meets fun _ => hreply
  | reveal n =>
    refine (besidePool_keeps fun s => call_quiet _).bind fun reply hreply => ?_
    exact (Vm.selectRequests_quiet _ _).meets fun _ =>
      (Vm.storeBatchResults_quiet _ _ _ _).meets fun _ => hreply

theorem KeepsPool.spends {x : Except RunError (VmState (σ × MaskPool S) S)} (h : KeepsPool vm x) :
    Meets (fun e => ¬ PoolFailed e) (fun vm' => Spending vm.driver.2 0 0 vm'.driver.2) x :=
  h.post fun _ hvm => hvm ▸ Spending.fresh

theorem runBatch_spends {batch : GadgetBatch} (hb : p.BatchOk batch)
    (hholds : vm.driver.2.Holds (masksFor batch.sharedPoseidon2)) :
    Meets (fun e => ¬ PoolFailed e)
      (fun vm' => Spending vm.driver.2 (masksFor batch.sharedPoseidon2) 0 vm'.driver.2)
      (Vm.runBatch (rep3Driver net host) host vm batch) := by
  have hdriver : ∀ {x : Except RunError (VmState (σ × MaskPool S) S)}, Vm.KeepsDriver vm x →
      KeepsPool vm x := fun h => h.post fun _ h => congrArg Prod.snd h
  cases hshared : batch.sharedPoseidon2 with
  -- A batch with a share among its inputs, serviced by the driver: the one case that spends.
  | some entry =>
    obtain ⟨t, sites⟩ := entry
    obtain ⟨hkind, hany, rfl⟩ := GadgetBatch.sharedPoseidon2_eq_some.mp hshared
    rw [hshared] at hholds
    unfold Vm.runBatch
    simp only [hkind, hany, if_true]
    exact runSharedBatch_spends hb hkind hholds
  -- Every other batch leaves the pool alone, for whichever of the three reasons.
  | none =>
    have hother : ∀ t, batch.kind = .gadget (.poseidon2 t) → batch.anyShared = false := by
      intro t hkind
      by_contra hany
      have hsome := GadgetBatch.sharedPoseidon2_eq_some.mpr
        ⟨hkind, Bool.eq_true_of_not_eq_false hany, rfl⟩
      rw [hshared] at hsome
      cases hsome
    refine KeepsPool.spends ?_
    unfold Vm.runBatch
    cases hkind : batch.kind with
    | isZeroReveal => exact runIsZeroRevealBatch_keeps batch
    | precomputedPoseidon2 t => exact hdriver (Vm.runPrecomputedBatch_keeps t.get batch)
    | gadget kind =>
      dsimp only
      by_cases hany : batch.anyShared = true
      · rw [if_pos hany]
        refine runSharedBatch_keeps batch fun t ht => ?_
        rw [hother t (ht ▸ hkind)] at hany
        cases hany
      · rw [if_neg hany]
        exact hdriver (Vm.runPublicBatch_keeps hb hkind)

/-- **An instruction takes its own masks**, if the pool still has them. -/
theorem executeInstruction_spends (hwell : p.WellEncoded) (i : Instruction)
    (hholds : vm.driver.2.Holds (masksFor (p.sharedPoseidon2 i))) :
    Meets (fun e => ¬ PoolFailed e)
      (fun vm' => Spending vm.driver.2 (masksFor (p.sharedPoseidon2 i)) 0 vm'.driver.2)
      (Vm.executeInstruction (rep3Driver net host) p host vm i) := by
  cases i with
  | arith op dst a b =>
    exact KeepsPool.spends ((Vm.executeArithmetic_keeps op dst a b).post fun _ h =>
      congrArg Prod.snd h)
  | reshare round => exact (executeReshare_keeps round).spends
  | gadget index =>
    show Meets _ _ (readAt _ _ _ >>= fun batch => Vm.runBatch _ host vm batch)
    unfold ProgramParts.sharedPoseidon2 at hholds ⊢
    cases hbatch : p.gadgetBatches[index.index]? with
    | none =>
      rw [readAt, hbatch]
      exact id
    | some batch =>
      rw [readAt, hbatch, orElse_some, ok_bind]
      simp only [hbatch, Option.bind_some] at hholds ⊢
      exact runBatch_spends (hwell.batches batch (List.mem_of_getElem? hbatch)) hholds

end Step

end CircomMpc
