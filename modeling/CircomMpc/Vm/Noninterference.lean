import CircomMpc.Vm.Safety

/-!
# Nothing secret reaches the public bank unannounced

Two runs of one accepted program, whose inputs agree wherever the program declares them public, have
the same public bank after every instruction — as long as the batches that *reveal* something, a
`Reveal` over a share and a fused `IsZeroReveal`, revealed the same. So the only way a secret can
show up in cleartext is through an executed reveal: the opcodes' bank signatures and the result-bank
rules of the batch table, the two things the validators check, are enough for it.

The shared banks of the two runs may differ in every slot, and so may the precomputation queues.

The proof is the unwinding one would expect: `executeRevealing` is an instruction together with what it
writes to the public bank by revealing, one step keeps the public banks equal if those writes are, and
the induction is over the number of instructions done. Of the batches only three kinds need a word:
all inputs public, some shared and the results too, or a reveal.
-/

namespace CircomMpc

open Lib

variable {σ S : Type}

/-! ## What a run reveals -/

/-- The batch opens a secret on purpose. -/
def GadgetBatch.reveals (batch : GadgetBatch) : Bool :=
  match batch.kind with
  | .gadget (.reveal _) => batch.anyShared
  | .isZeroReveal => true
  | _ => false

/-- The public slots a batch writes. -/
def GadgetBatch.publicSlots (batch : GadgetBatch) : List Slot :=
  (batch.resultTargets.filter fun target => target.bank = .public).map (·.slot)

namespace Vm

/-- What an instruction that led to `vm` revealed: the public slots of a revealing batch, as it left
    them. Equal written values leave equal slots, so agreement on this list asks no more than
    agreement on every value written. -/
def revealedBy (p : ProgramParts) (vm : VmState σ S) : Instruction → List Fr
  | .gadget index =>
    match p.gadgetBatches[index.index]? with
    | some batch =>
      if batch.reveals then batch.publicSlots.map fun slot => vm.public.getD slot.index 0 else []
    | none => []
  | _ => []

/-- A stretch of instructions, with what each of them revealed. -/
def executeRevealing (driver : VmDriver σ S) (p : ProgramParts) (host : Poseidon2.Host) :
    VmState σ S → List Instruction → Except RunError (VmState σ S × List (List Fr))
  | vm, [] => .ok (vm, [])
  | vm, i :: is => do
    let vm ← executeInstruction driver p host vm i
    let (final, revealed) ← executeRevealing driver p host vm is
    pure (final, revealedBy p vm i :: revealed)

/-- A plain run's first `k` instructions: the state it reached and what it revealed on the way. -/
def runPrefix (host : Poseidon2.Host) (program : Program)
    (precomputation : List (List (SiteTrace Fr))) (inputs : List (InputValue Fr)) (k : Nat) :
    Except RunError (VmState Unit Fr × List (List Fr)) := do
  ensure (inputs.length = program.parts.numInputs)
    (.inputCount program.parts.numInputs inputs.length)
  let vm ← initializeInputs (plainDriver host) program.parts precomputation () inputs
  executeRevealing (plainDriver host) program.parts host vm (program.parts.instructions.take k)

end Vm

/-! ## The public bank under a list of writes -/

variable {host : Poseidon2.Host} {p : ProgramParts} {vm vm' : VmState Unit Fr}

/-- A write goes to one bank. -/
theorem write_public_of_ne {bank : Bank} (h : bank ≠ .public) (slot : Slot) (value : Fr) :
    (vm.write bank slot value).public = vm.public := by
  cases bank with
  | «public» => exact absurd rfl h
  | shared | «local» => rfl

theorem write_public_congr (h : vm.public = vm'.public) (bank : Bank) (slot : Slot) (value : Fr) :
    (vm.write bank slot value).public = (vm'.write bank slot value).public := by
  cases bank with
  | «public» => simp only [VmState.write, h]
  | shared | «local» => exact h

/-- A write changes one slot. -/
theorem write_public_getD {bank : Bank} {slot : Slot} {index : Nat}
    (h : bank = .public → slot.index ≠ index) (value : Fr) :
    (vm.write bank slot value).public.getD index 0 = vm.public.getD index 0 := by
  cases bank with
  | «public» =>
    simp only [VmState.write, List.getD_eq_getElem?_getD]
    rw [List.getElem?_set_ne (h rfl)]
  | shared | «local» => rfl

theorem writeAll_public_of_ne {writes : List (ResultTarget × Fr)}
    (h : ∀ w ∈ writes, w.1.bank ≠ .public) : (vm.writeAll writes).public = vm.public := by
  induction writes generalizing vm with
  | nil => rfl
  | cons w writes ih =>
    refine Eq.trans ?_ (write_public_of_ne (h w (by simp)) w.1.slot w.2)
    exact ih fun v hv => h v (by simp [hv])

/-- The same writes to the same public bank. -/
theorem writeAll_public_congr {writes : List (ResultTarget × Fr)} (h : vm.public = vm'.public) :
    (vm.writeAll writes).public = (vm'.writeAll writes).public := by
  induction writes generalizing vm vm' with
  | nil => exact h
  | cons w writes ih => exact ih (write_public_congr h _ _ _)

/-- A slot that is nobody's destination keeps its value. -/
theorem writeAll_public_getD {writes : List (ResultTarget × Fr)} {index : Nat}
    (h : ∀ w ∈ writes, w.1.bank = .public → w.1.slot.index ≠ index) :
    (vm.writeAll writes).public.getD index 0 = vm.public.getD index 0 := by
  induction writes generalizing vm with
  | nil => rfl
  | cons w writes ih =>
    refine Eq.trans ?_ (write_public_getD (h w (by simp)) w.2)
    exact ih fun v hv => h v (by simp [hv])

/-! ## One instruction -/

theorem arith_public (hpub : vm.public = vm'.public) {op : Opcode} {dst a b : Slot} :
    (Effect.arith vm op dst a b).public = (Effect.arith vm' op dst a b).public := by
  cases op <;> simp [Effect.arith, Opcode.banks, VmState.write, VmState.read, hpub]

theorem reshare_public (entry : RoundEntry) :
    (Effect.reshare p vm entry).public = vm.public := by
  refine writeAll_public_of_ne fun w hw => ?_
  obtain ⟨slot, -, heq⟩ := List.mem_map.mp (List.of_mem_zip hw).1
  rw [← heq]
  simp

/-- An unfused batch without shares reads the public bank only. -/
theorem batchInputs_public (hpub : vm.public = vm'.public) {batch : GadgetBatch}
    (h : ∀ input ∈ batch.inputSlots, input.bank = .public) :
    Effect.batchInputs vm batch = Effect.batchInputs vm' batch :=
  List.map_congr_left fun input hi => by simp only [VmState.read, h input hi, hpub]

theorem publicInputs_of_anyShared {batch : GadgetBatch} (hb : p.BatchOk batch)
    (h : batch.anyShared = false) : ∀ input ∈ batch.inputSlots, input.bank = .public := by
  intro input hi
  have hshared : input.bank ≠ .shared := by
    intro hs
    have hany : batch.anyShared = true := List.any_eq_true.mpr ⟨input, hi, by simp [hs]⟩
    rw [h] at hany
    cases hany
  have hlocal := (hb.inputs input hi).1
  cases hbk : input.bank with
  | «public» => rfl
  | shared => exact absurd hbk hshared
  | «local» => exact absurd hbk hlocal

/-- A batch whose results are all shared leaves the public bank alone. -/
theorem batch_public_of_shared {batch : GadgetBatch} (hb : p.BatchOk batch)
    (h : batch.normalResultBank = some .shared) :
    (Effect.batch host vm batch).public = vm.public := by
  have hstores := stores_of hb h
  have hne : ∀ values : List Fr, ∀ w ∈ batch.resultTargets.zip values, w.1.bank ≠ .public :=
    fun values w hw => by rw [(hstores w.1 (List.of_mem_zip hw).1).1]; simp
  unfold Effect.batch
  split
  · exact writeAll_public_of_ne (hne _)
  · exact writeAll_public_of_ne (hne _)

/-- A revealing batch changes nothing but its public slots, and those are what it revealed. -/
theorem batch_public_of_reveals {batch : GadgetBatch} (h : vm.Ready p) (h' : vm'.Ready p)
    (hpub : vm.public = vm'.public) (hkind : ∀ t, batch.kind ≠ .precomputedPoseidon2 t)
    (hsame : (batch.publicSlots.map fun slot =>
        (Effect.batch host vm batch).public.getD slot.index 0) =
      batch.publicSlots.map fun slot => (Effect.batch host vm' batch).public.getD slot.index 0) :
    (Effect.batch host vm batch).public = (Effect.batch host vm' batch).public := by
  have heffect : ∀ v : VmState Unit Fr, Effect.batch host v batch = v.writeAll
      (batch.resultTargets.zip (Effect.batchValues host batch (Effect.batchInputs v batch))) := by
    intro v
    unfold Effect.batch
    split
    · next t ht => exact absurd ht (hkind t)
    · rfl
  have hlen : (Effect.batch host vm batch).public.length =
      (Effect.batch host vm' batch).public.length := by
    rw [(batch_ready h batch).public_length, (batch_ready h' batch).public_length]
  have hgetD : ∀ i, (Effect.batch host vm batch).public.getD i 0 =
      (Effect.batch host vm' batch).public.getD i 0 := by
    intro i
    by_cases hi : ∃ slot ∈ batch.publicSlots, slot.index = i
    · obtain ⟨slot, hslot, rfl⟩ := hi
      exact List.map_inj_left.mp hsame slot hslot
    · have hout : ∀ values : List Fr, ∀ w ∈ batch.resultTargets.zip values,
          w.1.bank = .public → w.1.slot.index ≠ i := by
        intro values w hw hbank hidx
        exact hi ⟨w.1.slot, List.mem_map.mpr ⟨w.1, List.mem_filter.mpr
          ⟨(List.of_mem_zip hw).1, by simp [hbank]⟩, rfl⟩, hidx⟩
      rw [heffect, heffect, writeAll_public_getD (hout _), writeAll_public_getD (hout _), hpub]
  refine List.ext_getElem hlen fun i hi hi' => ?_
  have := hgetD i
  rwa [List.getD_eq_getElem?_getD, List.getD_eq_getElem?_getD, List.getElem?_eq_getElem hi,
    List.getElem?_eq_getElem hi', Option.getD_some, Option.getD_some] at this

theorem batch_public {batch : GadgetBatch} (hb : p.BatchOk batch) (h : vm.Ready p)
    (h' : vm'.Ready p) (hpub : vm.public = vm'.public)
    (hsame : batch.reveals = true → (batch.publicSlots.map fun slot =>
        (Effect.batch host vm batch).public.getD slot.index 0) =
      batch.publicSlots.map fun slot => (Effect.batch host vm' batch).public.getD slot.index 0) :
    (Effect.batch host vm batch).public = (Effect.batch host vm' batch).public := by
  cases hkind : batch.kind with
  | isZeroReveal =>
    exact batch_public_of_reveals h h' hpub (by simp [hkind])
      (hsame (by simp [GadgetBatch.reveals, hkind]))
  | precomputedPoseidon2 t =>
    have hbank : batch.normalResultBank = some .shared := by
      unfold GadgetBatch.normalResultBank; rw [hkind]
    rw [batch_public_of_shared hb hbank, batch_public_of_shared hb hbank, hpub]
  | gadget kind =>
    cases hany : batch.anyShared with
    | false =>
      have heffect : ∀ v : VmState Unit Fr, Effect.batch host v batch = v.writeAll
          (batch.resultTargets.zip (Effect.batchValues host batch (Effect.batchInputs v batch))) := by
        intro v
        unfold Effect.batch
        rw [hkind]
      rw [heffect, heffect, batchInputs_public hpub (publicInputs_of_anyShared hb hany)]
      exact writeAll_public_congr hpub
    | true =>
      by_cases hrev : ∃ n, kind = .reveal n
      · obtain ⟨n, rfl⟩ := hrev
        exact batch_public_of_reveals h h' hpub (by simp [hkind])
          (hsame (by simp [GadgetBatch.reveals, hkind, hany]))
      · have hbank : batch.normalResultBank = some .shared := by
          unfold GadgetBatch.normalResultBank
          rw [hkind, hany]
          cases kind with
          | reveal n => exact absurd ⟨n, rfl⟩ hrev
          | poseidon2 _ | num2Bits _ | isZero | aliasCheck => rfl
        rw [batch_public_of_shared hb hbank, batch_public_of_shared hb hbank, hpub]

/-- **One instruction**: equal public banks stay equal, unless it reveals different values. -/
theorem effect_public (hw : p.WellEncoded) {i : Instruction} (hi : p.InstructionOk i)
    (h : vm.Ready p) (h' : vm'.Ready p) (hpub : vm.public = vm'.public)
    (hsame : Vm.revealedBy p (Effect.instruction host p vm i) i =
      Vm.revealedBy p (Effect.instruction host p vm' i) i) :
    (Effect.instruction host p vm i).public = (Effect.instruction host p vm' i).public := by
  cases i with
  | arith op dst a b => exact arith_public hpub
  | reshare round =>
    have hentry : p.rounds[round.index]? = some p.rounds[round.index] :=
      List.getElem?_eq_getElem hi
    rw [effect_reshare hentry, effect_reshare hentry, reshare_public, reshare_public, hpub]
  | gadget index =>
    have hget : p.gadgetBatches[index.index]? = some p.gadgetBatches[index.index] :=
      List.getElem?_eq_getElem hi
    rw [effect_gadget hget, effect_gadget hget] at hsame ⊢
    refine batch_public (hw.batches _ (List.getElem_mem hi)) h h' hpub fun hrev => ?_
    simpa only [Vm.revealedBy, hget, hrev, if_true] using hsame

/-! ## The whole run -/

/-- A stretch of instructions of an accepted program, its revealed values included. -/
theorem executeRevealing_public (hw : p.WellEncoded) :
    ∀ {instructions : List Instruction} {vm vm' final final' : VmState Unit Fr}
      {revealed : List (List Fr)}, vm.Ready p → vm'.Ready p →
      (∀ i ∈ instructions, p.InstructionOk i) → vm.public = vm'.public →
      Vm.executeRevealing (plainDriver host) p host vm instructions = .ok (final, revealed) →
      Vm.executeRevealing (plainDriver host) p host vm' instructions = .ok (final', revealed) →
      final.public = final'.public
  | [], _, _, _, _, _, _, _, _, hpub, hrun, hrun' => by
    cases hrun
    cases hrun'
    exact hpub
  | i :: instructions, vm, vm', final, final', revealed, h, h', hok, hpub, hrun, hrun' => by
    obtain ⟨v, hv, hrun⟩ := bind_eq_ok.mp hrun
    obtain ⟨⟨f, rest⟩, hf, hret⟩ := bind_eq_ok.mp hrun
    obtain ⟨v', hv', hrun'⟩ := bind_eq_ok.mp hrun'
    obtain ⟨⟨f', rest'⟩, hf', hret'⟩ := bind_eq_ok.mp hrun'
    cases hret
    obtain ⟨rfl, hlog, rfl⟩ : f' = final' ∧ Vm.revealedBy p v' i = Vm.revealedBy p v i ∧
        rest' = rest := by
      injection hret' with hpair
      injection hpair with h1 h2
      injection h2 with h2 h3
      exact ⟨h1, h2, h3⟩
    have hi := hok i (by simp)
    have heq := executeInstruction_plain host hw h hi
    have heq' := executeInstruction_plain host hw h' hi
    rw [hv] at heq
    rw [hv'] at heq'
    obtain rfl : v = Effect.instruction host p vm i := heq
    obtain rfl : v' = Effect.instruction host p vm' i := heq'
    exact executeRevealing_public hw (effect_ready h i) (effect_ready h' i)
      (fun j hj => hok j (by simp [hj])) (effect_public hw hi h h' hpub hlog.symm) hf hf'

/-- Inputs that agree wherever the program declares them public start from equal public banks. -/
theorem initial_public (hw : p.WellEncoded) {queue queue' : List (List (SiteTrace Fr))}
    {inputs inputs' : List (InputValue Fr)}
    (hagree : ∀ i : Nat, p.inputDomains[i]? = some Bank.public → inputs[i]? = inputs'[i]?) :
    (Effect.initial p queue inputs).public = (Effect.initial p queue' inputs').public := by
  have hbind : ∀ (bindings : List InputBinding), (∀ b ∈ bindings, p.BindingOk b) →
      ∀ vm vm' : VmState Unit Fr, vm.public = vm'.public →
        (Effect.bind inputs vm bindings).public = (Effect.bind inputs' vm' bindings).public := by
    intro bindings
    induction bindings with
    | nil => intro _ vm vm' h; exact h
    | cons b bindings ih =>
      intro hok vm vm' hpub
      have hb := hok b (by simp)
      suffices hwrite : (vm.write b.bank b.slot (Effect.inputAt inputs b.inputIndex)).public =
          (vm'.write b.bank b.slot (Effect.inputAt inputs' b.inputIndex)).public from
        ih (fun c hc => hok c (by simp [hc])) _ _ hwrite
      by_cases hbank : b.bank = .public
      · have hi : b.inputIndex.index < p.inputDomains.length := by
          rw [hw.domainsLength]; exact hb.input
        have hdomain : p.inputDomains[b.inputIndex.index]? = some Bank.public := by
          rw [List.getElem?_eq_getElem hi, ← hbank, hb.bank, List.getD_eq_getElem?_getD,
            List.getElem?_eq_getElem hi, Option.getD_some]
        have hvalue : Effect.inputAt inputs b.inputIndex = Effect.inputAt inputs' b.inputIndex := by
          simp only [Effect.inputAt, List.getD_eq_getElem?_getD, hagree _ hdomain]
        rw [hvalue]
        exact write_public_congr hpub _ _ _
      · rw [write_public_of_ne hbank, write_public_of_ne hbank, hpub]
  exact hbind p.inputs hw.bindings _ _ rfl

/-- **Public-bank noninterference of every accepted program.** Two plain runs that reach instruction
    `k` from inputs agreeing on everything declared public, and that revealed the same on the way,
    have the same public bank there. -/
theorem public_noninterference (host : Poseidon2.Host) (program : Program)
    (queue queue' : List (List (SiteTrace Fr))) (inputs inputs' : List (InputValue Fr)) (k : Nat)
    (vm vm' : VmState Unit Fr) (revealed : List (List Fr))
    (hagree : ∀ i : Nat, program.parts.inputDomains[i]? = some Bank.public → inputs[i]? = inputs'[i]?)
    (hrun : Vm.runPrefix host program queue inputs k = .ok (vm, revealed))
    (hrun' : Vm.runPrefix host program queue' inputs' k = .ok (vm', revealed)) :
    vm.public = vm'.public := by
  have hw := program.wellEncoded
  obtain ⟨hlen, hrun⟩ := seq_eq_ok.mp hrun
  obtain ⟨hlen', hrun'⟩ := seq_eq_ok.mp hrun'
  obtain ⟨start, hstart, hrun⟩ := bind_eq_ok.mp hrun
  obtain ⟨start', hstart', hrun'⟩ := bind_eq_ok.mp hrun'
  have hinit := initializeInputs_plain host queue hw (ensure_eq_ok.mp hlen)
  have hinit' := initializeInputs_plain host queue' hw (ensure_eq_ok.mp hlen')
  rw [hstart] at hinit
  rw [hstart'] at hinit'
  obtain ⟨rfl, -⟩ := hinit
  obtain ⟨rfl, -⟩ := hinit'
  exact executeRevealing_public hw (initial_ready hw _ _) (initial_ready hw _ _)
    (fun i hi => hw.instructions i (List.mem_of_mem_take hi)) (initial_public hw hagree) hrun hrun'

/-- A program that tests a secret for zero and computes on the revealed answer. -/
def zeroTestParts : ProgramParts where
  instructions := [.gadget ⟨0⟩, .arith .addPP ⟨1⟩ ⟨0⟩ ⟨0⟩]
  constants := []
  inputDomains := [.shared]
  inputs := [⟨.shared, ⟨0⟩, ⟨0⟩⟩]
  inputSignals := [⟨"x", 0, 1⟩]
  rounds := []
  roundOperands := []
  roundResults := []
  gadgetBatches := [⟨.isZeroReveal, 1, [⟨.shared, ⟨0⟩⟩], [⟨2⟩], [0, 1], [⟨.public, ⟨0⟩⟩]⟩]
  witnessSources := [.one, .slot .public ⟨1⟩]
  numInputs := 1
  slots := ⟨2, 1, 0⟩
  numPublicWitness := 1

def zeroTestProgram : Program := ⟨zeroTestParts, by rfl⟩

theorem runPrefix_zeroTest (x : Fr) :
    Vm.runPrefix default zeroTestProgram [] [.secret x] 2 =
      let out := (IsZero.plainTrace x).getD 0 0
      .ok (⟨(), [], [out, out + out], [x], [], [], []⟩, [[out], []]) := by
  rfl

/-- Two different secrets, the same answer. -/
theorem public_noninterference_zeroTest : ∃ vm vm' revealed,
    Vm.runPrefix default zeroTestProgram [] [.secret 5] 2 = .ok (vm, revealed) ∧
      Vm.runPrefix default zeroTestProgram [] [.secret 7] 2 = .ok (vm', revealed) ∧
      vm.public = vm'.public := by
  have h5 := runPrefix_zeroTest 5
  have h7 := runPrefix_zeroTest 7
  have hout5 : (IsZero.plainTrace 5).getD 0 0 = 0 := by decide
  have hout7 : (IsZero.plainTrace 7).getD 0 0 = 0 := by decide
  simp only [hout5] at h5
  simp only [hout7] at h7
  refine ⟨_, _, _, h5, h7, public_noninterference default zeroTestProgram [] [] _ _ 2 _ _ _ ?_ h5 h7⟩
  rintro (_ | i) hi
  · cases hi
  · cases hi

end CircomMpc
