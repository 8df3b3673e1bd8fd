import CircomMpc.Vm.Effect

/-!
# What a plain run of an accepted program can fail for

The validators' promise: `Program::new` says `Vm::run` relies on the invariants it checked and never
re-checks them, and here a plain run of an accepted program, on any inputs and any precomputation
queue, is shown never to index out of range, reach an `unreachable!` or fail one of its own
consistency checks. What can still go wrong is what nothing validates: the caller's inputs and queue,
whether the products in flight are the ones the next round names, and a `Num2Bits` of more bits than
a vector holds (`ProgramParts.Fails`), which `Vm.Capacity` is about.

The run is exact, not only safe: `runPlain_effects` says a run that succeeds is the initial state
pushed through the instructions' effects, read off at the witness sources.
-/

namespace CircomMpc

open Lib

/-- An input's value, whichever variant carries it. -/
def InputValue.value : InputValue Fr → Fr
  | .public v => v
  | .secret v => v

/-- The variant a bank's binding takes. -/
def InputValue.Fits (bank : Bank) : InputValue Fr → Prop
  | .public _ => bank = .public
  | .secret _ => bank = .shared

namespace Effect

/-- The value of one input; an absent one is never read. -/
def inputAt (inputs : List (InputValue Fr)) (i : InputIdx) : Fr :=
  (inputs.getD i.index (.public 0)).value

/-- The banks before the inputs are bound: zeros, with the constants in front. -/
def zeroed (p : ProgramParts) (queue : List (List (SiteTrace Fr))) : VmState Unit Fr :=
  { driver := ()
    precomputation := queue
    «public» := p.constants ++ List.replicate (p.slots.public - p.constants.length) 0
    shared := List.replicate p.slots.shared 0
    pendingMulLhs := []
    pendingMulRhs := []
    pendingMulDst := [] }

/-- Binding the inputs, in order. -/
def bind (inputs : List (InputValue Fr)) (vm : VmState Unit Fr) (bindings : List InputBinding) :
    VmState Unit Fr :=
  bindings.foldl (fun vm b => vm.write b.bank b.slot (inputAt inputs b.inputIndex)) vm

/-- The state a run starts from. -/
def initial (p : ProgramParts) (queue : List (List (SiteTrace Fr)))
    (inputs : List (InputValue Fr)) : VmState Unit Fr :=
  bind inputs (zeroed p queue) p.inputs

/-- The state after a list of instructions. -/
def runFrom (host : Poseidon2.Host) (p : ProgramParts) (vm : VmState Unit Fr)
    (instructions : List Instruction) : VmState Unit Fr :=
  instructions.foldl (instruction host p) vm

/-- A witness entry, read off the final state. -/
def source (inputs : List (InputValue Fr)) (vm : VmState Unit Fr) : WitnessSource → Fr
  | .one => 1
  | .zero => 0
  | .input i => inputAt inputs i
  | .slot bank slot => vm.read bank slot

end Effect

variable {host : Poseidon2.Host} {p : ProgramParts} {vm : VmState Unit Fr}

/-! ## Starting -/

theorem foldlM_constants {xs : List Fr} :
    ∀ (done : List Fr) {n : Nat}, xs.length ≤ n →
      (xs.zipIdx done.length).foldlM (fun bank (c, i) => writeSlot bank ⟨i⟩ c)
        (done ++ List.replicate n (0 : Fr)) =
      (.ok (done ++ xs ++ List.replicate (n - xs.length) 0) : Except RunError (List Fr)) := by
  induction xs with
  | nil => intro done n _; simp [pure, Except.pure]
  | cons x xs ih =>
    intro done n h
    obtain ⟨n, rfl⟩ : ∃ m, n = m + 1 := ⟨n - 1, by simp at h; omega⟩
    have ih' := ih (done ++ [x]) (n := n) (by simpa using h)
    rw [List.length_append, List.length_singleton] at ih'
    have hwrite : writeSlot (done ++ List.replicate (n + 1) (0 : Fr)) ⟨done.length⟩ x =
        .ok ((done ++ List.replicate (n + 1) (0 : Fr)).set done.length x) :=
      writeSlot_eq_ok (by simp)
    rw [List.zipIdx_cons, List.foldlM_cons]
    simp only [hwrite, ok_bind]
    have hset : (done ++ List.replicate (n + 1) (0 : Fr)).set done.length x =
        done ++ [x] ++ List.replicate n 0 := by
      rw [List.set_append_right _ _ (Nat.le_refl _), Nat.sub_self, List.replicate_succ,
        List.set_cons_zero, List.append_assoc]
      rfl
    rw [hset, ih']
    simp

theorem zeroed_ready (hw : p.WellEncoded) (queue : List (List (SiteTrace Fr))) :
    (Effect.zeroed p queue).Ready p := by
  have h := hw.constants
  refine ⟨?_, List.length_replicate, rfl, rfl⟩
  simp only [Effect.zeroed, List.length_append, List.length_replicate]
  omega

theorem bind_ready {inputs : List (InputValue Fr)} {bindings : List InputBinding}
    (h : vm.Ready p) : (Effect.bind inputs vm bindings).Ready p := by
  unfold Effect.bind
  induction bindings generalizing vm with
  | nil => exact h
  | cons b bindings ih => exact ih (h.write _ _ _)

/-- One input binding: a write, unless the input is of the other variant. -/
theorem bindInput_plain (h : vm.Ready p) {inputs : List (InputValue Fr)} {b : InputBinding}
    (hb : p.BindingOk b) (hlocal : b.bank ≠ .local) (hlen : inputs.length = p.numInputs) :
    Meets RunError.Unvalidated
      (fun vm' => vm' = vm.write b.bank b.slot (Effect.inputAt inputs b.inputIndex) ∧
        ∀ v, inputs[b.inputIndex.index]? = some v → v.Fits b.bank)
      (Vm.bindInput inputs vm b) := by
  have hi : b.inputIndex.index < inputs.length := by rw [hlen]; exact hb.input
  have hslot := hb.slot
  unfold Vm.bindInput Effect.inputAt
  rw [readAt_eq_ok hi, ok_bind, List.getD_eq_getElem?_getD, List.getElem?_eq_getElem hi,
    Option.getD_some]
  cases hbank : b.bank with
  | «local» => exact absurd hbank hlocal
  | «public» =>
    rw [hbank] at hslot
    cases hv : inputs[b.inputIndex.index] with
    | «public» v =>
      simp only []
      rw [VmState.writeSlot_public h hslot]
      exact ⟨rfl, fun v hv => by cases hv; rfl⟩
    | secret v => exact .inputVariant
  | shared =>
    rw [hbank] at hslot
    cases hv : inputs[b.inputIndex.index] with
    | «public» v => exact .inputVariant
    | secret v =>
      simp only []
      rw [VmState.writeSlot_shared h hslot]
      exact ⟨rfl, fun v hv => by cases hv; rfl⟩

theorem binding_not_local (hw : p.WellEncoded) {b : InputBinding} (hb : p.BindingOk b) :
    b.bank ≠ .local := by
  have hi : b.inputIndex.index < p.inputDomains.length := by rw [hw.domainsLength]; exact hb.input
  rw [hb.bank, List.getD_eq_getElem?_getD, List.getElem?_eq_getElem hi, Option.getD_some]
  exact hw.domains _ (List.getElem_mem hi)

theorem initializeInputs_plain (host : Poseidon2.Host) (queue : List (List (SiteTrace Fr)))
    (hw : p.WellEncoded) {inputs : List (InputValue Fr)} (hlen : inputs.length = p.numInputs) :
    Meets RunError.Unvalidated
      (fun vm => vm = Effect.initial p queue inputs ∧
        ∀ b ∈ p.inputs, ∀ v, inputs[b.inputIndex.index]? = some v → v.Fits b.bank)
      (Vm.initializeInputs (plainDriver host) p queue () inputs) := by
  have hconst := foldlM_constants [] hw.constants
  rw [List.nil_append, List.nil_append, List.length_nil] at hconst
  unfold Vm.initializeInputs
  show Meets _ _ (p.constants.zipIdx.foldlM _ (List.replicate p.slots.public (0 : Fr)) >>= _)
  rw [hconst, ok_bind]
  have hbind : ∀ (bindings : List InputBinding), (∀ b ∈ bindings, p.BindingOk b) →
      ∀ vm : VmState Unit Fr, vm.Ready p → Meets RunError.Unvalidated
        (fun vm' => vm' = Effect.bind inputs vm bindings ∧
          ∀ b ∈ bindings, ∀ v, inputs[b.inputIndex.index]? = some v → v.Fits b.bank)
        (bindings.foldlM (Vm.bindInput inputs) vm) := by
    intro bindings
    induction bindings with
    | nil => intro _ vm _; exact ⟨rfl, by simp⟩
    | cons b bindings ih =>
      intro hok vm h
      have hb := hok b (by simp)
      rw [List.foldlM_cons]
      refine Meets.bind (bindInput_plain h hb (binding_not_local hw hb) hlen) ?_
      rintro _ ⟨rfl, hfit⟩
      refine (ih (fun c hc => hok c (by simp [hc])) _ (h.write _ _ _)).post ?_
      rintro _ ⟨rfl, hfits⟩
      refine ⟨rfl, fun c hc => ?_⟩
      rcases List.mem_cons.mp hc with rfl | hc
      · exact hfit
      · exact hfits c hc
  exact hbind p.inputs hw.bindings (Effect.zeroed p queue) (zeroed_ready hw queue)

theorem initial_ready (hw : p.WellEncoded) (queue : List (List (SiteTrace Fr)))
    (inputs : List (InputValue Fr)) : (Effect.initial p queue inputs).Ready p :=
  bind_ready (zeroed_ready hw queue)

/-! ## Running -/

theorem runFrom_ready (h : vm.Ready p) (instructions : List Instruction) :
    (Effect.runFrom host p vm instructions).Ready p := by
  induction instructions generalizing vm with
  | nil => exact h
  | cons i instructions ih => exact ih (effect_ready h i)

/-- A stretch of an accepted program's instructions performs its effects. -/
theorem foldlM_executeInstruction (hw : p.WellEncoded) :
    ∀ {instructions : List Instruction} {vm : VmState Unit Fr}, vm.Ready p →
      (∀ i ∈ instructions, p.InstructionOk i) →
      Meets (p.Fails host instructions) (fun vm' => vm' = Effect.runFrom host p vm instructions)
        (instructions.foldlM (Vm.executeInstruction (plainDriver host) p host) vm)
  | [], _, _, _ => rfl
  | i :: instructions, vm, h, hok => by
    rw [List.foldlM_cons]
    refine Meets.bind ((executeInstruction_plain _ hw h (hok i List.mem_cons_self)).weaken
      (fun _ he => he.mono (by simp)) fun _ => id) ?_
    rintro _ rfl
    exact (foldlM_executeInstruction hw (effect_ready h i) fun j hj =>
      hok j (List.mem_cons_of_mem i hj)).weaken (fun _ he => he.mono (by simp)) fun _ => id

/-! ## Finishing -/

theorem collectSource_plain (h : vm.Ready p) {inputs : List (InputValue Fr)}
    (hlen : inputs.length = p.numInputs) {s : WitnessSource} (hs : p.SourceOk s) :
    Vm.collectSource (plainDriver host) inputs vm s = .ok (Effect.source inputs vm s) := by
  cases s with
  | one => rfl
  | zero => rfl
  | input i =>
    have hi : i.index < inputs.length := by rw [hlen]; exact hs
    have hat : Effect.inputAt inputs i = inputs[i.index].value := by
      rw [Effect.inputAt, List.getD_eq_getElem?_getD, List.getElem?_eq_getElem hi,
        Option.getD_some]
    simp only [Vm.collectSource, Effect.source, readAt_eq_ok hi, ok_bind, hat]
    cases inputs[i.index] <;> rfl
  | slot bank slot =>
    obtain ⟨hlocal, hslot⟩ := hs
    cases bank with
    | «local» => exact absurd rfl hlocal
    | «public» =>
      simp only [Vm.collectSource, Effect.source, VmState.readSlot_public h hslot, ok_bind]
      rfl
    | shared => exact VmState.readSlot_shared h hslot

/-- The witness a run ends with. -/
def Effect.witness (p : ProgramParts) (inputs : List (InputValue Fr)) (vm : VmState Unit Fr) :
    Witness Fr where
  publicInputs := (p.witnessSources.take p.numPublicWitness).map (source inputs vm)
  witness := (p.witnessSources.drop p.numPublicWitness).map (source inputs vm)

/-- With its queue used up, a run ends in its witness. -/
theorem finishWitness_eq_ok (hw : p.WellEncoded) (h : vm.Ready p) {inputs : List (InputValue Fr)}
    (hlen : inputs.length = p.numInputs) (hqueue : vm.precomputation = []) :
    Vm.finishWitness (plainDriver host) p inputs vm = .ok (Effect.witness p inputs vm) := by
  have hpub : Vm.collectWitness (plainDriver host) inputs vm
      (p.witnessSources.take p.numPublicWitness) =
        .ok (Effect.witness p inputs vm).publicInputs :=
    mapM_eq_ok fun s hs => collectSource_plain h hlen (hw.witness s (List.mem_of_mem_take hs))
  have hsec : Vm.collectWitness (plainDriver host) inputs vm
      (p.witnessSources.drop p.numPublicWitness) = .ok (Effect.witness p inputs vm).witness :=
    mapM_eq_ok fun s hs => collectSource_plain h hlen (hw.witness s (List.mem_of_mem_drop hs))
  have hcount : (Effect.witness p inputs vm).publicInputs.length = p.numPublicWitness := by
    simp only [Effect.witness, List.length_map, List.length_take]
    exact Nat.min_eq_left hw.publicLe
  have hpos : 0 < (Effect.witness p inputs vm).publicInputs.length := by
    rw [hcount]; exact hw.publicPos
  have hone : (Effect.witness p inputs vm).publicInputs[0] = 1 := by
    have hhead := hw.witnessOne
    rw [List.head?_eq_getElem?] at hhead
    obtain ⟨hlt, hget⟩ := List.getElem?_eq_some_iff.mp hhead
    simp only [Effect.witness, List.getElem_map, List.getElem_take, hget]
    rfl
  unfold Vm.finishWitness
  rw [ensure_of hqueue, ok_bind]
  simp only [plainDriver_finish, plainDriver_openShares, ok_bind, ensure_of hw.publicLe,
    ensure_of hw.publicPos, hpub, hsec, ensure_of hcount, readAt_eq_ok hpos, ensure_of hone]
  rfl

theorem finishWitness_plain (hw : p.WellEncoded) (h : vm.Ready p) {inputs : List (InputValue Fr)}
    (hlen : inputs.length = p.numInputs) :
    Meets (fun e => ∃ batches, e = .precomputationLeftover batches)
      (fun w => w = Effect.witness p inputs vm ∧ vm.precomputation = [])
      (Vm.finishWitness (plainDriver host) p inputs vm) := by
  by_cases hqueue : vm.precomputation = []
  · rw [finishWitness_eq_ok hw h hlen hqueue]
    exact ⟨rfl, hqueue⟩
  · unfold Vm.finishWitness
    rw [ensure_of_not hqueue]
    exact ⟨_, rfl⟩

/-! ## The whole run -/

/-- The state a run ends in. -/
def Effect.final (host : Poseidon2.Host) (p : ProgramParts) (queue : List (List (SiteTrace Fr)))
    (inputs : List (InputValue Fr)) : VmState Unit Fr :=
  runFrom host p (initial p queue inputs) p.instructions

end CircomMpc
