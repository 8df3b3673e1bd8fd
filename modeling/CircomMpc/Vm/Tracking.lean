import CircomMpc.Lib.Tracks
import CircomMpc.Vm.Rows
import CircomMpc.Vm.Steps

/-!
# A run on one driver tracks a run on another

The machine looks at a share through its driver only. So when every call of one driver tracks the
other's (`VmDriver.Follows`), a run of a program on the one tracks its run on the other, instruction
by instruction (`stateAfter_tracks`) and to the end (`run_tracks`): the same public values, related
shares, and a failure on one side only for a reason in `Bad`.

A call may use up something its driver prepared. `Left n` relates two drivers' states with `n` of it
left, and `cost` is what a batch takes. And a call may come out right in some states only: `Fair`
says of a batch and a state that it does, and a run is asked to be in such a state whenever it serves
a batch (`ServedFairly`).
-/

namespace CircomMpc

open Lib

variable {σ τ S T α β : Type}

/-! ## The relations -/

/-- Two traces of a fused zero test. -/
structure IsZeroRevealTrace.Rel (R : S → T → Prop) (trace : IsZeroRevealTrace S)
    (trace' : IsZeroRevealTrace T) : Prop where
  isZero : R trace.isZero trace'.isZero
  inverse : R trace.inverse trace'.inverse
  revealed : trace.revealed = trace'.revealed

/-- Two host-supplied traces of a site. -/
structure SiteTrace.Rel (R : S → T → Prop) (trace : SiteTrace S) (trace' : SiteTrace T) : Prop where
  output : List.Forall₂ R trace.output trace'.output
  intermediate : List.Forall₂ R trace.intermediate trace'.intermediate

inductive InputValue.Rel (R : S → T → Prop) : InputValue S → InputValue T → Prop
  | «public» (v : Fr) : Rel R (.public v) (.public v)
  | secret {a : S} {b : T} (h : R a b) : Rel R (.secret a) (.secret b)

structure Witness.Rel (R : S → T → Prop) (w : Witness S) (w' : Witness T) : Prop where
  publicInputs : w.publicInputs = w'.publicInputs
  witness : List.Forall₂ R w.witness w'.witness

/-- Two states: equal public banks, related shares, the same products put off, and drivers with `n`
    left of what their services spend. -/
structure VmState.Rel (R : S → T → Prop) (Left : Nat → σ → τ → Prop) (n : Nat)
    (vm : VmState σ S) (vm' : VmState τ T) : Prop where
  driver : Left n vm.driver vm'.driver
  precomputation : List.Forall₂ (List.Forall₂ (SiteTrace.Rel R)) vm.precomputation
    vm'.precomputation
  «public» : vm.public = vm'.public
  shared : List.Forall₂ R vm.shared vm'.shared
  lhs : List.Forall₂ R vm.pendingMulLhs vm'.pendingMulLhs
  rhs : List.Forall₂ R vm.pendingMulRhs vm'.pendingMulRhs
  dst : vm.pendingMulDst = vm'.pendingMulDst
  even : vm.pendingMulLhs.length = vm.pendingMulRhs.length

/-- What two calls return: related values, and drivers with `n` left. -/
def Returned (Left : Nat → σ → τ → Prop) (n : Nat) (Q : α → β → Prop) (r : α × σ) (r' : β × τ) :
    Prop := Q r.1 r'.1 ∧ Left n r.2 r'.2

/-- One service of two drivers, on any batch of its kind the program has that reads a share. It
    spends the batch's cost, and is owed nothing on a state that is not `Fair`. -/
def Serves (p : ProgramParts) (Bad : RunError → Prop) (R : S → T → Prop)
    (Left : Nat → σ → τ → Prop) (cost : GadgetBatch → Nat) (Fair : GadgetBatch → σ → Prop)
    (kind : BatchKind) (Q : α → β → Prop)
    (f : GadgetBatch → List S → σ → Except RunError (α × σ))
    (g : GadgetBatch → List T → τ → Except RunError (β × τ)) : Prop :=
  ∀ {n : Nat} {batch : GadgetBatch} {xs : List S} {ys : List T} {s : σ} {t : τ},
    batch ∈ p.gadgetBatches → batch.kind = kind → batch.anyShared = true → List.Forall₂ R xs ys →
      xs.length = batch.inputSlots.length → Left (n + cost batch) s t → Fair batch s →
        Tracks Bad (Returned Left n Q) (f batch xs s) (g batch ys t)

/-- `D`'s calls track `E`'s, on everything a program asks of them: related operands give related
    results, in both directions, and only the services spend. -/
structure VmDriver.Follows (p : ProgramParts) (Bad : RunError → Prop) (R : S → T → Prop)
    (Left : Nat → σ → τ → Prop) (cost : GadgetBatch → Nat) (Fair : GadgetBatch → σ → Prop)
    (D : VmDriver σ S) (E : VmDriver τ T) : Prop where
  default : R D.default E.default
  promote : ∀ c, R (D.promote c) (E.promote c)
  addSS : ∀ {a b a' b'}, R a a' → R b b' → R (D.addSS a b) (E.addSS a' b')
  subSS : ∀ {a b a' b'}, R a a' → R b b' → R (D.subSS a b) (E.subSS a' b')
  addSP : ∀ {a a'} c, R a a' → R (D.addSP a c) (E.addSP a' c)
  subSP : ∀ {a a'} c, R a a' → R (D.subSP a c) (E.subSP a' c)
  subPS : ∀ {a a'} c, R a a' → R (D.subPS c a) (E.subPS c a')
  mulSP : ∀ {a a'} c, R a a' → R (D.mulSP a c) (E.mulSP a' c)
  mulVec : ∀ {n xs ys xs' ys' s t}, List.Forall₂ R xs xs' → List.Forall₂ R ys ys' →
    xs.length = ys.length → Left n s t →
      Tracks Bad (Returned Left n (List.Forall₂ R)) (D.mulVec xs ys s) (E.mulVec xs' ys' t)
  openShares : ∀ {n xs xs' s t}, List.Forall₂ R xs xs' → Left n s t →
    Tracks Bad (Returned Left n fun vs vs' => vs = vs') (D.openShares xs s) (E.openShares xs' t)
  poseidon2 : ∀ w : Poseidon2Width,
    Serves p Bad R Left cost Fair (.gadget (.poseidon2 w)) (List.Forall₂ R)
      (fun batch xs => D.poseidon2RequestedTraces w.get xs (batch.resultRequests.map (·.index))
        batch.resultOffsets)
      (fun batch xs => E.poseidon2RequestedTraces w.get xs (batch.resultRequests.map (·.index))
        batch.resultOffsets)
  num2Bits : ∀ n, Serves p Bad R Left cost Fair (.gadget (.num2Bits n)) (List.Forall₂ R)
    (fun _ => D.num2bitsTraces n) (fun _ => E.num2bitsTraces n)
  isZero : Serves p Bad R Left cost Fair (.gadget .isZero) (List.Forall₂ R)
    (fun _ => D.isZeroTraces) (fun _ => E.isZeroTraces)
  isZeroReveal : Serves p Bad R Left cost Fair .isZeroReveal (List.Forall₂ (IsZeroRevealTrace.Rel R))
    (fun _ => D.isZeroRevealTraces) (fun _ => E.isZeroRevealTraces)
  aliasCheck : Serves p Bad R Left cost Fair (.gadget .aliasCheck) (List.Forall₂ R)
    (fun _ => D.aliasCheckTraces) (fun _ => E.aliasCheckTraces)
  reveal : ∀ {batch n}, batch.kind = .gadget (.reveal n) → cost batch = 0
  publicFree : ∀ {batch kind}, batch.kind = .gadget kind → batch.anyShared = false → cost batch = 0
  suppliedFree : ∀ {batch w}, batch.kind = .precomputedPoseidon2 w → cost batch = 0
  finish : ∀ {s t}, Left 0 s t → Tracks Bad (Left 0) (D.finish s) (E.finish t)

/-! ## Banks and tables -/

section Tables

variable {Bad : RunError → Prop} {R : α → β → Prop} {xs : List α} {ys : List β}

theorem readAt_tracks (h : List.Forall₂ R xs ys) (what : String) (i : Nat) :
    Tracks Bad R (readAt what xs i) (readAt what ys i) :=
  Tracks.orElse (forall₂_get?_rel h i)

theorem readSlot_tracks (h : List.Forall₂ R xs ys) (slot : Slot) :
    Tracks Bad R (readSlot xs slot) (readSlot ys slot) :=
  readAt_tracks h _ _

theorem writeSlot_tracks (h : List.Forall₂ R xs ys) (slot : Slot) {a : α} {b : β} (hab : R a b) :
    Tracks Bad (List.Forall₂ R) (writeSlot xs slot a) (writeSlot ys slot b) := by
  unfold writeSlot
  rw [h.length_eq]
  split
  · exact Tracks.ok (forall₂_set h hab _)
  · exact Tracks.error

theorem rangeOf_tracks (h : List.Forall₂ R xs ys) (what : String) (lo hi : Nat) :
    Tracks Bad (List.Forall₂ R) (rangeOf what xs lo hi) (rangeOf what ys lo hi) := by
  unfold rangeOf
  rw [h.length_eq]
  split
  · exact Tracks.ok (forall₂_slice h _ _)
  · exact Tracks.error

end Tables

/-- A fused batch has a shared input. -/
theorem ProgramParts.BatchOk.anyShared_of_fused {p : ProgramParts} {batch : GadgetBatch}
    (hb : p.BatchOk batch) (hkind : batch.kind = .isZeroReveal) : batch.anyShared = true := by
  have hcount := hb.inputCount
  rw [hkind, show BatchKind.isZeroReveal.inputsPerSite = 1 from rfl, Nat.mul_one] at hcount
  have hsites := hb.sites
  obtain ⟨input, hinput⟩ := List.exists_mem_of_length_pos (hcount ▸ hsites)
  unfold GadgetBatch.anyShared
  rw [List.any_eq_true]
  exact ⟨input, hinput, by rw [hb.fused hkind input hinput]; rfl⟩

/-- What an instruction takes. -/
def ProgramParts.costOf (p : ProgramParts) (cost : GadgetBatch → Nat) : Instruction → Nat
  | .gadget index => p.gadgetBatches[index.index]?.elim 0 cost
  | .arith _ _ _ _ | .reshare _ => 0

/-- What the instructions from `k` on take. -/
def ProgramParts.costFrom (p : ProgramParts) (cost : GadgetBatch → Nat) (k : Nat) : Nat :=
  ((p.instructions.drop k).map (p.costOf cost)).sum

theorem ProgramParts.costFrom_of {p : ProgramParts} {cost : GadgetBatch → Nat} {k : Nat}
    {i : Instruction} (hi : p.instructions[k]? = some i) :
    p.costFrom cost k = p.costFrom cost (k + 1) + p.costOf cost i := by
  unfold ProgramParts.costFrom
  obtain ⟨hk, rfl⟩ := List.getElem?_eq_some_iff.mp hi
  rw [List.drop_eq_getElem_cons hk, List.map_cons, List.sum_cons, Nat.add_comm]

namespace Vm

variable {p : ProgramParts} {Bad : RunError → Prop} {R : S → T → Prop}
  {Left : Nat → σ → τ → Prop} {cost : GadgetBatch → Nat} {Fair : GadgetBatch → σ → Prop}
  {D : VmDriver σ S} {E : VmDriver τ T} {host : Poseidon2.Host} {n : Nat} {vm : VmState σ S}
  {vm' : VmState τ T}

/-! ## Starting -/

theorem bindInput_tracks {inputs : List (InputValue S)} {inputs' : List (InputValue T)}
    (hinputs : List.Forall₂ (InputValue.Rel R) inputs inputs') (binding : InputBinding)
    (h : vm.Rel R Left n vm') :
    Tracks Bad (VmState.Rel R Left n) (bindInput inputs vm binding)
      (bindInput inputs' vm' binding) := by
  unfold bindInput
  apply (readAt_tracks hinputs _ _).bind
  rintro _ _ (v | hab)
  · cases binding.bank with
    | «public» =>
      dsimp only
      rw [h.public]
      exact (Tracks.same _).bind fun _ _ hbank => Tracks.pure { h with «public» := hbank }
    | shared | «local» => exact Tracks.error
  · cases binding.bank with
    | shared =>
      exact (writeSlot_tracks h.shared _ hab).bind fun _ _ hbank =>
        Tracks.pure { h with shared := hbank }
    | «public» | «local» => exact Tracks.error

theorem initializeInputs_tracks (hD : R D.default E.default)
    {queue : List (List (SiteTrace S))} {queue' : List (List (SiteTrace T))}
    (hqueue : List.Forall₂ (List.Forall₂ (SiteTrace.Rel R)) queue queue')
    {inputs : List (InputValue S)} {inputs' : List (InputValue T)}
    (hinputs : List.Forall₂ (InputValue.Rel R) inputs inputs') {s : σ} {t : τ} (hleft : Left n s t) :
    Tracks Bad (VmState.Rel R Left n) (initializeInputs D p queue s inputs)
      (initializeInputs E p queue' t inputs') := by
  unfold initializeInputs
  apply (Tracks.same _).bind
  rintro bank _ rfl
  apply Tracks.foldlM_same
  · exact {
      driver := hleft
      precomputation := hqueue
      «public» := rfl
      shared := forall₂_replicate hD _
      lhs := .nil
      rhs := .nil
      dst := rfl
      even := rfl }
  · exact fun binding _ _ _ hvm => bindInput_tracks hinputs binding hvm

/-! ## Arithmetic -/

theorem publicArith_tracks (f : Fr → Fr → Fr) (dst a b : Slot) (h : vm.Rel R Left n vm') :
    Tracks Bad (VmState.Rel R Left n) (publicArith f vm dst a b) (publicArith f vm' dst a b) := by
  unfold publicArith
  rw [h.public]
  apply (Tracks.same _).bind
  rintro x _ rfl
  apply (Tracks.same _).bind
  rintro y _ rfl
  exact (Tracks.same _).bind fun _ _ hbank => Tracks.pure { h with «public» := hbank }

theorem sharedArith_tracks {X Y X' Y' : Type} {Q : X → X' → Prop} {Q' : Y → Y' → Prop}
    {f : X → Y → S} {g : X' → Y' → T} {xs : List X} {ys : List Y} {xs' : List X'} {ys' : List Y'}
    (hf : ∀ x y x' y', Q x x' → Q' y y' → R (f x y) (g x' y')) (hxs : List.Forall₂ Q xs xs')
    (hys : List.Forall₂ Q' ys ys') (dst a b : Slot) (h : vm.Rel R Left n vm') :
    Tracks Bad (VmState.Rel R Left n) (sharedArith f xs ys vm dst a b)
      (sharedArith g xs' ys' vm' dst a b) := by
  unfold sharedArith
  apply (readSlot_tracks hxs a).bind
  intro x x' hx
  apply (readSlot_tracks hys b).bind
  intro y y' hy
  exact (writeSlot_tracks h.shared dst (hf x y x' y' hx hy)).bind fun _ _ hbank =>
    Tracks.pure { h with shared := hbank }

theorem deferProduct_tracks (dst a b : Slot) (h : vm.Rel R Left n vm') :
    Tracks Bad (VmState.Rel R Left n) (deferProduct vm dst a b) (deferProduct vm' dst a b) := by
  unfold deferProduct
  apply (readSlot_tracks h.shared a).bind
  intro x x' hx
  apply (readSlot_tracks h.shared b).bind
  intro y y' hy
  apply Tracks.pure
  exact { h with
    lhs := forall₂_append h.lhs (.cons hx .nil)
    rhs := forall₂_append h.rhs (.cons hy .nil)
    dst := congrArg (· ++ [dst]) h.dst
    even := by simp [h.even] }

theorem executeArithmetic_tracks (hD : D.Follows p Bad R Left cost Fair E) (op : Opcode) (dst a b : Slot)
    (h : vm.Rel R Left n vm') :
    Tracks Bad (VmState.Rel R Left n) (executeArithmetic D vm op dst a b)
      (executeArithmetic E vm' op dst a b) := by
  have hpublic : List.Forall₂ (fun x y => x = y) vm.public vm'.public := h.public ▸ forall₂_eq _
  cases op with
  | addPP | subPP | mulPP => exact publicArith_tracks _ dst a b h
  | addSS =>
    have hadd : ∀ x y x' y', R x x' → R y y' → R (D.addSS x y) (E.addSS x' y') :=
      fun _ _ _ _ => hD.addSS
    exact sharedArith_tracks hadd h.shared h.shared dst a b h
  | subSS =>
    have hsub : ∀ x y x' y', R x x' → R y y' → R (D.subSS x y) (E.subSS x' y') :=
      fun _ _ _ _ => hD.subSS
    exact sharedArith_tracks hsub h.shared h.shared dst a b h
  | addSP =>
    exact sharedArith_tracks (fun _ y _ _ hx hy => hy ▸ hD.addSP y hx) h.shared hpublic dst a b h
  | subSP =>
    exact sharedArith_tracks (fun _ y _ _ hx hy => hy ▸ hD.subSP y hx) h.shared hpublic dst a b h
  | subPS =>
    exact sharedArith_tracks (fun x _ _ _ hx hy => hx ▸ hD.subPS x hy) hpublic h.shared dst a b h
  | mulSP =>
    exact sharedArith_tracks (fun _ y _ _ hx hy => hy ▸ hD.mulSP y hx) h.shared hpublic dst a b h
  | mulLocal => exact deferProduct_tracks dst a b h
  | reshare | gadget => exact Tracks.error

/-! ## Rounds -/

theorem executeReshare_tracks (hD : D.Follows p Bad R Left cost Fair E) (round : RoundIdx)
    (h : vm.Rel R Left n vm') :
    Tracks Bad (VmState.Rel R Left n) (executeReshare D p vm round)
      (executeReshare E p vm' round) := by
  unfold executeReshare
  apply (Tracks.same _).bind
  rintro entry _ rfl
  apply (Tracks.same _).bind
  rintro operands _ rfl
  apply Tracks.ensure_bind (by rw [h.dst])
  intro _
  apply (hD.mulVec h.lhs h.rhs h.even h.driver).bind
  rintro ⟨results, s⟩ ⟨results', t⟩ ⟨hresults, hleft⟩
  apply Tracks.ensure_bind (by rw [List.Forall₂.length_eq hresults])
  intro _
  have hstore : Tracks Bad (List.Forall₂ R)
      (results.zipIdx.foldlM (fun bank entry' => do
        let slot ← readAt "round_results" p.roundResults (entry.resultStart + entry'.2)
        writeSlot bank slot entry'.1) vm.shared)
      (results'.zipIdx.foldlM (fun bank entry' => do
        let slot ← readAt "round_results" p.roundResults (entry.resultStart + entry'.2)
        writeSlot bank slot entry'.1) vm'.shared) := by
    apply Tracks.foldlM (forall₂_zipIdx 0 hresults) h.shared
    rintro ⟨a, i⟩ ⟨b, _⟩ bank bank' ⟨hab, rfl⟩ hbank
    apply (Tracks.same _).bind
    rintro slot _ rfl
    exact writeSlot_tracks hbank slot hab
  apply hstore.bind
  intro bank bank' hbank
  exact Tracks.pure { h with
    driver := hleft
    shared := hbank
    lhs := .nil
    rhs := .nil
    dst := rfl
    even := rfl }

/-! ## Gadget batches -/

section Batches

variable {batch : GadgetBatch}

theorem selectSite_tracks {α β : Type} {Q : α → β → Prop} {xs : List α} {ys : List β}
    (h : List.Forall₂ Q xs ys) (batch : GadgetBatch) (capacity site : Nat) :
    Tracks Bad (List.Forall₂ Q) (selectSite xs batch capacity site)
      (selectSite ys batch capacity site) := by
  unfold selectSite
  apply (rangeOf_tracks h _ _ _).bind
  intro full full' hfull
  apply (Tracks.same _).bind
  rintro lo _ rfl
  apply (Tracks.same _).bind
  rintro hi _ rfl
  apply (Tracks.same _).bind
  rintro requests _ rfl
  have hrequests : ∀ logical ∈ requests, Tracks Bad Q
      (ensure (logical.index < capacity) (.batchSlotCapacity batch.kind logical.index capacity) >>=
        fun _ => readAt "site_full" full logical.index)
      (ensure (logical.index < capacity) (.batchSlotCapacity batch.kind logical.index capacity) >>=
        fun _ => readAt "site_full" full' logical.index) :=
    fun logical _ => Tracks.ensure_bind Iff.rfl fun _ => readAt_tracks hfull _ _
  exact (Tracks.mapM_same requests hrequests).post fun _ _ hselected => hselected.1

theorem selectRequests_tracks {α β : Type} {Q : α → β → Prop} {xs : List α} {ys : List β}
    (h : List.Forall₂ Q xs ys) (batch : GadgetBatch) :
    Tracks Bad (List.Forall₂ Q) (selectRequests xs batch) (selectRequests ys batch) := by
  unfold selectRequests
  rw [h.length_eq]
  apply Tracks.ensure_bind Iff.rfl
  intro _
  apply Tracks.ensure_bind Iff.rfl
  intro _
  apply (Tracks.mapM_same _ fun site _ => selectSite_tracks h batch _ site).bind
  rintro selected selected' ⟨hselected, _⟩
  exact Tracks.pure (List.rel_flatten hselected)

theorem storeBatchResults_tracks {α β : Type} {Q : α → β → Prop} {xs bank : List α}
    {ys bank' : List β} (h : List.Forall₂ Q xs ys) (hbank : List.Forall₂ Q bank bank')
    (batch : GadgetBatch) (expected : Bank) :
    Tracks Bad (List.Forall₂ Q) (storeBatchResults batch xs expected bank)
      (storeBatchResults batch ys expected bank') := by
  unfold storeBatchResults
  rw [h.length_eq]
  apply Tracks.ensure_bind Iff.rfl
  intro _
  apply Tracks.foldlM (forall₂_zip_pair (forall₂_eq batch.resultTargets) h) hbank
  rintro ⟨target, a⟩ ⟨_, b⟩ bank bank' ⟨rfl, hab⟩ hbank
  exact Tracks.ensure_bind Iff.rfl fun _ => writeSlot_tracks hbank _ hab

/-- A batch in the clear reads and writes the public bank only. -/
theorem runPublicBatch_tracks (batch : GadgetBatch) (kind : GadgetKind) (h : vm.Rel R Left n vm') :
    Tracks Bad (VmState.Rel R Left n) (runPublicBatch host vm batch kind)
      (runPublicBatch host vm' batch kind) := by
  unfold runPublicBatch
  rw [h.public]
  apply (Tracks.same _).bind
  rintro inputs _ rfl
  have hstore : ∀ selected : List Fr, Tracks Bad (VmState.Rel R Left n)
      (do
        let bank ← storeBatchResults batch selected .public vm'.public
        pure { vm with «public» := bank })
      (do
        let bank ← storeBatchResults batch selected .public vm'.public
        pure { vm' with «public» := bank }) :=
    fun selected => (Tracks.same _).bind fun _ _ hbank => Tracks.pure { h with «public» := hbank }
  cases kind with
  | poseidon2 t =>
    apply (Tracks.same _).bind
    rintro selected _ rfl
    exact hstore selected
  | num2Bits _ | isZero | aliasCheck | reveal _ =>
    apply (Tracks.same _).bind
    rintro results _ rfl
    apply (Tracks.same _).bind
    rintro selected _ rfl
    exact hstore selected

theorem batchInput_tracks (hD : D.Follows p Bad R Left cost Fair E) (input : SiteInput)
    (h : vm.Rel R Left n vm') :
    Tracks Bad R (batchInput D vm input) (batchInput E vm' input) := by
  unfold batchInput
  cases input.bank with
  | «public» =>
    dsimp only
    rw [h.public]
    apply (Tracks.same _).bind
    rintro v _ rfl
    exact Tracks.pure (hD.promote v)
  | shared => exact readSlot_tracks h.shared _
  | «local» => exact Tracks.error

theorem storeShared_tracks {xs : List S} {ys : List T} (hxs : List.Forall₂ R xs ys)
    (batch : GadgetBatch) {s : σ} {t : τ} {m : Nat} (hleft : Left m s t)
    (h : vm.Rel R Left n vm') :
    Tracks Bad (VmState.Rel R Left m)
      (do
        let bank ← storeBatchResults batch xs .shared vm.shared
        pure { vm with driver := s, shared := bank })
      (do
        let bank ← storeBatchResults batch ys .shared vm'.shared
        pure { vm' with driver := t, shared := bank }) := by
  apply (storeBatchResults_tracks hxs h.shared batch .shared).bind
  intro bank bank' hbank
  exact Tracks.pure { h with driver := hleft, shared := hbank }

/-- Every kind selects the requested results of its service and stores them. -/
theorem selectShared_tracks {xs : List S} {ys : List T} (hxs : List.Forall₂ R xs ys)
    (batch : GadgetBatch) {s : σ} {t : τ} {m : Nat} (hleft : Left m s t)
    (h : vm.Rel R Left n vm') :
    Tracks Bad (VmState.Rel R Left m)
      (do
        let selected ← selectRequests xs batch
        let bank ← storeBatchResults batch selected .shared vm.shared
        pure { vm with driver := s, shared := bank })
      (do
        let selected ← selectRequests ys batch
        let bank ← storeBatchResults batch selected .shared vm'.shared
        pure { vm' with driver := t, shared := bank }) :=
  (selectRequests_tracks hxs batch).bind fun _ _ hselected =>
    storeShared_tracks hselected batch hleft h

theorem runSharedBatch_tracks (hD : D.Follows p Bad R Left cost Fair E) (hmem : batch ∈ p.gadgetBatches)
    {kind : GadgetKind} (hkind : batch.kind = .gadget kind) (hany : batch.anyShared = true)
    (h : vm.Rel R Left (n + cost batch) vm') (hfair : Fair batch vm.driver) :
    Tracks Bad (VmState.Rel R Left n) (runSharedBatch D vm batch kind)
      (runSharedBatch E vm' batch kind) := by
  unfold runSharedBatch
  apply (Tracks.mapM_same batch.inputSlots fun input _ => batchInput_tracks hD input h).bind
  rintro inputs inputs' ⟨hinputs, hlen⟩
  cases kind with
  | reveal m =>
    apply (hD.openShares hinputs h.driver).bind
    rintro ⟨opened, s⟩ ⟨_, t⟩ ⟨rfl, hleft⟩
    rw [hD.reveal hkind] at hleft
    apply (Tracks.same _).bind
    rintro selected _ rfl
    rw [h.public]
    apply (Tracks.same _).bind
    rintro bank _ rfl
    exact Tracks.pure { h with driver := hleft, «public» := rfl }
  | poseidon2 w =>
    apply (hD.poseidon2 w hmem hkind hany hinputs hlen h.driver hfair).bind
    rintro ⟨selected, s⟩ ⟨selected', t⟩ ⟨hselected, hleft⟩
    exact storeShared_tracks hselected batch hleft h
  | num2Bits m =>
    apply (hD.num2Bits m hmem hkind hany hinputs hlen h.driver hfair).bind
    rintro ⟨results, s⟩ ⟨results', t⟩ ⟨hresults, hleft⟩
    exact selectShared_tracks hresults batch hleft h
  | isZero =>
    apply (hD.isZero hmem hkind hany hinputs hlen h.driver hfair).bind
    rintro ⟨results, s⟩ ⟨results', t⟩ ⟨hresults, hleft⟩
    exact selectShared_tracks hresults batch hleft h
  | aliasCheck =>
    apply (hD.aliasCheck hmem hkind hany hinputs hlen h.driver hfair).bind
    rintro ⟨results, s⟩ ⟨results', t⟩ ⟨hresults, hleft⟩
    exact selectShared_tracks hresults batch hleft h

/-! ### The fused zero test -/

theorem storeFused_tracks {trace : IsZeroRevealTrace S} {trace' : IsZeroRevealTrace T}
    (htrace : trace.Rel R trace') (request : ResultSlot × ResultTarget)
    (h : vm.Rel R Left n vm') :
    Tracks Bad (VmState.Rel R Left n) (storeFused trace vm request)
      (storeFused trace' vm' request) := by
  obtain ⟨logical, target⟩ := request
  unfold storeFused
  dsimp only
  split
  · exact Tracks.ensure_bind Iff.rfl fun _ => (writeSlot_tracks h.shared _ htrace.isZero).bind
      fun _ _ hbank => Tracks.pure { h with shared := hbank }
  · exact Tracks.ensure_bind Iff.rfl fun _ => (writeSlot_tracks h.shared _ htrace.inverse).bind
      fun _ _ hbank => Tracks.pure { h with shared := hbank }
  · apply Tracks.ensure_bind Iff.rfl
    intro _
    rw [h.public, htrace.revealed]
    exact (Tracks.same _).bind fun _ _ hbank => Tracks.pure { h with «public» := hbank }
  · exact Tracks.error

theorem storeFusedSite_tracks {trace : IsZeroRevealTrace S} {trace' : IsZeroRevealTrace T}
    (htrace : trace.Rel R trace') (batch : GadgetBatch) (site : Nat) (h : vm.Rel R Left n vm') :
    Tracks Bad (VmState.Rel R Left n) (storeFusedSite batch vm (trace, site))
      (storeFusedSite batch vm' (trace', site)) := by
  unfold storeFusedSite
  apply (Tracks.same _).bind
  rintro lo _ rfl
  apply (Tracks.same _).bind
  rintro hi _ rfl
  apply Tracks.ensure_bind Iff.rfl
  intro _
  apply (Tracks.same _).bind
  rintro requests _ rfl
  apply (Tracks.same _).bind
  rintro targets _ rfl
  exact Tracks.foldlM_same _ h fun request _ _ _ hvm => storeFused_tracks htrace request hvm

theorem runIsZeroRevealBatch_tracks (hD : D.Follows p Bad R Left cost Fair E)
    (hmem : batch ∈ p.gadgetBatches) (hkind : batch.kind = .isZeroReveal)
    (hany : batch.anyShared = true) (h : vm.Rel R Left (n + cost batch) vm')
    (hfair : Fair batch vm.driver) :
    Tracks Bad (VmState.Rel R Left n) (runIsZeroRevealBatch D vm batch)
      (runIsZeroRevealBatch E vm' batch) := by
  unfold runIsZeroRevealBatch
  apply Tracks.ensure_bind Iff.rfl
  intro _
  apply Tracks.ensure_bind Iff.rfl
  intro _
  have hread : ∀ input ∈ batch.inputSlots, Tracks Bad R
      (ensure (input.bank = .shared) .fusedInputBank >>= fun _ => readSlot vm.shared input.slot)
      (ensure (input.bank = .shared) .fusedInputBank >>= fun _ => readSlot vm'.shared input.slot) :=
    fun input _ => Tracks.ensure_bind Iff.rfl fun _ => readSlot_tracks h.shared _
  apply (Tracks.mapM_same batch.inputSlots hread).bind
  rintro inputs inputs' ⟨hinputs, hlen⟩
  apply (hD.isZeroReveal hmem hkind hany hinputs hlen h.driver hfair).bind
  rintro ⟨traces, s⟩ ⟨traces', t⟩ ⟨htraces, hleft⟩
  apply Tracks.ensure_bind (by rw [List.Forall₂.length_eq htraces])
  intro _
  apply Tracks.ensure_bind Iff.rfl
  intro _
  apply Tracks.foldlM (forall₂_zipIdx 0 htraces)
  · exact { h with driver := hleft }
  · rintro ⟨trace, site⟩ ⟨trace', _⟩ vm vm' ⟨htrace, rfl⟩ hvm
    exact storeFusedSite_tracks htrace batch site hvm

/-! ### Host-supplied batches -/

theorem precomputedValue_tracks {trace : SiteTrace S} {trace' : SiteTrace T}
    (htrace : trace.Rel R trace') (w site logical : Nat) :
    Tracks Bad R (precomputedValue w site trace logical)
      (precomputedValue w site trace' logical) := by
  unfold precomputedValue
  split
  · exact readAt_tracks htrace.output _ _
  · exact Tracks.orElse (forall₂_get?_rel htrace.intermediate _)

theorem storePrecomputedSite_tracks {trace : SiteTrace S} {trace' : SiteTrace T}
    (htrace : trace.Rel R trace') (w : Nat) (batch : GadgetBatch) (row : Nat × Nat) (site : Nat)
    {bank : List S} {bank' : List T} (hbank : List.Forall₂ R bank bank') :
    Tracks Bad (List.Forall₂ R) (storePrecomputedSite w batch bank ((trace, row), site))
      (storePrecomputedSite w batch bank' ((trace', row), site)) := by
  unfold storePrecomputedSite
  dsimp only
  rw [htrace.output.length_eq]
  apply Tracks.ensure_bind Iff.rfl
  intro _
  apply (Tracks.same _).bind
  rintro requests _ rfl
  apply (Tracks.same _).bind
  rintro targets _ rfl
  apply Tracks.foldlM_same _ hbank
  intro request _ bank bank' hbank
  exact (precomputedValue_tracks htrace w site _).bind fun _ _ hab => writeSlot_tracks hbank _ hab

theorem runPrecomputedBatch_tracks (w : Nat) (batch : GadgetBatch) (h : vm.Rel R Left n vm') :
    Tracks Bad (VmState.Rel R Left n) (runPrecomputedBatch vm w batch)
      (runPrecomputedBatch vm' w batch) := by
  unfold runPrecomputedBatch
  have hqueue := h.precomputation
  cases hq : vm.precomputation with
  | nil =>
    rw [hq, List.forall₂_nil_left_iff] at hqueue
    rw [hqueue]
    exact Tracks.error
  | cons sites queue =>
    rw [hq] at hqueue
    obtain ⟨sites', queue', hsites, hrest, hq'⟩ := List.forall₂_cons_left_iff.mp hqueue
    rw [hq']
    dsimp only
    rw [hsites.length_eq]
    apply Tracks.ensure_bind Iff.rfl
    intro _
    have hrows := forall₂_zipIdx 0 (forall₂_zip_pair hsites (forall₂_eq (windows batch.resultOffsets)))
    have hstore : Tracks Bad (List.Forall₂ R)
        ((sites.zip (windows batch.resultOffsets)).zipIdx.foldlM (storePrecomputedSite w batch)
          vm.shared)
        ((sites'.zip (windows batch.resultOffsets)).zipIdx.foldlM (storePrecomputedSite w batch)
          vm'.shared) := by
      apply Tracks.foldlM hrows h.shared
      rintro ⟨⟨trace, row⟩, site⟩ ⟨⟨trace', _⟩, _⟩ bank bank' ⟨⟨htrace, rfl⟩, rfl⟩ hbank
      exact storePrecomputedSite_tracks htrace w batch row site hbank
    exact hstore.bind fun _ _ hbank =>
      Tracks.pure { h with precomputation := hrest, shared := hbank }

theorem runBatch_tracks (hD : D.Follows p Bad R Left cost Fair E) (hp : p.WellEncoded)
    (hmem : batch ∈ p.gadgetBatches) (h : vm.Rel R Left (n + cost batch) vm')
    (hfair : Fair batch vm.driver) :
    Tracks Bad (VmState.Rel R Left n) (runBatch D host vm batch) (runBatch E host vm' batch) := by
  have hb := hp.batches batch hmem
  unfold runBatch
  cases hkind : batch.kind with
  | isZeroReveal =>
    exact runIsZeroRevealBatch_tracks hD hmem hkind (hb.anyShared_of_fused hkind) h hfair
  | precomputedPoseidon2 w =>
    rw [hD.suppliedFree hkind] at h
    exact runPrecomputedBatch_tracks w.get batch h
  | gadget kind =>
    dsimp only
    cases hany : batch.anyShared with
    | true => exact runSharedBatch_tracks hD hmem hkind hany h hfair
    | false =>
      rw [hD.publicFree hkind hany] at h
      exact runPublicBatch_tracks batch kind h

end Batches

/-! ## The run -/

/-- A run serves every batch in a state that is fair to it. -/
def ServedFairly (D : VmDriver σ S) (p : ProgramParts) (host : Poseidon2.Host)
    (queue : List (List (SiteTrace S))) (s : σ) (inputs : List (InputValue S))
    (Fair : GadgetBatch → σ → Prop) : Prop :=
  ∀ k index batch vm, p.instructions[k]? = some (.gadget index) →
    p.gadgetBatches[index.index]? = some batch →
      stateAfter D p host queue s inputs k = .ok vm → Fair batch vm.driver

theorem executeInstruction_tracks (hD : D.Follows p Bad R Left cost Fair E) (hp : p.WellEncoded)
    (i : Instruction) (h : vm.Rel R Left (n + p.costOf cost i) vm')
    (hfair : ∀ index batch, i = .gadget index → p.gadgetBatches[index.index]? = some batch →
      Fair batch vm.driver) :
    Tracks Bad (VmState.Rel R Left n) (executeInstruction D p host vm i)
      (executeInstruction E p host vm' i) := by
  cases i with
  | arith op dst a b => exact executeArithmetic_tracks hD op dst a b h
  | reshare round => exact executeReshare_tracks hD round h
  | gadget index =>
    show Tracks Bad _ (readAt _ _ _ >>= fun batch => runBatch D host vm batch)
      (readAt _ _ _ >>= fun batch => runBatch E host vm' batch)
    cases hbatch : p.gadgetBatches[index.index]? with
    | none =>
      rw [readAt, hbatch]
      exact Tracks.error
    | some batch =>
      rw [readAt, hbatch, orElse_some, ok_bind, ok_bind]
      simp only [ProgramParts.costOf, hbatch, Option.elim_some] at h
      exact runBatch_tracks hD hp (List.mem_of_getElem? hbatch) h (hfair index batch rfl hbatch)

section Run

variable {queue : List (List (SiteTrace S))} {queue' : List (List (SiteTrace T))}
  {inputs : List (InputValue S)} {inputs' : List (InputValue T)} {s : σ} {t : τ}

/-- **After every instruction** the public banks are equal and the shared ones related. -/
theorem stateAfter_tracks (hD : D.Follows p Bad R Left cost Fair E) (hp : p.WellEncoded)
    (hqueue : List.Forall₂ (List.Forall₂ (SiteTrace.Rel R)) queue queue')
    (hinputs : List.Forall₂ (InputValue.Rel R) inputs inputs') (hleft : Left (p.costFrom cost 0) s t)
    (hfair : ServedFairly D p host queue s inputs Fair) {k : Nat} (hk : k ≤ p.instructions.length) :
    Tracks Bad (VmState.Rel R Left (p.costFrom cost k)) (stateAfter D p host queue s inputs k)
      (stateAfter E p host queue' t inputs' k) := by
  induction k with
  | zero =>
    unfold stateAfter
    apply Tracks.ensure_bind (by rw [hinputs.length_eq])
    intro _
    apply (initializeInputs_tracks hD.default hqueue hinputs hleft).bind
    exact fun _ _ hvm => Tracks.pure hvm
  | succ k ih =>
    have hi : p.instructions[k]? = some p.instructions[k] := List.getElem?_eq_getElem hk
    rw [stateAfter_succ hi, stateAfter_succ hi]
    apply (ih (Nat.le_of_succ_le hk)).called.bind
    rintro vm vm' ⟨hreached, hvm⟩
    rw [ProgramParts.costFrom_of hi] at hvm
    apply executeInstruction_tracks hD hp _ hvm
    exact fun index batch hgadget hbatch => hfair k index batch vm (hgadget ▸ hi) hbatch hreached

theorem collectSource_tracks (hD : D.Follows p Bad R Left cost Fair E)
    (hinputs : List.Forall₂ (InputValue.Rel R) inputs inputs') (source : WitnessSource)
    (h : vm.Rel R Left n vm') :
    Tracks Bad R (collectSource D inputs vm source) (collectSource E inputs' vm' source) := by
  cases source with
  | one => exact Tracks.ok (hD.promote 1)
  | zero => exact Tracks.ok (hD.promote 0)
  | input i =>
    apply (readAt_tracks hinputs _ i.index).bind
    rintro _ _ (v | hab)
    · exact Tracks.pure (hD.promote v)
    · exact Tracks.pure hab
  | slot bank slot =>
    cases bank with
    | «public» =>
      show Tracks Bad R (readSlot vm.public slot >>= fun v => pure (D.promote v))
        (readSlot vm'.public slot >>= fun v => pure (E.promote v))
      rw [h.public]
      apply (Tracks.same _).bind
      rintro v _ rfl
      exact Tracks.pure (hD.promote v)
    | shared => exact readSlot_tracks h.shared slot
    | «local» => exact Tracks.error

theorem collectWitness_tracks (hD : D.Follows p Bad R Left cost Fair E)
    (hinputs : List.Forall₂ (InputValue.Rel R) inputs inputs') (sources : List WitnessSource)
    (h : vm.Rel R Left n vm') :
    Tracks Bad (List.Forall₂ R) (collectWitness D inputs vm sources)
      (collectWitness E inputs' vm' sources) :=
  (Tracks.mapM_same sources fun source _ => collectSource_tracks hD hinputs source h).post
    fun _ _ hcollected => hcollected.1

theorem finishWitness_tracks (hD : D.Follows p Bad R Left cost Fair E)
    (hinputs : List.Forall₂ (InputValue.Rel R) inputs inputs') (h : vm.Rel R Left 0 vm') :
    Tracks Bad (Witness.Rel R) (finishWitness D p inputs vm) (finishWitness E p inputs' vm') := by
  have hqueue : vm.precomputation = [] ↔ vm'.precomputation = [] := by
    rw [← List.length_eq_zero_iff, ← List.length_eq_zero_iff, h.precomputation.length_eq]
  unfold finishWitness
  apply Tracks.ensure_bind hqueue
  intro _
  apply (hD.finish h.driver).bind
  intro s t hleft
  apply Tracks.ensure_bind Iff.rfl
  intro _
  apply Tracks.ensure_bind Iff.rfl
  intro _
  apply (collectWitness_tracks hD hinputs _ h).bind
  intro publicShares publicShares' hpublic
  apply (collectWitness_tracks hD hinputs _ h).bind
  intro secret secret' hsecret
  apply (hD.openShares hpublic hleft).bind
  rintro ⟨publicInputs, _⟩ ⟨_, _⟩ ⟨rfl, _⟩
  apply Tracks.ensure_bind Iff.rfl
  intro _
  apply (Tracks.same _).bind
  rintro first _ rfl
  exact Tracks.ensure_bind Iff.rfl fun _ => Tracks.pure ⟨rfl, hsecret⟩

/-- **A whole run** opens the same public values and leaves related shares. -/
theorem run_tracks (hD : D.Follows p Bad R Left cost Fair E) (hp : p.WellEncoded)
    (hqueue : List.Forall₂ (List.Forall₂ (SiteTrace.Rel R)) queue queue')
    (hinputs : List.Forall₂ (InputValue.Rel R) inputs inputs')
    (hleft : Left (p.costFrom cost 0) s t) (hfair : ServedFairly D p host queue s inputs Fair) :
    Tracks Bad (Witness.Rel R) (run D p host queue s inputs) (run E p host queue' t inputs') := by
  rw [run_eq, run_eq]
  apply (stateAfter_tracks hD hp hqueue hinputs hleft hfair (Nat.le_refl _)).bind
  intro vm vm' hvm
  have hnone : p.costFrom cost p.instructions.length = 0 := by
    unfold ProgramParts.costFrom
    rw [List.drop_length, List.map_nil, List.sum_nil]
  rw [hnone] at hvm
  apply Tracks.ensure_bind (by rw [hvm.dst])
  intro _
  exact finishWitness_tracks hD hinputs hvm

end Run

end Vm
end CircomMpc
