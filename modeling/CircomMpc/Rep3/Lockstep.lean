import CircomMpc.Rep3.Ideal
import CircomMpc.Rep3.MaskBudget
import CircomMpc.Rep3.Reconstruct
import CircomMpc.Rep3.Poseidon2Reconstruct
import CircomMpc.Vm.Noninterference
import CircomMpc.Vm.Tracking

/-!
# A three-party run reconstructs to the plain run

The three parties run a program in lockstep, every shared slot holding the triple of their shares.
`value` reconstructs a triple. The three-party driver follows the plain one as far as reconstruction
sees (`rep3Driver_follows`): a service of the mask pool takes exactly the masks its batch needs, so
the pool it was prepared with lasts to the end and is used up there. What is left of the general
tracking is a run that fails as the primitives it calls do, or not at all where the plain run succeeds:
with the network, if that is all they fail for, and over parties that answer for no reason at all.
-/

namespace CircomMpc

open Lib Poseidon2

variable {σ S : Type} {net : Rep3 σ S} {value : S → Fr} {integer : net.Binary → Nat}
  {Fails : Rep3Error → Prop} {host : Host} {p : ProgramParts}

/-- The driver's pool holds the powers of exactly `n` more masks. The state of the plain driver
    beside it says nothing. -/
structure PoolLeft (value : S → Fr) (n : Nat) (state : σ × MaskPool S) (_ : Unit) : Prop where
  powers : state.2.Powers value
  holds : state.2.Holds n
  exact : state.2.r.length = state.2.consumed + n

/-- The masks a fused zero test would draw in this state are none of them zero. -/
def MasksNonZero (net : Rep3 σ S) (value : S → Fr) (batch : GadgetBatch)
    (state : σ × MaskPool S) : Prop :=
  batch.kind = .isZeroReveal → ∀ mask ∈ (net.draw batch.sites state.1).1, value mask ≠ 0

/-- No `Num2Bits` is wider than the field. -/
def ProgramParts.Narrow (p : ProgramParts) : Prop :=
  ∀ batch ∈ p.gadgetBatches, ∀ n, batch.kind = .gadget (.num2Bits n) → n ≤ 254

/-- A run that asks for nothing the library makes no promise about: no `Num2Bits` is wider than the
    field, and no fused zero test draws a zero for a mask, in the state the run has come to then. -/
structure ProgramParts.Promised (p : ProgramParts) (net : Rep3 σ S) (value : S → Fr) (host : Host)
    (queue : List (List (SiteTrace S))) (s : σ) (inputs : List (InputValue S)) : Prop where
  narrow : p.Narrow
  masks : ∀ state, Rep3Driver.new net p s = .ok state →
    Vm.ServedFairly (rep3Driver net host) p host queue state inputs (MasksNonZero net value)

/-- Every host's vectors hold the bits of a field element. -/
theorem narrow_fits {n : Nat} (hn : n ≤ 254) (host : Host) : n * sizeOfFr ≤ host.isizeMax := by
  have hbytes : n * sizeOfFr ≤ 254 * sizeOfFr := Nat.mul_le_mul_right _ hn
  exact (hbytes.trans (by decide)).trans host.isizeMax_ge

theorem ProgramParts.Narrow.tracesFit (h : p.Narrow) (host : Host) : p.TracesFit host := by
  intro batch hbatch kind hkind
  cases kind with
  | num2Bits n =>
    have hfits := narrow_fits (h batch hbatch n hkind) host
    simpa [GadgetKind.tooWide] using hfits
  | poseidon2 | isZero | aliasCheck | reveal => rfl

/-- How many masks a batch takes. -/
def batchMasks (batch : GadgetBatch) : Nat := masksFor batch.sharedPoseidon2

/-- Only a Poseidon2 batch on sharings takes masks. -/
theorem batchMasks_eq_zero {batch : GadgetBatch}
    (h : ∀ w, batch.kind = .gadget (.poseidon2 w) → batch.anyShared ≠ true) : batchMasks batch = 0 := by
  unfold batchMasks
  cases hshared : batch.sharedPoseidon2 with
  | none => rfl
  | some entry =>
    obtain ⟨hkind, hany, _⟩ := GadgetBatch.sharedPoseidon2_eq_some.mp hshared
    exact absurd hany (h _ hkind)

theorem forall₂_value {xs : List S} {ys : List Fr} :
    List.Forall₂ (fun a x => value a = x) xs ys ↔ xs.map value = ys := by
  rw [← List.forall₂_eq_eq_eq, List.forall₂_map_left_iff]

namespace PoolLeft

variable {n : Nat} {state : σ × MaskPool S}

/-- A call that does not touch the pool. -/
theorem keeps (h : PoolLeft value n state ()) (s : σ) : PoolLeft value n (s, state.2) () :=
  ⟨h.powers, h.holds, h.exact⟩

theorem spends {m : Nat} {state' : σ × MaskPool S} (h : PoolLeft value (n + m) state ())
    (hspent : Spending state.2 m 0 state'.2) : PoolLeft value n state' () := by
  have hcursor := hspent.cursor
  have hexact := h.exact
  have hlength : state'.2.r.length = state.2.r.length := congrArg List.length hspent.r
  refine ⟨hspent.powers h.powers, ⟨?_, ?_⟩, ?_⟩
  · omega
  · rw [hlength]
    exact h.holds.bounded
  · omega

end PoolLeft

/-- A call beside the pool returns what the plain driver returns. -/
theorem besidePool_tracks {α β : Type} {Q : α → β → Prop} {f : σ → Except RunError (α × σ)} {b : β}
    {n : Nat} {state : σ × MaskPool S} (h : PoolLeft value n state ())
    (hf : Meets (Raised Fails) (fun r => Q r.1 b) (f state.1)) :
    Tracks (Raised Fails) (Returned (PoolLeft value) n Q) (besidePool f state)
      (.ok (b, ()) : Except RunError (β × Unit)) := by
  apply Tracks.of_meets rfl
  unfold besidePool
  apply hf.bind
  rintro ⟨a, s⟩ hab
  exact ⟨hab, h.keeps s⟩

/-! ## The services -/

section Services

variable {batch : GadgetBatch} {n : Nat} {state : σ × MaskPool S} {inputs : List S}

/-- A batch with inputs has some. -/
theorem ProgramParts.BatchOk.inputs_ne_nil (hb : p.BatchOk batch) {inputs : List S}
    (hlen : inputs.length = batch.inputSlots.length) (hper : 0 < batch.kind.inputsPerSite) :
    inputs ≠ [] := by
  rintro rfl
  have hcount := hb.inputCount
  rw [← hlen] at hcount
  have hpos := Nat.mul_pos hb.sites hper
  rw [← hcount] at hpos
  exact absurd hpos (Nat.lt_irrefl 0)

theorem poseidon2_tracks (hnet : net.Correct value integer Fails) (hb : p.BatchOk batch)
    {w : Poseidon2Width} (hkind : batch.kind = .gadget (.poseidon2 w))
    (hlen : inputs.length = batch.inputSlots.length)
    (h : PoolLeft value (n + batch.sites * siteMasks w.get) state ()) :
    Tracks (Raised Fails) (Returned (PoolLeft value) n (List.Forall₂ fun a x => value a = x))
      ((rep3Driver net host).poseidon2RequestedTraces w.get inputs
        (batch.resultRequests.map (·.index)) batch.resultOffsets state)
      ((plainDriver host).poseidon2RequestedTraces w.get (inputs.map value)
        (batch.resultRequests.map (·.index)) batch.resultOffsets ()) := by
  have hplain := @poseidon2_eq_ok host _ _ hb _ _ hkind
    (show (inputs.map value).length = _ by rw [List.length_map, hlen])
  have hcount : inputs.length / w.get = batch.sites := by
    have hips : batch.kind.inputsPerSite = w.get := by rw [hkind]; rfl
    rw [hlen, hb.inputCount, hips, Nat.mul_div_cancel _ w.pos]
  have hholds : state.2.Holds (batch.sites * siteMasks w.get) :=
    h.holds.weaken (Nat.le_add_left _ _)
  have hvalues := rep3TraceRequested_reconstructs hnet host w state.1 h.powers
    (hcount.symm ▸ hholds) hplain
  have hspent := @poseidon2_spends _ _ net host _ p batch hb w hkind inputs hlen hholds
  have hreturns : (plainDriver host).poseidon2RequestedTraces w.get (inputs.map value)
      (batch.resultRequests.map (·.index)) batch.resultOffsets () =
        .ok (Effect.batchValues host batch (inputs.map value), ()) := by
    show (Poseidon2.plainTraceRequested _ _ _ _ _ >>= fun _ => _) = _
    rw [hplain]
    rfl
  apply Tracks.of_meets hreturns
  exact Meets.post (Meets.both (hvalues.mapError fun _ he => he) hspent) fun r hr =>
    ⟨forall₂_value.mpr hr.1, h.spends hr.2⟩

theorem isZeroReveal_tracks (hnet : net.Correct value integer Fails)
    (hmasks : ∀ mask ∈ (net.draw inputs.length state.1).1, value mask ≠ 0) (hne : inputs ≠ [])
    (h : PoolLeft value n state ()) :
    Tracks (Raised Fails)
      (Returned (PoolLeft value) n (List.Forall₂ (IsZeroRevealTrace.Rel fun a x => value a = x)))
      ((rep3Driver net host).isZeroRevealTraces inputs state)
      ((plainDriver host).isZeroRevealTraces (inputs.map value) ()) := by
  apply besidePool_tracks h
  have hcall := IsZero.rep3MaskedRevealTrace_reconstructs hnet inputs state.1 hmasks
  apply hcall.weaken
  · rintro e (he | ⟨hnil, _⟩)
    · exact he
    · exact absurd hnil hne
  · intro r hr
    rw [List.map_map, List.forall₂_map_right_iff]
    apply List.Forall₂.flip
    apply hr.imp
    rintro x trace ⟨htrace, hrevealed⟩
    have hzero : (IsZero.plainTrace (value x)).getD 0 0 = value trace.isZero := by rw [← htrace]; rfl
    have hinverse : (IsZero.plainTrace (value x)).getD 1 0 = value trace.inverse := by
      rw [← htrace]
      rfl
    refine ⟨hzero.symm, hinverse.symm, ?_⟩
    show trace.revealed = (IsZero.plainTrace (value x)).getD 0 0
    rw [hrevealed]
    unfold IsZero.plainTrace
    split <;> rfl

theorem aliasCheck_tracks (hnet : net.Correct value integer Fails) (hb : p.BatchOk batch)
    (hkind : batch.kind = .gadget .aliasCheck) (hlen : inputs.length = batch.inputSlots.length)
    (h : PoolLeft value n state ()) :
    Tracks (Raised Fails) (Returned (PoolLeft value) n (List.Forall₂ fun a x => value a = x))
      ((rep3Driver net host).aliasCheckTraces inputs state)
      ((plainDriver host).aliasCheckTraces (inputs.map value) ()) := by
  have hips : batch.kind.inputsPerSite = 254 := by rw [hkind]; rfl
  have hne : inputs ≠ [] := hb.inputs_ne_nil hlen (hips ▸ by decide)
  obtain ⟨full, hfull, _⟩ := @aliasCheckTracesPlain_eq_ok host p batch hb _ hkind
    (show (inputs.map value).length = _ by rw [List.length_map, hlen])
  have hreturns : (plainDriver host).aliasCheckTraces (inputs.map value) () = .ok (full, ()) := by
    show (aliasCheckTracesPlain _ >>= fun _ => _) = _
    rw [hfull]
    rfl
  rw [hreturns]
  apply besidePool_tracks h
  have hmultiple : inputs.length % 254 = 0 := by
    rw [hlen, hb.inputCount, hips, Nat.mul_mod_left]
  apply (AliasCheck.rep3Trace_reconstructs hnet inputs state.1 hmultiple).weaken
  · rintro e (he | ⟨hnil, _⟩)
    · exact he
    · exact absurd hnil hne
  · intro r hr
    rw [hfull] at hr
    cases hr
    exact forall₂_value.mpr rfl

end Services

/-- **The three-party driver follows the plain one**, on every call a program makes. -/
theorem rep3Driver_follows (hnet : net.Correct value integer Fails) (hp : p.WellEncoded)
    (hnarrow : p.Narrow) :
    (rep3Driver net host).Follows p (Raised Fails) (fun a x => value a = x) (PoolLeft value)
      batchMasks (MasksNonZero net value) (plainDriver host) where
  default := hnet.default
  promote := hnet.promote
  addSS ha hb := by rw [← ha, ← hb]; exact hnet.add _ _
  subSS ha hb := by rw [← ha, ← hb]; exact hnet.sub _ _
  addSP c ha := by rw [← ha]; exact hnet.addPublic _ c
  subSP c ha := by rw [← ha]; exact hnet.subSharedByPublic _ c
  subPS c ha := by rw [← ha]; exact hnet.subPublicByShared c _
  mulSP c ha := by rw [← ha]; exact hnet.mulPublic _ c
  -- A call follows if its answer reconstructs to the plain one and the pool is left alone.
  mulVec := by
    rintro n xs ys xs' ys' state ⟨⟩ hxs hys hlen h
    rw [forall₂_value] at hxs hys
    subst hxs hys
    show Tracks (Raised Fails) _
      (besidePool (fun s => call (net.reshareVec (net.localMulVec xs ys s).1
        (net.localMulVec xs ys s).2)) state)
      (.ok (((xs.map value).zip (ys.map value)).map fun ab => ab.1 * ab.2, ()))
    apply besidePool_tracks h
    apply (meets_call (hnet.reshareVec hlen state.1 _)).post
    intro r hr
    rw [forall₂_value, hr, List.zip_map, List.map_map]
    rfl
  openShares := by
    rintro n xs xs' state ⟨⟩ hxs h
    rw [forall₂_value] at hxs
    subst hxs
    show Tracks (Raised Fails) _ (besidePool (fun s => call (net.openVec xs s)) state)
      (.ok (xs.map value, ()))
    apply besidePool_tracks h
    exact meets_call (hnet.openVec xs state.1)
  poseidon2 w := by
    rintro n batch xs ys state ⟨⟩ hmem hkind hany hxs hlen h _
    rw [forall₂_value] at hxs
    subst hxs
    -- Poseidon2 takes the masks of its sites, which is what the batch costs.
    have hcost : batchMasks batch = batch.sites * siteMasks w.get := by
      rw [batchMasks, GadgetBatch.sharedPoseidon2_eq_some.mpr ⟨hkind, hany, rfl⟩]
      rfl
    rw [hcost] at h
    exact poseidon2_tracks hnet (hp.batches batch hmem) hkind hlen h
  num2Bits m := by
    rintro n batch xs ys state ⟨⟩ hmem hkind _ hxs _ h _
    rw [forall₂_value] at hxs
    subst hxs
    rw [batchMasks_eq_zero (fun w hw => by rw [hw] at hkind; cases hkind)] at h
    have hwidth := hnarrow batch hmem m hkind
    -- The plain decomposition returns, since `Narrow` bounds the bits far below any capacity.
    have hreturns : (plainDriver host).num2bitsTraces m (xs.map value) () =
        .ok ((xs.map value).flatMap fun x => Num2Bits.bits x m, ()) := by
      show (Num2Bits.plainTraceMany host.isizeMax m _ >>= fun values => _) = _
      rw [Num2Bits.plainTraceMany_eq_ok (narrow_fits hwidth host)]
      rfl
    show Tracks _ _ _ ((plainDriver host).num2bitsTraces m (xs.map value) ())
    rw [hreturns]
    apply besidePool_tracks h
    exact (Num2Bits.rep3Trace_reconstructs hnet hwidth xs state.1).post
      fun r hr => forall₂_value.mpr hr
  isZero := by
    rintro n batch xs ys state ⟨⟩ _ hkind _ hxs _ h _
    rw [forall₂_value] at hxs
    subst hxs
    rw [batchMasks_eq_zero (fun w hw => by rw [hw] at hkind; cases hkind)] at h
    apply besidePool_tracks h
    apply (IsZero.rep3Trace_reconstructs hnet xs state.1).post
    intro r hr
    rw [forall₂_value, hr, IsZero.plainTraceMany_eq]
  isZeroReveal := by
    rintro n batch xs ys state ⟨⟩ hmem hkind _ hxs hlen h hmasks
    rw [forall₂_value] at hxs
    subst hxs
    rw [batchMasks_eq_zero (fun w hw => by rw [hw] at hkind; cases hkind)] at h
    -- The masks are those drawn for this batch, one a site, and none of them is zero.
    have hne := (hp.batches batch hmem).inputs_ne_nil hlen (by rw [hkind]; decide)
    have hsites : xs.length = batch.sites := by
      rw [hlen, (hp.batches batch hmem).inputCount, hkind]
      exact Nat.mul_one _
    exact isZeroReveal_tracks hnet (hsites ▸ hmasks hkind) hne h
  aliasCheck := by
    rintro n batch xs ys state ⟨⟩ hmem hkind _ hxs hlen h _
    rw [forall₂_value] at hxs
    subst hxs
    rw [batchMasks_eq_zero (fun w hw => by rw [hw] at hkind; cases hkind)] at h
    exact aliasCheck_tracks hnet (hp.batches batch hmem) hkind hlen h
  reveal hkind := batchMasks_eq_zero fun w hw => by rw [hw] at hkind; cases hkind
  publicFree hkind hany := batchMasks_eq_zero fun w _ htrue => by rw [hany] at htrue; cases htrue
  suppliedFree hkind := batchMasks_eq_zero fun w hw => by rw [hw] at hkind; cases hkind
  finish := by
    rintro state ⟨⟩ h
    -- At the end nothing is left, and that is the check.
    have hused : state.2.consumed = state.2.r.length := h.exact.symm
    have hfinish : (rep3Driver net host).finish state = .ok state := by
      show (state.2.ensureConsumed >>= fun _ => _) = _
      unfold MaskPool.ensureConsumed
      rw [ensure_of hused]
      rfl
    rw [hfinish]
    exact Tracks.ok h

/-! ## The budget -/

theorem maskBudgetStep_ok (hp : p.WellEncoded) {i : Instruction} (hi : i ∈ p.instructions)
    {total k : Nat} (hbound : total + masksFor (p.sharedPoseidon2 i) < 2 ^ 64) :
    maskBudgetStep p total (i, k) = .ok (total + masksFor (p.sharedPoseidon2 i)) := by
  cases i with
  | arith op dst a b => rfl
  | reshare round => rfl
  | gadget index =>
    have hindex : index.index < p.gadgetBatches.length := hp.instructions _ hi
    have hbatch := List.getElem?_eq_getElem hindex
    generalize p.gadgetBatches[index.index] = batch at hbatch
    simp only [ProgramParts.sharedPoseidon2, hbatch, Option.bind_some] at hbound ⊢
    simp only [maskBudgetStep, hbatch, orElse_some, ok_bind]
    unfold GadgetBatch.sharedPoseidon2 at hbound ⊢
    cases hkind : batch.kind with
    | isZeroReveal | precomputedPoseidon2 t => rfl
    | gadget kind =>
      cases kind with
      | num2Bits _ | isZero | aliasCheck | reveal _ => rfl
      | poseidon2 t =>
        simp only [hkind] at hbound ⊢
        cases hany : batch.anyShared with
        | false => rfl
        | true =>
          simp only [hany, if_true, masksFor] at hbound ⊢
          rw [maskElements_ok t.supported (by omega), ok_bind]
          exact checkedAdd_ok hbound

theorem maskBudget_ok (hp : p.WellEncoded)
    (hbound : p.masksBefore p.instructions.length < 2 ^ 64) :
    maskBudget p = .ok (p.masksBefore p.instructions.length) := by
  have hloop : ∀ (is : List Instruction) (k total : Nat), (∀ i ∈ is, i ∈ p.instructions) →
      total + (is.map fun i => masksFor (p.sharedPoseidon2 i)).sum < 2 ^ 64 →
        (is.zipIdx k).foldlM (maskBudgetStep p) total =
          .ok (total + (is.map fun i => masksFor (p.sharedPoseidon2 i)).sum) := by
    intro is
    induction is with
    | nil => exact fun k total _ _ => rfl
    | cons i is ih =>
      intro k total hmem hsum
      rw [List.map_cons, List.sum_cons, ← Nat.add_assoc] at hsum ⊢
      rw [List.zipIdx_cons, List.foldlM_cons,
        maskBudgetStep_ok hp (hmem i (by simp)) (by omega), ok_bind]
      exact ih _ _ (fun j hj => hmem j (by simp [hj])) hsum
  unfold ProgramParts.masksBefore at hbound ⊢
  rw [List.take_length] at hbound ⊢
  have hfold := hloop p.instructions 0 0 (fun _ hi => hi) (by rwa [Nat.zero_add])
  rw [Nat.zero_add] at hfold
  exact hfold

/-- The instructions take, between them, the masks the budget counts. -/
theorem costFrom_batchMasks :
    p.costFrom batchMasks 0 = p.masksBefore p.instructions.length := by
  unfold ProgramParts.costFrom ProgramParts.masksBefore
  rw [List.drop_zero, List.take_length]
  congr 1
  apply List.map_congr_left
  intro i _
  cases i with
  | arith op dst a b => rfl
  | reshare round => rfl
  | gadget index =>
    simp only [ProgramParts.costOf, ProgramParts.sharedPoseidon2]
    cases p.gadgetBatches[index.index]? <;> rfl

/-- A new driver's pool holds the powers of all the masks its program takes. -/
theorem rep3Driver_new_left (hnet : net.Correct value integer Fails) (hp : p.WellEncoded) (s : σ) :
    Meets (fun e => Raised Fails e ∨ 2 ^ 64 ≤ p.masksBefore p.instructions.length * 2)
      (fun state => PoolLeft value (p.costFrom batchMasks 0) state ())
      (Rep3Driver.new net p s) := by
  have hbudget : Meets (fun _ => 2 ^ 64 ≤ p.masksBefore p.instructions.length * 2)
      (fun budget => budget = p.masksBefore p.instructions.length ∧ budget < 2 ^ 64)
      (maskBudget p) := by
    by_cases hbound : p.masksBefore p.instructions.length < 2 ^ 64
    · rw [maskBudget_ok hp hbound]
      exact ⟨rfl, hbound⟩
    · cases hbudget : maskBudget p with
      | error e =>
        show 2 ^ 64 ≤ _
        omega
      | ok budget => exact maskBudget_eq_ok hbudget
  unfold Rep3Driver.new
  apply Meets.bind (hbudget.weaken (fun _ he => .inr he) fun _ h => h)
  rintro _ ⟨rfl, hbound⟩
  have hfresh : Meets (fun _ => True) (fun r => r.1.r.length = p.masksBefore p.instructions.length)
      (preprocessRep3 net (p.masksBefore p.instructions.length) s) := by
    cases hpool : preprocessRep3 net (p.masksBefore p.instructions.length) s with
    | error e => trivial
    | ok r => exact (preprocessRep3_fresh hpool).1
  apply Meets.bind (Meets.both (preprocessRep3_powers hnet _ s) hfresh)
  rintro ⟨pool, s'⟩ ⟨⟨hpowers, _, hconsumed⟩, hlength⟩
  dsimp only at hpowers hconsumed hlength
  rw [costFrom_batchMasks]
  refine ⟨hpowers, ⟨?_, ?_⟩, ?_⟩
  · show pool.consumed + _ ≤ pool.r.length
    omega
  · show pool.r.length < 2 ^ 64
    omega
  · show pool.r.length = pool.consumed + _
    omega

/-! ## The run -/

/-- A host-supplied trace, reconstructed. -/
def SiteTrace.reconstruct (value : S → Fr) (trace : SiteTrace S) : SiteTrace Fr where
  output := trace.output.map value
  intermediate := trace.intermediate.map value

/-- An input, reconstructed. -/
def InputValue.reconstruct (value : S → Fr) : InputValue S → InputValue Fr
  | .public v => .public v
  | .secret a => .secret (value a)

theorem rel_reconstruct_queue (value : S → Fr) (queue : List (List (SiteTrace S))) :
    List.Forall₂ (List.Forall₂ (SiteTrace.Rel fun a x => value a = x)) queue
      (queue.map fun sites => sites.map (·.reconstruct value)) := by
  rw [List.forall₂_map_right_iff]
  refine List.forall₂_same.mpr fun sites _ => ?_
  rw [List.forall₂_map_right_iff]
  exact List.forall₂_same.mpr fun trace _ => ⟨forall₂_value.mpr rfl, forall₂_value.mpr rfl⟩

theorem rel_reconstruct_inputs (value : S → Fr) (inputs : List (InputValue S)) :
    List.Forall₂ (InputValue.Rel fun a x => value a = x) inputs
      (inputs.map (·.reconstruct value)) := by
  rw [List.forall₂_map_right_iff]
  refine List.forall₂_same.mpr fun input _ => ?_
  cases input with
  | «public» v => exact .public v
  | secret a => exact .secret rfl

/-- `Vm::rep3(program, net, state)?.with_precomputation(queue).run(inputs)`. -/
def Vm.runRep3 (net : Rep3 σ S) (host : Host) (program : Program)
    (precomputation : List (List (SiteTrace S))) (s : σ) (inputs : List (InputValue S)) :
    Except RunError (Witness S) := do
  let state ← Rep3Driver.new net program.parts s
  Vm.run (rep3Driver net host) program.parts host precomputation state inputs

/-- Instruction by instruction: the public banks agree and the shared ones reconstruct. -/
theorem Vm.stateAfter_rep3_tracks (hnet : net.Correct value integer Fails) (hp : p.WellEncoded)
    {queue : List (List (SiteTrace S))} {s : σ} {inputs : List (InputValue S)}
    (hpromised : p.Promised net value host queue s inputs) {state : σ × MaskPool S}
    (hstate : Rep3Driver.new net p s = .ok state) {k : Nat} (hk : k ≤ p.instructions.length) :
    Tracks (Raised Fails)
      (fun vm vm' => vm.public = vm'.public ∧ vm.shared.map value = vm'.shared)
      (Vm.stateAfter (rep3Driver net host) p host queue state inputs k)
      (Vm.stateAfter (plainDriver host) p host
        (queue.map fun sites => sites.map (·.reconstruct value)) ()
        (inputs.map (·.reconstruct value)) k) := by
  have hleft := (rep3Driver_new_left hnet hp s).of_ok hstate
  apply (Vm.stateAfter_tracks (rep3Driver_follows hnet hp hpromised.narrow) hp
    (rel_reconstruct_queue value queue) (rel_reconstruct_inputs value inputs) hleft
    (hpromised.masks state hstate) hk).post
  exact fun vm vm' h => ⟨h.public, forall₂_value.mp h.shared⟩

/-- The whole run: what the parties open and share reconstructs to the plain run's witness. -/
theorem Vm.runRep3_tracks (hnet : net.Correct value integer Fails) {host : Host} {program : Program}
    {queue : List (List (SiteTrace S))} {s : σ} {inputs : List (InputValue S)}
    (hpromised : program.parts.Promised net value host queue s inputs) :
    Tracks
      (fun e => Raised Fails e ∨
        2 ^ 64 ≤ program.parts.masksBefore program.parts.instructions.length * 2)
      (fun w w' => w.publicInputs = w'.publicInputs ∧ w.witness.map value = w'.witness)
      (Vm.runRep3 net host program queue s inputs)
      (Vm.runPlain host program (queue.map fun sites => sites.map (·.reconstruct value))
        (inputs.map (·.reconstruct value))) := by
  apply Tracks.bind_left (rep3Driver_new_left hnet program.wellEncoded s).called
  rintro state ⟨hstate, hleft⟩
  apply (Vm.run_tracks (rep3Driver_follows hnet program.wellEncoded hpromised.narrow)
    program.wellEncoded (rel_reconstruct_queue value queue) (rel_reconstruct_inputs value inputs)
    hleft (hpromised.masks state hstate)).weaken
  · exact fun e he => .inl he
  · exact fun w w' h => ⟨h.publicInputs, forall₂_value.mp h.witness⟩

/-- **A three-party run refines the plain run.** After every instruction the public banks are equal
    and the shared ones reconstruct, slot by slot. The run opens the same public inputs and leaves
    sharings of the same witness: it returns only where the plain run does, and where the plain run
    returns it fails with the network only, or for want of masks that no `usize` counts. -/
theorem runRep3_refines (hnet : net.Correct value integer) (host : Host) (program : Program)
    (queue : List (List (SiteTrace S))) (s : σ) (inputs : List (InputValue S))
    (hpromised : program.parts.Promised net value host queue s inputs) :
    (∀ state, Rep3Driver.new net program.parts s = .ok state →
      ∀ k ≤ program.parts.instructions.length,
        Tracks NetworkFailed
          (fun vm vm' => vm.public = vm'.public ∧ vm.shared.map value = vm'.shared)
          (Vm.stateAfter (rep3Driver net host) program.parts host queue state inputs k)
          (Vm.stateAfter (plainDriver host) program.parts host
            (queue.map fun sites => sites.map (·.reconstruct value)) ()
            (inputs.map (·.reconstruct value)) k)) ∧
    Tracks
      (fun e => NetworkFailed e ∨
        2 ^ 64 ≤ program.parts.masksBefore program.parts.instructions.length * 2)
      (fun w w' => w.publicInputs = w'.publicInputs ∧ w.witness.map value = w'.witness)
      (Vm.runRep3 net host program queue s inputs)
      (Vm.runPlain host program (queue.map fun sites => sites.map (·.reconstruct value))
        (inputs.map (·.reconstruct value))) := by
  refine ⟨fun state hstate k hk => ?_, Vm.runRep3_tracks hnet hpromised⟩
  exact Vm.stateAfter_rep3_tracks hnet program.wellEncoded hpromised hstate hk

/-- Three parties test a shared five for zero. -/
theorem runRep3_refines_zeroTest : ∃ w w',
    Vm.runRep3 ideal default zeroTestProgram [] () [.secret (1, 3, 1)] = .ok w ∧
      Vm.runPlain default zeroTestProgram [] [.secret 5] = .ok w' ∧
        w.publicInputs = w'.publicInputs ∧ w.witness.map Summands.sum = w'.witness := by
  have hpromised : zeroTestProgram.parts.Promised ideal Summands.sum default [] ()
      [.secret (1, 3, 1)] := by
    constructor
    · intro batch hmem n hkind
      cases List.mem_singleton.mp hmem
      cases hkind
    · exact fun _ _ _ _ _ _ _ _ _ _ _ => ideal_draw_ne_zero
  have hruns := (runRep3_refines ideal_correct default zeroTestProgram [] () [.secret (1, 3, 1)]
    hpromised).2
  have hvalue : [InputValue.secret ((1, 3, 1) : Summands)].map (·.reconstruct Summands.sum) =
      [.secret 5] := by decide
  rw [hvalue] at hruns
  obtain ⟨w, hw⟩ : ∃ w, Vm.runRep3 ideal default zeroTestProgram [] () [.secret (1, 3, 1)] = .ok w :=
    ⟨_, rfl⟩
  obtain ⟨w', hw', hrelated⟩ := hruns.related hw
  exact ⟨w, w', hw, hw', hrelated⟩

end CircomMpc
