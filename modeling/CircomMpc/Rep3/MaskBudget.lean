import CircomMpc.Rep3.MaskRun
import CircomMpc.Rep3.Service

/-!
# The mask budget is exact

`maskBudget` walks the instructions once to size the pool; a run walks them again and spends it.
Both add up the same batches' masks, so after any number of instructions the cursor stands at the
budget of those instructions, and at the end of the stream the pool is used up. The positions read on
the way are then all of the pool's, each once and in order: every mask opens one s-box input.
-/

namespace CircomMpc

open Lib Poseidon2

variable {σ S : Type}

/-! ## The budget -/

/-- The masks of the first `k` instructions. -/
def ProgramParts.masksBefore (p : ProgramParts) (k : Nat) : Nat :=
  ((p.instructions.take k).map fun i => masksFor (p.sharedPoseidon2 i)).sum

theorem masksBefore_succ {p : ProgramParts} {k : Nat} {i : Instruction}
    (hi : p.instructions[k]? = some i) :
    p.masksBefore (k + 1) = p.masksBefore k + masksFor (p.sharedPoseidon2 i) := by
  unfold ProgramParts.masksBefore
  rw [List.take_add_one, hi]
  simp

theorem masksBefore_mono (p : ProgramParts) {k m : Nat} (h : k ≤ m) :
    p.masksBefore k ≤ p.masksBefore m := by
  induction h with
  | refl => exact Nat.le_refl _
  | @step m _ ih =>
    refine Nat.le_trans ih ?_
    cases hi : p.instructions[m]? with
    | none =>
      unfold ProgramParts.masksBefore
      rw [List.take_add_one, hi, Option.toList_none, List.append_nil]
    | some i =>
      rw [masksBefore_succ hi]
      exact Nat.le_add_right _ _

/-- One instruction adds its own masks to the budget, or the budget is refused. -/
theorem maskBudgetStep_eq_ok {p : ProgramParts} {total total' k : Nat} {i : Instruction}
    (h : maskBudgetStep p total (i, k) = .ok total') :
    total' = total + masksFor (p.sharedPoseidon2 i) ∧ (total < 2 ^ 64 → total' < 2 ^ 64) := by
  cases i with
  | arith op dst a b =>
    cases h
    exact ⟨rfl, id⟩
  | reshare round =>
    cases h
    exact ⟨rfl, id⟩
  | gadget index =>
    unfold maskBudgetStep at h
    obtain ⟨batch, hbatch, h⟩ := bind_eq_ok.mp h
    rw [orElse_eq_ok] at hbatch
    unfold ProgramParts.sharedPoseidon2
    simp only [hbatch, Option.bind_some]
    unfold GadgetBatch.sharedPoseidon2
    cases hkind : batch.kind with
    -- A batch adds masks if it is Poseidon2, serviced by the driver, and reads a share.
    | isZeroReveal =>
      simp only [hkind] at h
      cases h
      exact ⟨rfl, id⟩
    | precomputedPoseidon2 t =>
      simp only [hkind] at h
      cases h
      exact ⟨rfl, id⟩
    | gadget kind =>
      simp only [hkind] at h
      cases kind with
      | num2Bits _ | isZero | aliasCheck | reveal _ =>
        cases h
        exact ⟨rfl, id⟩
      | poseidon2 t =>
        by_cases hany : batch.anyShared = true
        · simp only [hany, if_true] at h ⊢
          obtain ⟨masks, hmasks, h⟩ := bind_eq_ok.mp h
          obtain ⟨hbound, h⟩ := seq_eq_ok.mp h
          cases h
          obtain ⟨_, rfl, _⟩ := maskElements_eq_ok hmasks
          exact ⟨rfl, fun _ => ensure_eq_ok.mp hbound⟩
        · simp only [hany] at h ⊢
          cases h
          exact ⟨rfl, id⟩

theorem maskBudget_loop {p : ProgramParts} : ∀ {is : List Instruction} {k total budget : Nat},
    (is.zipIdx k).foldlM (maskBudgetStep p) total = .ok budget →
      budget = total + (is.map fun i => masksFor (p.sharedPoseidon2 i)).sum ∧
        (total < 2 ^ 64 → budget < 2 ^ 64)
  | [], k, total, budget, h => by
    cases h
    exact ⟨rfl, id⟩
  | i :: is, k, total, budget, h => by
    rw [List.zipIdx_cons, List.foldlM_cons] at h
    obtain ⟨total', hstep, h⟩ := bind_eq_ok.mp h
    obtain ⟨rfl, hbound⟩ := maskBudgetStep_eq_ok hstep
    obtain ⟨rfl, hbound'⟩ := maskBudget_loop h
    refine ⟨?_, fun h => hbound' (hbound h)⟩
    rw [List.map_cons, List.sum_cons, Nat.add_assoc]

theorem maskBudget_eq_ok {p : ProgramParts} {budget : Nat} (h : maskBudget p = .ok budget) :
    budget = p.masksBefore p.instructions.length ∧ budget < 2 ^ 64 := by
  obtain ⟨hbudget, hbound⟩ := maskBudget_loop h
  refine ⟨?_, hbound (by decide)⟩
  rw [hbudget, Nat.zero_add, ProgramParts.masksBefore, List.take_length]

/-! ## A run -/

variable {net : Rep3 σ S} {host : Host} {p : ProgramParts}

/-- A new driver's pool is as long as its program's masks, and none has been used. -/
theorem driver_new_eq_ok {s s' : σ} {pool : MaskPool S}
    (h : Rep3Driver.new net p s = .ok (s', pool)) :
    pool.Holds (p.masksBefore p.instructions.length) ∧
      pool.r.length = p.masksBefore p.instructions.length ∧ pool.consumed = 0 ∧
      pool.served = [] := by
  obtain ⟨budget, hbudget, h⟩ := bind_eq_ok.mp h
  obtain ⟨reply, hpreprocess, h⟩ := bind_eq_ok.mp h
  cases h
  obtain ⟨rfl, hbound⟩ := maskBudget_eq_ok hbudget
  obtain ⟨hlength, hconsumed, hserved⟩ := preprocessRep3_fresh hpreprocess
  exact ⟨⟨by omega, by omega⟩, hlength, hconsumed, hserved⟩

theorem initializeInputs_keeps (queue : List (List (SiteTrace S))) (state : σ × MaskPool S)
    (inputs : List (InputValue S)) :
    Meets (fun e => ¬ PoolFailed e) (fun vm => vm.driver = state)
      (Vm.initializeInputs (rep3Driver net host) p queue state inputs) := by
  refine Quiet.meets (Quiet.foldlM fun bank entry _ => Quiet.writeSlot _ _ _) fun bank => ?_
  refine Meets.foldlM rfl fun binding _ vm hvm => ?_
  rw [← hvm]
  refine (Quiet.readAt _ _ _).meets fun value => ?_
  cases binding.bank <;> cases value
  case «public».«public» => exact (Quiet.writeSlot _ _ _).meets fun _ => rfl
  case shared.secret => exact (Quiet.writeSlot _ _ _).meets fun _ => rfl
  all_goals exact id

/-- **After `k` instructions the pool has lost the masks of those `k`.** -/
theorem stateAfter_spends (hwell : p.WellEncoded) (queue : List (List (SiteTrace S)))
    (state : σ × MaskPool S) (inputs : List (InputValue S))
    (hholds : state.2.Holds (p.masksBefore p.instructions.length)) {k : Nat}
    (hk : k ≤ p.instructions.length) :
    Meets (fun e => ¬ PoolFailed e) (fun vm => Spending state.2 (p.masksBefore k) 0 vm.driver.2)
      (Vm.stateAfter (rep3Driver net host) p host queue state inputs k) := by
  induction k with
  | zero =>
    refine (Quiet.ensure id).meets fun _ => ?_
    refine Meets.bind (initializeInputs_keeps queue state inputs) fun vm hvm => ?_
    show Spending state.2 0 0 vm.driver.2
    rw [hvm]
    exact Spending.fresh
  | succ k ih =>
    have hi : p.instructions[k]? = some p.instructions[k] := List.getElem?_eq_getElem hk
    rw [Vm.stateAfter_succ hi, masksBefore_succ hi]
    refine Meets.bind (ih (Nat.le_of_succ_le hk)) fun vm hvm => ?_
    have hleft : p.masksBefore k + masksFor (p.sharedPoseidon2 p.instructions[k]) ≤
        p.masksBefore p.instructions.length := by
      rw [← masksBefore_succ hi]
      exact masksBefore_mono p hk
    exact (executeInstruction_spends hwell _ (hvm.leaves hholds hleft)).post
      fun vm' hvm' => hvm.trans hvm'

/-- Once the pool is used up, finishing a run fails for no reason of the pool's. -/
theorem finishWitness_quiet (inputs : List (InputValue S)) {vm : VmState (σ × MaskPool S) S}
    (hused : vm.driver.2.consumed = vm.driver.2.r.length) :
    Quiet (Vm.finishWitness (rep3Driver net host) p inputs vm) := by
  have hfinish : (rep3Driver net host).finish vm.driver = .ok vm.driver := by
    show (vm.driver.2.ensureConsumed >>= fun _ => _) = _
    unfold MaskPool.ensureConsumed
    rw [ensure_of hused]
    rfl
  have hcollect : ∀ sources : List WitnessSource,
      Quiet (Vm.collectWitness (rep3Driver net host) inputs vm sources) := by
    refine fun sources => Quiet.mapM fun source _ => ?_
    rcases source with _ | _ | i | ⟨bank, slot⟩
    · exact trivial
    · exact trivial
    · refine (Quiet.readAt _ _ _).bind fun value => ?_
      cases value <;> exact trivial
    · cases bank with
      | «public» => exact (Quiet.readSlot _ _).bind fun _ => trivial
      | shared => exact Quiet.readSlot _ _
      | «local» => exact id
  unfold Vm.finishWitness
  refine (Quiet.ensure id).bind fun _ => ?_
  rw [hfinish, ok_bind]
  refine (Quiet.ensure id).bind fun _ => (Quiet.ensure id).bind fun _ =>
    (hcollect _).bind fun _ => (hcollect _).bind fun _ => ?_
  refine Meets.bind (besidePool_keeps fun s => call_quiet _) fun opened _ => ?_
  exact (Quiet.ensure id).bind fun _ => (Quiet.readAt _ _ _).bind fun _ =>
    (Quiet.ensure id).bind fun _ => trivial

end CircomMpc
