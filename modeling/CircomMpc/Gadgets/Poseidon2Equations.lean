import CircomMpc.Gadgets.Poseidon2Circuit

/-!
# A Poseidon2 trace satisfies the circuit

Block by block (`acc_agrees`, `externalMatmul_agrees`, `siteFull_agrees`, …): a trace that agrees
with what a block records solves the block's equations. A group of rounds threads one fact more,
that the state between two rounds is a row of the state table, and `siteWalk_agrees` is the whole
permutation. Since a site records every slot once, its own trace agrees with its walk, which is
`walk_satisfies_rounds`.

An equation of a block is either a gate or a copy. A gate is read off the `record` of its result; a
copy says that a port of the block and a port of its parent hold the same element, which they do
because both were recorded from one list (`Holds.copy`).
-/

namespace CircomMpc
namespace Poseidon2

open Lib

variable {V α β : Type}

section Blocks

variable {trace : Nat → Fr}

/-! ## `Acc` and the leaves -/

/-- The running sum of `Acc`, from its `k`-th element on. -/
theorem accLoop_agrees {base n : Nat} : ∀ {rest : List Fr} {k : Nat} {sum v : Fr},
    Agrees trace ((rest.zipIdx k).foldlM
      (fun sum (e : Fr × Nat) => do
        let sum := plainOps.add sum e.1
        record (base + 1 + e.2) e.1
        record (base + 1 + n + e.2) sum
        pure sum) sum) v →
    v = sum + rest.sum ∧ Holds trace (base + 1 + k) rest ∧
      ∀ i < rest.length, trace (base + 1 + n + (k + i)) = sum + (rest.take (i + 1)).sum := by
  intro rest
  induction rest with
  | nil =>
    intro k sum v h
    have heq : sum = v := agrees_pure.mp h
    exact ⟨by simp [heq], by simp [Holds], by simp⟩
  | cons x rest ih =>
    intro k sum v h
    rw [List.zipIdx_cons, List.foldlM_cons] at h
    simp only [agrees_bind, agrees_record, agrees_pure, exists_and_left, exists_const] at h
    obtain ⟨_, ⟨hin, hsum, rfl⟩, hloop⟩ := h
    obtain ⟨hv, hholds, hsums⟩ := ih hloop
    have hadd : plainOps.add sum x = sum + x := rfl
    rw [hadd] at hv hsums hsum
    refine ⟨by rw [hv, List.sum_cons, add_assoc], ?_, ?_⟩
    · intro i y hy
      cases i with
      | zero =>
        cases hy
        exact hin
      | succ i =>
        rw [show base + 1 + k + (i + 1) = base + 1 + (k + 1) + i by omega]
        exact hholds i y hy
    · intro i hi
      cases i with
      | zero => simpa using hsum
      | succ i =>
        rw [show k + (i + 1) = k + 1 + i by omega,
          hsums i (Nat.lt_of_succ_lt_succ hi), List.take_succ_cons, List.sum_cons, add_assoc]

theorem acc_agrees {input : List Fr} {base : Nat} {v : Fr}
    (h : Agrees trace (acc plainOps input base) v) :
    v = input.sum ∧ trace base = v ∧ Holds trace (base + 1) input ∧
      AccEquations trace input.length base := by
  cases input with
  | nil => exact absurd h agrees_fault
  | cons first rest =>
    simp only [acc, agrees_bind, agrees_record, agrees_pure, exists_and_left, exists_const] at h
    obtain ⟨hfirst, hsum, total, hloop, hout, rfl⟩ := h
    obtain ⟨hv, hrest, hsums⟩ := accLoop_agrees hloop
    have hholds : Holds trace (base + 1) (first :: rest) := by
      intro i x hx
      cases i with
      | zero =>
        cases hx
        exact hfirst
      | succ i =>
        rw [show base + 1 + (i + 1) = base + 1 + 1 + i by omega]
        exact hrest i x hx
    refine ⟨hv, hout, hholds, ?_, ?_⟩
    · intro i hi
      rw [hholds.sum_take hi]
      cases i with
      | zero => simpa using hsum
      | succ i =>
        rw [Nat.add_comm i 1, hsums i (Nat.lt_of_succ_lt_succ hi), Nat.add_comm 1 i,
          List.take_succ_cons, List.sum_cons]
    · rw [hholds.sum, hout, hv, List.sum_cons]

theorem externalMatmulLeaf_agrees {input out o : List Fr} {base t : Nat}
    (ht : t = 2 ∨ t = 3 ∨ t = 4) (hi : input.length = t) (ho : out.length = t)
    (h : Agrees trace (externalMatmulLeaf plainOps input out base) o) :
    o.length = t ∧ Holds trace base o ∧ Holds trace (base + t) input ∧
      ExternalLeafEquations trace t base := by
  have hover : ∀ xs : List Fr, xs.length = t → overwrite out xs = xs :=
    fun xs hxs => overwrite_eq (hxs.trans ho.symm)
  -- Two and three elements: a sum that is added to each of them.
  have hsmall : t = 2 ∨ t = 3 → o.length = t ∧ Holds trace base o ∧ Holds trace (base + t) input ∧
      ExternalLeafEquations trace t base := by
    intro h23
    obtain ⟨x0, xs, rfl⟩ := List.exists_cons_of_length_pos (l := input) (by omega)
    rw [externalMatmulLeaf_small plainOps h23 hi] at h
    simp only [agrees_bind, agrees_record, agrees_recordSlice, agrees_pure, exists_and_left,
      exists_const] at h
    obtain ⟨hin, hsum, hout, rfl⟩ := h
    have htotal : xs.foldl plainOps.add x0 = (x0 :: xs).sum := by
      rw [List.sum_eq_foldl, List.foldl_cons, zero_add]
      rfl
    rw [htotal] at hsum hout ⊢
    rw [hover _ (by rw [List.length_map, hi])] at hout ⊢
    have hlen : ((x0 :: xs).map fun x => plainOps.add x (x0 :: xs).sum).length = t := by
      rw [List.length_map, hi]
    have hfour : ∀ {P : Prop}, t = 4 → P := fun h4 => by omega
    refine ⟨hlen, hout, hin, ?_, ?_, hfour, hfour, hfour, hfour, hfour, hfour, hfour, hfour, hfour,
      hfour⟩
    · rw [signals_eq hout hlen, signals_eq hin hi, externalMatrix_small h23 hi]
      rfl
    · intro _
      rw [hsum, ← hin.sum, hi]
  rcases ht with rfl | rfl | rfl
  · exact hsmall (.inl rfl)
  · exact hsmall (.inr rfl)
  · obtain ⟨a, b, c, d, rfl⟩ := List.length_eq_four.mp hi
    simp only [externalMatmulLeaf, pure_bind, agrees_bind, agrees_recordSlice, agrees_pure,
      exists_and_left, exists_const] at h
    -- Four elements: ten named intermediates between the input and the output.
    obtain ⟨hin, hnamed, hout, rfl⟩ := h
    rw [hover _ rfl] at hout ⊢
    change Holds trace (base + 4) [a, b, c, d] at hin
    have hin0 : trace (base + 4) = a := hin 0 a rfl
    have hin1 : trace (base + 5) = b := hin 1 b rfl
    have hin2 : trace (base + 6) = c := hin 2 c rfl
    have hin3 : trace (base + 7) = d := hin 3 d rfl
    have h8 : trace (base + 8) = b + b := hnamed 0 _ rfl
    have h9 : trace (base + 9) = d + d := hnamed 1 _ rfl
    have h10 : trace (base + 10) = a + b := hnamed 2 _ rfl
    have h11 : trace (base + 11) = c + d := hnamed 3 _ rfl
    have h12 : trace (base + 12) = (a + b + (a + b)) + (a + b + (a + b)) := hnamed 4 _ rfl
    have h13 : trace (base + 13) = (c + d + (c + d)) + (c + d + (c + d)) := hnamed 5 _ rfl
    have h14 : trace (base + 14) = b + b + (c + d) := hnamed 6 _ rfl
    have h15 : trace (base + 15) = d + d + (a + b) := hnamed 7 _ rfl
    have h16 : trace (base + 16) = (c + d + (c + d)) + (c + d + (c + d)) + (d + d + (a + b)) :=
      hnamed 8 _ rfl
    have h17 : trace (base + 17) = (a + b + (a + b)) + (a + b + (a + b)) + (b + b + (c + d)) :=
      hnamed 9 _ rfl
    refine ⟨rfl, hout, hin, ?_, fun h4 => absurd rfl h4, ?_, ?_, ?_, ?_, ?_, ?_, ?_, ?_, ?_, ?_⟩
    · rw [signals_eq hout (show List.length _ = 4 from rfl),
        signals_eq hin (show List.length _ = 4 from rfl), externalMatrix_four]
      funext i
      fin_cases i <;> simp [plainOps, double] <;> ring
    all_goals intro _
    · rw [h8, hin1, two_mul]
    · rw [h9, hin3, two_mul]
    · rw [h10, hin0, hin1]
    · rw [h11, hin2, hin3]
    · rw [h12, h10]
      ring
    · rw [h13, h11]
      ring
    · rw [h14, h8, h11]
    · rw [h15, h9, h10]
    · rw [h16, h13, h15]
    · rw [h17, h12, h14]

/-! ## The matrices -/

/-- Every fourth element, block by block. -/
theorem column_block_eq {l : Nat} (hl : l < 4) :
    ∀ (m j : Nat) (xs : List Fr), xs.length = 4 * m →
      ((xs.zipIdx (4 * j)).filter fun (_, i) => l ≤ i ∧ (i - l) % 4 = 0).map (·.1) =
        (List.range m).map fun b => xs.getD (4 * b + l) 0
  | 0, _, xs, h => by
    have : xs = [] := List.length_eq_zero_iff.mp (by omega)
    simp [this]
  | m + 1, j, xs, h => by
    match xs, h with
    | a :: b :: c :: d :: rest, h =>
      have ih := column_block_eq hl m (j + 1) rest (by simp only [List.length_cons] at h; omega)
      rw [Nat.mul_add, Nat.mul_one] at ih
      rw [List.range_succ_eq_map, List.map_cons, List.map_map]
      have hrest : (List.range m).map ((fun b' => (a :: b :: c :: d :: rest).getD (4 * b' + l) 0) ∘
          Nat.succ) = (List.range m).map fun b' => rest.getD (4 * b' + l) 0 := by
        apply List.map_congr_left
        intro b' _
        have hidx : 4 * (b' + 1) + l = 4 * b' + l + 1 + 1 + 1 + 1 := by omega
        simp only [Function.comp_apply, Nat.succ_eq_add_one, hidx, List.getD_cons_succ]
      rw [hrest, ← ih]
      simp only [List.zipIdx_cons, List.filter_cons, decide_eq_true_eq, Nat.add_assoc,
        Nat.reduceAdd]
      have hone : l = 0 ∨ l = 1 ∨ l = 2 ∨ l = 3 := by omega
      rcases hone with rfl | rfl | rfl | rfl
      · rw [if_pos (by omega), if_neg (by omega), if_neg (by omega), if_neg (by omega)]
        rfl
      · rw [if_neg (by omega), if_pos (by omega), if_neg (by omega), if_neg (by omega)]
        rfl
      · rw [if_neg (by omega), if_neg (by omega), if_pos (by omega), if_neg (by omega)]
        rfl
      · rw [if_neg (by omega), if_neg (by omega), if_neg (by omega), if_pos (by omega)]
        rfl

theorem column_eq {l m : Nat} (hl : l < 4) {xs : List Fr} (h : xs.length = 4 * m) :
    column l xs = (List.range m).map fun b => xs.getD (4 * b + l) 0 :=
  column_block_eq hl m 0 xs h
/-- The `ExternalMatMul4` blocks of a wide state. -/
theorem mdsBlocks_agrees (start : Nat) {t m : Nat} {input mds mds' : List Fr} (htm : t = 4 * m)
    (hi : input.length = t) (hm : mds.length = t)
    (h : Agrees trace ((List.range m).foldlM
      (fun mds i => do
        let block ← externalMatmulLeaf plainOps (slice input (4 * i) (4 * i + 4))
          (slice mds (4 * i) (4 * i + 4)) (start + i * externalMatmulLeafSignals 4)
        pure (mds.take (4 * i) ++ block ++ mds.drop (4 * i + 4))) mds) mds') :
    mds'.length = t ∧
      (∀ b < m, ∀ l < 4, mds'.getD (4 * b + l) 0 = trace (start + b * 18 + l)) ∧
      ∀ b < m, ExternalLeafEquations trace 4 (start + b * 18) ∧
        ∀ l < 4, trace (start + b * 18 + 4 + l) = input.getD (4 * b + l) 0 := by
  obtain ⟨states, hzero, hlast, hturn⟩ := agrees_foldlM h
  have hslice : ∀ {xs : List Fr} {k : Nat}, xs.length = t → k < m →
      (slice xs (4 * k) (4 * k + 4)).length = 4 := by
    intro xs k hxs hk
    rw [slice_length (by omega)]
    omega
  -- One turn: the block's four values, in place of the four before.
  have hstep : ∀ k < m, (states k).length = t → ∃ block : List Fr, block.length = 4 ∧
      states (k + 1) = (states k).take (4 * k) ++ block ++ (states k).drop (4 * k + 4) ∧
      Holds trace (start + k * 18) block ∧ ExternalLeafEquations trace 4 (start + k * 18) ∧
      ∀ l < 4, trace (start + k * 18 + 4 + l) = input.getD (4 * k + l) 0 := by
    intro k hk hlen
    obtain ⟨block, hleaf, hnext⟩ := agrees_bind.mp (hturn k hk)
    rw [agrees_pure] at hnext
    obtain ⟨hblock, hout, hin, hequations⟩ :=
      externalMatmulLeaf_agrees (.inr (.inr rfl)) (hslice hi hk) (hslice hlen hk) hleaf
    refine ⟨block, hblock, hnext.symm, hout, hequations, ?_⟩
    intro l hl
    rw [← slice_getD (n := 4) hl]
    exact hin.getD (by rw [hslice hi hk]; exact hl)
  have hinv : ∀ k ≤ m, (states k).length = t ∧
      ∀ b < k, ∀ l < 4, (states k).getD (4 * b + l) 0 = trace (start + b * 18 + l) := by
    intro k
    induction k with
    | zero =>
      intro _
      rw [hzero]
      exact ⟨hm, by simp⟩
    | succ k ih =>
      intro hk
      obtain ⟨hlen, hdone⟩ := ih (Nat.le_of_succ_le hk)
      obtain ⟨block, hblock, hnext, hout, -⟩ := hstep k hk hlen
      have htake : ((states k).take (4 * k)).length = 4 * k := by
        rw [List.length_take]
        omega
      constructor
      · rw [hnext]
        simp only [List.length_append, htake, hblock, List.length_drop, hlen]
        omega
      · intro b hb l hl
        rw [hnext, List.append_assoc]
        by_cases hbk : b = k
        · subst hbk
          rw [List.getD_append_right _ _ _ _ (by omega), htake, Nat.add_sub_cancel_left,
            List.getD_append _ _ _ _ (by omega)]
          exact (hout.getD (by omega)).symm
        · rw [List.getD_append _ _ _ _ (by omega), ← hdone b (by omega) l hl,
            List.getD_eq_getElem?_getD, List.getD_eq_getElem?_getD,
            List.getElem?_take_of_lt (by omega)]
  obtain ⟨hlen, hdone⟩ := hinv m (Nat.le_refl m)
  rw [hlast] at hlen hdone
  refine ⟨hlen, hdone, ?_⟩
  intro b hb
  obtain ⟨block, -, -, -, hequations, hin⟩ := hstep b hb (hinv b hb.le).1
  exact ⟨hequations, hin⟩

theorem externalMatmul_agrees {input out mds : List Fr} {base t : Nat} {r : List Fr × List Fr}
    (ht : t ∈ poseidon2SupportedWidths) (hi : input.length = t) (ho : out.length = t)
    (hm : mds.length = mdsLength t)
    (h : Agrees trace (externalMatmul plainOps input out mds base) r) :
    r.1.length = t ∧ Holds trace base r.1 ∧ Holds trace (base + t) input ∧
      ExternalEquations trace t base := by
  simp only [poseidon2SupportedWidths, List.mem_cons, List.not_mem_nil, or_false] at ht
  by_cases h4 : t ≤ 4
  · simp only [externalMatmul, hi, if_pos h4, pure_bind, agrees_bind, agrees_recordSlice,
      agrees_pure, exists_and_left, exists_const] at h
    obtain ⟨hin, o, hleaf, hout, rfl⟩ := h
    obtain ⟨hlen, hleafOut, hleafIn, hequations⟩ :=
      externalMatmulLeaf_agrees (by omega) hi ho hleaf
    have hwide : ∀ {P : Prop}, 4 < t → P := fun h => by omega
    refine ⟨hlen, hout, hin, ?_, fun _ => hequations, ?_, ?_, hwide, hwide, hwide, hwide, hwide⟩
    · have heq := hequations.out
      rw [signals_eq hleafOut hlen, signals_eq hleafIn hi] at heq
      rw [signals_eq hout hlen, signals_eq hin hi]
      exact heq
    · intro _ i hlt
      exact hleafIn.copy hin (hi.symm ▸ hlt)
    · intro _ i hlt
      exact hleafOut.copy hout (hlen.symm ▸ hlt)
  · have htm : t = 4 * (t / 4) := by omega
    have hml : mdsLength t = t := if_pos (by omega)
    rw [hml] at hm
    simp only [externalMatmul, hi, if_neg h4, agrees_bind, agrees_recordSlice, agrees_pure,
      exists_and_left, exists_const] at h
    obtain ⟨hin, done, hblocks, accOut, haccs, _, rfl, hout, rfl⟩ := h
    obtain ⟨hlen, hvalues, hleaves⟩ :=
      mdsBlocks_agrees (mdsStart t base) htm hi hm hblocks
    have hcolumn : ∀ l < 4, column l done =
        (List.range (t / 4)).map fun b => trace (mdsStart t base + b * 18 + l) := by
      intro l hl
      rw [column_eq hl (hlen.trans htm)]
      apply List.map_congr_left
      intro b hb
      exact hvalues b (List.mem_range.mp hb) l hl
    have hacc : ∀ l < 4, Agrees trace (acc plainOps (column l done)
        (base + 2 * t + l * accSignals (t / 4))) (accOut.getD l 0) := by
      intro l hl
      obtain ⟨hcount, hget⟩ := List.forall₂_iff_get.mp (agrees_mapM haccs)
      have hlt : l < accOut.length := by
        rw [← hcount, List.length_range]
        exact hl
      have hturn := hget l (by rw [List.length_range]; exact hl) hlt
      simp only [List.get_eq_getElem, List.getElem_range] at hturn
      rw [getD_eq_getElem hlt]
      exact hturn
    have hcolumnLen : ∀ l < 4, (column l done).length = t / 4 := by
      intro l hl
      rw [hcolumn l hl, List.length_map, List.length_range]
    have hcolumnSum : ∀ l < 4, (column l done).sum =
        ∑ b ∈ Finset.range (t / 4), trace (mdsStart t base + b * 18 + l) := by
      intro l hl
      rw [hcolumn l hl]
      rfl
    -- Each element of the result is its block's, plus its column's sum.
    have hover : overwrite out (done.zipIdx.map fun x =>
        plainOps.add x.1 (accOut.getD (x.2 % 4) plainOps.default)) =
        done.zipIdx.map fun x => plainOps.add x.1 (accOut.getD (x.2 % 4) plainOps.default) :=
      overwrite_eq (by rw [List.length_map, List.length_zipIdx, hlen, ho])
    dsimp only at hout ⊢
    rw [hover] at hout ⊢
    have hcombined : ∀ b < t / 4, ∀ l < 4, trace (base + (4 * b + l)) =
        trace (mdsStart t base + b * 18 + l) +
          trace (base + 2 * t + l * accSignals (t / 4)) := by
      intro b hb l hl
      have hlt : 4 * b + l < done.length := by omega
      rw [← hvalues b hb l hl, (acc_agrees (hacc l hl)).2.1]
      apply hout (4 * b + l)
      rw [List.getElem?_map, List.getElem?_zipIdx, List.getElem?_eq_getElem hlt]
      rw [getD_eq_getElem hlt, Option.map_some, Option.map_some, Nat.zero_add,
        show (4 * b + l) % 4 = l by omega]
      rfl
    refine ⟨by rw [List.length_map, List.length_zipIdx, hlen], hout, hin, ?_,
      fun h => absurd h h4, fun h => absurd h h4, fun h => absurd h h4, ?_, ?_, ?_, ?_, ?_⟩
    · have hmds : ∀ b < t / 4, ∀ l < 4, trace (mdsStart t base + b * 18 + l) =
          mdsValue (fun j => trace (base + t + j)) b l := by
        intro b hb l hl
        refine (hleaves b hb).1.mdsValue (fun k hk => ?_) hl
        rw [(hleaves b hb).2 k hk]
        exact (hin.getD (by omega)).symm
      funext i
      obtain ⟨i, hlt⟩ := i
      have hb : i / 4 < t / 4 := by omega
      have hl : i % 4 < 4 := Nat.mod_lt _ (by omega)
      have hi4 : i = 4 * (i / 4) + i % 4 := (Nat.div_add_mod i 4).symm
      generalize i / 4 = b at hb hi4
      generalize i % 4 = l at hl hi4
      subst hi4
      have hwide := externalMatrix_wide htm (by omega) (fun j => trace (base + t + j)) hl hb hlt
      refine Eq.trans ?_ hwide.symm
      show trace (base + (4 * b + l)) = _
      rw [hcombined b hb l hl, hmds b hb l hl, (acc_agrees (hacc l hl)).2.1,
        (acc_agrees (hacc l hl)).1, hcolumnSum l hl]
      congr 1
      apply Finset.sum_congr rfl
      intro b' hb'
      exact hmds b' (Finset.mem_range.mp hb') l hl
    · intro _ b hb
      exact (hleaves b hb).1
    · intro _ b hb l hl
      rw [(hleaves b hb).2 l hl]
      exact (hin.getD (by omega)).symm
    · intro _ l hl
      have h := (acc_agrees (hacc l hl)).2.2.2
      rw [hcolumnLen l hl] at h
      exact h
    · intro _ l hl b hb
      have h := (acc_agrees (hacc l hl)).2.2.1.getD (i := b) (by rw [hcolumnLen l hl]; exact hb)
      rw [h, hcolumn l hl, List.getD_eq_getElem?_getD, List.getElem?_map, List.getElem?_range hb]
      rfl
    · intro _
      exact hcombined

theorem internalMatmul_agrees {input out o : List Fr} {diag : List Fr} {base t : Nat}
    (ht : t ∈ poseidon2SupportedWidths) (hi : input.length = t) (ho : out.length = t)
    (hd : diag.length = if t < 4 then 0 else t)
    (h : Agrees trace (internalMatmul plainOps input diag out base) o) :
    o.length = t ∧ Holds trace base o ∧ Holds trace (base + t) input ∧
      InternalEquations trace t diag base := by
  simp only [poseidon2SupportedWidths, List.mem_cons, List.not_mem_nil, or_false] at ht
  have hover : ∀ xs : List Fr, xs.length = t → overwrite out xs = xs :=
    fun xs hxs => overwrite_eq (hxs.trans ho.symm)
  by_cases h23 : t = 2 ∨ t = 3
  · obtain ⟨x0, xs, rfl⟩ := List.exists_cons_of_length_pos (l := input) (by omega)
    simp only [internalMatmul, hi, if_pos h23, internalMatmulLeaf, agrees_bind,
      agrees_recordSlice, agrees_record, agrees_pure, exists_and_left, exists_const] at h
    -- The leaf records its ports, its sum and its result, and the parent both ports again.
    obtain ⟨hin, _, ⟨hleafOut, hleafIn, hsum, rfl⟩, hout, rfl⟩ := h
    have htotal : xs.foldl plainOps.add x0 = (x0 :: xs).sum := by
      rw [List.sum_eq_foldl, List.foldl_cons, zero_add]
      rfl
    rw [htotal] at hleafOut hsum hout ⊢
    generalize x0 :: xs = input at hi hin hleafIn hleafOut hsum hout ⊢
    rw [hover _ (by rw [List.length_map, List.length_zipIdx, hi])] at hleafOut hout ⊢
    have hlen : (input.zipIdx.map fun x =>
        if x.2 = t - 1 then plainOps.add (double plainOps x.1) input.sum
        else plainOps.add x.1 input.sum).length = t := by
      rw [List.length_map, List.length_zipIdx, hi]
    have hwide : ∀ {P : Prop}, 4 ≤ t → P := fun h => by omega
    refine ⟨hlen, hout, hin, ?_, ?_, ?_, ?_, hwide, hwide, hwide⟩
    · refine internalMatrix_holds hin hi hout hlen ?_
      intro i hlt
      have hlt' : i < input.length := by omega
      rw [getD_eq_getElem (by omega), getD_eq_getElem hlt', List.getElem_map, List.getElem_zipIdx,
        internalScale, if_pos h23]
      simp only [Nat.zero_add]
      by_cases hlast : i = t - 1
      · rw [if_pos hlast, if_pos hlast]
        simp only [plainOps, double]
        ring
      · rw [if_neg hlast, if_neg hlast, mul_one]
        rfl
    · intro _ i hlt
      exact hleafOut.copy hout (hlen.symm ▸ hlt)
    · intro _ i hlt
      exact hleafIn.copy hin (hi.symm ▸ hlt)
    · intro _
      rw [hsum, ← hin.sum, hi]
  · simp only [internalMatmul, hi, if_neg h23, agrees_bind,
      agrees_recordSlice, agrees_record, agrees_pure, exists_and_left, exists_const] at h
    -- The sum comes from an accumulator, and the result is the diagonal's product added to it.
    obtain ⟨hin, v, hacc, hown, _, rfl, hout, rfl⟩ := h
    obtain ⟨hv, hbase, haccIn, hequations⟩ := acc_agrees hacc
    rw [if_neg (by omega)] at hd
    rw [hover _ (by rw [List.length_map, List.length_zip, hi, hd, Nat.min_self])] at hout ⊢
    have hlen : ((input.zip diag).map fun x =>
        plainOps.add (plainOps.mulPublic x.1 x.2) v).length = t := by
      rw [List.length_map, List.length_zip, hi, hd, Nat.min_self]
    have hsmall : ∀ {P : Prop}, t < 4 → P := fun h => by omega
    rw [hi] at hequations
    refine ⟨hlen, hout, hin, ?_, hsmall, hsmall, hsmall, ?_, fun _ => hequations, ?_⟩
    · refine internalMatrix_holds hin hi hout hlen ?_
      intro i hlt
      rw [getD_eq_getElem (by omega), getD_eq_getElem (by omega), List.getElem_map,
        List.getElem_zip, internalScale, if_neg h23, getD_eq_getElem (by omega), ← hv]
      rfl
    · intro _
      rw [hown, hbase]
    · intro _ i hlt
      exact haccIn.copy hin (hi.symm ▸ hlt)
/-! ## The rounds -/

theorem agrees_fst {x : Traced Fr (α × β)} {a : α} (h : Agrees trace (Prod.fst <$> x) a) :
    ∃ b, Agrees trace x (a, b) := by
  rw [map_eq_pure_bind, agrees_bind] at h
  obtain ⟨⟨a', b⟩, hx, heq⟩ := h
  have : a' = a := agrees_pure.mp heq
  subst this
  exact ⟨b, hx⟩

/-- One `Sbox_e` block. -/
theorem recordSboxE_agrees {base : Nat} {x : Fr} {u : Unit}
    (h : Agrees trace (recordSboxE base x (plainSbox x)) u) :
    SboxEquations trace base ∧ trace (base + 1) = x ∧ trace base = (plainSbox x).out := by
  have hholds := agrees_recordSlice.mp h
  have hout : trace base = (plainSbox x).out := hholds 0 _ rfl
  have hin : trace (base + 1) = x := hholds 1 _ rfl
  have hsquare : trace (base + 2) = (plainSbox x).square := hholds 2 _ rfl
  have hpow : trace (base + 3) = (plainSbox x).pow4 := hholds 3 _ rfl
  refine ⟨⟨?_, ?_, ?_⟩, hin, hout⟩
  · rw [hsquare, hin, pow_two]
    rfl
  · rw [hpow, hsquare, pow_two]
    rfl
  · rw [hout, hpow, hin]
    rfl

/-- What the matrix of a block does, read off copies of its ports. -/
theorem ExternalEquations.copied {t base inStart outStart : Nat}
    (h : ExternalEquations trace t base)
    (hin : ∀ i < t, trace (base + t + i) = trace (inStart + i))
    (hout : ∀ i < t, trace (base + i) = trace (outStart + i)) :
    signals trace outStart t = (externalMatrix t).mulVec (signals trace inStart t) := by
  have hin' : signals trace (base + t) t = signals trace inStart t := funext fun i => hin i i.isLt
  have hout' : signals trace base t = signals trace outStart t := funext fun i => hout i i.isLt
  rw [← hin', ← hout', h.out]

theorem siteFull_agrees {t : Nat} {roundRc state next : List Fr} {layoutRound row : Nat}
    (ht : t ∈ poseidon2SupportedWidths) (hrc : roundRc.length = t) (hs : state.length = t)
    (hrow : Holds trace (stateStart t row) state)
    (h : Agrees trace (siteFull t roundRc layoutRound (row + 1) state) next) :
    next.length = t ∧ Holds trace (stateStart t (row + 1)) next ∧
      FullRoundEquations trace t roundRc
        ((Layout.new t).full + layoutRound * fullRoundSignals t) row := by
  obtain ⟨buffers, h⟩ := agrees_fst h
  simp only [fullRoundSite, agrees_bind, agrees_recordSlice, agrees_pure, exists_and_left,
    exists_const] at h
  generalize (Layout.new t).full + layoutRound * fullRoundSignals t = base at h ⊢
  have hlen : ((state.zip roundRc).map fun x => plainOps.addPublic x.1 x.2).length = t := by
    rw [List.length_map, List.length_zip, hs, hrc, Nat.min_self]
  have hget : ∀ i < t, ((state.zip roundRc).map fun x => plainOps.addPublic x.1 x.2).getD i 0 =
      state.getD i 0 + roundRc.getD i 0 := by
    intro i hi
    rw [getD_eq_getElem (by omega), getD_eq_getElem (by omega), getD_eq_getElem (by omega),
      List.getElem_map, List.getElem_zip]
    rfl
  -- What enters the s-boxes is opaque from here, given its elements.
  generalize (state.zip roundRc).map (fun x => plainOps.addPublic x.1 x.2) = linear
    at h hlen hget
  have hover : overwrite (freshBuffers t).sboxOut ((linear.map plainSbox).map (·.out)) =
      (linear.map plainSbox).map (·.out) :=
    overwrite_eq (by rw [List.length_map, List.length_map, hlen, (freshBuffers_fit t).sboxOut])
  rw [hover] at h
  obtain ⟨r, hmatrix, hout, hin, hconst, hlinear, hsbox, hsboxOut, hsboxIn, _, hsboxes, hnext,
    hend⟩ := h
  cases hend
  have houts : ((linear.map plainSbox).map (·.out)).length = t := by
    rw [List.length_map, List.length_map, hlen]
  obtain ⟨hnextLen, hmatrixOut, hmatrixIn, hmatrixEquations⟩ :=
    externalMatmul_agrees ht houts (freshBuffers_fit t).next (freshBuffers_fit t).mdsOut hmatrix
  -- Each s-box solves its own equations between its ports.
  have hone : ∀ i < t, SboxEquations trace (sboxStart t base + 2 * t + i * sboxESignals) ∧
      trace (sboxStart t base + 2 * t + i * sboxESignals + 1) = linear.getD i 0 ∧
      trace (sboxStart t base + 2 * t + i * sboxESignals) =
        ((linear.map plainSbox).map (·.out)).getD i 0 := by
    intro i hi
    obtain ⟨hcount, hturn⟩ := List.forall₂_iff_get.mp (agrees_mapM hsboxes)
    have hlt : i < ((linear.map plainSbox).zip linear).zipIdx.length := by
      rw [List.length_zipIdx, List.length_zip, List.length_map, hlen, Nat.min_self]
      exact hi
    have hturn := hturn i hlt (hcount ▸ hlt)
    simp only [List.get_eq_getElem, List.getElem_zipIdx, List.getElem_zip, List.getElem_map,
      Nat.zero_add] at hturn
    obtain ⟨hequations, hinput, houtput⟩ := recordSboxE_agrees hturn
    refine ⟨hequations, ?_, ?_⟩
    · rw [getD_eq_getElem (by omega)]
      exact hinput
    · rw [getD_eq_getElem (by omega), List.getElem_map, List.getElem_map]
      exact houtput
  -- The matrix's ports are copies of the s-boxes' outputs and of the round's own output.
  have hmatrixIn' : ∀ i < t, trace (base + 5 * t + t + i) = trace (base + 4 * t + i) :=
    fun i hi => hmatrixIn.copy hsbox (houts.symm ▸ hi)
  have hmatrixOut' : ∀ i < t, trace (base + 5 * t + i) = trace (base + i) :=
    fun i hi => hmatrixOut.copy hout (hnextLen.symm ▸ hi)
  refine ⟨hnextLen, hnext, ?_⟩
  exact {
    input := fun i hi => hin.copy hrow (hs.symm ▸ hi)
    constants := fun i hi => by
      rw [hconst.getD (by rw [List.length_map, hrc]; exact hi), List.getD_eq_getElem?_getD,
        List.getD_eq_getElem?_getD, List.getElem?_map]
      cases roundRc[i]? <;> rfl
    linear := fun i hi => by
      rw [hlinear.getD (by omega), hin.getD (by omega),
        hconst.getD (by rw [List.length_map, hrc]; exact hi), hget i hi]
      congr 1
      rw [List.getD_eq_getElem?_getD, List.getD_eq_getElem?_getD, List.getElem?_map]
      cases roundRc[i]? <;> rfl
    sboxes := fun i hi => (hone i hi).1
    sboxesIn := fun i hi => by rw [(hone i hi).2.1, hlinear.getD (by omega)]
    sboxesOut := fun i hi => by rw [(hone i hi).2.2, hsbox.getD (by omega)]
    sboxIn := fun i hi => hsboxIn.copy hlinear (hlen.symm ▸ hi)
    sboxOut := fun i hi => hsboxOut.copy hsbox (houts.symm ▸ hi)
    matrix := hmatrixEquations
    matrixIn := hmatrixIn'
    matrixOut := hmatrixOut'
    out := hmatrixEquations.copied hmatrixIn' hmatrixOut'
    next := fun i hi => hnext.copy hout (hnextLen.symm ▸ hi) }

theorem sitePartial_agrees {t : Nat} {rc : RoundConstants t} {round row : Nat}
    {state next : List Fr} (ht : t ∈ poseidon2SupportedWidths) (hs : state.length = t)
    (hround : row = 4 + round) (hrow : Holds trace (stateStart t row) state)
    (h : Agrees trace (sitePartial t rc round state) next) :
    next.length = t ∧ Holds trace (stateStart t (row + 1)) next ∧
      PartialRoundEquations trace t (rc.partialRc.getD round 0) rc.diag
        ((Layout.new t).partials + round * partialRoundSignals t) row := by
  have hpos : 0 < t := Poseidon2Width.pos ⟨t, ht⟩
  obtain ⟨buffers, h⟩ := agrees_fst h
  simp only [partialRoundSite, agrees_bind, agrees_recordSlice, agrees_record, agrees_pure,
    exists_and_left, exists_const] at h
  rw [show 5 + round = row + 1 by omega] at h
  generalize (Layout.new t).partials + round * partialRoundSignals t = base at h ⊢
  have hx : plainOps.addPublic (state.getD 0 0) (rc.partialRc.getD round 0) =
      state.getD 0 0 + rc.partialRc.getD round 0 := rfl
  generalize plainOps.addPublic (state.getD 0 0) (rc.partialRc.getD round 0) = x at h hx
  have hlen : ((plainSbox x).out :: state.drop 1).length = t := by
    rw [List.length_cons, List.length_drop, hs]
    omega
  rw [overwrite_eq (hlen.trans (freshBuffers_fit t).sboxOut.symm)] at h
  -- Only the first element goes through an s-box; the others are carried over.
  obtain ⟨o, hmatrix, hout, hin, hconst, hlinear, hsbox, _, hsboxe, hnext, hend⟩ := h
  cases hend
  obtain ⟨hnextLen, hmatrixOut, hmatrixIn, hmatrixEquations⟩ :=
    internalMatmul_agrees ht hlen (freshBuffers_fit t).next rc.diag_length hmatrix
  obtain ⟨hsboxEquations, hsboxIn, hsboxOut⟩ := recordSboxE_agrees hsboxe
  have hin0 : trace (base + t) = state.getD 0 0 := hin.getD (i := 0) (by omega)
  -- So the matrix reads the s-box's output at zero and the round's input elsewhere.
  have hmatrixIn' : ∀ i < t, trace (internalStart t base + t + i) =
      if i = 0 then trace (base + 2 * t + 2) else trace (base + t + i) := by
    intro i hi
    have hvalue : trace (internalStart t base + t + i) = _ := hmatrixIn.getD (by omega)
    rw [hvalue]
    cases i with
    | zero => rw [if_pos rfl, hsbox, List.getD_cons_zero]
    | succ i =>
      rw [if_neg (Nat.succ_ne_zero i), hin.getD (by omega), List.getD_cons_succ,
        List.getD_eq_getElem?_getD, List.getElem?_drop, List.getD_eq_getElem?_getD, Nat.add_comm 1 i]
  have hmatrixOut' : ∀ i < t, trace (internalStart t base + i) = trace (base + i) :=
    fun i hi => hmatrixOut.copy hout (hnextLen.symm ▸ hi)
  refine ⟨hnextLen, hnext, ?_⟩
  exact {
    input := fun i hi => hin.copy hrow (hs.symm ▸ hi)
    constant := hconst
    linear := by
      rw [hlinear, hin0, hconst]
      exact hx
    sboxes := hsboxEquations
    sboxesIn := by rw [hsboxIn, hlinear]
    sboxesOut := by rw [hsboxOut, hsbox]
    matrix := hmatrixEquations
    matrixIn := hmatrixIn'
    matrixOut := hmatrixOut'
    out := by
      have hin'' : signals trace (internalStart t base + t) t = fun i : Fin t =>
          if i.val = 0 then trace (base + 2 * t + 2) else trace (base + t + i) :=
        funext fun i => hmatrixIn' i i.isLt
      have hout'' : signals trace (internalStart t base) t = signals trace base t :=
        funext fun i => hmatrixOut' i i.isLt
      rw [← hin'', ← hout'']
      exact hmatrixEquations.out
    next := fun i hi => hnext.copy hout (hnextLen.symm ▸ hi) }

/-- A group of rounds, from state row `first` on: the row after each is its state. -/
theorem rounds_agrees (first : Nat) (Equations : Nat → Prop) {t n : Nat}
    {f : List Fr → Nat → Traced Fr (List Fr)} {state state' : List Fr} (hs : state.length = t)
    (hrow : Holds trace (stateStart t first) state)
    (hturn : ∀ r < n, ∀ state next : List Fr, state.length = t →
      Holds trace (stateStart t (first + r)) state → Agrees trace (f state r) next →
      next.length = t ∧ Holds trace (stateStart t (first + r + 1)) next ∧ Equations r)
    (h : Agrees trace ((List.range n).foldlM f state) state') :
    state'.length = t ∧ Holds trace (stateStart t (first + n)) state' ∧ ∀ r < n, Equations r := by
  obtain ⟨states, hzero, hlast, hrounds⟩ := agrees_foldlM h
  -- Induction on the rounds made: the next one finds its state in the row before its own.
  have hinv : ∀ k ≤ n, (states k).length = t ∧ Holds trace (stateStart t (first + k)) (states k) := by
    intro k
    induction k with
    | zero =>
      intro _
      rw [hzero]
      exact ⟨hs, hrow⟩
    | succ k ih =>
      intro hk
      obtain ⟨hlen, hholds⟩ := ih (Nat.le_of_succ_le hk)
      obtain ⟨hlen', hholds', -⟩ := hturn k hk _ _ hlen hholds (hrounds k hk)
      exact ⟨hlen', hholds'⟩
  refine ⟨hlast ▸ (hinv n (Nat.le_refl n)).1, hlast ▸ (hinv n (Nat.le_refl n)).2, ?_⟩
  intro r hr
  obtain ⟨hlen, hholds⟩ := hinv r hr.le
  exact (hturn r hr _ _ hlen hholds (hrounds r hr)).2.2

/-- **A trace that agrees with a site's walk solves the circuit.** -/
theorem siteWalk_agrees {t : Nat} {rc : RoundConstants t} {input state : List Fr}
    (ht : t ∈ poseidon2SupportedWidths) (hi : input.length = t)
    (h : Agrees trace (siteWalk t rc input) state) : PermutationEquations trace t rc input := by
  simp only [siteWalk, initSite, agrees_bind, agrees_recordSlice, agrees_pure,
    exists_and_left, exists_const] at h
  obtain ⟨_, ⟨r, hinit, hrow, rfl⟩, state1, hfull1, state2, hpartials, state3, hfull2, hout, rfl⟩ := h
  -- The initial matrix, whose result is the first row.
  obtain ⟨hlen0, hmatrixOut, hmatrixIn, hmatrix⟩ := externalMatmul_agrees ht hi
    List.length_replicate List.length_replicate hinit
  have hrow0 : Holds trace (stateStart t 0) r.1 := by
    rw [stateStart, Nat.zero_mul]
    exact hrow
  -- Four full rounds, the partial rounds and four full rounds more, each from the row the last left.
  obtain ⟨hlen1, hrow1, hequations1⟩ := rounds_agrees 0
    (fun r => FullRoundEquations trace t (slice rc.full1 (r * t) ((r + 1) * t))
      ((Layout.new t).full + r * fullRoundSignals t) r) hlen0 hrow0
    (fun r hr state next hs hrow h => by
      rw [Nat.zero_add] at hrow ⊢
      exact siteFull_agrees ht (roundRc_length rc.full1_length hr) hs hrow h) hfull1
  obtain ⟨hlen2, hrow2, hequations2⟩ := rounds_agrees 4
    (fun r => PartialRoundEquations trace t (rc.partialRc.getD r 0) rc.diag
      ((Layout.new t).partials + r * partialRoundSignals t) (4 + r)) hlen1 hrow1
    (fun r _ state next hs hrow h => sitePartial_agrees ht hs rfl hrow h) hpartials
  obtain ⟨hlen3, hrow3, hequations3⟩ := rounds_agrees (4 + partialRounds t)
    (fun r => FullRoundEquations trace t (slice rc.full2 (r * t) ((r + 1) * t))
      ((Layout.new t).full + (4 + r) * fullRoundSignals t) (4 + partialRounds t + r)) hlen2 hrow2
    (fun r hr state next hs hrow h => by
      rw [show 5 + partialRounds t + r = 4 + partialRounds t + r + 1 by omega] at h
      exact siteFull_agrees ht (roundRc_length rc.full2_length hr) hs hrow h) hfull2
  have hmatrixIn' : ∀ i < t, trace ((Layout.new t).initialMatmul + t + i) = input.getD i 0 :=
    fun i hlt => hmatrixIn.getD (hi.symm ▸ hlt)
  have hmatrixOut' : ∀ i < t, trace ((Layout.new t).initialMatmul + i) =
      trace (stateStart t 0 + i) := fun i hlt => hmatrixOut.copy hrow0 (hlen0.symm ▸ hlt)
  exact {
    initial := by
      have hin : signals trace ((Layout.new t).initialMatmul + t) t = fun i : Fin t =>
          input.getD i 0 := funext fun i => hmatrixIn' i i.isLt
      have hout' : signals trace (Layout.new t).initialMatmul t = signals trace (stateStart t 0) t :=
        funext fun i => hmatrixOut' i i.isLt
      rw [← hout', ← hin]
      exact hmatrix.out
    matrix := hmatrix
    matrixIn := hmatrixIn'
    matrixOut := hmatrixOut'
    full1 := hequations1
    partials := hequations2
    full2 := hequations3
    out := fun i hlt => by
      rw [show 8 + partialRounds t = 4 + partialRounds t + 4 by omega, ← Nat.zero_add i,
        hout.copy hrow3 (hlen3.symm ▸ hlt), Nat.zero_add] }

end Blocks

/-! ## The trace of one site -/

/-- A slot recorded once reads back what was recorded. -/
theorem valueAt_of_mem {zero : V} {log : Log V} (hnodup : (log.map (·.1)).Nodup) {e : Nat × V}
    (he : e ∈ log) : valueAt zero log e.1 = e.2 := by
  obtain ⟨before, after, rfl⟩ := List.append_of_mem he
  have hfresh : ∀ p ∈ before, e.1 ≠ p.1 := by
    intro p hp heq
    rw [List.map_append, List.nodup_append'] at hnodup
    refine List.disjoint_left.mp hnodup.2.2 (List.mem_map_of_mem hp) ?_
    rw [← heq]
    exact List.mem_cons_self
  have hlookup : (before ++ e :: after).lookup e.1 = some e.2 := by
    rw [List.lookup_eq_some_iff]
    exact ⟨before, after, rfl, fun p hp => by simpa using hfresh p hp⟩
  rw [valueAt, hlookup, Option.getD_some]

/-- **A Poseidon2 trace satisfies the round equations in the circuit's layout.** The walk of one
    site records every slot of the layout exactly once, its sink ends full, and the values in it
    solve the circuit. -/
theorem walk_satisfies_rounds (w : Poseidon2Width) (rc : RoundConstants w.get) (input : List Fr)
    (hi : input.length = w.get) :
    ∃ (state values : List Fr) (log : Log Fr),
      siteWalk w.get rc input = .ok (state, log) ∧
      (log.map (·.1)).Perm (List.range (resultSlots w.get)) ∧
      values.length = resultSlots w.get ∧
      walk plainOps w.get input rc
          [SiteOutput.new none (List.replicate (resultSlots w.get) 0)] () =
        .ok ([{ positions := none
                head := []
                values
                written := List.replicate (resultSlots w.get) true }], ()) ∧
      PermutationEquations (fun slot => values.getD slot 0) w.get rc input := by
  obtain ⟨state, log, hwalk, hkeys, -⟩ := siteWalk_writes rc w.supported hi
  have hlog : siteLog w.get rc input = log := by
    unfold siteLog
    rw [hwalk]
  have hdone : SiteDone w.get rc
      (input, SiteOutput.new none (List.replicate (List.range (resultSlots w.get)).length 0))
      (filled 0 none (List.range (resultSlots w.get)) (siteLog w.get rc input)) :=
    siteDone_filled w.supported hi routes_full List.nodup_range fun k hk => List.mem_range.mp hk
  rw [List.length_range, hlog] at hdone
  have hinputs : ∀ x ∈ [input], x.length = w.get := by simpa using hi
  have hsites : List.Forall₂ (SiteDone w.get rc)
      ([input].zip [SiteOutput.new none (List.replicate (resultSlots w.get) 0)])
      [filled 0 none (List.range (resultSlots w.get)) log] := .cons hdone .nil
  have hrun := walk_eq_ok w.supported rfl hinputs hsites
  have hwritten : (List.range (resultSlots w.get)).map (fun k => decide (k ∈ log.map (·.1))) =
      List.replicate (resultSlots w.get) true := by
    rw [List.eq_replicate_iff]
    refine ⟨by rw [List.length_map, List.length_range], ?_⟩
    intro b hb
    obtain ⟨k, hk, rfl⟩ := List.mem_map.mp hb
    exact decide_eq_true (hkeys.mem_iff.mpr hk)
  refine ⟨state, (List.range (resultSlots w.get)).map (valueAt 0 log), log, hwalk, hkeys,
    by rw [List.length_map, List.length_range], ?_, ?_⟩
  · rw [List.flatten_cons, List.flatten_nil, List.append_nil] at hrun
    rw [hrun, ← hwritten]
    rfl
  · refine siteWalk_agrees w.supported hi ⟨log, hwalk, ?_⟩
    intro e he
    have hlt : e.1 < resultSlots w.get :=
      List.mem_range.mp (hkeys.mem_iff.mp (List.mem_map_of_mem he))
    show List.getD _ e.1 0 = e.2
    rw [List.getD_eq_getElem?_getD, List.getElem?_map, List.getElem?_range hlt, Option.map_some,
      Option.getD_some]
    exact valueAt_of_mem (hkeys.nodup_iff.mpr List.nodup_range) he

theorem walk_satisfies_rounds_two : ∃ (state values : List Fr) (log : Log Fr),
    siteWalk 2 ((default : Host).constants ⟨2, by decide⟩) [5, 7] = .ok (state, log) ∧
      (log.map (·.1)).Perm (List.range (resultSlots 2)) ∧ values.length = resultSlots 2 := by
  obtain ⟨state, values, log, hwalk, hkeys, hlen, -⟩ :=
    walk_satisfies_rounds ⟨2, by decide⟩ ((default : Host).constants ⟨2, by decide⟩) [5, 7] rfl
  exact ⟨state, values, log, hwalk, hkeys, hlen⟩

end Poseidon2
end CircomMpc
