import Mathlib.LinearAlgebra.Matrix.Notation
import Mathlib.Algebra.BigOperators.Fin
import CircomMpc.Gadgets.Poseidon2Reads

/-!
# The Poseidon2 circuit over its signal layout

What `poseidon2.circom` constrains, position by position: a block per template instance,
`[out][in][…]`, and inside it the blocks of its subcomponents. `PermutationEquations` is the whole
template over a trace; every block's structure has its own constraints and the copies between its
ports and its parent's.

The linear layers are matrices here. The second half of the module is how each of them is computed
by additions: the sum of two or three elements, the four-element matrix's ten named intermediates,
and column sums of four-element blocks for a wide state.
-/

namespace CircomMpc
namespace Poseidon2

open Lib

/-! ## The two matrices -/

/-- The four-element matrix. -/
def m4 : Matrix (Fin 4) (Fin 4) Fr :=
  (!![5, 7, 1, 3;
      4, 6, 1, 1;
      1, 3, 5, 7;
      1, 1, 4, 6] : Matrix (Fin 4) (Fin 4) Nat).map Nat.cast

/-- The external matrix: `x_i + sum` for two and three elements, `m4` for four, and
    `circ(2 m4, m4, …, m4)` from eight on. -/
def externalMatrix (t : Nat) : Matrix (Fin t) (Fin t) Fr :=
  Matrix.of fun i j =>
    if t = 2 ∨ t = 3 then if i = j then 2 else 1
    else
      let entry := m4 (Fin.ofNat 4 i) (Fin.ofNat 4 j)
      if t = 4 then entry
      else if i.val / 4 = j.val / 4 then 2 * entry else entry

/-- The internal matrix: every element plus the sum, after a scaling that doubles the last of two or
    three elements and is the width's diagonal from four on. -/
def internalMatrix (t : Nat) (diag : List Fr) : Matrix (Fin t) (Fin t) Fr :=
  Matrix.of fun i j =>
    if i = j then
      (if t = 2 ∨ t = 3 then if i.val = t - 1 then 2 else 1 else diag.getD i 0) + 1
    else 1

/-- The `n` signals from slot `start` on, as a vector. -/
def signals (trace : Nat → Fr) (start n : Nat) : Fin n → Fr := fun i => trace (start + i)

/-! ## The circuit over the layout -/

/-- `Acc(n)`: `[out][in[n]][sums[n]]`. -/
structure AccEquations (trace : Nat → Fr) (n base : Nat) : Prop where
  sums : ∀ i < n, trace (base + 1 + n + i) = ∑ j ∈ Finset.range (i + 1), trace (base + 1 + j)
  out : trace base = ∑ j ∈ Finset.range n, trace (base + 1 + j)

/-- `ExternalMatMul2`/`3`: `[out[t]][in[t]][sum]`; `ExternalMatMul4`: `[out[4]][in[4]]` and its ten
    intermediates. -/
structure ExternalLeafEquations (trace : Nat → Fr) (t base : Nat) : Prop where
  out : signals trace base t = (externalMatrix t).mulVec (signals trace (base + t) t)
  sum : t ≠ 4 → trace (base + 2 * t) = ∑ j ∈ Finset.range t, trace (base + t + j)
  double_in1 : t = 4 → trace (base + 8) = 2 * trace (base + 5)
  double_in3 : t = 4 → trace (base + 9) = 2 * trace (base + 7)
  t_0 : t = 4 → trace (base + 10) = trace (base + 4) + trace (base + 5)
  t_1 : t = 4 → trace (base + 11) = trace (base + 6) + trace (base + 7)
  quad_t_0 : t = 4 → trace (base + 12) = 4 * trace (base + 10)
  quad_t_1 : t = 4 → trace (base + 13) = 4 * trace (base + 11)
  t_2 : t = 4 → trace (base + 14) = trace (base + 8) + trace (base + 11)
  t_3 : t = 4 → trace (base + 15) = trace (base + 9) + trace (base + 10)
  t_4 : t = 4 → trace (base + 16) = trace (base + 13) + trace (base + 15)
  t_5 : t = 4 → trace (base + 17) = trace (base + 12) + trace (base + 14)

/-- Where the `ExternalMatMul4` blocks of a wide `ExternalMatMulT` start. -/
def mdsStart (t base : Nat) : Nat := base + 2 * t + 4 * accSignals (t / 4)

/-- `ExternalMatMulT(t)`: `[out[t]][in[t]]`, then one leaf, or four `Acc`s and a leaf for every four
    elements. -/
structure ExternalEquations (trace : Nat → Fr) (t base : Nat) : Prop where
  out : signals trace base t = (externalMatrix t).mulVec (signals trace (base + t) t)
  leaf : t ≤ 4 → ExternalLeafEquations trace t (base + 2 * t)
  leafIn : t ≤ 4 → ∀ i < t, trace (base + 2 * t + t + i) = trace (base + t + i)
  leafOut : t ≤ 4 → ∀ i < t, trace (base + 2 * t + i) = trace (base + i)
  mds : 4 < t → ∀ b < t / 4, ExternalLeafEquations trace 4 (mdsStart t base + b * 18)
  mdsIn : 4 < t → ∀ b < t / 4, ∀ l < 4,
    trace (mdsStart t base + b * 18 + 4 + l) = trace (base + t + (4 * b + l))
  accs : 4 < t → ∀ l < 4,
    AccEquations trace (t / 4) (base + 2 * t + l * accSignals (t / 4))
  accsIn : 4 < t → ∀ l < 4, ∀ b < t / 4,
    trace (base + 2 * t + l * accSignals (t / 4) + 1 + b) = trace (mdsStart t base + b * 18 + l)
  combined : 4 < t → ∀ b < t / 4, ∀ l < 4, trace (base + (4 * b + l)) =
    trace (mdsStart t base + b * 18 + l) + trace (base + 2 * t + l * accSignals (t / 4))

/-- `InternalMatMulT(t)`: `[out[t]][in[t]]`, then `InternalMatMul2`/`3`'s `[out[t]][in[t]][sum]`, or
    `[acc]` and an `Acc(t)`. -/
structure InternalEquations (trace : Nat → Fr) (t : Nat) (diag : List Fr) (base : Nat) : Prop where
  out : signals trace base t = (internalMatrix t diag).mulVec (signals trace (base + t) t)
  leafOut : t < 4 → ∀ i < t, trace (base + 2 * t + i) = trace (base + i)
  leafIn : t < 4 → ∀ i < t, trace (base + 2 * t + t + i) = trace (base + t + i)
  sum : t < 4 → trace (base + 2 * t + 2 * t) = ∑ j ∈ Finset.range t, trace (base + t + j)
  acc : 4 ≤ t → trace (base + 2 * t) = trace (base + 2 * t + 1)
  accs : 4 ≤ t → AccEquations trace t (base + 2 * t + 1)
  accsIn : 4 ≤ t → ∀ i < t, trace (base + 2 * t + 1 + 1 + i) = trace (base + t + i)

/-- `Sbox_e`: `[out][in][square][pow_4]`. -/
structure SboxEquations (trace : Nat → Fr) (base : Nat) : Prop where
  square : trace (base + 2) = trace (base + 1) ^ 2
  pow_4 : trace (base + 3) = trace (base + 2) ^ 2
  out : trace base = trace (base + 3) * trace (base + 1)

/-- Where row `r` of the state table starts. -/
def stateStart (t r : Nat) : Nat := (Layout.new t).states + r * t

/-- Where the `Sbox(t)` of a full round's block starts. -/
def sboxStart (t base : Nat) : Nat := base + 5 * t + externalMatmulSignals t

/-- `FullRound(t)` from state row `row`: `[out[t]][in[t]][RC[t]][linear_layer[t]][sbox[t]]`, its
    `ExternalMatMulT`, then its `Sbox(t)`'s `[out[t]][in[t]]` and `t` times `Sbox_e`. -/
structure FullRoundEquations (trace : Nat → Fr) (t : Nat) (roundRc : List Fr) (base row : Nat) :
    Prop where
  input : ∀ i < t, trace (base + t + i) = trace (stateStart t row + i)
  constants : ∀ i < t, trace (base + 2 * t + i) = roundRc.getD i 0
  linear : ∀ i < t, trace (base + 3 * t + i) = trace (base + t + i) + trace (base + 2 * t + i)
  sboxes : ∀ i < t, SboxEquations trace (sboxStart t base + 2 * t + i * sboxESignals)
  sboxesIn : ∀ i < t,
    trace (sboxStart t base + 2 * t + i * sboxESignals + 1) = trace (base + 3 * t + i)
  sboxesOut : ∀ i < t,
    trace (sboxStart t base + 2 * t + i * sboxESignals) = trace (base + 4 * t + i)
  sboxIn : ∀ i < t, trace (sboxStart t base + t + i) = trace (base + 3 * t + i)
  sboxOut : ∀ i < t, trace (sboxStart t base + i) = trace (base + 4 * t + i)
  matrix : ExternalEquations trace t (base + 5 * t)
  matrixIn : ∀ i < t, trace (base + 5 * t + t + i) = trace (base + 4 * t + i)
  matrixOut : ∀ i < t, trace (base + 5 * t + i) = trace (base + i)
  out : signals trace base t = (externalMatrix t).mulVec (signals trace (base + 4 * t) t)
  next : ∀ i < t, trace (stateStart t (row + 1) + i) = trace (base + i)

/-- Where the `InternalMatMulT` of a partial round's block starts. -/
def internalStart (t base : Nat) : Nat := base + 2 * t + 3 + sboxESignals

/-- `PartialRound(t)` from state row `row`: `[out[t]][in[t]][RC][linear_layer][sbox]`, one `Sbox_e`,
    and its `InternalMatMulT`. -/
structure PartialRoundEquations (trace : Nat → Fr) (t : Nat) (c : Fr) (diag : List Fr)
    (base row : Nat) : Prop where
  input : ∀ i < t, trace (base + t + i) = trace (stateStart t row + i)
  constant : trace (base + 2 * t) = c
  linear : trace (base + 2 * t + 1) = trace (base + t) + trace (base + 2 * t)
  sboxes : SboxEquations trace (base + 2 * t + 3)
  sboxesIn : trace (base + 2 * t + 3 + 1) = trace (base + 2 * t + 1)
  sboxesOut : trace (base + 2 * t + 3) = trace (base + 2 * t + 2)
  matrix : InternalEquations trace t diag (internalStart t base)
  matrixIn : ∀ i < t, trace (internalStart t base + t + i) =
    if i = 0 then trace (base + 2 * t + 2) else trace (base + t + i)
  matrixOut : ∀ i < t, trace (internalStart t base + i) = trace (base + i)
  out : signals trace base t = (internalMatrix t diag).mulVec fun i =>
    if i.val = 0 then trace (base + 2 * t + 2) else trace (base + t + i)
  next : ∀ i < t, trace (stateStart t (row + 1) + i) = trace (base + i)

/-- `Poseidon2(t)` on `input`: `[out[t]]`, the state table, the first `ExternalMatMulT`, the eight
    full rounds and the partial rounds. -/
structure PermutationEquations (trace : Nat → Fr) (t : Nat) (rc : RoundConstants t)
    (input : List Fr) : Prop where
  initial : signals trace (stateStart t 0) t =
    (externalMatrix t).mulVec fun i => input.getD i 0
  matrix : ExternalEquations trace t (Layout.new t).initialMatmul
  matrixIn : ∀ i < t, trace ((Layout.new t).initialMatmul + t + i) = input.getD i 0
  matrixOut : ∀ i < t, trace ((Layout.new t).initialMatmul + i) = trace (stateStart t 0 + i)
  full1 : ∀ r < 4, FullRoundEquations trace t (slice rc.full1 (r * t) ((r + 1) * t))
    ((Layout.new t).full + r * fullRoundSignals t) r
  partials : ∀ r < partialRounds t, PartialRoundEquations trace t (rc.partialRc.getD r 0) rc.diag
    ((Layout.new t).partials + r * partialRoundSignals t) (4 + r)
  full2 : ∀ r < 4, FullRoundEquations trace t (slice rc.full2 (r * t) ((r + 1) * t))
    ((Layout.new t).full + (4 + r) * fullRoundSignals t) (4 + partialRounds t + r)
  out : ∀ i < t, trace i = trace (stateStart t (8 + partialRounds t) + i)
/-! ## Signals of known value -/

theorem Holds.sum_take {trace : Nat → Fr} {start : Nat} {values : List Fr}
    (h : Holds trace start values) : ∀ {n : Nat}, n ≤ values.length →
      ∑ j ∈ Finset.range n, trace (start + j) = (values.take n).sum := by
  intro n
  induction n with
  | zero => intro _; simp
  | succ n ih =>
    intro hn
    rw [Finset.sum_range_succ, ih (Nat.le_of_succ_le hn), h.getElem hn, List.sum_take_succ]

theorem Holds.sum {trace : Nat → Fr} {start : Nat} {values : List Fr}
    (h : Holds trace start values) :
    ∑ j ∈ Finset.range values.length, trace (start + j) = values.sum := by
  rw [h.sum_take (Nat.le_refl _), List.take_length]

section Signals

variable {trace : Nat → Fr}

/-- What a matrix does to signals whose values are known. -/
theorem signals_eq {start n : Nat} {values : List Fr} (h : Holds trace start values)
    (hn : values.length = n) : signals trace start n = fun i : Fin n => values.getD i 0 := by
  funext i
  have hi : i.val < values.length := by omega
  rw [List.getD_eq_getElem?_getD, List.getElem?_eq_getElem hi]
  exact h.getElem hi

/-! ## The external matrix, by additions -/

/-- The two- and three-element external matrix is the leaf's sum. -/
theorem externalMatrix_small {t : Nat} {input : List Fr} (ht : t = 2 ∨ t = 3)
    (hi : input.length = t) :
    (externalMatrix t).mulVec (fun i : Fin t => input.getD i 0) =
      fun i : Fin t => (input.map (· + input.sum)).getD i 0 := by
  rcases ht with rfl | rfl
  · obtain ⟨a, b, rfl⟩ := List.length_eq_two.mp hi
    funext i
    fin_cases i <;> simp [Matrix.mulVec, dotProduct, Fin.sum_univ_two, externalMatrix] <;> ring
  · obtain ⟨a, b, c, rfl⟩ := List.length_eq_three.mp hi
    funext i
    fin_cases i <;> simp [Matrix.mulVec, dotProduct, Fin.sum_univ_three, externalMatrix] <;> ring

/-- The four-element external matrix, by the additions of `ExternalMatMul4`. -/
theorem externalMatrix_four (a b c d : Fr) :
    (externalMatrix 4).mulVec (fun i : Fin 4 => [a, b, c, d].getD i 0) =
      fun i : Fin 4 =>
        [5 * a + 7 * b + c + 3 * d, 4 * a + 6 * b + c + d, a + 3 * b + 5 * c + 7 * d,
          a + b + 4 * c + 6 * d].getD i 0 := by
  funext i
  fin_cases i <;>
    simp [Matrix.mulVec, dotProduct, Fin.sum_univ_four, externalMatrix, m4, Fin.ofNat]
theorem sum_range_fours (g : Nat → Fr) : ∀ m : Nat,
    ∑ j ∈ Finset.range (4 * m), g j = ∑ b ∈ Finset.range m, ∑ l : Fin 4, g (4 * b + l) := by
  intro m
  induction m with
  | zero => simp
  | succ m ih =>
    rw [Nat.mul_succ, Finset.sum_range_add, ih, Finset.sum_range_succ _ m,
      Fin.sum_univ_eq_sum_range (fun l => g (4 * m + l)) 4]

/-- One `ExternalMatMul4` output of the block at `b`. -/
def mdsValue (y : Nat → Fr) (b l : Nat) : Fr := ∑ k : Fin 4, m4 (Fin.ofNat 4 l) k * y (4 * b + k)

/-- What an `ExternalMatMul4` block over four of the state's elements holds. -/
theorem ExternalLeafEquations.mdsValue {trace : Nat → Fr} {base : Nat} {y : Nat → Fr} {b : Nat}
    (h : ExternalLeafEquations trace 4 base) (hin : ∀ l < 4, trace (base + 4 + l) = y (4 * b + l))
    {l : Nat} (hl : l < 4) : trace (base + l) = Poseidon2.mdsValue y b l := by
  have hrow : trace (base + l) = ∑ k : Fin 4, externalMatrix 4 ⟨l, hl⟩ k * trace (base + 4 + k) :=
    congrFun h.out ⟨l, hl⟩
  rw [hrow]
  apply Finset.sum_congr rfl
  intro k _
  rw [hin k k.isLt]
  congr 1
  fin_cases k <;> rfl

/-- `circ(2 m4, m4, …)` is every block's `m4`, plus the column sums of all of them. -/
theorem externalMatrix_wide {t m : Nat} (htm : t = 4 * m) (hm : 1 < m) (y : Nat → Fr) {b l : Nat}
    (hl : l < 4) (hb : b < m) (h : 4 * b + l < t) :
    (externalMatrix t).mulVec (fun j : Fin t => y j) ⟨4 * b + l, h⟩ =
      mdsValue y b l + ∑ b' ∈ Finset.range m, mdsValue y b' l := by
  -- An entry is one of `m4`, doubled on the diagonal blocks.
  have hentry : ∀ j : Fin t, externalMatrix t ⟨4 * b + l, h⟩ j * y j =
      (if b = j.val / 4 then 2 * m4 (Fin.ofNat 4 l) (Fin.ofNat 4 j)
        else m4 (Fin.ofNat 4 l) (Fin.ofNat 4 j)) * y j := by
    intro j
    have hrow : Fin.ofNat 4 (4 * b + l) = Fin.ofNat 4 l := by
      apply Fin.ext
      simp [Fin.ofNat]
    have hblock : (4 * b + l) / 4 = b := by omega
    simp only [externalMatrix, Matrix.of_apply, hrow, hblock]
    rw [if_neg (by omega), if_neg (by omega)]
  -- A block of four columns contributes its `m4`, and the element's own block twice.
  have hblocks : ∀ b' : Nat, (∑ k : Fin 4,
      (if b = (4 * b' + k.val) / 4 then 2 * m4 (Fin.ofNat 4 l) (Fin.ofNat 4 (4 * b' + k))
        else m4 (Fin.ofNat 4 l) (Fin.ofNat 4 (4 * b' + k))) * y (4 * b' + k)) =
      mdsValue y b' l + if b = b' then mdsValue y b' l else 0 := by
    intro b'
    have hcol : ∀ k : Fin 4, Fin.ofNat 4 (4 * b' + k.val) = k := by
      intro k
      apply Fin.ext
      have := k.isLt
      simp [Fin.ofNat]
    have hdiv : ∀ k : Fin 4, (4 * b' + k.val) / 4 = b' := by
      intro k
      have := k.isLt
      omega
    simp only [hcol, hdiv]
    by_cases hbb : b = b'
    · simp only [if_pos hbb, mdsValue, ← Finset.sum_add_distrib]
      exact Finset.sum_congr rfl fun k _ => by ring
    · simp only [if_neg hbb, mdsValue, add_zero]
  rw [Matrix.mulVec, dotProduct, Finset.sum_congr rfl fun j _ => hentry j,
    Fin.sum_univ_eq_sum_range (fun j => (if b = j / 4 then 2 * m4 (Fin.ofNat 4 l) (Fin.ofNat 4 j)
        else m4 (Fin.ofNat 4 l) (Fin.ofNat 4 j)) * y j) t, htm, sum_range_fours]
  rw [Finset.sum_congr rfl fun b' _ => hblocks b', Finset.sum_add_distrib, Finset.sum_ite_eq,
    if_pos (Finset.mem_range.mpr hb), add_comm]
/-! ## The internal matrix, by additions -/

/-- The factor of an element before the sum is added. -/
def internalScale (t : Nat) (diag : List Fr) (i : Nat) : Fr :=
  if t = 2 ∨ t = 3 then if i = t - 1 then 2 else 1 else diag.getD i 0

theorem internalMatrix_mulVec {t : Nat} (diag : List Fr) (v : Fin t → Fr) (i : Fin t) :
    (internalMatrix t diag).mulVec v i = v i * internalScale t diag i + ∑ j, v j := by
  have hentry : ∀ j : Fin t, internalMatrix t diag i j * v j =
      (if i = j then v j * internalScale t diag i else 0) + v j := by
    intro j
    simp only [internalMatrix, Matrix.of_apply, internalScale]
    by_cases hij : i = j
    · rw [if_pos hij, if_pos hij]
      ring
    · rw [if_neg hij, if_neg hij]
      ring
  rw [Matrix.mulVec, dotProduct, Finset.sum_congr rfl fun j _ => hentry j,
    Finset.sum_add_distrib, Finset.sum_ite_eq, if_pos (Finset.mem_univ i)]

/-- The internal matrix on known signals. -/
theorem internalMatrix_holds {start t : Nat} {diag input values : List Fr} {base : Nat}
    (hin : Holds trace start input) (hi : input.length = t) (hout : Holds trace base values)
    (hv : values.length = t)
    (h : ∀ i < t, values.getD i 0 = input.getD i 0 * internalScale t diag i + input.sum) :
    signals trace base t = (internalMatrix t diag).mulVec (signals trace start t) := by
  funext i
  rw [internalMatrix_mulVec]
  have hsum : ∑ j, signals trace start t j = input.sum := by
    rw [← hin.sum, hi, Finset.sum_range]
    rfl
  rw [hsum]
  show trace (base + i) = trace (start + i) * _ + _
  rw [hout.getD (by omega), hin.getD (by omega), h i i.isLt]
end Signals

end Poseidon2
end CircomMpc
