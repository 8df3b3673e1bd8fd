import Mathlib.Data.List.Perm.Basic
import Mathlib.Data.List.Count
import Mathlib.Tactic.Ring
import Mathlib.Tactic.NormNum
import CircomMpc.Gadgets.Poseidon2

/-!
# What the Poseidon2 blocks record

Every block of the circuit — `Acc`, the matrices, a round — writes exactly the signals the size
formula of its template reserves for it: an interval of the layout, each slot once. `Writes` is that
statement as a triple with a footprint; the footprint of a sequence is the two footprints side by
side, and a block's theorem is that its pieces, permuted, are its interval.

The second fact about a block is that the scratch buffers it overwrites cannot be read through it:
`*_scratch` lemmas replace them by any others of the right length. That is what makes a site's trace
independent of the sites walked before it.

Most of these proofs end in a permutation of two lists of slots. Where the block's sizes are numbers
the lists are compared by counting every slot in them (`perm_of_count`), otherwise by their bounds
(`perm_of_below`).
-/

namespace CircomMpc
namespace Poseidon2

open Lib

variable {V W σ ε α β : Type}

/-! ## Triples with a footprint -/

/-- `x` returns a value in `Post`, having recorded each slot of `keys` as often as `keys` lists it. -/
def Writes (x : Traced V α) (keys : List Nat) (Post : α → Prop) : Prop :=
  ∃ a log, x = .ok (a, log) ∧ (log.map (·.1)).Perm keys ∧ Post a

theorem bind_ok {x : Traced V α} {f : α → Traced V β} {a : α} {log : Log V}
    (h : x = .ok (a, log)) :
    (x >>= f) = match f a with
      | .error e => .error e
      | .ok (b, log') => .ok (b, log ++ log') := by
  subst h; rfl

instance : LawfulMonad (Traced V) :=
  LawfulMonad.mk' _
    (fun x => by
      rcases x with e | ⟨a, log⟩
      · rfl
      · show Except.ok (a, log ++ []) = Except.ok (a, log)
        rw [List.append_nil])
    (fun a f => by
      show (match f a with
        | .error e => Except.error e
        | .ok (b, log') => Except.ok (b, [] ++ log')) = f a
      rcases f a with e | ⟨b, log⟩ <;> rfl)
    (fun x f g => by
      rcases x with e | ⟨a, log⟩
      · rfl
      rcases hf : f a with e | ⟨b, log'⟩
      · simp only [bind, hf]; rfl
      rcases hg : g b with e | ⟨c, log''⟩
      · simp only [bind, hf, hg]; rfl
      · simp only [bind, hf, hg, List.append_assoc]; rfl)

namespace Writes

variable {x : Traced V α} {keys keys' : List Nat} {Post : α → Prop}

theorem intro {Q : α → Prop} {a : α} (h : Q a) : Writes (pure a : Traced V α) [] Q :=
  ⟨a, [], rfl, List.Perm.refl _, h⟩

theorem ofLength {xs : List V} {n : Nat} (h : xs.length = n) :
    Writes (pure xs : Traced V (List V)) [] fun ys => ys.length = n :=
  intro h

theorem bind {f : α → Traced V β} {Post' : β → Prop} (hx : Writes x keys Post)
    (hf : ∀ a, Post a → Writes (f a) keys' Post') : Writes (x >>= f) (keys ++ keys') Post' := by
  obtain ⟨a, log, hx, hk, ha⟩ := hx
  obtain ⟨b, log', hf, hk', hb⟩ := hf a ha
  refine ⟨b, log ++ log', ?_, ?_, hb⟩
  · rw [bind_ok hx, hf]
  · rw [List.map_append]; exact hk.append hk'

theorem perm (hx : Writes x keys Post) (h : keys.Perm keys') : Writes x keys' Post := by
  obtain ⟨a, log, hx, hk, ha⟩ := hx
  exact ⟨a, log, hx, hk.trans h, ha⟩

theorem post {Post' : α → Prop} (hx : Writes x keys Post) (h : ∀ a, Post a → Post' a) :
    Writes x keys Post' := by
  obtain ⟨a, log, hx, hk, ha⟩ := hx
  exact ⟨a, log, hx, hk, h a ha⟩

theorem ofRecord {logical : Nat} {value : V} :
    Writes (record logical value) [logical] fun _ => True :=
  ⟨(), _, rfl, List.Perm.refl _, trivial⟩

theorem ofRecordSlice {start : Nat} {values : List V} :
    Writes (recordSlice start values) (List.range' start values.length) fun _ => True := by
  refine ⟨(), _, rfl, ?_, trivial⟩
  rw [List.map_map, List.range'_eq_map_range, List.zipIdx_eq_zip_range']
  rw [← List.range_eq_range']
  have h : ((fun e : Nat × V => e.1) ∘ fun e : V × Nat => (start + e.2, e.1)) =
      (start + ·) ∘ Prod.snd := rfl
  rw [h, ← List.map_map, List.map_snd_zip (by simp)]

/-- A slice of known length, whatever it holds. -/
theorem ofSlice {start n : Nat} {values : List V} (h : values.length = n) :
    Writes (recordSlice start values) (List.range' start n) fun _ => True :=
  h ▸ ofRecordSlice

/-- The loop rule: the footprint of a loop is its turns' footprints, one after the other. -/
theorem foldlM {γ : Type} {I : γ → Prop} {f : γ → α → Traced V γ} {k : α → List Nat} :
    ∀ {xs : List α} {s : γ}, I s →
      (∀ x ∈ xs, ∀ s, I s → Writes (f s x) (k x) I) →
      Writes (xs.foldlM f s) (xs.flatMap k) I
  | [], s, hs, _ => intro hs
  | x :: xs, s, hs, hf => by
    rw [List.foldlM_cons, List.flatMap_cons]
    exact (hf x (by simp) s hs).bind fun s' hs' =>
      foldlM hs' fun y hy => hf y (by simp [hy])

theorem mapM {f : α → Traced V β} {k : α → List Nat} {Q : β → Prop} :
    ∀ {xs : List α}, (∀ x ∈ xs, Writes (f x) (k x) Q) →
      Writes (xs.mapM f) (xs.flatMap k)
        fun ys => ys.length = xs.length ∧ ∀ y ∈ ys, Q y
  | [], _ => by
    simp only [List.mapM_nil, List.flatMap_nil]
    exact intro (by simp)
  | x :: xs, hf => by
    rw [List.flatMap_cons]
    rw [List.mapM_cons]
    refine (hf x (by simp)).bind fun y hy => ?_
    refine ((mapM fun z hz => hf z (by simp [hz])).bind fun ys hys =>
      intro (Q := fun zs : List β => zs.length = (x :: xs).length ∧ ∀ z ∈ zs, Q z) ?_).perm
      (by simp)
    exact ⟨by simp [hys.1], by simpa using ⟨hy, hys.2⟩⟩

end Writes

/-! ## Intervals -/

theorem count_range' (b n k : Nat) :
    (List.range' b n).count k = if b ≤ k ∧ k < b + n then 1 else 0 := by
  rw [(List.nodup_range' : (List.range' b n).Nodup).count]
  simp [List.mem_range'_1]

/-- Two footprints are the same when every slot occurs equally often in both. -/
theorem perm_of_count {xs ys : List Nat} (h : ∀ k, xs.count k = ys.count k) : xs.Perm ys :=
  List.perm_iff_count.mpr h

/-- `1` below `x`, `0` from there on. -/
def below (x k : Nat) : Int := if k < x then 1 else 0

/-- An interval's count is a difference of two steps, so a sum over adjacent intervals telescopes. -/
theorem count_range'_below (b n k : Nat) :
    ((List.range' b n).count k : Int) = below (b + n) k - below b k := by
  rw [count_range']
  unfold below
  split_ifs <;> omega

theorem count_singleton_below (a k : Nat) :
    (([a] : List Nat).count k : Int) = below (a + 1) k - below a k := by
  rw [← count_range'_below]; rfl

theorem perm_of_below {xs ys : List Nat} (h : ∀ k, (xs.count k : Int) = ys.count k) :
    xs.Perm ys :=
  perm_of_count fun k => by exact_mod_cast h k

/-! ## Lengths -/

@[simp] theorem overwrite_length {out xs : List V} (h : xs.length = out.length) :
    (overwrite out xs).length = out.length := by
  simp [overwrite, h]

/-- Overwriting a buffer with as many values as it has leaves nothing of it. -/
theorem overwrite_eq {out xs : List V} (h : xs.length = out.length) : overwrite out xs = xs := by
  simp [overwrite, ← h]

/-- One element of every four is in a column, wherever the four-element blocks start. -/
theorem column_block {l : Nat} (hl : l < 4) :
    ∀ (m j : Nat) (xs : List V), xs.length = 4 * m →
      ((xs.zipIdx (4 * j)).filter fun (_, i) => l ≤ i ∧ (i - l) % 4 = 0).length = m
  | 0, _, xs, h => by
    have : xs = [] := List.length_eq_zero_iff.mp (by omega)
    simp [this]
  | m + 1, j, xs, h => by
    match xs, h with
    | a :: b :: c :: d :: rest, h =>
      have ih := column_block hl m (j + 1) rest (by simp only [List.length_cons] at h; omega)
      rw [Nat.mul_add, Nat.mul_one] at ih
      simp only [List.zipIdx_cons, List.filter_cons, decide_eq_true_eq, Nat.add_assoc,
        Nat.reduceAdd] at ih ⊢
      -- Exactly one of the block's four positions is in column `l`.
      have hone : l = 0 ∨ l = 1 ∨ l = 2 ∨ l = 3 := by omega
      rcases hone with rfl | rfl | rfl | rfl
      · rw [if_pos (by omega), if_neg (by omega), if_neg (by omega), if_neg (by omega),
          List.length_cons, ih]
      · rw [if_neg (by omega), if_pos (by omega), if_neg (by omega), if_neg (by omega),
          List.length_cons, ih]
      · rw [if_neg (by omega), if_neg (by omega), if_pos (by omega), if_neg (by omega),
          List.length_cons, ih]
      · rw [if_neg (by omega), if_neg (by omega), if_neg (by omega), if_pos (by omega),
          List.length_cons, ih]

theorem column_length {l m : Nat} (hl : l < 4) {xs : List V} (h : xs.length = 4 * m) :
    (column l xs).length = m := by
  rw [column, List.length_map]
  exact column_block hl m 0 xs h

/-! ## `Acc` -/

/-- A loop that writes two slots a turn fills two intervals. -/
theorem zipIdx_pairs_perm (p q : Nat) : ∀ (xs : List V) (k : Nat),
    ((xs.zipIdx k).flatMap fun e => [p + e.2, q + e.2]).Perm
      (List.range' (p + k) xs.length ++ List.range' (q + k) xs.length)
  | [], _ => by simp
  | x :: xs, k => by
    have ih := zipIdx_pairs_perm p q xs (k + 1)
    rw [← Nat.add_assoc, ← Nat.add_assoc] at ih
    rw [List.zipIdx_cons, List.flatMap_cons, List.length_cons, List.range'_succ, List.range'_succ]
    refine ((ih.append_left _).trans ?_)
    refine perm_of_count fun i => ?_
    simp only [List.count_append, List.count_cons, List.count_nil]
    omega

theorem acc_writes (ops : Ops V σ ε) {input : List V} {base n : Nat} (hn : input.length = n)
    (hpos : 0 < n) :
    Writes (acc ops input base) (List.range' base (accSignals n)) fun _ => True := by
  cases input with
  | nil => simp at hn; omega
  | cons first rest =>
    rw [List.length_cons] at hn
    simp only [acc]
    refine Writes.perm (Writes.ofRecord.bind fun _ _ => Writes.ofRecord.bind fun _ _ =>
      (Writes.foldlM (I := fun _ => True)
        (k := fun e : V × Nat => [base + 1 + e.2, base + 1 + n + e.2]) trivial
        fun e _ sum _ => ?_).bind fun _ _ => Writes.ofRecord.bind fun _ _ => Writes.intro trivial) ?_
    · subst hn
      exact Writes.ofRecord.bind fun _ _ => Writes.ofRecord.bind fun _ _ => Writes.intro trivial
    · refine (((zipIdx_pairs_perm (base + 1) (base + 1 + n) rest 1).append_right _).append_left
        _ |>.append_left _).trans (perm_of_count fun k => ?_)
      simp only [List.count_append, count_range', List.length_cons, List.count_cons,
        List.count_nil, beq_iff_eq, accSignals]
      split_ifs <;> omega

/-! ## The matrices -/

/-- Equal blocks laid out one after the other are one interval. -/
theorem range'_blocks (b c : Nat) : ∀ n : Nat,
    ((List.range n).flatMap fun i => List.range' (b + i * c) c) = List.range' b (n * c)
  | 0 => by simp
  | n + 1 => by
    rw [List.range_succ, List.flatMap_append, range'_blocks b c n, List.flatMap_singleton,
      List.range'_append_1, Nat.succ_mul]

/-- The two- and three-element leaves: one sum, added to every element. -/
theorem externalMatmulLeaf_small (ops : Ops V σ ε) {x0 : V} {xs out : List V} {base t : Nat}
    (ht : t = 2 ∨ t = 3) (hi : (x0 :: xs).length = t) :
    externalMatmulLeaf ops (x0 :: xs) out base = (do
      recordSlice (base + t) (x0 :: xs)
      let sum := xs.foldl ops.add x0
      record (base + 2 * t) sum
      let out := overwrite out ((x0 :: xs).map fun x => ops.add x sum)
      recordSlice base out
      pure out) := by
  rcases ht with rfl | rfl
  · match xs, hi with
    | [_], _ => rfl
  · match xs, hi with
    | [_, _], _ => rfl

theorem externalMatmulLeaf_writes (ops : Ops V σ ε) {input out : List V} {base t : Nat}
    (ht : t = 2 ∨ t = 3 ∨ t = 4) (hi : input.length = t) (ho : out.length = t) :
    Writes (externalMatmulLeaf ops input out base)
      (List.range' base (externalMatmulLeafSignals t)) fun out => out.length = t := by
  have hsmall : ∀ (x0 : V) (xs : List V), input = x0 :: xs → t = 2 ∨ t = 3 →
      Writes (externalMatmulLeaf ops input out base)
        (List.range' base (externalMatmulLeafSignals t)) fun out => out.length = t := by
    rintro x0 xs rfl h23
    rw [externalMatmulLeaf_small ops h23 hi]
    have hlen : (overwrite out ((x0 :: xs).map fun x => ops.add x (xs.foldl ops.add x0))).length
        = t := by
      rw [overwrite_length (by rw [List.length_map, hi, ho]), ho]
    refine (Writes.ofRecordSlice.bind fun _ _ => Writes.ofRecord.bind fun _ _ =>
      Writes.ofRecordSlice.bind fun _ _ => Writes.ofLength hlen).perm
      (perm_of_count fun k => ?_)
    simp only [List.count_append, count_range', List.count_cons, List.count_nil, beq_iff_eq,
      hlen, hi, externalMatmulLeafSignals]
    rcases h23 with rfl | rfl <;> split_ifs <;> omega
  rcases ht with rfl | rfl | rfl
  · obtain ⟨x0, xs, rfl⟩ := List.exists_cons_of_length_eq_add_one hi
    exact hsmall x0 xs rfl (.inl rfl)
  · obtain ⟨x0, xs, rfl⟩ := List.exists_cons_of_length_eq_add_one hi
    exact hsmall x0 xs rfl (.inr rfl)
  · match input, hi with
    | [x0, x1, x2, x3], _ =>
      simp only [externalMatmulLeaf, pure_bind]
      have hlen : ∀ a b c d : V, (overwrite out [a, b, c, d]).length = 4 := fun a b c d =>
        (overwrite_length (by simp [ho])).trans ho
      refine (Writes.ofRecordSlice.bind fun _ _ => Writes.ofRecordSlice.bind fun _ _ =>
        Writes.ofRecordSlice.bind fun _ _ =>
          Writes.ofLength (hlen _ _ _ _)).perm
        (perm_of_count fun k => ?_)
      simp only [List.count_append, count_range', List.count_nil, List.length_cons,
        List.length_nil, externalMatmulLeafSignals, hlen]
      split_ifs <;> omega

/-- Where the `ExternalMatMul4` outputs of a state of `t` elements go. -/
def mdsLength (t : Nat) : Nat := if 4 < t then t else 0

/-- The `ExternalMatMul4` blocks of a wide state, one four-element slice after the other. -/
theorem mdsBlocks_writes (ops : Ops V σ ε) (base : Nat) {input mds : List V} {t m : Nat}
    (htm : t = 4 * m)
    (hi : input.length = t) (hm : mds.length = t) :
    Writes ((List.range m).foldlM
        (fun mds i => do
          let block ← externalMatmulLeaf ops (slice input (4 * i) (4 * i + 4))
            (slice mds (4 * i) (4 * i + 4)) (base + i * externalMatmulLeafSignals 4)
          pure (mds.take (4 * i) ++ block ++ mds.drop (4 * i + 4))) mds)
      (List.range' base (m * externalMatmulLeafSignals 4)) fun mds => mds.length = t := by
  rw [← range'_blocks]
  refine Writes.foldlM hm fun i hmi mds hmds => ?_
  rw [List.mem_range] at hmi
  have hslice : ∀ {xs : List V}, xs.length = t → (slice xs (4 * i) (4 * i + 4)).length = 4 :=
    fun h => by rw [slice_length (by omega)]; omega
  refine ((externalMatmulLeaf_writes ops (.inr (.inr rfl)) (hslice hi) (hslice hmds)).bind
    fun block hblock => Writes.ofLength ?_).perm (by rw [List.append_nil])
  simp only [List.length_append, List.length_take, List.length_drop, hblock, hmds]
  omega

theorem externalMatmul_writes (ops : Ops V σ ε) {input out mds : List V} {base t : Nat}
    (ht : t ∈ poseidon2SupportedWidths) (hi : input.length = t) (ho : out.length = t)
    (hm : mds.length = mdsLength t) :
    Writes (externalMatmul ops input out mds base)
      (List.range' base (externalMatmulSignals t))
      fun r => r.1.length = t ∧ r.2.length = mdsLength t := by
  -- Up to four elements the matrix is one leaf between its ports.
  have hsmall : t = 2 ∨ t = 3 ∨ t = 4 → Writes (externalMatmul ops input out mds base)
      (List.range' base (externalMatmulSignals t))
      fun r => r.1.length = t ∧ r.2.length = mdsLength t := by
    intro h234
    simp only [externalMatmul, hi, pure_bind]
    rw [if_pos (by omega)]
    refine Writes.perm (Writes.ofRecordSlice.bind fun _ _ =>
      (externalMatmulLeaf_writes ops h234 hi ho).bind fun o ho' =>
      (Writes.ofSlice ho').bind fun _ _ =>
      Writes.intro (Q := fun r : List V × List V =>
        r.1.length = t ∧ r.2.length = mdsLength t) ⟨ho', hm⟩) ?_
    refine perm_of_count fun k => ?_
    simp only [List.count_append, count_range', List.count_nil, hi, externalMatmulSignals,
      externalMatmulLeafSignals]
    rcases h234 with rfl | rfl | rfl <;> split_ifs <;> omega
  -- A wider state: its four-element blocks, then an `Acc` for each column of them.
  have hlarge : ∀ m, t = 4 * m → 1 < m → Writes (externalMatmul ops input out mds base)
      (List.range' base (externalMatmulSignals t))
      fun r => r.1.length = t ∧ r.2.length = mdsLength t := by
    intro m htm hm1
    have hml : mdsLength t = t := if_pos (by omega)
    have hdiv : t / 4 = m := by omega
    rw [hml] at hm
    simp only [externalMatmul, hi, pure_bind, hml, hdiv]
    rw [if_neg (by omega)]
    refine Writes.perm (Writes.ofRecordSlice.bind fun _ _ =>
      (mdsBlocks_writes ops _ htm hi hm).bind fun mds hmds =>
      (Writes.mapM (Q := fun _ : V => True)
        (k := fun l => List.range' (base + 2 * t + l * accSignals m) (accSignals m))
        fun l hl => ?_).bind fun accOut _ =>
      have hout : (overwrite out (mds.zipIdx.map fun x =>
          ops.add x.1 (accOut.getD (x.2 % 4) ops.default))).length = t :=
        (overwrite_length (by simp [hmds, ho])).trans ho
      (Writes.ofSlice hout).bind fun _ _ =>
      Writes.intro (Q := fun r : List V × List V => r.1.length = t ∧ r.2.length = t)
        ⟨hout, hmds⟩) ?_
    · rw [List.mem_range] at hl
      exact acc_writes ops (column_length hl (hmds.trans htm)) (by omega)
    · rw [range'_blocks]
      refine perm_of_count fun k => ?_
      simp only [List.count_append, count_range', List.count_nil, hi, externalMatmulSignals,
        externalMatmulLeafSignals, hdiv]
      rw [if_neg (show ¬ (2 ≤ t ∧ t ≤ 4) by omega)]
      simp only [Nat.reduceEqDiff, if_false]
      -- Only that all four accumulators have one size matters here.
      generalize accSignals m = c
      split_ifs <;> omega
  simp only [poseidon2SupportedWidths, List.mem_cons, List.not_mem_nil, or_false] at ht
  rcases ht with h | h | h | h | h
  · exact hsmall (by omega)
  · exact hsmall (by omega)
  · exact hsmall (by omega)
  · exact hlarge 2 h (by omega)
  · exact hlarge 4 h (by omega)

theorem internalMatmul_writes (ops : Ops V σ ε) {input out : List V} {diag : List Fr}
    {base t : Nat} (ht : t ∈ poseidon2SupportedWidths) (hi : input.length = t)
    (ho : out.length = t) (hd : diag.length = if t < 4 then 0 else t) :
    Writes (internalMatmul ops input diag out base)
      (List.range' base (internalMatmulSignals t)) fun out => out.length = t := by
  have hpos : 0 < t := Poseidon2Width.pos ⟨t, ht⟩
  simp only [internalMatmul, hi]
  by_cases h23 : t = 2 ∨ t = 3
  · -- Two and three elements have a leaf of their own, with a sum and no accumulator.
    rw [if_pos h23]
    obtain ⟨x0, xs, rfl⟩ := List.exists_cons_of_length_pos (hi ▸ hpos)
    simp only [internalMatmulLeaf, bind_assoc, pure_bind, hi]
    have hlen : (overwrite out ((x0 :: xs).zipIdx.map fun x =>
        if x.2 = t - 1 then ops.add (double ops x.1) (xs.foldl ops.add x0)
        else ops.add x.1 (xs.foldl ops.add x0))).length = t :=
      (overwrite_length (by simp only [List.length_map, List.length_zipIdx, hi, ho])).trans ho
    refine ((Writes.ofSlice hi).bind fun _ _ => (Writes.ofSlice hlen).bind fun _ _ =>
      (Writes.ofSlice hi).bind fun _ _ => Writes.ofRecord.bind fun _ _ =>
      (Writes.ofSlice hlen).bind fun _ _ => Writes.ofLength hlen).perm (perm_of_count fun k => ?_)
    simp only [List.count_append, count_range', List.count_cons, List.count_nil, beq_iff_eq,
      internalMatmulSignals]
    rcases h23 with rfl | rfl <;> split_ifs <;> omega
  · -- Four and more: an `Acc` over the state, and a diagonal.
    rw [if_neg h23]
    have h4 : ¬ t < 4 := by
      simp only [poseidon2SupportedWidths, List.mem_cons, List.not_mem_nil, or_false] at ht
      omega
    rw [if_neg h4] at hd
    simp only [pure_bind]
    refine ((Writes.ofSlice hi).bind fun _ _ => (acc_writes ops hi hpos).bind fun v _ =>
      have hlen : (overwrite out ((input.zip diag).map fun x =>
          ops.add (ops.mulPublic x.1 x.2) v)).length = t :=
        (overwrite_length (by simp [hi, ho, hd])).trans ho
      Writes.ofRecord.bind fun _ _ => (Writes.ofSlice hlen).bind fun _ _ =>
      Writes.ofLength hlen).perm (perm_of_count fun k => ?_)
    simp only [List.count_append, count_range', List.count_cons, List.count_nil, beq_iff_eq,
      internalMatmulSignals]
    rw [if_neg (show ¬ t = 2 by omega), if_neg (show ¬ t = 3 by omega)]
    generalize accSignals t = c
    split_ifs <;> omega

theorem recordSboxE_writes {base : Nat} {input : V} {trace : SboxTrace V} :
    Writes (recordSboxE base input trace) (List.range' base sboxESignals) fun _ => True :=
  Writes.ofSlice rfl

/-! ## The rounds of one site -/

/-- Scratch buffers of the right lengths for a state of `t` elements, whatever they hold. -/
structure Buffers.Fit (t : Nat) (b : Buffers V) : Prop where
  next : b.next.length = t
  sboxOut : b.sboxOut.length = t
  mdsOut : b.mdsOut.length = mdsLength t

theorem initSite_writes (ops : Ops V σ ε) {t : Nat} {input mds : List V}
    (ht : t ∈ poseidon2SupportedWidths) (hi : input.length = t) (hm : mds.length = mdsLength t) :
    Writes (initSite ops t input mds)
      (List.range' (Layout.new t).initialMatmul (externalMatmulSignals t) ++
        List.range' (Layout.new t).states t)
      fun r => r.1.length = t ∧ r.2.length = mdsLength t := by
  simp only [initSite]
  exact ((externalMatmul_writes ops ht hi List.length_replicate hm).bind fun r hr =>
    (Writes.ofSlice hr.1).bind fun _ _ => Writes.intro hr).perm (by rw [List.append_nil])

theorem fullRoundSite_writes (ops : Ops V σ ε) {t : Nat} {roundRc : List Fr}
    {layoutRound stateRow : Nat} {state linear : List V} {sboxes : List (SboxTrace V)}
    {buffers : Buffers V} (ht : t ∈ poseidon2SupportedWidths) (hrc : roundRc.length = t)
    (hs : state.length = t) (hl : linear.length = t) (hx : sboxes.length = t)
    (hb : buffers.Fit t) :
    Writes (fullRoundSite ops t roundRc layoutRound stateRow state linear sboxes buffers)
      (List.range' ((Layout.new t).full + layoutRound * fullRoundSignals t) (fullRoundSignals t) ++
        List.range' ((Layout.new t).states + stateRow * t) t)
      fun r => r.1.length = t ∧ r.2.Fit t := by
  have hout : (overwrite buffers.sboxOut (sboxes.map (·.out))).length = t :=
    (overwrite_length (by simp [hx, hb.sboxOut])).trans hb.sboxOut
  have hrcs : (roundRc.map ops.ofPublic).length = t := by simp [hrc]
  simp only [fullRoundSite]
  refine ((externalMatmul_writes ops ht hout hb.next hb.mdsOut).bind fun r hr =>
    (Writes.ofSlice hr.1).bind fun _ _ => (Writes.ofSlice hs).bind fun _ _ =>
    (Writes.ofSlice hrcs).bind fun _ _ => (Writes.ofSlice hl).bind fun _ _ =>
    (Writes.ofSlice hout).bind fun _ _ => (Writes.ofSlice hout).bind fun _ _ =>
    (Writes.ofSlice hl).bind fun _ _ =>
    (Writes.mapM (Q := fun _ : Unit => True) (k := fun e : (SboxTrace V × V) × Nat => List.range'
      ((Layout.new t).full + layoutRound * fullRoundSignals t + 5 * t + externalMatmulSignals t
        + 2 * t + e.2 * sboxESignals) sboxESignals)
      fun e _ => recordSboxE_writes).bind fun _ _ =>
    (Writes.ofSlice hr.1).bind fun _ _ =>
    Writes.intro (Q := fun r : List V × Buffers V => r.1.length = t ∧ r.2.Fit t)
      ⟨hr.1, hs, hout, hr.2⟩).perm ?_
  -- The s-boxes' blocks lie end to end.
  have hblocks : ((sboxes.zip linear).zipIdx.flatMap fun e => List.range'
      ((Layout.new t).full + layoutRound * fullRoundSignals t + 5 * t + externalMatmulSignals t
        + 2 * t + e.2 * sboxESignals) sboxESignals) =
      List.range' ((Layout.new t).full + layoutRound * fullRoundSignals t + 5 * t
        + externalMatmulSignals t + 2 * t) (t * sboxESignals) := by
    rw [← range'_blocks, List.range_eq_range', ← List.flatMap_map (f := Prod.snd)
      (g := fun i => List.range' ((Layout.new t).full + layoutRound * fullRoundSignals t + 5 * t
        + externalMatmulSignals t + 2 * t + i * sboxESignals) sboxESignals),
      List.zipIdx_map_snd, List.length_zip, hx, hl, Nat.min_self]
  rw [hblocks]
  refine perm_of_below fun k => ?_
  have htotal : fullRoundSignals t =
      5 * t + externalMatmulSignals t + (2 * t + t * sboxESignals) := rfl
  simp only [List.count_append, Nat.cast_add, count_range'_below, List.count_nil, htotal]
  ring_nf

theorem partialRoundSite_writes (ops : Ops V σ ε) {t round : Nat} {c : Fr} {diag : List Fr}
    {state : List V} {linear : V} {sbox : SboxTrace V} {buffers : Buffers V}
    (ht : t ∈ poseidon2SupportedWidths) (hd : diag.length = if t < 4 then 0 else t)
    (hs : state.length = t) (hb : buffers.Fit t) :
    Writes (partialRoundSite ops t round c diag state linear sbox buffers)
      (List.range' ((Layout.new t).partials + round * partialRoundSignals t)
        (partialRoundSignals t) ++ List.range' ((Layout.new t).states + (5 + round) * t) t)
      fun r => r.1.length = t ∧ r.2.Fit t := by
  have hpos : 0 < t := Poseidon2Width.pos ⟨t, ht⟩
  have hout : (overwrite buffers.sboxOut (sbox.out :: state.drop 1)).length = t :=
    (overwrite_length (by simp [hs, hb.sboxOut]; omega)).trans hb.sboxOut
  simp only [partialRoundSite]
  refine ((internalMatmul_writes ops ht hout hb.next hd).bind fun r hr =>
    (Writes.ofSlice hr).bind fun _ _ => (Writes.ofSlice hs).bind fun _ _ =>
    Writes.ofRecord.bind fun _ _ => Writes.ofRecord.bind fun _ _ =>
    Writes.ofRecord.bind fun _ _ => recordSboxE_writes.bind fun _ _ =>
    (Writes.ofSlice hr).bind fun _ _ =>
    Writes.intro (Q := fun r : List V × Buffers V => r.1.length = t ∧ r.2.Fit t)
      ⟨hr, hs, hout, hb.mdsOut⟩).perm (perm_of_below fun k => ?_)
  have htotal : partialRoundSignals t = (2 * t + 3) + sboxESignals + internalMatmulSignals t := rfl
  simp only [List.count_append, Nat.cast_add, count_range'_below, count_singleton_below,
    List.count_nil, htotal]
  ring_nf

/-! ## Scratch buffers cannot be read through a block -/

theorem overwrite_scratch {out out' xs : List V} (h : xs.length = out.length)
    (h' : out.length = out'.length) : overwrite out xs = overwrite out' xs := by
  rw [overwrite_eq h, overwrite_eq (h.trans h')]

theorem externalMatmulLeaf_scratch (ops : Ops V σ ε) {input out out' : List V} {base t : Nat}
    (ht : t = 2 ∨ t = 3 ∨ t = 4) (hi : input.length = t) (ho : out.length = t)
    (ho' : out'.length = t) :
    externalMatmulLeaf ops input out base = externalMatmulLeaf ops input out' base := by
  have hover : ∀ xs : List V, xs.length = t → overwrite out xs = overwrite out' xs :=
    fun xs h => overwrite_scratch (h.trans ho.symm) (ho.trans ho'.symm)
  rcases ht with rfl | rfl | rfl
  · match input, hi with
    | [a, b], _ => simp only [externalMatmulLeaf]; rw [hover _ (by simp)]
  · match input, hi with
    | [a, b, c], _ => simp only [externalMatmulLeaf]; rw [hover _ (by simp)]
  · match input, hi with
    | [a, b, c, d], _ => simp only [externalMatmulLeaf]; rw [hover _ (by simp)]

/-- Two loops over the same blocks, the one's remaining buffer holding other values than the
    other's: the first block makes them equal, and so the rest. -/
theorem mdsBlocks_scratch (ops : Ops V σ ε) (input : List V) (base : Nat → Nat) :
    ∀ (k i : Nat) (fresh rest rest' : List V), fresh.length = 4 * i → rest.length = 4 * k →
      rest'.length = 4 * k → 4 * (i + k) ≤ input.length →
      (List.range' i k).foldlM
        (fun mds i => do
          let block ← externalMatmulLeaf ops (slice input (4 * i) (4 * i + 4))
            (slice mds (4 * i) (4 * i + 4)) (base i)
          pure (mds.take (4 * i) ++ block ++ mds.drop (4 * i + 4))) (fresh ++ rest) =
      (List.range' i k).foldlM
        (fun mds i => do
          let block ← externalMatmulLeaf ops (slice input (4 * i) (4 * i + 4))
            (slice mds (4 * i) (4 * i + 4)) (base i)
          pure (mds.take (4 * i) ++ block ++ mds.drop (4 * i + 4))) (fresh ++ rest')
  | 0, i, fresh, rest, rest', _, hr, hr', _ => by
    rw [List.length_eq_zero_iff.mp (by omega : rest.length = 0),
      List.length_eq_zero_iff.mp (by omega : rest'.length = 0)]
  | k + 1, i, fresh, rest, rest', hf, hr, hr', hin => by
    have hslice : ∀ xs : List V, 4 * i + 4 ≤ xs.length →
        (slice xs (4 * i) (4 * i + 4)).length = 4 := fun xs h => by rw [slice_length h]; omega
    have hinput := hslice input (by omega)
    have hfresh := hslice (fresh ++ rest) (by rw [List.length_append]; omega)
    have hfresh' := hslice (fresh ++ rest') (by rw [List.length_append]; omega)
    -- A leaf overwrites its four elements without reading them.
    have hleaf : externalMatmulLeaf ops (slice input (4 * i) (4 * i + 4))
          (slice (fresh ++ rest) (4 * i) (4 * i + 4)) (base i) =
        externalMatmulLeaf ops (slice input (4 * i) (4 * i + 4))
          (slice (fresh ++ rest') (4 * i) (4 * i + 4)) (base i) :=
      externalMatmulLeaf_scratch ops (.inr (.inr rfl)) hinput hfresh hfresh'
    obtain ⟨block, log, hblock, -, hlen⟩ : Writes (externalMatmulLeaf ops
          (slice input (4 * i) (4 * i + 4)) (slice (fresh ++ rest') (4 * i) (4 * i + 4)) (base i))
        _ fun out => out.length = 4 :=
      externalMatmulLeaf_writes ops (.inr (.inr rfl)) hinput hfresh'
    rw [List.range'_succ, List.foldlM_cons, List.foldlM_cons]
    simp only [hleaf, bind_assoc, pure_bind]
    rw [bind_ok hblock, bind_ok hblock]
    have hsplit : ∀ ys : List V, (fresh ++ ys).take (4 * i) ++ block ++ (fresh ++ ys).drop (4 * i + 4)
        = (fresh ++ block) ++ ys.drop 4 := by
      intro ys
      rw [← hf, List.take_left', List.drop_append, List.drop_eq_nil_of_le (by omega)]
      · simp
      · rfl
    rw [hsplit, hsplit, mdsBlocks_scratch ops input base k (i + 1) (fresh ++ block) (rest.drop 4)
      (rest'.drop 4) (by rw [List.length_append, hf, hlen]; omega)
      (by rw [List.length_drop]; omega) (by rw [List.length_drop]; omega) (by omega)]

theorem externalMatmul_scratch (ops : Ops V σ ε) {input out out' mds mds' : List V} {base t : Nat}
    (ht : t ∈ poseidon2SupportedWidths) (hi : input.length = t) (ho : out.length = t)
    (ho' : out'.length = t) (hm : mds.length = mdsLength t) (hm' : mds'.length = mdsLength t) :
    externalMatmul ops input out mds base = externalMatmul ops input out' mds' base := by
  simp only [poseidon2SupportedWidths, List.mem_cons, List.not_mem_nil, or_false] at ht
  by_cases h4 : t ≤ 4
  · have h0 : mdsLength t = 0 := if_neg (by omega)
    rw [List.length_eq_zero_iff.mp (hm.trans h0), List.length_eq_zero_iff.mp (hm'.trans h0)]
    simp only [externalMatmul, hi, if_pos h4]
    rw [externalMatmulLeaf_scratch ops (by omega) hi ho ho']
  · have hml : mdsLength t = t := if_pos (by omega)
    rw [hml] at hm hm'
    have hfold := mdsBlocks_scratch ops input
      (fun i => base + 2 * t + 4 * accSignals (t / 4) + i * externalMatmulLeafSignals 4)
      (t / 4) 0 [] mds mds' rfl (by omega) (by omega) (by omega)
    rw [← List.range_eq_range', List.nil_append, List.nil_append] at hfold
    obtain ⟨done, log, hdone, -, hlen⟩ := mdsBlocks_writes ops
      (base + 2 * t + 4 * accSignals (t / 4)) (m := t / 4) (by omega) hi hm'
    simp only [externalMatmul, hi, if_neg h4, pure_bind]
    rw [hfold, bind_ok hdone, bind_ok hdone]
    -- The last write covers all of `out`.
    have hover : ∀ f : V × Nat → V, overwrite out (done.zipIdx.map f) =
        overwrite out' (done.zipIdx.map f) := fun f =>
      overwrite_scratch (by rw [List.length_map, List.length_zipIdx, hlen, ho]) (ho.trans ho'.symm)
    simp only [hover]

theorem initSite_scratch (ops : Ops V σ ε) {t : Nat} {input mds mds' : List V}
    (ht : t ∈ poseidon2SupportedWidths) (hi : input.length = t) (hm : mds.length = mdsLength t)
    (hm' : mds'.length = mdsLength t) : initSite ops t input mds = initSite ops t input mds' := by
  simp only [initSite]
  rw [externalMatmul_scratch ops ht hi List.length_replicate List.length_replicate hm hm']

theorem fullRoundSite_scratch (ops : Ops V σ ε) {t : Nat} {roundRc : List Fr}
    {layoutRound stateRow : Nat} {state linear : List V} {sboxes : List (SboxTrace V)}
    {b b' : Buffers V} (ht : t ∈ poseidon2SupportedWidths) (hx : sboxes.length = t)
    (hb : b.Fit t) (hb' : b'.Fit t) :
    fullRoundSite ops t roundRc layoutRound stateRow state linear sboxes b =
      fullRoundSite ops t roundRc layoutRound stateRow state linear sboxes b' := by
  have hover : overwrite b.sboxOut (sboxes.map (·.out)) =
      overwrite b'.sboxOut (sboxes.map (·.out)) :=
    overwrite_scratch (by rw [List.length_map, hx, hb.sboxOut])
      (hb.sboxOut.trans hb'.sboxOut.symm)
  have hout : (overwrite b'.sboxOut (sboxes.map (·.out))).length = t :=
    (overwrite_length (by simp [hx, hb'.sboxOut])).trans hb'.sboxOut
  simp only [fullRoundSite]
  rw [hover, externalMatmul_scratch ops ht hout hb.next hb'.next hb.mdsOut hb'.mdsOut]

theorem internalMatmul_scratch (ops : Ops V σ ε) {input out out' : List V} {diag : List Fr}
    {base t : Nat} (ht : t ∈ poseidon2SupportedWidths) (hi : input.length = t)
    (ho : out.length = t) (ho' : out'.length = t) (hd : diag.length = if t < 4 then 0 else t) :
    internalMatmul ops input diag out base = internalMatmul ops input diag out' base := by
  have hpos : 0 < t := Poseidon2Width.pos ⟨t, ht⟩
  have hover : ∀ xs : List V, xs.length = t → overwrite out xs = overwrite out' xs :=
    fun xs h => overwrite_scratch (h.trans ho.symm) (ho.trans ho'.symm)
  simp only [internalMatmul, hi]
  by_cases h23 : t = 2 ∨ t = 3
  · obtain ⟨x0, xs, rfl⟩ := List.exists_cons_of_length_pos (hi ▸ hpos)
    simp only [if_pos h23, internalMatmulLeaf]
    rw [hover _ (by rw [List.length_map, List.length_zipIdx, hi])]
  · have h4 : ¬ t < 4 := by
      simp only [poseidon2SupportedWidths, List.mem_cons, List.not_mem_nil, or_false] at ht
      omega
    rw [if_neg h4] at hd
    have hprod : ∀ f : V × Fr → V, overwrite out ((input.zip diag).map f) =
        overwrite out' ((input.zip diag).map f) := fun f =>
      hover _ (by rw [List.length_map, List.length_zip, hi, hd, Nat.min_self])
    simp only [if_neg h23, hprod]

theorem partialRoundSite_scratch (ops : Ops V σ ε) {t round : Nat} {c : Fr} {diag : List Fr}
    {state : List V} {linear : V} {sbox : SboxTrace V} {b b' : Buffers V}
    (ht : t ∈ poseidon2SupportedWidths) (hd : diag.length = if t < 4 then 0 else t)
    (hs : state.length = t) (hb : b.Fit t) (hb' : b'.Fit t) :
    Prod.fst <$> partialRoundSite ops t round c diag state linear sbox b =
      Prod.fst <$> partialRoundSite ops t round c diag state linear sbox b' := by
  have hpos : 0 < t := Poseidon2Width.pos ⟨t, ht⟩
  have hlen : (sbox.out :: state.drop 1).length = t := by
    rw [List.length_cons, List.length_drop, hs]; omega
  have hover : overwrite b.sboxOut (sbox.out :: state.drop 1) =
      overwrite b'.sboxOut (sbox.out :: state.drop 1) :=
    overwrite_scratch (hlen.trans hb.sboxOut.symm) (hb.sboxOut.trans hb'.sboxOut.symm)
  have hout : (overwrite b'.sboxOut (sbox.out :: state.drop 1)).length = t :=
    (overwrite_length (hlen.trans hb'.sboxOut.symm)).trans hb'.sboxOut
  simp only [partialRoundSite, map_bind, map_pure]
  rw [hover, internalMatmul_scratch ops ht hout hb.next hb'.next hd]

end Poseidon2
end CircomMpc
