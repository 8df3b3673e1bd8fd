import Mathlib.Data.List.Basic
import Mathlib.Data.List.Nodup
import Mathlib.Data.List.Chain
import Mathlib.Data.List.Perm.Subperm
import CircomMpc.Lib.Outcome

/-!
# Slices, windows and compressed rows

The flat tables of a compiled program are addressed three ways: by a half-open range
(`table[lo..hi]`), by adjacent pairs (`table.windows(2)`), and by rows whose boundaries are
themselves a table (compressed sparse rows: row `i` is `table[offsets[i]..offsets[i + 1]]`). The
facts here are about those three and about no table in particular.
-/

namespace CircomMpc
namespace Lib

variable {α β ε : Type}

/-- `xs[lo..hi]`. -/
def slice (xs : List α) (lo hi : Nat) : List α := (xs.drop lo).take (hi - lo)

theorem slice_length {xs : List α} {lo hi : Nat} (h : hi ≤ xs.length) :
    (slice xs lo hi).length = hi - lo := by
  simp [slice]; omega

theorem mem_of_mem_slice {xs : List α} {lo hi : Nat} {x : α} (h : x ∈ slice xs lo hi) :
    x ∈ xs :=
  List.mem_of_mem_drop (List.mem_of_mem_take h)

/-- Two adjacent ranges join. -/
theorem slice_append_slice {xs : List α} {a b c : Nat} (hab : a ≤ b) (hbc : b ≤ c) :
    slice xs a b ++ slice xs b c = slice xs a c := by
  unfold slice
  have h1 : xs.drop b = (xs.drop a).drop (b - a) := by
    rw [List.drop_drop]; congr 1; omega
  have h2 : c - a = (b - a) + (c - b) := by omega
  rw [h1, h2, List.take_add]

theorem slice_map {xs : List α} {f : α → β} {a b : Nat} :
    slice (xs.map f) a b = (slice xs a b).map f := by
  simp [slice, List.map_drop, List.map_take]

theorem slice_full {xs : List α} : slice xs 0 xs.length = xs := by
  simp [slice]

/-- `xs.windows(2)`, as pairs. -/
def windows (xs : List α) : List (α × α) := xs.zip xs.tail

@[simp] theorem windows_length {xs : List α} : (windows xs).length = xs.length - 1 := by
  simp [windows]

theorem slice_append_right {xs ys : List α} {n lo hi : Nat} (h : xs.length = n) :
    slice (xs ++ ys) (n + lo) (n + hi) = slice ys lo hi := by
  subst h
  unfold slice
  rw [← List.drop_drop, List.drop_left, Nat.add_sub_add_left]

/-- The middle of three parts. -/
theorem slice_middle (xs ys zs : List α) :
    slice (xs ++ ys ++ zs) xs.length (xs.length + ys.length) = ys := by
  have h : slice (xs ++ (ys ++ zs)) (xs.length + 0) (xs.length + ys.length) =
      slice (ys ++ zs) 0 ys.length := slice_append_right rfl
  rw [List.append_assoc]
  refine h.trans ?_
  unfold slice
  simp

/-- A piece of a concatenation, found by the length of the pieces in front. -/
theorem slice_flatMap {f : α → List β} {xs : List α} {k : Nat} {x : α} (hk : xs[k]? = some x) :
    slice (xs.flatMap f) ((xs.take k).flatMap f).length ((xs.take (k + 1)).flatMap f).length = f x := by
  have hsplit : xs = xs.take k ++ x :: xs.drop (k + 1) := by
    obtain ⟨hlt, rfl⟩ := List.getElem?_eq_some_iff.mp hk
    rw [List.getElem_cons_drop, List.take_append_drop]
  have hall : xs.flatMap f = (xs.take k).flatMap f ++ f x ++ (xs.drop (k + 1)).flatMap f := by
    conv_lhs => rw [hsplit]
    rw [List.flatMap_append, List.flatMap_cons, List.append_assoc]
  have hend : ((xs.take (k + 1)).flatMap f).length =
      ((xs.take k).flatMap f).length + (f x).length := by
    rw [List.take_add_one, hk, List.flatMap_append]
    simp
  rw [hall, hend, slice_middle]

/-- A piece of a concatenation of pieces of one width. -/
theorem slice_flatten {w : Nat} (after : List α) :
    ∀ {pieces : List (List α)} {k : Nat}, (∀ x ∈ pieces, x.length = w) → (hk : k < pieces.length) →
      slice (pieces.flatten ++ after) (w * k) (w * (k + 1)) = pieces[k]
  | x :: pieces, 0, h, _ => by
    have hx := h x (by simp)
    simp [slice, ← hx]
  | x :: pieces, k + 1, h, hk => by
    have hx := h x (by simp)
    have ih := slice_flatten after (fun y hy => h y (by simp [hy]))
      (by simpa using hk : k < pieces.length)
    -- Behind the first piece every boundary is one width further on.
    have hlo : w * (k + 1) = x.length + w * k := by rw [hx, Nat.mul_succ, Nat.add_comm]
    have hhi : w * (k + 1 + 1) = x.length + w * (k + 1) := by
      rw [hx, Nat.mul_succ w (k + 1), Nat.add_comm]
    unfold slice at ih ⊢
    rw [hlo, hhi, Nat.add_sub_add_left, List.flatten_cons, List.append_assoc, ← List.drop_drop,
      List.drop_left]
    exact ih

/-- A window's two ends, read with a default that is never used. -/
theorem windows_getElem {xs : List α} {d : α} {i : Nat} (h : i < (windows xs).length) :
    (windows xs)[i] = (xs.getD i d, xs.getD (i + 1) d) := by
  have hi : i + 1 < xs.length := by rw [windows_length] at h; omega
  simp [windows, List.getElem_zip, List.getElem_tail, List.getElem?_eq_getElem hi,
    List.getElem?_eq_getElem (Nat.lt_of_succ_lt hi)]

/-- A relation checked on every window is a chain. -/
theorem windows_all {r : α → α → Prop} [DecidableRel r] :
    ∀ xs : List α, ((windows xs).all fun w => decide (r w.1 w.2)) = true ↔ xs.IsChain r
  | [] => by simp [windows]
  | [x] => by simp [windows]
  | x :: y :: xs => by
    have ih := windows_all (r := r) (y :: xs)
    simp only [windows, List.tail_cons, List.zip_cons_cons, List.all_cons, Bool.and_eq_true,
      decide_eq_true_eq, List.isChain_cons_cons] at ih ⊢
    rw [← ih]

/-- A list paired with its own image. -/
theorem zip_map_self {f : α → β} {xs : List α} :
    (xs.map f).zip xs = xs.map fun x => (f x, x) := by
  rw [← List.zip_map', List.map_id']

/-- Rows of equal lengths: pairing the joined tables is joining the paired rows. -/
theorem flatten_zip_flatten {γ : Type} {f : γ → List α} {g : γ → List β} :
    ∀ {is : List γ}, (∀ i ∈ is, (f i).length = (g i).length) →
      (is.map f).flatten.zip (is.map g).flatten = is.flatMap fun i => (f i).zip (g i)
  | [], _ => by simp
  | i :: is, h => by
    rw [List.map_cons, List.map_cons, List.flatten_cons, List.flatten_cons, List.flatMap_cons,
      List.zip_append (h i (by simp)), flatten_zip_flatten fun j hj => h j (by simp [hj])]

/-- Pairs gone through one by one, each giving its second component and a value of its first. -/
theorem zip_flatMap_swap {γ : Type} {g : α → γ} :
    ∀ {xs : List α} {ys : List β},
      ((xs.zip ys).flatMap fun w => [(w.2, g w.1)]) = ys.zip (xs.map g)
  | [], ys => by simp
  | _ :: _, [] => by simp
  | x :: xs, y :: ys => by
    rw [List.zip_cons_cons, List.flatMap_cons, zip_flatMap_swap]
    rfl

/-- A loop over a numbered list that looks at the numbers only. -/
theorem zipIdx_flatMap_snd {γ : Type} {f : Nat → List γ} {xs : List α} :
    (xs.zipIdx.flatMap fun e => f e.2) = (List.range xs.length).flatMap f := by
  rw [← List.flatMap_map (f := Prod.snd) (g := f), List.zipIdx_map_snd, List.range_eq_range']

theorem forM_zipIdx_eq_ok {f : α × Nat → Except ε PUnit} {P : α → Prop} {xs : List α}
    (h : ∀ x i, f (x, i) = .ok () ↔ P x) : forM xs.zipIdx f = .ok () ↔ ∀ x ∈ xs, P x := by
  rw [forM_eq_ok]
  constructor
  · intro hall x hx
    obtain ⟨i, hi, rfl⟩ := List.mem_iff_getElem.mp hx
    have hmem : (xs[i], i) ∈ xs.zipIdx := by
      rw [List.mem_zipIdx_iff_getElem?]; simp [hi]
    exact (h _ _).mp (hall _ hmem)
  · rintro hall ⟨x, i⟩ hx
    refine (h x i).mpr (hall x ?_)
    rw [List.mem_zipIdx_iff_getElem?] at hx
    exact List.mem_of_getElem? hx

/-- The names of a table inserted one by one into a set of seen names: every insertion is fresh
    exactly when the names are distinct and none was seen before. -/
theorem foldlM_fresh [DecidableEq β] {k : α → β} {P : α → Prop}
    {f : List β → α → Except ε (List β)}
    (h : ∀ seen x seen', f seen x = .ok seen' ↔ P x ∧ k x ∉ seen ∧ seen' = k x :: seen) :
    ∀ (xs : List α) (seen : List β),
      (∃ seen', xs.foldlM f seen = .ok seen') ↔
        (∀ x ∈ xs, P x) ∧ (xs.map k).Nodup ∧ ∀ x ∈ xs, k x ∉ seen
  | [], seen => by simp [pure, Except.pure]
  | x :: xs, seen => by
    have ih := foldlM_fresh h xs (k x :: seen)
    simp only [List.foldlM_cons, bind_eq_ok, h]
    constructor
    · -- The loop succeeds, so the first name was fresh, and the others are fresh beside it.
      rintro ⟨seen', s, ⟨hok, hfresh, rfl⟩, hrest⟩
      obtain ⟨hoks, hnd, hout⟩ := ih.mp ⟨seen', hrest⟩
      refine ⟨by simpa using ⟨hok, hoks⟩, ?_, ?_⟩
      · rw [List.map_cons, List.nodup_cons]
        refine ⟨fun hmem => ?_, hnd⟩
        obtain ⟨y, hy, he⟩ := List.mem_map.mp hmem
        exact hout y hy (by simp [he])
      · intro y hy
        rcases List.mem_cons.mp hy with rfl | hy
        · exact hfresh
        · exact fun hmem => hout y hy (by simp [hmem])
    · -- The first insertion succeeds, and the others do not meet its name.
      rintro ⟨hoks, hnd, hout⟩
      rw [List.map_cons, List.nodup_cons] at hnd
      obtain ⟨seen', hs⟩ := ih.mpr ⟨fun y hy => hoks y (by simp [hy]), hnd.2, fun y hy hmem => by
        rcases List.mem_cons.mp hmem with he | hmem
        · exact hnd.1 (List.mem_map.mpr ⟨y, hy, he⟩)
        · exact hout y (by simp [hy]) hmem⟩
      exact ⟨seen', _, ⟨hoks x (by simp), hout x (by simp), rfl⟩, hs⟩

/-! ## Short lists -/

theorem eq_singleton {xs : List α} (h : xs.length = 1) : ∃ a, xs = [a] :=
  List.length_eq_one_iff.mp h

theorem eq_pair {xs : List α} (h : xs.length = 2) : ∃ a b, xs = [a, b] := by
  match xs, h with
  | [a, b], _ => exact ⟨a, b, rfl⟩

theorem getElem?_append_of_some {α : Type} {xs ys : List α} {i : Nat} {x : α}
    (h : xs[i]? = some x) : (xs ++ ys)[i]? = some x := by
  rw [List.getElem?_append_left (List.getElem?_eq_some_iff.mp h).1]
  exact h

/-- Two related lists, entry by entry. -/
theorem forall₂_getElem? {R : α → β → Prop} {xs : List α} {ys : List β} (h : List.Forall₂ R xs ys)
    {i : Nat} {y : β} (hy : ys[i]? = some y) : ∃ x, xs[i]? = some x ∧ R x y := by
  induction h generalizing i with
  | nil => cases hy
  | @cons x z xs ys hxz _ ih =>
    cases i with
    | zero =>
      cases hy
      exact ⟨x, rfl, hxz⟩
    | succ i => exact ih hy

/-- Related lists are related otherwise, where their entries are. -/
theorem forall₂_imp_mem {R S : α → β → Prop} {xs : List α} {ys : List β} (h : List.Forall₂ R xs ys)
    (himp : ∀ x ∈ xs, ∀ y, R x y → S x y) : List.Forall₂ S xs ys := by
  induction h with
  | nil => exact .nil
  | cons hxy _ ih =>
    exact .cons (himp _ (by simp) _ hxy) (ih fun x hx => himp x (List.mem_cons_of_mem _ hx))

/-- A list, read position by position. -/
theorem range_getElem? (xs : List α) :
    (List.range xs.length).map (fun i => xs[i]?) = xs.map some := by
  apply List.ext_getElem (by simp)
  intro i hi _
  have hlt : i < xs.length := by simpa using hi
  simp [hlt]

theorem range_filterMap (xs : List α) (f : α → Option β) :
    ((List.range xs.length).filterMap fun i => xs[i]?.bind f) = xs.filterMap f := by
  have hread := congrArg (List.filterMap fun x : Option α => x.bind f) (range_getElem? xs)
  rw [List.filterMap_map, List.filterMap_map] at hread
  exact hread

theorem range_flatMap (xs : List α) (f : α → List β) :
    ((List.range xs.length).flatMap fun i => (xs[i]?.map f).getD []) = xs.flatMap f := by
  have hread := congrArg (List.flatMap fun x : Option α => (x.map f).getD []) (range_getElem? xs)
  rw [List.flatMap_map, List.flatMap_map] at hread
  exact hread

/-- In a list of blocks without repetitions an item is in one block. -/
theorem index_unique_of_nodup {f : α → List β} {xs : List α} (h : (xs.flatMap f).Nodup) {i j : Nat}
    {x y : α} (hi : xs[i]? = some x) (hj : xs[j]? = some y) {b : β} (hx : b ∈ f x) (hy : b ∈ f y) :
    i = j := by
  have hpairs := List.pairwise_iff_getElem.mp (List.nodup_flatMap.mp h).2
  obtain ⟨hlti, hgeti⟩ := List.getElem?_eq_some_iff.mp hi
  obtain ⟨hltj, hgetj⟩ := List.getElem?_eq_some_iff.mp hj
  rcases Nat.lt_trichotomy i j with hlt | heq | hgt
  · have hdisjoint := hpairs i j hlti hltj hlt
    rw [hgeti, hgetj] at hdisjoint
    exact absurd hy (hdisjoint hx)
  · exact heq
  · have hdisjoint := hpairs j i hltj hlti hgt
    rw [hgeti, hgetj] at hdisjoint
    exact absurd hx (hdisjoint hy)

/-- Ranges that stay below a bound and whose lengths add up to it cover every number below it
    exactly when they are disjoint. -/
theorem covers_iff_disjoint {blocks : List (List Nat)} {n : Nat}
    (hlength : blocks.flatten.length = n) (hbelow : ∀ x ∈ blocks.flatten, x < n)
    (hnodup : ∀ block ∈ blocks, block.Nodup) :
    (∀ x < n, x ∈ blocks.flatten) ↔ blocks.Pairwise List.Disjoint := by
  have hsplit : blocks.flatten.Nodup ↔ blocks.Pairwise List.Disjoint := by
    rw [List.nodup_flatten]
    exact ⟨fun h => h.2, fun h => ⟨hnodup, h⟩⟩
  rw [← hsplit]
  constructor
  · intro hcover
    have hsub : List.range n ⊆ blocks.flatten :=
      fun x hx => hcover x (List.mem_range.mp hx)
    have hperm : (List.range n).Perm blocks.flatten :=
      (List.subperm_of_subset List.nodup_range hsub).perm_of_length_le (by simp [hlength])
    exact hperm.nodup_iff.mp List.nodup_range
  · intro hdistinct x hx
    have hsub : blocks.flatten ⊆ List.range n :=
      fun y hy => List.mem_range.mpr (hbelow y hy)
    have hperm : blocks.flatten.Perm (List.range n) :=
      (List.subperm_of_subset hdistinct hsub).perm_of_length_le (by simp [hlength])
    exact hperm.mem_iff.mpr (List.mem_range.mpr hx)

end Lib
end CircomMpc
