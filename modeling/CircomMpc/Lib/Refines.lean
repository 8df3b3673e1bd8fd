import Mathlib.Data.List.Forall2
import CircomMpc.Lib.Outcome
import CircomMpc.Lib.Table

/-!
# Data refinement of computations that may fail

`Refines Bad R x y`: wherever `y` returns, `x` returns a value `R`-related to `y`'s, or fails for a
reason in `Bad`. The specification `y` says nothing where it fails. Two programs of one shape are
related piece by piece: the rules below follow the monad and its loops, and the last section is the
list operations that keep two lists related entry by entry.

The converse direction, that `y` returns where `x` does, is not part of it; where it is needed it is
`Tracks`, which asks both.
-/

namespace CircomMpc
namespace Lib

variable {ε ε' α β α' β' : Type} {Bad : ε → Prop} {R : α → β → Prop} {R' : α' → β' → Prop}

/-- Where `y` returns, `x` returns a related value or fails for an allowed reason. -/
def Refines (Bad : ε → Prop) (R : α → β → Prop) (x : Except ε α) (y : Except ε' β) :
    Prop :=
  ∀ b, y = .ok b → Meets Bad (fun a => R a b) x

namespace Refines

variable {x : Except ε α} {y : Except ε' β}

theorem ok {a : α} {b : β} (h : R a b) : Refines Bad R (.ok a) (.ok b : Except ε' β) := by
  intro b' hb'
  cases hb'
  exact h

theorem pure {a : α} {b : β} (h : R a b) :
    Refines Bad R (Pure.pure a : Except ε α) (Pure.pure b : Except ε' β) :=
  ok h

/-- A specification that fails asks for nothing. -/
theorem error {e : ε'} : Refines Bad R x (.error e : Except ε' β) := by
  intro b hb
  cases hb

theorem weaken {Bad' : ε → Prop} {S : α → β → Prop} (h : Refines Bad R x y)
    (hb : ∀ e, Bad e → Bad' e) (hr : ∀ a b, R a b → S a b) : Refines Bad' S x y :=
  fun b hy => (h b hy).weaken hb fun a ha => hr a b ha

theorem post {S : α → β → Prop} (h : Refines Bad R x y) (hr : ∀ a b, R a b → S a b) :
    Refines Bad S x y :=
  h.weaken (fun _ he => he) hr

/-- What follows may use that the specification returned. -/
theorem known (h : Refines Bad R x y) : Refines Bad (fun a b => R a b ∧ y = .ok b) x y :=
  fun b hy => (h b hy).post fun _ ha => ⟨ha, hy⟩

theorem bind {f : α → Except ε α'} {g : β → Except ε' β'} (h : Refines Bad R x y)
    (hf : ∀ a b, R a b → Refines Bad R' (f a) (g b)) : Refines Bad R' (x >>= f) (y >>= g) := by
  intro b' hb'
  obtain ⟨b, hy, hg⟩ := bind_eq_ok.mp hb'
  exact (h b hy).bind fun a ha => hf a b ha b' hg

/-- Two checks of one condition. -/
theorem ensure_bind {c c' : Prop} [Decidable c] [Decidable c'] {e : ε} {e' : ε'}
    {x : Except ε α} {y : Except ε' β} (hc : c' → c) (h : c' → Refines Bad R x y) :
    Refines Bad R (ensure c e >>= fun _ => x) (ensure c' e' >>= fun _ => y) := by
  by_cases hc' : c'
  · rw [ensure_of hc', ensure_of (hc hc')]
    exact h hc'
  · rw [ensure_of_not hc']
    exact error

/-- Two computations of one shape whose failures are reported in other terms. -/
theorem mapError {δ δ' : Type} {Bad' : δ → Prop} {f : ε → δ} {g : ε' → δ'}
    (h : Refines Bad R x y) (hf : ∀ e, Bad e → Bad' (f e)) :
    Refines Bad' R (x.mapError f) (y.mapError g) := by
  intro b hb
  exact (h b (mapError_eq_ok.mp hb)).mapError hf

theorem orElse {o : Option α} {o' : Option β} {e : ε} {e' : ε'}
    (h : ∀ b, o' = some b → ∃ a, o = some a ∧ R a b) :
    Refines Bad R (orElse e o) (Lib.orElse e' o') := by
  intro b hb
  obtain ⟨a, ha, hab⟩ := h b (orElse_eq_ok.mp hb)
  rw [ha]
  exact hab

/-- Loops over related lists, turn by turn. -/
theorem foldlM {γ δ : Type} {Item : γ → δ → Prop} {f : α → γ → Except ε α}
    {g : β → δ → Except ε' β} :
    ∀ {xs : List γ} {ys : List δ} {s : α} {t : β}, List.Forall₂ Item xs ys → R s t →
      (∀ c d s t, Item c d → R s t → Refines Bad R (f s c) (g t d)) →
      Refines Bad R (xs.foldlM f s) (ys.foldlM g t)
  | [], [], _, _, .nil, hs, _ => pure hs
  | c :: xs, d :: ys, s, t, .cons hcd hrest, hs, hf => by
    rw [List.foldlM_cons, List.foldlM_cons]
    exact (hf c d s t hcd hs).bind fun s' t' hs' => foldlM hrest hs' hf

theorem mapM {γ δ : Type} {Item : γ → δ → Prop} {f : γ → Except ε α} {g : δ → Except ε' β} :
    ∀ {xs : List γ} {ys : List δ}, List.Forall₂ Item xs ys →
      (∀ c d, Item c d → Refines Bad R (f c) (g d)) →
      Refines Bad (List.Forall₂ R) (xs.mapM f) (ys.mapM g)
  | [], [], .nil, _ => pure .nil
  | c :: xs, d :: ys, .cons hcd hrest, hf => by
    rw [List.mapM_cons, List.mapM_cons]
    exact (hf c d hcd).bind fun a b hab =>
      (mapM hrest hf).bind fun as bs habs => pure (.cons hab habs)

end Refines

/-! ## Lists related entry by entry -/

variable {xs : List α} {ys : List β}

theorem forall₂_slice (h : List.Forall₂ R xs ys) (lo hi : Nat) :
    List.Forall₂ R (slice xs lo hi) (slice ys lo hi) :=
  List.forall₂_take _ (List.forall₂_drop _ h)

theorem forall₂_append {xs' : List α} {ys' : List β} (h : List.Forall₂ R xs ys)
    (h' : List.Forall₂ R xs' ys') : List.Forall₂ R (xs ++ xs') (ys ++ ys') :=
  List.rel_append h h'

theorem forall₂_map {f : α → α'} {g : β → β'} (h : List.Forall₂ R xs ys)
    (hf : ∀ a b, R a b → R' (f a) (g b)) : List.Forall₂ R' (xs.map f) (ys.map g) := by
  rw [List.forall₂_map_left_iff, List.forall₂_map_right_iff]
  exact h.imp hf

theorem forall₂_flatMap {f : α → List α'} {g : β → List β'} (h : List.Forall₂ R xs ys)
    (hf : ∀ a b, R a b → List.Forall₂ R' (f a) (g b)) :
    List.Forall₂ R' (xs.flatMap f) (ys.flatMap g) :=
  List.rel_flatMap h fun a b hab => hf a b hab

theorem forall₂_replicate {a : α} {b : β} (h : R a b) :
    ∀ n : Nat, List.Forall₂ R (List.replicate n a) (List.replicate n b)
  | 0 => .nil
  | n + 1 => .cons h (forall₂_replicate h n)

/-- Numbering two related lists numbers them alike. -/
theorem forall₂_zipIdx : ∀ {xs : List α} {ys : List β} (k : Nat), List.Forall₂ R xs ys →
    List.Forall₂ (fun p q => R p.1 q.1 ∧ p.2 = q.2) (xs.zipIdx k) (ys.zipIdx k)
  | [], [], _, .nil => .nil
  | _ :: _, _ :: _, k, .cons h hrest => .cons ⟨h, rfl⟩ (forall₂_zipIdx (k + 1) hrest)

theorem forall₂_zip_pair : ∀ {xs : List α} {ys : List β} {xs' : List α'} {ys' : List β'},
    List.Forall₂ R xs ys → List.Forall₂ R' xs' ys' →
      List.Forall₂ (fun p q => R p.1 q.1 ∧ R' p.2 q.2) (xs.zip xs') (ys.zip ys')
  | [], [], _, _, .nil, _ => .nil
  | _ :: _, _ :: _, [], [], .cons _ _, .nil => .nil
  | _ :: _, _ :: _, _ :: _, _ :: _, .cons h hrest, .cons h' hrest' =>
    .cons ⟨h, h'⟩ (forall₂_zip_pair hrest hrest')

theorem forall₂_getD (h : List.Forall₂ R xs ys) {a : α} {b : β} (hab : R a b) (i : Nat) :
    R (xs.getD i a) (ys.getD i b) := by
  induction h generalizing i with
  | nil => exact hab
  | cons hcd _ ih =>
    cases i with
    | zero => exact hcd
    | succ i => exact ih i

theorem forall₂_set (h : List.Forall₂ R xs ys) {a : α} {b : β} (hab : R a b) (i : Nat) :
    List.Forall₂ R (xs.set i a) (ys.set i b) := by
  induction h generalizing i with
  | nil => exact .nil
  | cons hcd hrest ih =>
    cases i with
    | zero => exact .cons hab hrest
    | succ i => exact .cons hcd (ih i)

/-- Every entry of a list, by its position. -/
theorem forall₂_range (zs : List α) :
    List.Forall₂ (fun i z => zs[i]? = some z) (List.range zs.length) zs := by
  rw [List.forall₂_iff_get]
  refine ⟨List.length_range, fun i _ hi => ?_⟩
  simp [List.getElem?_eq_getElem hi]

/-- A list with itself. -/
theorem forall₂_eq (zs : List α) : List.Forall₂ (fun a b => a = b) zs zs :=
  List.forall₂_same.mpr fun _ _ => rfl

end Lib
end CircomMpc
