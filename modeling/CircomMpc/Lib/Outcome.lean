import Mathlib.Data.List.Basic
import Mathlib.Data.List.Forall2

/-!
# Fallible computations, and what a run of them keeps

`Except ε α` is the monad every fallible function of the development lives in. This file is the
small program logic over it: `Meets Bad Post x` says that a computation, if it fails, fails for a
reason `Bad` allows, and if it returns, returns a value `Post` accepts. There is one rule per way
computations are put together — `pure`, `bind`, `ensure`, a loop over a list, a fold over a list —
and each is proved once, so that a proof about a function of the source is the function's own shape
with a rule at every node.

The loops are the point. A `for` over a table is `forM` here, a loop that threads a state is
`List.foldlM`, a `collect` of fallible items is `List.mapM`; their rules are the induction
principles a loop invariant needs, packaged.
-/

namespace CircomMpc
namespace Lib

variable {ε α β : Type}

/-- `eyre::ensure!`: succeed when the condition holds, fail with `e` otherwise. -/
def ensure (c : Prop) [Decidable c] (e : ε) : Except ε Unit :=
  if c then .ok () else .error e

@[simp] theorem ensure_eq_ok {c : Prop} [Decidable c] {e : ε} :
    ensure c e = .ok () ↔ c := by
  unfold ensure; split <;> simp_all

theorem ensure_of {c : Prop} [Decidable c] {e : ε} (h : c) : ensure c e = .ok () := by
  simp [h]

theorem ensure_of_not {c : Prop} [Decidable c] {e : ε} (h : ¬ c) : ensure c e = .error e := by
  simp [ensure, h]

/-- An `Option` read as a computation that fails with `e` when there is nothing to read. -/
def orElse (e : ε) : Option α → Except ε α
  | some a => .ok a
  | none => .error e

@[simp] theorem orElse_some {e : ε} {a : α} : orElse e (some a) = .ok a := rfl

@[simp] theorem orElse_none {e : ε} : orElse e (none : Option α) = .error e := rfl

@[simp] theorem orElse_eq_ok {e : ε} {o : Option α} {a : α} :
    orElse e o = .ok a ↔ o = some a := by
  cases o <;> simp [orElse]

/-! ## Inversion of a successful computation -/

theorem bind_eq_ok {x : Except ε α} {f : α → Except ε β} {b : β} :
    x >>= f = .ok b ↔ ∃ a, x = .ok a ∧ f a = .ok b := by
  cases x with
  | error e => simp [bind, Except.bind]
  | ok a => simp [bind, Except.bind]

theorem ok_bind {a : α} {f : α → Except ε β} : (Except.ok a >>= f) = f a := rfl

theorem error_bind {e : ε} {f : α → Except ε β} : (Except.error e >>= f) = .error e := rfl

theorem except_map_bind {γ : Type} {x : Except ε α} {f : α → Except ε β} {g : β → γ} :
    (x >>= f).map g = x >>= fun a => (f a).map g := by
  cases x <;> rfl

theorem pure_eq_ok {a b : α} : (pure a : Except ε α) = .ok b ↔ a = b := by
  simp [pure, Except.pure]

/-- A check in front of a computation passes, and then the computation returns. -/
theorem seq_eq_ok {x : Except ε Unit} {y : Except ε β} {b : β} :
    (x >>= fun _ => y) = .ok b ↔ x = .ok () ∧ y = .ok b := by
  rw [bind_eq_ok]
  exact ⟨fun ⟨_, hx, hy⟩ => ⟨hx, hy⟩, fun ⟨hx, hy⟩ => ⟨(), hx, hy⟩⟩

/-- A loop of checks passes when every check passes. -/
theorem forM_eq_ok {f : α → Except ε PUnit} :
    ∀ {xs : List α}, forM xs f = .ok () ↔ ∀ x ∈ xs, f x = .ok ()
  | [] => by simp [pure, Except.pure]
  | x :: xs => by
    rw [List.forM_cons, seq_eq_ok, forM_eq_ok]
    simp

/-! ## Partial-correctness triples -/

/-- `x` fails only for a reason in `Bad`, and returns only values in `Post`. -/
def Meets (Bad : ε → Prop) (Post : α → Prop) : Except ε α → Prop
  | .ok a => Post a
  | .error e => Bad e

variable {Bad : ε → Prop} {Post : α → Prop} {Post' : β → Prop}

@[simp] theorem meets_ok {a : α} : Meets Bad Post (.ok a) ↔ Post a := Iff.rfl

@[simp] theorem meets_error {e : ε} : Meets Bad Post (.error e) ↔ Bad e := Iff.rfl

theorem meets_pure {a : α} (h : Post a) : Meets Bad Post (pure a) := h

theorem Meets.weaken {Bad' : ε → Prop} {Post₂ : α → Prop} {x : Except ε α}
    (h : Meets Bad Post x) (hb : ∀ e, Bad e → Bad' e) (hp : ∀ a, Post a → Post₂ a) :
    Meets Bad' Post₂ x := by
  cases x with
  | error e => exact hb e h
  | ok a => exact hp a h

theorem Meets.post {Post₂ : α → Prop} {x : Except ε α} (h : Meets Bad Post x)
    (hp : ∀ a, Post a → Post₂ a) : Meets Bad Post₂ x :=
  h.weaken (fun _ he => he) hp

/-- Two facts about one computation. -/
theorem Meets.both {Bad₂ : ε → Prop} {Post₂ : α → Prop} {x : Except ε α} (h : Meets Bad Post x)
    (h₂ : Meets Bad₂ Post₂ x) : Meets Bad (fun a => Post a ∧ Post₂ a) x := by
  cases x with
  | error e => exact h
  | ok a => exact ⟨h, h₂⟩

theorem Meets.bind {x : Except ε α} {f : α → Except ε β} (hx : Meets Bad Post x)
    (hf : ∀ a, Post a → Meets Bad Post' (f a)) : Meets Bad Post' (x >>= f) := by
  cases x with
  | error e => exact hx
  | ok a => exact hf a hx

/-- Nothing is asked of a step whose outcome does not matter to what follows. -/
theorem Meets.bind_any {x : Except ε α} {f : α → Except ε β}
    (hf : ∀ a, Meets (fun _ => True) Post' (f a)) : Meets (fun _ => True) Post' (x >>= f) := by
  cases x with
  | error e => exact trivial
  | ok a => exact hf a

/-- What a step returns is known by its equation. -/
theorem Meets.bind_eq {x : Except ε α} {f : α → Except ε β}
    (hf : ∀ a, x = .ok a → Meets (fun _ => True) Post' (f a)) :
    Meets (fun _ => True) Post' (x >>= f) := by
  cases x with
  | error e => exact trivial
  | ok a => exact hf a rfl

/-- A computation that did return. -/
theorem Meets.of_ok {x : Except ε α} {a : α} (h : Meets Bad Post x) (hx : x = .ok a) : Post a := by
  subst hx
  exact h

/-- What is known of a computation, with what it returned. -/
theorem Meets.called {x : Except ε α} (h : Meets Bad Post x) :
    Meets Bad (fun a => x = .ok a ∧ Post a) x := by
  cases x with
  | error e => exact h
  | ok a => exact ⟨rfl, h⟩

/-- A check whose condition holds never fails. -/
theorem Meets.ensure_bind {c : Prop} [Decidable c] {e : ε} {y : Except ε β} (hc : c)
    (hy : Meets Bad Post' y) : Meets Bad Post' (ensure c e >>= fun _ => y) := by
  rw [ensure_of hc]; exact hy

/-- A check that may fail for an allowed reason leaves its condition to what follows. -/
theorem Meets.guard_bind {c : Prop} [Decidable c] {e : ε} {y : Except ε β} (he : ¬ c → Bad e)
    (hy : c → Meets Bad Post' y) : Meets Bad Post' (ensure c e >>= fun _ => y) := by
  by_cases hc : c
  · rw [ensure_of hc]; exact hy hc
  · rw [ensure_of_not hc]; exact he hc

/-- A computation that never fails returns. -/
theorem Meets.ok_of_never {x : Except ε α} (h : Meets (fun _ => False) Post x) :
    ∃ a, x = .ok a ∧ Post a := by
  cases x with
  | error e => exact absurd h (by simp)
  | ok a => exact ⟨a, rfl, h⟩

/-- `x` never fails, and returns only values in `Post`. -/
abbrev Returns (Post : α → Prop) (x : Except ε α) : Prop := Meets (fun _ => False) Post x

/-- A computation that did return, and so never fails. -/
theorem Meets.returns {ε' : Type} {Bad' : ε' → Prop} {x : Except ε' α} (h : Meets Bad' Post x)
    (hx : ∃ a, x = .ok a) : Returns Post x := by
  obtain ⟨a, rfl⟩ := hx
  exact h

theorem returns_iff {x : Except ε α} : Returns Post x ↔ ∃ a, x = .ok a ∧ Post a := by
  constructor
  · exact Meets.ok_of_never
  · rintro ⟨a, rfl, ha⟩
    exact ha

/-! ## Failures in other terms -/

@[simp] theorem mapError_eq_ok {ε' : Type} {f : ε → ε'} {x : Except ε α} {a : α} :
    x.mapError f = .ok a ↔ x = .ok a := by
  cases x with
  | error e => exact ⟨nofun, nofun⟩
  | ok b => simp [Except.mapError]

/-- What is made of a failure is allowed if it is of every allowed one. -/
theorem Meets.mapError {ε' : Type} {Bad' : ε' → Prop} {f : ε → ε'} {x : Except ε α}
    (h : Meets Bad Post x) (hf : ∀ e, Bad e → Bad' (f e)) : Meets Bad' Post (x.mapError f) := by
  cases x with
  | error e => exact hf e h
  | ok a => exact h

/-! ## Loops -/

/-- The loop rule: what one turn keeps, the loop keeps. -/
theorem Meets.foldlM {σ : Type} {Inv : σ → Prop} {f : σ → α → Except ε σ} :
    ∀ {xs : List α} {s : σ}, Inv s → (∀ x ∈ xs, ∀ s, Inv s → Meets Bad Inv (f s x)) →
      Meets Bad Inv (xs.foldlM f s)
  | [], s, hs, _ => hs
  | x :: xs, s, hs, hf => by
    rw [List.foldlM_cons]
    refine Meets.bind (hf x (by simp) s hs) fun s' hs' => ?_
    exact Meets.foldlM hs' fun y hy => hf y (by simp [hy])

/-- The loop rule for a numbered list: the invariant may mention how far the loop has come. -/
theorem Meets.foldlM_zipIdx {σ : Type} (Inv : Nat → σ → Prop) {f : σ → α × Nat → Except ε σ} :
    ∀ {xs : List α} {k : Nat} {s : σ}, Inv k s →
      (∀ (i : Nat) (x : α) (s : σ), xs[i]? = some x → Inv (k + i) s →
        Meets Bad (Inv (k + i + 1)) (f s (x, k + i))) →
      Meets Bad (Inv (k + xs.length)) ((xs.zipIdx k).foldlM f s)
  | [], k, s, hs, _ => hs
  | x :: xs, k, s, hs, hf => by
    rw [List.zipIdx_cons, List.foldlM_cons]
    refine Meets.bind (hf 0 x s rfl hs) fun s' hs' => ?_
    have hlen : k + (x :: xs).length = (k + 1) + xs.length := by
      rw [List.length_cons]
      omega
    rw [hlen]
    apply Meets.foldlM_zipIdx Inv hs'
    intro i y s hy hinv
    have hshift : k + 1 + i = k + (i + 1) := by omega
    rw [hshift] at hinv ⊢
    exact hf (i + 1) y s hy hinv

/-- The loop rule for a list numbered from zero. -/
theorem Meets.foldlM_enum {σ : Type} (Inv : Nat → σ → Prop) {f : σ → α × Nat → Except ε σ}
    {xs : List α} {s : σ} (hstart : Inv 0 s)
    (hstep : ∀ (i : Nat) (x : α) (s : σ), xs[i]? = some x → Inv i s →
      Meets Bad (Inv (i + 1)) (f s (x, i))) :
    Meets Bad (Inv xs.length) (xs.zipIdx.foldlM f s) := by
  have hloop : Meets Bad (Inv (0 + xs.length)) ((xs.zipIdx 0).foldlM f s) := by
    apply Meets.foldlM_zipIdx Inv hstart
    intro i x s hx hs
    rw [Nat.zero_add] at hs ⊢
    exact hstep i x s hx hs
  rw [Nat.zero_add] at hloop
  exact hloop

/-- The loop rule for a counter. -/
theorem Meets.foldlM_range {σ : Type} (Inv : Nat → σ → Prop) {f : σ → Nat → Except ε σ} {n : Nat}
    {s : σ} (hstart : Inv 0 s)
    (hstep : ∀ k < n, ∀ s, Inv k s → Meets Bad (Inv (k + 1)) (f s k)) :
    Meets Bad (Inv n) ((List.range n).foldlM f s) := by
  induction n with
  | zero => exact hstart
  | succ n ih =>
    rw [List.range_succ, List.foldlM_append]
    apply Meets.bind (ih fun k hk => hstep k (Nat.lt_succ_of_lt hk))
    intro s' hs'
    rw [List.foldlM_cons]
    apply Meets.bind (hstep n (Nat.lt_succ_self n) s' hs')
    intro s'' hs''
    exact hs''

/-- The loop rule for an invariant that knows which items the loop has seen. -/
theorem Meets.foldlM_prefix {σ : Type} {xs : List α} (Inv : List α → σ → Prop)
    {f : σ → α → Except ε σ} {s : σ} (hstart : Inv [] s)
    (hstep : ∀ (done : List α) (x : α) (rest : List α) (s : σ), xs = done ++ x :: rest →
      Inv done s → Meets Bad (Inv (done ++ [x])) (f s x)) :
    Meets Bad (Inv xs) (xs.foldlM f s) := by
  have hloop : ∀ (rest done : List α) (s : σ), xs = done ++ rest → Inv done s →
      Meets Bad (Inv xs) (rest.foldlM f s) := by
    intro rest
    induction rest with
    | nil =>
      intro done s hxs hinv
      rw [List.append_nil] at hxs
      rw [hxs]
      exact hinv
    | cons x rest ih =>
      intro done s hxs hinv
      rw [List.foldlM_cons]
      apply Meets.bind (hstep done x rest s hxs hinv)
      intro s' hs'
      exact ih (done ++ [x]) s' (by rw [hxs, List.append_assoc]; rfl) hs'
  exact hloop xs [] s rfl hstart

/-- A `collect` succeeds with `ys` when every item does, entry by entry. -/
theorem mapM_eq_ok_iff {f : α → Except ε β} :
    ∀ {xs : List α} {ys : List β},
      xs.mapM f = .ok ys ↔ List.Forall₂ (fun x y => f x = .ok y) xs ys
  | [], ys => by
    rw [List.mapM_nil, pure_eq_ok, List.forall₂_nil_left_iff]
    exact eq_comm
  | x :: xs, ys => by
    rw [List.mapM_cons, bind_eq_ok]
    constructor
    · rintro ⟨y, hy, hrest⟩
      obtain ⟨zs, hzs, hpure⟩ := bind_eq_ok.mp hrest
      rw [← pure_eq_ok.mp hpure]
      exact .cons hy (mapM_eq_ok_iff.mp hzs)
    · intro h
      cases h with
      | cons hy hrest =>
        refine ⟨_, hy, ?_⟩
        rw [mapM_eq_ok_iff.mpr hrest]
        rfl

/-- A `collect` of fallible items, item by item. -/
theorem Meets.mapM_rel {f : α → Except ε β} {R : α → β → Prop} :
    ∀ {xs : List α}, (∀ x ∈ xs, Meets Bad (R x) (f x)) →
      Meets Bad (fun ys => List.Forall₂ R xs ys) (xs.mapM f)
  | [], _ => .nil
  | x :: xs, hf => by
    rw [List.mapM_cons]
    refine Meets.bind (hf x (by simp)) fun y hy => ?_
    refine Meets.bind (Meets.mapM_rel fun z hz => hf z (by simp [hz])) fun ys hys => ?_
    exact .cons hy hys

/-- A `collect` of fallible items: every item meets its triple, so the list does, item by item. -/
theorem Meets.mapM {f : α → Except ε β} :
    ∀ {xs : List α}, (∀ x ∈ xs, Meets Bad Post' (f x)) →
      Meets Bad (fun ys => ys.length = xs.length ∧ ∀ y ∈ ys, Post' y) (xs.mapM f)
  | [], _ => by simp [pure, Except.pure]
  | x :: xs, hf => by
    rw [List.mapM_cons]
    refine Meets.bind (hf x (by simp)) fun y hy => ?_
    refine Meets.bind (Meets.mapM fun z hz => hf z (by simp [hz])) fun ys hys => ?_
    exact ⟨by simp [hys.1], by simpa using ⟨hy, hys.2⟩⟩

/-- `mapM` of a computation that always returns is `map`. -/
theorem mapM_eq_ok {f : α → Except ε β} {g : α → β} :
    ∀ {xs : List α}, (∀ x ∈ xs, f x = .ok (g x)) → xs.mapM f = .ok (xs.map g)
  | [], _ => rfl
  | x :: xs, hf => by
    rw [List.mapM_cons, hf x (by simp), ok_bind, mapM_eq_ok fun y hy => hf y (by simp [hy]),
      ok_bind]
    rfl

/-- A `collect` over a numbered list, when no item's result depends on its number. -/
theorem zipIdx_mapM_eq_ok {f : α × Nat → Except ε β} :
    ∀ {xs : List α} {ys : List β} {k : Nat},
      List.Forall₂ (fun x y => ∀ i, f (x, i) = .ok y) xs ys → (xs.zipIdx k).mapM f = .ok ys
  | [], [], _, .nil => rfl
  | x :: xs, y :: ys, k, .cons hx h => by
    rw [List.zipIdx_cons, List.mapM_cons, hx, ok_bind, zipIdx_mapM_eq_ok h, ok_bind]
    rfl

/-- Two folds with the same body on every item of the list are one. -/
theorem foldlM_congr_mem {σ : Type} {f g : σ → α → Except ε σ} :
    ∀ {xs : List α} {s : σ}, (∀ x ∈ xs, ∀ s, f s x = g s x) → xs.foldlM f s = xs.foldlM g s
  | [], _, _ => rfl
  | x :: xs, s, h => by
    rw [List.foldlM_cons, List.foldlM_cons, h x (by simp)]
    congr 1
    funext s'
    exact foldlM_congr_mem fun y hy => h y (by simp [hy])

/-- A fold that succeeds splits at any point of its list. -/
theorem foldlM_append_ok {σ : Type} {f : σ → α → Except ε σ} {xs ys : List α} {s t : σ} :
    (xs ++ ys).foldlM f s = .ok t ↔ ∃ m, xs.foldlM f s = .ok m ∧ ys.foldlM f m = .ok t := by
  rw [List.foldlM_append, bind_eq_ok]

end Lib
end CircomMpc
