import CircomMpc.Lib.Refines

/-!
# One computation tracking another

`Tracks Bad R x y` is data refinement in both directions: where `y` returns, `x` returns a related
value or fails for a reason in `Bad`, and where `x` returns, so does `y`. Two programs of one shape
that make the same checks track each other piece by piece.
-/

namespace CircomMpc
namespace Lib

variable {ε α β α' β' : Type} {Bad : ε → Prop} {R : α → β → Prop} {R' : α' → β' → Prop}

structure Tracks (Bad : ε → Prop) (R : α → β → Prop) (x : Except ε α) (y : Except ε β) : Prop where
  forward : Refines Bad R x y
  backward : ∀ a, x = .ok a → ∃ b, y = .ok b

namespace Tracks

variable {x : Except ε α} {y : Except ε β}

theorem ok {a : α} {b : β} (h : R a b) : Tracks Bad R (.ok a) (.ok b) :=
  ⟨Refines.ok h, fun _ _ => ⟨b, rfl⟩⟩

theorem pure {a : α} {b : β} (h : R a b) :
    Tracks Bad R (Pure.pure a : Except ε α) (Pure.pure b) :=
  ok h

/-- Two refusals. -/
theorem error {e e' : ε} : Tracks Bad R (.error e : Except ε α) (.error e' : Except ε β) :=
  ⟨Refines.error, fun _ h => nomatch h⟩

/-- A computation on both sides. -/
theorem same (x : Except ε α) : Tracks Bad (fun a b => a = b) x x :=
  ⟨fun _ hb => hb ▸ rfl, fun a ha => ⟨a, ha⟩⟩

theorem weaken {Bad' : ε → Prop} {S : α → β → Prop} (h : Tracks Bad R x y)
    (hb : ∀ e, Bad e → Bad' e) (hr : ∀ a b, R a b → S a b) : Tracks Bad' S x y :=
  ⟨h.forward.weaken hb hr, h.backward⟩

theorem post {S : α → β → Prop} (h : Tracks Bad R x y) (hr : ∀ a b, R a b → S a b) :
    Tracks Bad S x y :=
  h.weaken (fun _ he => he) hr

/-- A specification that returns leaves the other side nothing but to meet it. -/
theorem of_meets {b : β} (hy : y = .ok b) (h : Meets Bad (fun a => R a b) x) : Tracks Bad R x y := by
  refine ⟨?_, fun _ _ => ⟨b, hy⟩⟩
  intro b' hb'
  rw [hy] at hb'
  cases hb'
  exact h

/-- What both sides returned is related. -/
theorem related {a : α} (h : Tracks Bad R x y) (hx : x = .ok a) : ∃ b, y = .ok b ∧ R a b := by
  obtain ⟨b, hy⟩ := h.backward a hx
  exact ⟨b, hy, (h.forward b hy).of_ok hx⟩

/-- The same, with what was returned. -/
theorem called (h : Tracks Bad R x y) : Tracks Bad (fun a b => x = .ok a ∧ R a b) x y :=
  ⟨fun b hy => (h.forward b hy).called, h.backward⟩

theorem bind {f : α → Except ε α'} {g : β → Except ε β'} (h : Tracks Bad R x y)
    (hf : ∀ a b, R a b → Tracks Bad R' (f a) (g b)) : Tracks Bad R' (x >>= f) (y >>= g) := by
  constructor
  · exact h.forward.bind fun a b hab => (hf a b hab).forward
  · intro a' ha'
    obtain ⟨a, hx, hfa⟩ := bind_eq_ok.mp ha'
    obtain ⟨b, hy, hab⟩ := h.related hx
    obtain ⟨b', hgb⟩ := (hf a b hab).backward a' hfa
    exact ⟨b', bind_eq_ok.mpr ⟨b, hy, hgb⟩⟩

/-- Something only `x` does first. -/
theorem bind_left {γ : Type} {P : γ → Prop} {z : Except ε γ} {f : γ → Except ε α}
    (hz : Meets Bad P z) (hf : ∀ c, P c → Tracks Bad R (f c) y) : Tracks Bad R (z >>= f) y := by
  constructor
  · exact fun b hb => hz.bind fun c hc => (hf c hc).forward b hb
  · intro a ha
    obtain ⟨c, hzc, hfa⟩ := bind_eq_ok.mp ha
    exact (hf c (hz.of_ok hzc)).backward a hfa

/-- Two checks of one condition. -/
theorem ensure_bind {c c' : Prop} [Decidable c] [Decidable c'] {e e' : ε} (hc : c ↔ c')
    (h : c → Tracks Bad R x y) :
    Tracks Bad R (ensure c e >>= fun _ => x) (ensure c' e' >>= fun _ => y) := by
  by_cases hp : c
  · rw [ensure_of hp, ensure_of (hc.mp hp)]
    exact h hp
  · rw [ensure_of_not hp, ensure_of_not fun hp' => hp (hc.mpr hp')]
    exact error

theorem orElse {o : Option α} {o' : Option β} {e e' : ε} (h : Option.Rel R o o') :
    Tracks Bad R (orElse e o) (Lib.orElse e' o') := by
  cases h with
  | none => exact error
  | some hab => exact ok hab

/-- Loops over related lists, turn by turn. -/
theorem foldlM {γ δ : Type} {Item : γ → δ → Prop} {f : α → γ → Except ε α}
    {g : β → δ → Except ε β} {xs : List γ} {ys : List δ} {s : α} {t : β}
    (h : List.Forall₂ Item xs ys) (hs : R s t)
    (hf : ∀ c d s t, Item c d → R s t → Tracks Bad R (f s c) (g t d)) :
    Tracks Bad R (xs.foldlM f s) (ys.foldlM g t) := by
  induction h generalizing s t with
  | nil => exact pure hs
  | cons hcd _ ih =>
    rw [List.foldlM_cons, List.foldlM_cons]
    exact (hf _ _ s t hcd hs).bind fun s' t' hs' => ih hs'

/-- A loop over one list. -/
theorem foldlM_same {γ : Type} {f : α → γ → Except ε α} {g : β → γ → Except ε β} (xs : List γ)
    {s : α} {t : β} (hs : R s t)
    (hf : ∀ c ∈ xs, ∀ s t, R s t → Tracks Bad R (f s c) (g t c)) :
    Tracks Bad R (xs.foldlM f s) (xs.foldlM g t) := by
  have hself : List.Forall₂ (fun c d => c ∈ xs ∧ c = d) xs xs :=
    List.forall₂_same.mpr fun c hc => ⟨hc, rfl⟩
  refine foldlM hself hs ?_
  rintro c _ s t ⟨hc, rfl⟩ hst
  exact hf c hc s t hst

/-- One list, mapped on both sides. -/
theorem mapM_same {γ : Type} {f : γ → Except ε α} {g : γ → Except ε β} :
    ∀ (xs : List γ), (∀ c ∈ xs, Tracks Bad R (f c) (g c)) →
      Tracks Bad (fun as bs => List.Forall₂ R as bs ∧ as.length = xs.length) (xs.mapM f) (xs.mapM g)
  | [], _ => pure ⟨.nil, rfl⟩
  | c :: xs, hf => by
    rw [List.mapM_cons, List.mapM_cons]
    apply (hf c (by simp)).bind
    intro a b hab
    apply (mapM_same xs fun d hd => hf d (by simp [hd])).bind
    rintro as bs ⟨habs, hlen⟩
    exact pure ⟨.cons hab habs, congrArg (· + 1) hlen⟩

end Tracks

/-! ## Lists related entry by entry -/

/-- Related lists have related entries at every position. -/
theorem forall₂_get?_rel {xs : List α} {ys : List β} (h : List.Forall₂ R xs ys) (i : Nat) :
    Option.Rel R xs[i]? ys[i]? := by
  induction h generalizing i with
  | nil => exact .none
  | cons hab _ ih =>
    cases i with
    | zero => exact .some hab
    | succ i => exact ih i

end Lib
end CircomMpc
