import Mathlib.Data.List.GetD
import CircomMpc.Gadgets.Poseidon2Trace

/-!
# Reading a recorded computation back

The walk records in execution order, the circuit is laid out in another. `Agrees trace x a` joins
the two: run `x`, and `trace` holds at every slot it recorded what it recorded there. Under it each
`record` of a computation is an equation about `trace` (`agrees_bind` and the lemmas beside it),
whatever the order they were made in.

A slice of records is a list that lies in the trace from some slot on, `Holds`. The circuit's copy
constraints are then that two slices hold one list.
-/

namespace CircomMpc
namespace Poseidon2

open Lib

variable {V α β : Type}

/-- `x` returns `a`, and `trace` holds every value it records. -/
def Agrees (trace : Nat → V) (x : Traced V α) (a : α) : Prop :=
  ∃ log, x = .ok (a, log) ∧ ∀ e ∈ log, trace e.1 = e.2

/-- From slot `start` on, `trace` holds `values`. -/
def Holds (trace : Nat → V) (start : Nat) (values : List V) : Prop :=
  ∀ (i : Nat) (v : V), values[i]? = some v → trace (start + i) = v

section Agrees

variable {trace : Nat → V} {x : Traced V α} {a : α} {b : β}

theorem agrees_bind {f : α → Traced V β} :
    Agrees trace (x >>= f) b ↔ ∃ a, Agrees trace x a ∧ Agrees trace (f a) b := by
  constructor
  · intro h
    obtain ⟨log, hrun, hlog⟩ := h
    rcases hx : x with e | ⟨a, first⟩
    · rw [hx] at hrun
      cases hrun
    · rw [bind_ok hx] at hrun
      rcases hf : f a with e | ⟨b', second⟩
      · rw [hf] at hrun
        cases hrun
      · rw [hf] at hrun
        cases hrun
        refine ⟨a, ⟨first, rfl, fun e he => hlog e (List.mem_append_left _ he)⟩, second, hf, ?_⟩
        exact fun e he => hlog e (List.mem_append_right _ he)
  · intro h
    obtain ⟨a, ⟨first, hx, hfirst⟩, second, hf, hsecond⟩ := h
    refine ⟨first ++ second, by rw [bind_ok hx, hf], ?_⟩
    intro e he
    rcases List.mem_append.mp he with he | he
    · exact hfirst e he
    · exact hsecond e he

@[simp] theorem agrees_pure {a' : α} : Agrees trace (pure a : Traced V α) a' ↔ a = a' := by
  constructor
  · intro h
    obtain ⟨log, hrun, _⟩ := h
    cases hrun
    rfl
  · intro h
    exact ⟨[], by rw [h]; rfl, by simp⟩

@[simp] theorem agrees_fault {e : RunError} : ¬ Agrees trace (fault e : Traced V α) a := by
  intro h
  obtain ⟨log, hrun, _⟩ := h
  cases hrun

@[simp] theorem agrees_record {logical : Nat} {value : V} {u : Unit} :
    Agrees trace (record logical value) u ↔ trace logical = value := by
  constructor
  · intro h
    obtain ⟨log, hrun, hlog⟩ := h
    cases hrun
    exact hlog _ (List.mem_singleton_self _)
  · intro h
    exact ⟨_, rfl, by simpa using h⟩

@[simp] theorem agrees_recordSlice {start : Nat} {values : List V} {u : Unit} :
    Agrees trace (recordSlice start values) u ↔ Holds trace start values := by
  constructor
  · intro h i v hv
    obtain ⟨log, hrun, hlog⟩ := h
    cases hrun
    refine hlog (start + i, v) (List.mem_map.mpr ⟨(v, i), ?_, rfl⟩)
    exact List.mem_zipIdx_iff_getElem?.mpr hv
  · intro h
    refine ⟨_, rfl, ?_⟩
    intro e he
    obtain ⟨⟨v, i⟩, hvi, rfl⟩ := List.mem_map.mp he
    exact h i v (List.mem_zipIdx_iff_getElem?.mp hvi)

/-- A loop passes through a state before each of its turns. -/
theorem agrees_foldlM {γ : Type} {f : γ → Nat → Traced V γ} :
    ∀ {n : Nat} {s s' : γ}, Agrees trace ((List.range n).foldlM f s) s' →
      ∃ states : Nat → γ, states 0 = s ∧ states n = s' ∧
        ∀ k < n, Agrees trace (f (states k) k) (states (k + 1)) := by
  intro n
  induction n with
  | zero =>
    intro s s' h
    have heq : s = s' := agrees_pure.mp h
    exact ⟨fun _ => s, rfl, heq, by simp⟩
  | succ n ih =>
    intro s s' h
    rw [List.range_succ, List.foldlM_append, agrees_bind] at h
    obtain ⟨middle, hfirst, hlast⟩ := h
    obtain ⟨states, hzero, hn, hturn⟩ := ih hfirst
    rw [List.foldlM_cons, agrees_bind] at hlast
    obtain ⟨last, hlast, hend⟩ := hlast
    have heq : last = s' := agrees_pure.mp hend
    subst heq
    refine ⟨fun k => if k ≤ n then states k else last, by simpa using hzero, by simp, ?_⟩
    intro k hk
    by_cases hkn : k = n
    · subst hkn
      simp only [Nat.le_refl, if_true, Nat.not_succ_le_self, if_false]
      rw [hn]
      exact hlast
    · have hlt : k < n := by omega
      simp only [hlt.le, if_true, Nat.succ_le_of_lt hlt]
      exact hturn k hlt

theorem agrees_mapM {γ : Type} {f : γ → Traced V β} :
    ∀ {xs : List γ} {ys : List β}, Agrees trace (xs.mapM f) ys →
      List.Forall₂ (fun x y => Agrees trace (f x) y) xs ys := by
  intro xs
  induction xs with
  | nil =>
    intro ys h
    rw [List.mapM_nil, agrees_pure] at h
    subst h
    exact .nil
  | cons x xs ih =>
    intro ys h
    rw [List.mapM_cons, agrees_bind] at h
    obtain ⟨y, hy, h⟩ := h
    obtain ⟨rest, hrest, h⟩ := agrees_bind.mp h
    have heq : y :: rest = ys := agrees_pure.mp h
    subst heq
    exact .cons hy (ih hrest)

end Agrees

namespace Holds

variable {trace : Nat → V} {start : Nat} {values : List V}

theorem getElem (h : Holds trace start values) {i : Nat} (hi : i < values.length) :
    trace (start + i) = values[i] :=
  h i _ (List.getElem?_eq_getElem hi)

/-- Two places that hold the same values hold the same signals. -/
theorem copy (h : Holds trace start values) {start' : Nat} (h' : Holds trace start' values)
    {i : Nat} (hi : i < values.length) : trace (start + i) = trace (start' + i) := by
  rw [h.getElem hi, h'.getElem hi]

end Holds

theorem getD_eq_getElem {values : List Fr} {i : Nat} (h : i < values.length) :
    values.getD i 0 = values[i] := by
  rw [List.getD_eq_getElem?_getD, List.getElem?_eq_getElem h, Option.getD_some]

theorem Holds.getD {trace : Nat → Fr} {start : Nat} {values : List Fr} (h : Holds trace start values)
    {i : Nat} (hi : i < values.length) : trace (start + i) = values.getD i 0 := by
  rw [h.getElem hi, getD_eq_getElem hi]

theorem slice_getD {xs : List Fr} {lo n l : Nat} (h : l < n) :
    (slice xs lo (lo + n)).getD l 0 = xs.getD (lo + l) 0 := by
  rw [slice, Nat.add_sub_cancel_left, List.getD_eq_getElem?_getD, List.getD_eq_getElem?_getD,
    List.getElem?_take_of_lt h, List.getElem?_drop]


end Poseidon2
end CircomMpc
