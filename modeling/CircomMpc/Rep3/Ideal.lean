import Mathlib.Tactic.Ring
import CircomMpc.Rep3.Gadgets

/-!
# An ideal library

The primitives run by a dealer: a sharing is three summands, and a call adds them up, computes and
shares the result again. It keeps every promise of `Rep3.Correct` and never fails on the network, so
the promises can be kept and the parties can answer.

Nothing about it is secret, and what it draws is always one. It is there to be run: a theorem about
all correct libraries is applied to it where one wants to see a result.
-/

namespace CircomMpc

open Lib

/-- Three summands. -/
abbrev Summands : Type := Fr × Fr × Fr

def Summands.sum (x : Summands) : Fr := x.1 + x.2.1 + x.2.2

/-- A sharing of a value the dealer knows. -/
def Summands.deal (x : Fr) : Summands := (x, 0, 0)

@[simp] theorem Summands.sum_deal (x : Fr) : (Summands.deal x).sum = x := by
  simp [Summands.sum, Summands.deal]

def Summands.scale (x : Summands) (c : Fr) : Summands := (x.1 * c, x.2.1 * c, x.2.2 * c)

def ideal : Rep3 Unit Summands where
  Binary := Nat
  Local := Fr
  default := 0
  zeroShare := 0
  promote := Summands.deal
  add a b := a + b
  sub a b := a - b
  addPublic a c := a + Summands.deal c
  subSharedByPublic a c := a - Summands.deal c
  subPublicByShared c a := Summands.deal c - a
  mulPublic := Summands.scale
  rand s := (Summands.deal 1, s)
  openVec xs s := .ok (xs.map (·.sum), s)
  mulVec xs ys s := .ok ((xs.zip ys).map fun p => Summands.deal (p.1.sum * p.2.sum), s)
  mulOpenVec xs ys s := .ok ((xs.zip ys).map fun p => p.1.sum * p.2.sum, s)
  invVec xs s :=
    if ∃ x ∈ xs, x.sum = 0 then .error .inverseOfZero
    else .ok (xs.map fun x => Summands.deal x.sum⁻¹, s)
  localMulVec xs ys s := ((xs.zip ys).map fun p => p.1.sum * p.2.sum, s)
  reshareVec products s := .ok (products.map Summands.deal, s)
  a2bMany xs s := .ok (xs.map fun x => intoBigint x.sum, s)
  bit bits i := if bits.testBit i then 1 else 0
  isZeroMany bits s := .ok (bits.map fun b => if b = 0 then 1 else 0, s)
  bitInjectMany bits s := .ok (bits.map fun b : Nat => Summands.deal (b : Fr), s)

theorem ideal_correct : ideal.Correct Summands.sum id where
  default := by simp [ideal, Summands.sum]
  zeroShare := by simp [ideal, Summands.sum]
  promote := Summands.sum_deal
  add a b := by simp only [ideal, Summands.sum, Prod.fst_add, Prod.snd_add]; ring
  sub a b := by simp only [ideal, Summands.sum, Prod.fst_sub, Prod.snd_sub]; ring
  addPublic a c := by
    simp only [ideal, Summands.sum, Summands.deal, Prod.fst_add, Prod.snd_add]; ring
  subSharedByPublic a c := by
    simp only [ideal, Summands.sum, Summands.deal, Prod.fst_sub, Prod.snd_sub]; ring
  subPublicByShared c a := by
    simp only [ideal, Summands.sum, Summands.deal, Prod.fst_sub, Prod.snd_sub]; ring
  mulPublic a c := by simp only [ideal, Summands.sum, Summands.scale]; ring
  openVec _ _ := rfl
  mulVec _ _ := by simp [ideal]
  mulOpenVec _ _ := rfl
  invVec {xs} h s := by
    have hnone : ¬ ∃ x ∈ xs, x.sum = 0 := fun ⟨x, hx, hzero⟩ => h x hx hzero
    show Meets _ _ (if ∃ x ∈ xs, x.sum = 0 then _ else _)
    rw [if_neg hnone, meets_ok]
    simp
  reshareVec _ _ _ := by simp [ideal]
  a2bMany _ _ := by simp [ideal]
  bit _ _ _ := rfl
  isZeroMany _ _ := by simp [ideal]
  bitInjectMany {bs} _ s := by
    have hsums : ∀ ns : List Nat, (ns.map fun n : Nat => Summands.deal (n : Fr)).map Summands.sum =
        ns.map fun n : Nat => (n : Fr) := by
      intro ns
      rw [List.map_map]
      exact List.map_congr_left fun n _ => Summands.sum_deal _
    exact hsums bs

theorem ideal_answers : ideal.Answers Summands.sum where
  openVec _ _ := ⟨_, _, rfl, List.length_map _⟩
  mulVec hlen _ := ⟨_, _, rfl, by rw [List.length_map, List.length_zip, hlen, min_self]⟩
  mulOpenVec _ _ := ⟨_, rfl⟩
  invVec {xs} h s := by
    have hnone : ¬ ∃ x ∈ xs, x.sum = 0 := fun ⟨x, hx, hzero⟩ => h x hx hzero
    exact ⟨_, if_neg hnone⟩
  reshareVec _ _ _ := ⟨_, rfl⟩
  a2bMany _ _ := ⟨_, rfl⟩
  isZeroMany _ _ := ⟨_, rfl⟩
  bitInjectMany _ _ := ⟨_, rfl⟩

/-- The dealer's masks are ones. -/
theorem ideal_draw (n : Nat) (s : Unit) :
    (ideal.draw n s).1 = List.replicate n (Summands.deal 1) := by
  induction n generalizing s with
  | zero => rfl
  | succ n ih =>
    unfold Rep3.draw
    exact congrArg (Summands.deal 1 :: ·) (ih _)

theorem ideal_draw_ne_zero {n : Nat} {s : Unit} {mask : Summands}
    (hmask : mask ∈ (ideal.draw n s).1) : mask.sum ≠ 0 := by
  rw [ideal_draw] at hmask
  rw [List.eq_of_mem_replicate hmask, Summands.sum_deal]
  exact one_ne_zero

end CircomMpc
