import Mathlib.NumberTheory.LucasPrimality
import Mathlib.Tactic.NormNum.Prime

/-!
# Primality from the factors of the predecessor

Lucas's test with the factorization of `p - 1` as its certificate: a base whose order is all of
`p - 1`. Powers are taken by squaring, so that a certificate for a number of any size is checked by
evaluating it.

The fuel of `powMod` is the number of bits of the exponent, and more does no harm.
-/

namespace CircomMpc
namespace Lib

/-- `a ^ n % m` by repeated squaring; `fuel` bounds the bits of `n`. -/
def powMod (m : Nat) : (fuel : Nat) → (a n : Nat) → Nat
  | 0, _, _ => 1
  | fuel + 1, a, n =>
    let half := powMod m fuel (a * a % m) (n / 2)
    if n % 2 = 1 then a * half % m else half

theorem powMod_cast (m : Nat) : ∀ {fuel a n : Nat}, n < 2 ^ fuel →
    ((powMod m fuel a n : Nat) : ZMod m) = (a : ZMod m) ^ n
  | 0, a, n, h => by
    obtain rfl : n = 0 := by omega
    simp [powMod]
  | fuel + 1, a, n, h => by
    have ih : ((powMod m fuel (a * a % m) (n / 2) : Nat) : ZMod m) = (a : ZMod m) ^ (2 * (n / 2)) := by
      rw [powMod_cast m (by rw [pow_succ] at h; omega), ZMod.natCast_mod, Nat.cast_mul, pow_mul,
        pow_two]
    simp only [powMod]
    split
    next hodd =>
      rw [ZMod.natCast_mod, Nat.cast_mul, ih, ← pow_succ']
      congr 1
      omega
    next heven =>
      rw [ih]
      congr 1
      omega

/-- `a` has order `p - 1` modulo `p`, as the factors `qs` of `p - 1` show. -/
def HasFullOrder (p fuel a : Nat) (qs : List Nat) : Prop :=
  1 < p ∧ p < 2 ^ fuel ∧ qs.prod = p - 1 ∧ powMod p fuel a (p - 1) % p = 1 ∧
    ∀ q ∈ qs, powMod p fuel a ((p - 1) / q) % p ≠ 1

instance (p fuel a : Nat) (qs : List Nat) : Decidable (HasFullOrder p fuel a qs) :=
  inferInstanceAs (Decidable (_ ∧ _ ∧ _ ∧ _ ∧ _))

/-- A number is prime when some base has full order and the factors that show it are prime. -/
theorem HasFullOrder.prime {p fuel a : Nat} {qs : List Nat} (h : HasFullOrder p fuel a qs)
    (hqs : ∀ q ∈ qs, q.Prime) : p.Prime := by
  obtain ⟨hp, hfuel, hprod, hone, hne⟩ := h
  have hpow : ∀ n : Nat, n ≤ p - 1 → ((a : ZMod p) ^ n = 1 ↔ powMod p fuel a n % p = 1) := by
    intro n hn
    have hlt : n < 2 ^ fuel := by omega
    rw [← powMod_cast p hlt, ← Nat.cast_one,
      ZMod.natCast_eq_natCast_iff', Nat.mod_eq_of_lt hp]
  refine lucas_primality p a ((hpow _ le_rfl).mpr hone) fun q hq hdvd => ?_
  have hmem : q ∈ qs := by
    rw [← hprod] at hdvd
    obtain ⟨q', hq', hdvd'⟩ := (Prime.dvd_prod_iff hq.prime).mp hdvd
    rwa [(Nat.prime_dvd_prime_iff_eq hq (hqs q' hq')).mp hdvd']
  rw [Ne, hpow _ (Nat.div_le_self _ _)]
  exact hne q hmem

end Lib
end CircomMpc
