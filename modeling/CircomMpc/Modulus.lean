import CircomMpc.Field
import CircomMpc.Lib.Pratt

/-!
# The modulus is prime

By a chain of certificates: the prime factors of `modulus - 1`, and of each large factor's
predecessor. The field's structure is not an instance; a proof that divides names it.
-/

namespace CircomMpc

open Lib

/-- The certificates, checked together. -/
theorem fullOrders :
    HasFullOrder 405928799 32 22 [2, 11, 3691, 4999] ∧
      HasFullOrder 639533339 32 2 [2, 229, 853, 1637] ∧
      HasFullOrder 12048837557 64 2 [2, 2, 7, 7, 661, 93001] ∧
      HasFullOrder 5156902474397 64 2 [2, 2, 107, 12048837557] ∧
      HasFullOrder 1670836401704629 64 2 [2, 2, 3, 3, 3, 3, 5156902474397] ∧
      HasFullOrder 65865678001877903 64 5 [2, 83, 379, 1637, 639533339] ∧
      HasFullOrder 13818364434197438864469338081 128 3
        [2, 2, 2, 2, 2, 5, 823, 1593227, 65865678001877903] ∧
      HasFullOrder modulus 256 5
        (List.replicate 28 2 ++ [3, 3, 13, 29, 983, 11003, 237073, 405928799, 1670836401704629,
          13818364434197438864469338081]) := by
  decide +kernel

/-- **The scalar modulus is prime.** -/
theorem modulus_prime : modulus.Prime := by
  obtain ⟨h₁, h₂, h₃, h₄, h₅, h₆, h₇, hmodulus⟩ := fullOrders
  -- Each large factor is prime by its own certificate, and that by those of its factors.
  have hfactor₁ : Nat.Prime 405928799 := h₁.prime (by norm_num)
  have hfactor₂ : Nat.Prime 639533339 := h₂.prime (by norm_num)
  have hfactor₃ : Nat.Prime 12048837557 := h₃.prime (by norm_num)
  have hfactor₄ : Nat.Prime 5156902474397 :=
    h₄.prime (by simpa using ⟨Nat.prime_two, by norm_num, hfactor₃⟩)
  have hfactor₅ : Nat.Prime 1670836401704629 :=
    h₅.prime (by simpa using ⟨Nat.prime_two, Nat.prime_three, hfactor₄⟩)
  have hfactor₆ : Nat.Prime 65865678001877903 :=
    h₆.prime (by simpa using ⟨Nat.prime_two, by norm_num, by norm_num, by norm_num, hfactor₂⟩)
  have hfactor₇ : Nat.Prime 13818364434197438864469338081 :=
    h₇.prime (by simpa using ⟨Nat.prime_two, by norm_num, by norm_num, by norm_num, hfactor₆⟩)
  refine hmodulus.prime (List.forall_mem_append.mpr ⟨fun q hq => ?_, ?_⟩)
  · rw [List.eq_of_mem_replicate hq]
    exact Nat.prime_two
  · simp only [List.forall_mem_cons]
    refine ⟨Nat.prime_three, Nat.prime_three, ?_, ?_, ?_, ?_, ?_, hfactor₁, hfactor₅, hfactor₇,
      List.forall_mem_nil _⟩
    all_goals norm_num

end CircomMpc
