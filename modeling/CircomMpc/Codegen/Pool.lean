import Mathlib.Logic.Function.Basic
import CircomMpc.Codegen.Arena

/-!
# An allocator and the owners of its slots

What an allocator is worth is said by who owns which slot: no two owners share one, a slot on the free
list has no owner, and the region in front of the floor is never handed out. Handing a slot out and
taking it back from its owner keep that.

Owners are of any type here, and who owns what is a function beside the allocator: the source's
allocator does not know its owners.
-/

namespace CircomMpc

namespace Codegen

variable {ι : Type}

/-- The owners' slots are their own, and the free list holds what nobody owns, without repetition.
    All of it is behind the floor and in front of the next slot. -/
structure BankAlloc.Sound (a : BankAlloc) (floor : Nat) (owned : ι → Option Nat) : Prop where
  floor_le : floor ≤ a.next
  nodup : a.freeList.Nodup
  free_range : ∀ s ∈ a.freeList, floor ≤ s ∧ s < a.next
  free_idle : ∀ s ∈ a.freeList, ∀ v, owned v ≠ some s
  range : ∀ v s, owned v = some s → floor ≤ s ∧ s < a.next
  apart : ∀ u v s, owned u = some s → owned v = some s → u = v

namespace BankAlloc

variable {a : BankAlloc} {floor : Nat} {owned : ι → Option Nat}

theorem sound_start (floor : Nat) : (startingAt floor).Sound floor fun _ : ι => none := by
  refine ⟨Nat.le_refl _, List.nodup_nil, ?_, ?_, ?_, ?_⟩
  · intro s hs
    cases hs
  · intro s hs
    cases hs
  · intro v s hs
    cases hs
  · intro u v s hs
    cases hs

theorem next_le_alloc (a : BankAlloc) : a.next ≤ a.alloc.2.next := by
  unfold alloc
  split
  · exact Nat.le_refl _
  · exact Nat.le_succ _

theorem next_free (a : BankAlloc) (slot floor : Nat) : (a.free slot floor).next = a.next := by
  unfold free
  split <;> rfl

/-- What is handed out is in range and nobody's. -/
theorem Sound.alloc_fresh (h : a.Sound floor owned) :
    floor ≤ a.alloc.1 ∧ a.alloc.1 < a.alloc.2.next ∧ ∀ v, owned v ≠ some a.alloc.1 := by
  unfold alloc
  split
  next slot rest hfree =>
    have hmem : slot ∈ a.freeList := by
      rw [hfree]
      exact List.mem_cons_self
    exact ⟨(h.free_range slot hmem).1, (h.free_range slot hmem).2, h.free_idle slot hmem⟩
  next =>
    refine ⟨h.floor_le, Nat.lt_succ_self _, ?_⟩
    intro v hv
    exact absurd (h.range v _ hv).2 (Nat.lt_irrefl _)

variable [DecidableEq ι]

/-- Handing out a slot. -/
theorem Sound.alloc (h : a.Sound floor owned) (v : ι) :
    a.alloc.2.Sound floor (Function.update owned v (some a.alloc.1)) := by
  obtain ⟨hfloor, hlt, hfresh⟩ := h.alloc_fresh
  have hnext := next_le_alloc a
  -- What is still free was free before, and is not the slot handed out.
  have hrest : ∀ s ∈ a.alloc.2.freeList, s ∈ a.freeList ∧ s ≠ a.alloc.1 := by
    unfold BankAlloc.alloc
    split
    next slot rest hfree =>
      intro s hs
      have hnodup := h.nodup
      rw [hfree] at hnodup ⊢
      refine ⟨List.mem_cons_of_mem _ hs, ?_⟩
      rintro rfl
      exact (List.nodup_cons.mp hnodup).1 hs
    next hfree =>
      intro s hs
      have hs' : s ∈ a.freeList := hs
      rw [hfree] at hs'
      cases hs'
  have howner : ∀ u s, Function.update owned v (some a.alloc.1) u = some s →
      u = v ∧ s = a.alloc.1 ∨ owned u = some s := by
    intro u s hu
    by_cases huv : u = v
    · subst huv
      rw [Function.update_self] at hu
      exact .inl ⟨rfl, (Option.some.inj hu).symm⟩
    · rw [Function.update_of_ne huv] at hu
      exact .inr hu
  refine ⟨Nat.le_trans h.floor_le hnext, ?_, ?_, ?_, ?_, ?_⟩
  · unfold BankAlloc.alloc
    split
    next slot rest hfree =>
      have hnodup := h.nodup
      rw [hfree] at hnodup
      exact (List.nodup_cons.mp hnodup).2
    next => exact h.nodup
  · intro s hs
    have hrange := h.free_range s (hrest s hs).1
    exact ⟨hrange.1, Nat.lt_of_lt_of_le hrange.2 hnext⟩
  · intro s hs u hu
    rcases howner u s hu with ⟨_, rfl⟩ | hu'
    · exact (hrest _ hs).2 rfl
    · exact h.free_idle s (hrest s hs).1 u hu'
  · intro u s hu
    rcases howner u s hu with ⟨_, rfl⟩ | hu'
    · exact ⟨hfloor, hlt⟩
    · exact ⟨(h.range u s hu').1, Nat.lt_of_lt_of_le (h.range u s hu').2 hnext⟩
  · intro u w s hu hw
    rcases howner u s hu with ⟨rfl, rfl⟩ | hu'
    · rcases howner w _ hw with ⟨rfl, _⟩ | hw'
      · rfl
      · exact absurd hw' (hfresh w)
    · rcases howner w s hw with ⟨rfl, rfl⟩ | hw'
      · exact absurd hu' (hfresh u)
      · exact h.apart u w s hu' hw'

/-- Taking a slot back from its owner. -/
theorem Sound.free (h : a.Sound floor owned) {v : ι} {s : Nat} (hv : owned v = some s) :
    (a.free s floor).Sound floor (Function.update owned v none) := by
  have howner : ∀ u s', Function.update owned v none u = some s' → u ≠ v ∧ owned u = some s' := by
    intro u s' hu
    by_cases huv : u = v
    · subst huv
      rw [Function.update_self] at hu
      cases hu
    · rw [Function.update_of_ne huv] at hu
      exact ⟨huv, hu⟩
  -- The slot is not below the floor, so it goes back on the list.
  have hlist : (a.free s floor).freeList = s :: a.freeList := by
    unfold BankAlloc.free
    rw [if_pos (h.range v s hv).1]
  refine ⟨?_, ?_, ?_, ?_, ?_, ?_⟩
  · rw [next_free]
    exact h.floor_le
  · rw [hlist]
    exact List.nodup_cons.mpr ⟨fun hs => h.free_idle s hs v hv, h.nodup⟩
  · rw [hlist, next_free]
    intro s' hs'
    rcases List.mem_cons.mp hs' with rfl | hs'
    · exact h.range v _ hv
    · exact h.free_range s' hs'
  · rw [hlist]
    intro s' hs' u hu
    obtain ⟨huv, hu'⟩ := howner u s' hu
    rcases List.mem_cons.mp hs' with rfl | hs'
    · exact huv (h.apart u v _ hu' hv)
    · exact h.free_idle s' hs' u hu'
  · rw [next_free]
    intro u s' hu
    exact h.range u s' (howner u s' hu).2
  · intro u w s' hu hw
    exact h.apart u w s' (howner u s' hu).2 (howner w s' hw).2

/-- A slot of the reserved region is not given back. -/
theorem free_reserved {slot : Nat} (h : slot < floor) : a.free slot floor = a := by
  unfold BankAlloc.free
  rw [if_neg (Nat.not_le_of_lt h)]

end BankAlloc

end Codegen
end CircomMpc
