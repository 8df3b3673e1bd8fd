import CircomMpc.Codegen.Pool
import CircomMpc.Codegen.Homes

/-!
# What the arena and the slot table agree on

`Allocated` holds between any two steps of the walk. A value in the slot table is at its home, if it
has one, and otherwise in a slot that its bank's allocator has handed out to it and to nobody else.
The local bank is the odd one: a product's entry stays in the table, but its slot is given back when
its round takes it, so a taken product owns nothing.

The walk changes the arena in three ways, and each keeps that: a value gets a fresh slot (`define`),
a dead one gives its slot back (`free_if_dead`), and a round takes an operand.
-/

namespace CircomMpc

open Lib CircomMpc.Graph

namespace Codegen

/-! ## Owners -/

/-- The slot of `bank` a value without a home owns. -/
def owned (home : ValueId → Option Loc) (taken : List ValueId) (slot : List (Option Loc))
    (bank : Bank) (v : ValueId) : Option Nat :=
  if v ∈ taken then none
  else match home v, slot[v]? with
    | none, some (some l) => if l.bank = bank then some l.index else none
    | _, _ => none

section Owned

variable {home : ValueId → Option Loc} {taken : List ValueId} {slot : List (Option Loc)}
  {bank : Bank} {v : ValueId}

theorem owned_eq_some {s : Nat} : owned home taken slot bank v = some s ↔
    v ∉ taken ∧ home v = none ∧ slot[v]? = some (some ⟨bank, s⟩) := by
  unfold owned
  split
  · next h => simp [h]
  · next h =>
    split
    · next l hhome hslot =>
      obtain ⟨b, index⟩ := l
      rw [hhome, hslot]
      by_cases hb : b = bank
      · subst hb
        simp [h]
      · simp [hb]
    · next hcases =>
      constructor
      · intro hnone
        cases hnone
      · rintro ⟨_, hhome, hslot⟩
        exact absurd hslot (hcases _ hhome)

/-- A value that gets its slot owns it. -/
theorem owned_set {s : Nat} (hlt : v < slot.length) (hhome : home v = none) (htaken : v ∉ taken) :
    owned home taken (slot.set v (some ⟨bank, s⟩)) bank =
      Function.update (owned home taken slot bank) v (some s) := by
  funext u
  by_cases huv : u = v
  · subst huv
    rw [Function.update_self, owned_eq_some]
    exact ⟨htaken, hhome, List.getElem?_set_self hlt⟩
  · rw [Function.update_of_ne huv]
    unfold owned
    rw [List.getElem?_set_ne (Ne.symm huv)]

/-- A value that loses its entry owns nothing. -/
theorem owned_unset : owned home taken (slot.set v none) bank =
    Function.update (owned home taken slot bank) v none := by
  funext u
  by_cases huv : u = v
  · subst huv
    rw [Function.update_self]
    cases h : owned home taken (slot.set u none) bank u with
    | none => rfl
    | some s =>
      obtain ⟨_, _, hslot⟩ := owned_eq_some.mp h
      rw [List.getElem?_set] at hslot
      simp at hslot
  · rw [Function.update_of_ne huv]
    unfold owned
    rw [List.getElem?_set_ne (Ne.symm huv)]

/-- An entry in another bank, or of a value with a home, changes nothing. -/
theorem owned_set_other {l : Loc} (h : home v ≠ none ∨ l.bank ≠ bank ∧ owned home taken slot bank v = none) :
    owned home taken (slot.set v (some l)) bank = owned home taken slot bank := by
  funext u
  by_cases huv : u = v
  · subst huv
    have hleft : owned home taken (slot.set u (some l)) bank u = none := by
      cases hs : owned home taken (slot.set u (some l)) bank u with
      | none => rfl
      | some s =>
        obtain ⟨_, hhome, hslot⟩ := owned_eq_some.mp hs
        rw [List.getElem?_set] at hslot
        rcases h with h | ⟨hbank, _⟩
        · exact absurd hhome h
        · simp only [if_true] at hslot
          split at hslot
          · cases hslot
            exact absurd rfl hbank
          · cases hslot
    have hright : owned home taken slot bank u = none := by
      rcases h with h | ⟨_, hnone⟩
      · cases hs : owned home taken slot bank u with
        | none => rfl
        | some s => exact absurd (owned_eq_some.mp hs).2.1 h
      · exact hnone
    rw [hleft, hright]
  · unfold owned
    rw [List.getElem?_set_ne (Ne.symm huv)]

/-- A taken value owns nothing. -/
theorem owned_take : owned home (taken ++ [v]) slot bank =
    Function.update (owned home taken slot bank) v none := by
  funext u
  by_cases huv : u = v
  · subst huv
    rw [Function.update_self]
    unfold owned
    rw [if_pos (by simp)]
  · rw [Function.update_of_ne huv]
    unfold owned
    simp [huv]

end Owned

/-- Somebody's slot may be forgotten. -/
theorem BankAlloc.Sound.forget {ι : Type} [DecidableEq ι] {a : BankAlloc} {floor : Nat}
    {owned : ι → Option Nat} (h : a.Sound floor owned) (v : ι) :
    a.Sound floor (Function.update owned v none) := by
  have howner : ∀ u s, Function.update owned v none u = some s → owned u = some s := by
    intro u s hu
    by_cases huv : u = v
    · subst huv
      rw [Function.update_self] at hu
      cases hu
    · rw [Function.update_of_ne huv] at hu
      exact hu
  refine ⟨h.floor_le, h.nodup, h.free_range, ?_, ?_, ?_⟩
  · intro s hs u hu
    exact h.free_idle s hs u (howner u s hu)
  · intro u s hu
    exact h.range u s (howner u s hu)
  · intro u w s hu hw
    exact h.apart u w s (howner u s hu) (howner w s hw)

/-! ## The arena, bank by bank -/

/-- The allocator of a bank. -/
def Arena.of (arena : Arena) : Bank → BankAlloc
  | .public => arena.p
  | .shared => arena.s
  | .local => arena.l

theorem Arena.alloc_fst (arena : Arena) (bank : Bank) :
    (arena.alloc bank).1 = (arena.of bank).alloc.1 := by
  cases bank <;> rfl

theorem Arena.alloc_of (arena : Arena) (bank bank' : Bank) :
    (arena.alloc bank).2.of bank' =
      if bank' = bank then (arena.of bank).alloc.2 else arena.of bank' := by
  cases bank <;> cases bank' <;> rfl

/-- What no step of the walk changes: the last uses, and where the reserved regions end. -/
structure Arena.Fixed (next : Cursors) (lastUse : List Nat) (arena : Arena) : Prop where
  lastUse : arena.lastUse = lastUse
  pEnd : arena.pReservedEnd = next.p
  sEnd : arena.sReservedEnd = next.s

section Fixed

variable {next : Cursors} {lastUse : List Nat} {arena : Arena}

theorem Arena.Fixed.alloc (h : arena.Fixed next lastUse) (bank : Bank) :
    (arena.alloc bank).2.Fixed next lastUse := by
  cases bank <;> exact ⟨h.lastUse, h.pEnd, h.sEnd⟩

theorem Arena.Fixed.release (h : arena.Fixed next lastUse) (loc : Loc) :
    (arena.release loc).Fixed next lastUse := by
  obtain ⟨bank, s⟩ := loc
  cases bank <;> exact ⟨h.lastUse, h.pEnd, h.sEnd⟩

/-- A release changes the allocator of the slot's own bank, and not the local one. -/
theorem Arena.Fixed.release_of (h : arena.Fixed next lastUse) (loc : Loc) (bank : Bank) :
    (arena.release loc).of bank =
      if bank = loc.bank ∧ bank ≠ .local then (arena.of bank).free loc.index (next.of bank)
      else arena.of bank := by
  obtain ⟨b, s⟩ := loc
  cases b <;> cases bank <;> simp [Arena.release, Arena.of, Cursors.of, h.pEnd, h.sEnd]

end Fixed

/-! ## The invariant -/

/-- The arena and the slot table in front of node `i`, the products in `taken` having been taken.
    Each bank's allocator is sound for the values that own one of its slots, and a value with a home
    is at it and owns none. -/
structure Allocated (g : Graph) (home : ValueId → Option Loc) (next : Cursors) (lastUse : List Nat)
    (taken : List ValueId) (i : Nat) (arena : Arena) (slot : List (Option Loc)) : Prop where
  fixed : arena.Fixed next lastUse
  length : slot.length = g.nodes.length
  pools : ∀ bank, (arena.of bank).Sound (next.of bank) (owned home taken slot bank)
  homes : ∀ (v : ValueId) (l h : Loc), slot[v]? = some (some l) → home v = some h → l = h
  front : ∀ (v : ValueId) (l : Loc), slot[v]? = some (some l) → home v = none → v < i
  banks : ∀ v (l : Loc), slot[v]? = some (some l) → home v = none → l.bank = bankOf (g.facts v).domain
  taken : ∀ v ∈ taken, (g.facts v).domain = .local

/-- Between two slot tables nothing is added, and what is missing had its last use in front of
    `bound`. -/
structure Drops (lastUse : List Nat) (bound : Nat) (slot slot' : List (Option Loc)) : Prop where
  length : slot'.length = slot.length
  sub : ∀ (v : ValueId) (l : Loc), slot'[v]? = some (some l) → slot[v]? = some (some l)
  kept : ∀ (v : ValueId) (l : Loc), slot[v]? = some (some l) →
    slot'[v]? = some (some l) ∨ ∃ last, lastUse[v]? = some last ∧ last < bound

theorem Drops.refl (lastUse : List Nat) (bound : Nat) (slot : List (Option Loc)) :
    Drops lastUse bound slot slot := ⟨rfl, fun _ _ h => h, fun _ _ h => .inl h⟩

theorem Drops.trans {lastUse : List Nat} {bound : Nat} {a b c : List (Option Loc)}
    (hab : Drops lastUse bound a b) (hbc : Drops lastUse bound b c) : Drops lastUse bound a c := by
  refine ⟨hbc.length.trans hab.length, fun v l h => hab.sub v l (hbc.sub v l h), ?_⟩
  intro v l h
  rcases hab.kept v l h with hb | hlast
  · exact hbc.kept v l hb
  · exact .inr hlast

namespace Allocated

variable {g : Graph} {home : ValueId → Option Loc} {next : Cursors} {lastUse : List Nat}
  {taken : List ValueId} {i : Nat} {arena : Arena} {slot : List (Option Loc)}

theorem mono (h : Allocated g home next lastUse taken i arena slot) {j : Nat} (hij : i ≤ j) :
    Allocated g home next lastUse taken j arena slot :=
  ⟨h.fixed, h.length, h.pools, h.homes,
    fun v l hl hv => Nat.lt_of_lt_of_le (h.front v l hl hv) hij, h.banks, h.taken⟩

/-- A value that is not in front yet has no entry. -/
theorem owned_none (h : Allocated g home next lastUse taken i arena slot) {v : ValueId} (hv : i ≤ v)
    (bank : Bank) : owned home taken slot bank v = none := by
  cases hs : owned home taken slot bank v with
  | none => rfl
  | some s =>
    obtain ⟨_, hhome, hslot⟩ := owned_eq_some.mp hs
    exact absurd (h.front v _ hslot hhome) (Nat.not_lt_of_le hv)

/-- **Two values in the table share no place**, unless a round has taken one of them. -/
theorem apart (h : Allocated g home next lastUse taken i arena slot) (hhomed : Homed home next)
    {u v : ValueId} {l : Loc} (hu : slot[u]? = some (some l)) (hv : slot[v]? = some (some l))
    (hu' : u ∉ taken) (hv' : v ∉ taken) : u = v := by
  -- A home is in front of the floor and a slot handed out behind it, so they never meet.
  have hmixed : ∀ {a b : ValueId} {m : Loc}, slot[a]? = some (some l) → home a = some m →
      b ∉ taken → home b = none → slot[b]? ≠ some (some l) := by
    intro a b m ha hm hb hnone hslot
    cases h.homes a l m ha hm
    have hrange := (h.pools l.bank).range b l.index (owned_eq_some.mpr ⟨hb, hnone, hslot⟩)
    exact absurd (hhomed.below a l hm) (Nat.not_lt_of_le hrange.1)
  cases hhu : home u with
  -- Two homes differ because homes are injective, two slots because owners are.
  | some m =>
    cases hhv : home v with
    | some m' =>
      cases h.homes u l m hu hhu
      cases h.homes v l m' hv hhv
      exact hhomed.apart u v l hhu hhv
    | none => exact absurd hv (hmixed hu hhu hv' hhv)
  | none =>
    cases hhv : home v with
    | some m => exact absurd hu (hmixed hv hhv hu' hhu)
    | none =>
      exact (h.pools l.bank).apart u v l.index (owned_eq_some.mpr ⟨hu', hhu, hu⟩)
        (owned_eq_some.mpr ⟨hv', hhv, hv⟩)

/-- A value gets a fresh slot. -/
theorem define (h : Allocated g home next lastUse taken i arena slot) {v : ValueId} (hv : i ≤ v)
    (hlt : v < slot.length) (hhome : home v = none) (htaken : v ∉ taken) :
    Allocated g home next lastUse taken (v + 1)
      (arena.alloc (bankOf (g.facts v).domain)).2
      (slot.set v (some ⟨bankOf (g.facts v).domain,
        (arena.alloc (bankOf (g.facts v).domain)).1⟩)) := by
  -- An entry is the new one, or an old one of another value.
  have hentry : ∀ u l, (slot.set v (some (⟨bankOf (g.facts v).domain,
      (arena.alloc (bankOf (g.facts v).domain)).1⟩ : Loc)))[u]? = some (some l) →
      u = v ∧ l = ⟨bankOf (g.facts v).domain, (arena.alloc (bankOf (g.facts v).domain)).1⟩ ∨
        u ≠ v ∧ slot[u]? = some (some l) := by
    intro u l hl
    by_cases huv : v = u
    · subst huv
      rw [List.getElem?_set_self hlt] at hl
      cases hl
      exact .inl ⟨rfl, rfl⟩
    · rw [List.getElem?_set_ne huv] at hl
      exact .inr ⟨Ne.symm huv, hl⟩
  refine ⟨h.fixed.alloc _, by rw [List.length_set]; exact h.length, ?_, ?_, ?_, ?_, h.taken⟩
  · intro bank
    rw [arena.alloc_of]
    split
    · -- In the value's bank its owner is the new slot's; in the others nothing moves.
      next hbank =>
      subst hbank
      rw [owned_set hlt hhome htaken, arena.alloc_fst]
      exact (h.pools _).alloc v
    · next hbank =>
      rw [owned_set_other (.inr ⟨Ne.symm hbank, h.owned_none hv bank⟩)]
      exact h.pools bank
  · intro u l m hl hm
    rcases hentry u l hl with ⟨rfl, _⟩ | ⟨_, hl⟩
    · rw [hhome] at hm
      cases hm
    · exact h.homes u l m hl hm
  · intro u l hl hu
    rcases hentry u l hl with ⟨rfl, _⟩ | ⟨_, hl⟩
    · exact Nat.lt_succ_self u
    · exact Nat.lt_of_lt_of_le (h.front u l hl hu) (Nat.le_succ_of_le hv)
  · intro u l hl hu
    rcases hentry u l hl with ⟨rfl, rfl⟩ | ⟨_, hl⟩
    · rfl
    · exact h.banks u l hl hu

/-- The fresh slot is behind all homes, and no value without a home is in it, unless a round has
    taken the value. -/
theorem fresh (h : Allocated g home next lastUse taken i arena slot) (bank : Bank) :
    next.of bank ≤ (arena.alloc bank).1 ∧
      ∀ u, home u = none → slot[u]? = some (some ⟨bank, (arena.alloc bank).1⟩) →
        bank = .local ∧ u ∈ taken := by
  obtain ⟨hfloor, _, hfresh⟩ := (h.pools bank).alloc_fresh
  rw [arena.alloc_fst]
  refine ⟨hfloor, ?_⟩
  intro u hhome hslot
  by_cases hu : u ∈ taken
  · have hlocal := h.banks u _ hslot hhome
    rw [h.taken u hu] at hlocal
    exact ⟨hlocal, hu⟩
  · exact absurd (owned_eq_some.mpr ⟨hu, hhome, hslot⟩) (hfresh u)

/-- A gadget result gets its home. -/
theorem bind (h : Allocated g home next lastUse taken i arena slot) {v : ValueId} {l : Loc}
    (hhome : home v = some l) (hlt : v < slot.length) :
    Allocated g home next lastUse taken i arena (slot.set v (some l)) := by
  -- As for a fresh slot, but the arena is not touched: the home was reserved.
  have hentry : ∀ u l', (slot.set v (some l))[u]? = some (some l') →
      u = v ∧ l' = l ∨ slot[u]? = some (some l') := by
    intro u l' hl
    by_cases huv : v = u
    · subst huv
      rw [List.getElem?_set_self hlt] at hl
      cases hl
      exact .inl ⟨rfl, rfl⟩
    · rw [List.getElem?_set_ne huv] at hl
      exact .inr hl
  refine ⟨h.fixed, by rw [List.length_set]; exact h.length, ?_, ?_, ?_, ?_, h.taken⟩
  · intro bank
    rw [owned_set_other (.inl (by rw [hhome]; exact Option.some_ne_none l))]
    exact h.pools bank
  · intro u l' m hl hm
    rcases hentry u l' hl with ⟨rfl, rfl⟩ | hl
    · rw [hhome] at hm
      exact Option.some.inj hm
    · exact h.homes u l' m hl hm
  · intro u l' hl hu
    rcases hentry u l' hl with ⟨rfl, _⟩ | hl
    · rw [hhome] at hu
      cases hu
    · exact h.front u l' hl hu
  · intro u l' hl hu
    rcases hentry u l' hl with ⟨rfl, _⟩ | hl
    · rw [hhome] at hu
      cases hu
    · exact h.banks u l' hl hu

/-- A value gives its slot back. -/
theorem release (h : Allocated g home next lastUse taken i arena slot) (hhomed : Homed home next)
    {v : ValueId} {l : Loc} (hv : slot[v]? = some (some l)) :
    Allocated g home next lastUse taken i (arena.release l) (slot.set v none) := by
  have hentry : ∀ (u : ValueId) (l' : Loc), (slot.set v none)[u]? = some (some l') →
      slot[u]? = some (some l') := by
    intro u l' hl
    by_cases huv : v = u
    · subst huv
      rw [List.getElem?_set] at hl
      simp at hl
    · rw [List.getElem?_set_ne huv] at hl
      exact hl
  refine ⟨h.fixed.release l, by rw [List.length_set]; exact h.length, ?_,
    fun u l' m hl => h.homes u l' m (hentry u l' hl), fun u l' hl => h.front u l' (hentry u l' hl),
    fun u l' hl => h.banks u l' (hentry u l' hl), h.taken⟩
  intro bank
  rw [h.fixed.release_of, owned_unset]
  split
  · next hbank =>
    cases hhome : home v with
    | some m =>
      -- The slot of a value with a home is not given back, and nobody owned it.
      cases h.homes v l m hv hhome
      rw [hbank.1, BankAlloc.free_reserved (hhomed.below v l hhome)]
      exact (h.pools l.bank).forget v
    | none =>
      by_cases htaken : v ∈ taken
      · -- A taken product is in the local bank.
        have hlocal := h.banks v l hv hhome
        rw [h.taken v htaken] at hlocal
        exact absurd (hbank.1.trans hlocal) hbank.2
      · apply (h.pools bank).free
        rw [owned_eq_some]
        refine ⟨htaken, hhome, ?_⟩
        rw [hbank.1]
        exact hv
  · exact (h.pools bank).forget v

end Allocated

end Codegen
end CircomMpc
