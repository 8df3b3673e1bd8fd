import Mathlib.Data.List.Chain
import Mathlib.Data.List.Dedup
import Mathlib.Data.List.Nodup
import Mathlib.Data.List.Perm.Subperm
import Mathlib.Logic.Relation
import CircomMpc.Lib.Table

/-!
# Counting by witnesses

Two lower bounds of scheduling, each by the items that attain it.

Items that read each other, some of which cost a round. An assignment of rounds respects the reading
when an item that reads another one, directly or through any others, comes in a later round. The
costly items of one chain then need different rounds (`Respects.chain_le`), and where a level counts
the dearest way down, some chain has as many of them as the level says (`exists_chain`): between them
the two give the smallest number of rounds there is.
-/

namespace CircomMpc
namespace Lib

variable {α : Type}

/-- No costly item shares a round with one it waits for, or comes before it. -/
def Respects (reads : α → α → Prop) (costs : α → Bool) (round : α → Nat) : Prop :=
  ∀ v u, costs v = true → costs u = true → Relation.TransGen reads v u → round u < round v

variable {reads : α → α → Prop} {costs : α → Bool} {round : α → Nat}

/-- The costly items of a chain, in falling order of their rounds. -/
theorem Respects.chain_falls (h : Respects reads costs round) {path : List α}
    (hpath : path.IsChain reads) : ((path.filter costs).map round).Pairwise (· > ·) := by
  have hclosed : path.IsChain (Relation.TransGen reads) := hpath.imp fun _ _ => .single
  have hpairs : path.Pairwise (Relation.TransGen reads) := List.isChain_iff_pairwise.mp hclosed
  rw [List.pairwise_map]
  apply (hpairs.filter costs).imp_of_mem
  intro v u hv hu hreads
  exact h v u (List.mem_filter.mp hv).2 (List.mem_filter.mp hu).2 hreads

/-- **A chain needs a round for each of its costly items.** -/
theorem Respects.chain_le (h : Respects reads costs round) {path items : List α}
    (hpath : path.IsChain reads) (hitems : ∀ v ∈ path, costs v = true → v ∈ items) :
    path.countP costs ≤ (items.map round).dedup.length := by
  have hnodup : ((path.filter costs).map round).Nodup :=
    (h.chain_falls hpath).imp Nat.ne_of_gt
  have hsubset : (path.filter costs).map round ⊆ (items.map round).dedup := by
    intro r hr
    obtain ⟨v, hv, rfl⟩ := List.mem_map.mp hr
    obtain ⟨hmem, hcosts⟩ := List.mem_filter.mp hv
    exact List.mem_dedup.mpr (List.mem_map_of_mem (hitems v hmem hcosts))
  have hle := (List.Nodup.subperm hnodup hsubset).length_le
  rw [List.length_map, ← List.countP_eq_length_filter] at hle
  exact hle

/-- **Some chain is as dear as the level says.** -/
theorem exists_chain {reads : Nat → Nat → Prop} {costs : Nat → Bool} {level : Nat → Nat} {n : Nat}
    (hback : ∀ v u, reads v u → u < v)
    (hlevel : ∀ v < n, level v = (costs v).toNat ∨
      ∃ u, reads v u ∧ level v = level u + (costs v).toNat) :
    ∀ v < n, ∃ rest : List Nat, (v :: rest).IsChain reads ∧ (v :: rest).countP costs = level v := by
  intro v
  induction v using Nat.strongRecOn with
  | _ v ih =>
    intro hv
    -- The first item adds its own cost to those of the rest.
    have hcount : ∀ rest : List Nat,
        (v :: rest).countP costs = rest.countP costs + (costs v).toNat := by
      intro rest
      rw [List.countP_cons]
      cases costs v <;> rfl
    -- The level is the item's own cost, or comes from an item it reads.
    rcases hlevel v hv with hleaf | ⟨u, hreads, hstep⟩
    · exact ⟨[], List.isChain_singleton v, by rw [hcount, hleaf]; simp⟩
    · have hu : u < v := hback v u hreads
      obtain ⟨rest, hchain, hcosts⟩ := ih u hu (hu.trans hv)
      exact ⟨u :: rest, List.isChain_cons_cons.mpr ⟨hreads, hchain⟩, by rw [hcount, hcosts, hstep]⟩

/-! ## Groups -/

/-- **Items that exclude each other need a group each.** -/
theorem length_le_groups {conflict : α → α → Prop} {items : List α} {groups : List (List α)}
    (hitems : items.Pairwise conflict) (hcover : ∀ x ∈ items, ∃ group ∈ groups, x ∈ group)
    (hfits : ∀ group ∈ groups, ∀ a ∈ group, ∀ b ∈ group, ¬ conflict a b) :
    items.length ≤ groups.length := by
  have hplaces : ∃ places : List Nat, List.Forall₂ (fun x i => ∃ group, groups[i]? = some group ∧
      x ∈ group) items places := by
    clear hitems
    induction items with
    | nil => exact ⟨[], .nil⟩
    | cons x items ih =>
      obtain ⟨group, hgroup, hx⟩ := hcover x (by simp)
      obtain ⟨i, hi, hget⟩ := List.getElem_of_mem hgroup
      obtain ⟨places, hplaces⟩ := ih fun y hy => hcover y (by simp [hy])
      exact ⟨i :: places, .cons ⟨group, hget ▸ List.getElem?_eq_getElem hi, hx⟩ hplaces⟩
  obtain ⟨places, hplaces⟩ := hplaces
  have hrange : places ⊆ List.range groups.length := by
    intro i hi
    obtain ⟨q, hq, hget⟩ := List.getElem_of_mem hi
    obtain ⟨_, _, group, hgroup, _⟩ :=
      forall₂_getElem? hplaces (hget ▸ List.getElem?_eq_getElem hq)
    exact List.mem_range.mpr (List.getElem?_eq_some_iff.mp hgroup).1
  have hnodup : places.Nodup := by
    clear hcover hrange
    induction hplaces with
    | nil => exact List.nodup_nil
    | @cons x i items places hx hrest ih =>
      obtain ⟨hconflict, hitems⟩ := List.pairwise_cons.mp hitems
      refine List.nodup_cons.mpr ⟨?_, ih hitems⟩
      intro hi
      -- Another item of the same group would exclude the first one.
      obtain ⟨q, hq, hget⟩ := List.getElem_of_mem hi
      obtain ⟨y, hy, group, hgroup, hyin⟩ :=
        forall₂_getElem? hrest (hget ▸ List.getElem?_eq_getElem hq)
      obtain ⟨group', hgroup', hxin⟩ := hx
      rw [hgroup] at hgroup'
      cases hgroup'
      exact hfits group (List.mem_of_getElem? hgroup) x hxin y hyin
        (hconflict y (List.mem_of_getElem? hy))
  have hle := (List.Nodup.subperm hnodup hrange).length_le
  rw [List.length_range, ← hplaces.length_eq] at hle
  exact hle

end Lib
end CircomMpc
