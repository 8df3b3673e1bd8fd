import CircomMpc.Codegen.Served
import CircomMpc.Vm.Safety

/-!
# The machine agrees with the graph

`Agrees` ties a state of the walk to a state of the machine. Whatever place the walk knows for a value
has the value; the sites whose batches are still to come have their inputs in such places; and the
products put off are the graph's pending ones. A result of a site that has not been served has a home
already, but nothing in it, so homes count from the batch on only.
-/

namespace CircomMpc

open Lib CircomMpc.Graph

namespace Codegen

open GadgetSchedule

variable {g : Graph}

namespace Setting

/-- The machine has the value of `v` in `l`: where the table says, or at its home, once the site it
    is a result of has been served. -/
def Placed (t : Setting g) (served : GadgetId → Prop) (slot : List (Option Loc)) (v : ValueId)
    (l : Loc) : Prop :=
  l.bank ≠ .local ∧ (t.home v = none ∧ slot[v]? = some (some l) ∨
    t.home v = some l ∧ ∀ site k, g.ResultAt site k v → served site)

/-- In front of node `i`, with the sites in `served` computed: every place the walk knows for a
    value has it, the inputs of the sites still waiting are in such places, and the products in
    flight are the graph's pending ones, in their order. -/
structure Agrees (t : Setting g) (p : ProgramParts) (I : Interp) (served : GadgetId → Prop) (i : Nat)
    (slot : List (Option Loc)) (siteInputs : List (List SiteInput)) (vm : VmState Unit Fr) : Prop where
  ready : vm.Ready p
  values : ∀ v l, t.Placed served slot v l → vm.read l.bank ⟨l.index⟩ = g.eval I v
  waiting : ∀ plan ∈ t.schedule.plans, ∀ site ∈ readSites plan, ¬ served site →
    ∀ (u : ValueId) (inputs : List ValueId), u < i → g.nodes[u]? = some ⟨.gadget site, inputs⟩ →
      ∃ sis, siteInputs[site]? = some sis ∧ List.Forall₂ (fun v (si : SiteInput) =>
        t.Placed served slot v ⟨si.bank, si.slot.index⟩) inputs sis
  products : List.Forall₂ (fun v (s : Slot) => slot[v]? = some (some ⟨.local, s.index⟩))
    (g.pendingAt i) vm.pendingMulDst
  pending : (vm.pendingMulLhs.zip vm.pendingMulRhs).map (fun x => x.1 * x.2) =
    (g.pendingAt i).map (g.eval I)

variable {t : Setting g} {p : ProgramParts} {I : Interp} {served : GadgetId → Prop} {i : Nat}
  {slot slot' : List (Option Loc)} {siteInputs : List (List SiteInput)} {vm : VmState Unit Fr}

/-! ## Places -/

theorem Placed.sub {v : ValueId} {l : Loc} (h : t.Placed served slot v l)
    (hsub : t.home v = none → slot[v]? = some (some l) → slot'[v]? = some (some l)) :
    t.Placed served slot' v l :=
  ⟨h.1, h.2.imp (fun ⟨hhome, hslot⟩ => ⟨hhome, hsub hhome hslot⟩) id⟩

theorem Placed.mono {served' : GadgetId → Prop} {v : ValueId} {l : Loc} (h : t.Placed served slot v l)
    (hserved : ∀ site, served site → served' site) : t.Placed served' slot v l :=
  ⟨h.1, h.2.imp_right fun ⟨hhome, hall⟩ => ⟨hhome, fun site k hat => hserved site (hall site k hat)⟩⟩

/-- What the table says of a value is a place of it, if its site has been served. -/
theorem placed_of_slot {taken : List ValueId} {e : Emitter} (h : t.Ok taken i e) {v : ValueId} {l : Loc}
    (hl : e.slot[v]? = some (some l)) (hbank : l.bank ≠ .local)
    (hserved : ∀ site k, g.ResultAt site k v → served site) : t.Placed served e.slot v l := by
  cases hhome : t.home v with
  | none => exact ⟨hbank, .inl ⟨hhome, hl⟩⟩
  | some m =>
    cases h.homes v l m hl hhome
    exact ⟨hbank, .inr ⟨hhome, hserved⟩⟩

/-- A value with a slot of its own shares it with no place of another value. -/
theorem slot_apart {taken : List ValueId} {bound : Nat} {arena : Arena} {mid : List (Option Loc)}
    (hmid : Allocated g t.home t.res.next t.lastUse taken bound arena mid) {u v : ValueId} {l : Loc}
    (hu : mid[u]? = some (some l)) (hhome : t.home u = none) (htaken : u ∉ taken)
    (hv : t.Placed served mid v l) : v = u := by
  obtain ⟨hbank, ⟨hnone, hslot⟩ | ⟨hsome, _⟩⟩ := hv
  · have hv' : v ∉ taken := by
      intro hmem
      have hlocal := hmid.banks v l hslot hnone
      rw [hmid.taken v hmem] at hlocal
      exact hbank hlocal
    exact hmid.apart t.holds.homed hslot hu hv' htaken
  · have hrange := (hmid.pools l.bank).range u l.index (owned_eq_some.mpr ⟨htaken, hhome, hu⟩)
    exact absurd (t.holds.homed.below v l hsome) (Nat.not_lt_of_le hrange.1)

/-! ## Dropping and advancing -/

/-- What the walk drops is needed no more. -/
theorem Agrees.drop (h : t.Agrees p I served i slot siteInputs vm)
    (hdrops : Drops t.lastUse i slot slot')
    (hserved : ∀ plan ∈ t.schedule.plans, ∀ site ∈ plan.siteIds, ¬ served site → i ≤ plan.anchor) :
    t.Agrees p I served i slot' siteInputs vm := by
  refine ⟨h.ready, ?_, ?_, ?_, h.pending⟩
  · intro v l hv
    exact h.values v l (hv.sub fun _ => hdrops.sub v l)
  · intro plan hplan site hsite hnot u inputs hu hnode
    obtain ⟨sis, hsis, hinputs⟩ := h.waiting plan hplan site hsite hnot u inputs hu hnode
    refine ⟨sis, hsis, forall₂_imp_mem hinputs ?_⟩
    intro v hv si hplaced
    refine hplaced.sub fun _ hslot => ?_
    rcases hdrops.kept v _ hslot with hkept | ⟨last, hlast, hlt⟩
    · exact hkept
    · -- The batch is due later, so its inputs were extended to last until it.
      have hanchor := hserved plan hplan site (mem_siteIds_of_read hsite) hnot
      have hlasts := t.lasts_of_read hplan hsite hnode v hv last hlast
      exact absurd hlt (Nat.not_lt_of_le (Nat.le_trans hanchor hlasts))
  · refine forall₂_imp_mem h.products ?_
    intro v hv s hslot
    rcases hdrops.kept v _ hslot with hkept | ⟨last, hlast, hlt⟩
    · exact hkept
    · -- A pending product's round is still to come, and is where it is read last.
      obtain ⟨r, id, args, hir, hround, hin⟩ := t.emittable.lowered.round_of_pending hv
      have hreads := t.planned.reads r v ⟨_, hround, hin⟩ last hlast
      exact absurd hlt (Nat.not_lt_of_le (Nat.le_trans hir hreads))

/-- A node that is no round, no local product and no gadget's changes nothing that is waiting. -/
theorem Agrees.advance (h : t.Agrees p I served i slot siteInputs vm) {op : Op} {args : List ValueId}
    (hnode : g.nodes[i]? = some ⟨op, args⟩) (hround : ∀ id, op ≠ .round id) (hlocal : op ≠ .mulLocal)
    (hgadget : ∀ site, op ≠ .gadget site) : t.Agrees p I served (i + 1) slot siteInputs vm := by
  refine ⟨h.ready, h.values, ?_, ?_, ?_⟩
  · intro plan hplan site hsite hnot u inputs hu hat
    rcases Nat.lt_succ_iff_lt_or_eq.mp hu with hlt | rfl
    · exact h.waiting plan hplan site hsite hnot u inputs hlt hat
    · rw [hnode] at hat
      cases hat
      exact absurd rfl (hgadget site)
  · rw [pendingAt_other hnode hround hlocal]
    exact h.products
  · rw [pendingAt_other hnode hround hlocal]
    exact h.pending

/-! ## New values -/

/-- A list of writes that gives the values in `fresh` their slots. Every write is the value of one
    of them and every one of them is written; the places of other values are the ones they had. -/
structure Gives (t : Setting g) (p : ProgramParts) (I : Interp) (fresh : ValueId → Prop)
    (slot mid : List (Option Loc)) (ws : List (ResultTarget × Fr)) : Prop where
  allocated : ∃ taken bound arena, Allocated g t.home t.res.next t.lastUse taken bound arena mid ∧
    ∀ v, fresh v → v ∉ taken
  kept : ∀ (v : ValueId) (l : Loc), ¬ fresh v → l.bank ≠ .local →
    (mid[v]? = some (some l) ↔ slot[v]? = some (some l))
  placed : ∀ v, fresh v → t.home v = none ∧ ∃ l : Loc, mid[v]? = some (some l) ∧ l.bank ≠ .local ∧
    p.SlotOk l.bank ⟨l.index⟩ ∧ ∃ w ∈ ws, w.1 = ⟨l.bank, ⟨l.index⟩⟩
  sound : ∀ w ∈ ws, ∃ v, fresh v ∧ mid[v]? = some (some ⟨w.1.bank, w.1.slot.index⟩) ∧ w.2 = g.eval I v

/-- **Every place has its value after the writes.** A place of another value is not written to. -/
theorem Agrees.values_of_gives (h : t.Agrees p I served i slot siteInputs vm) {fresh : ValueId → Prop}
    {mid : List (Option Loc)} {ws : List (ResultTarget × Fr)} (hgives : t.Gives p I fresh slot mid ws)
    {v : ValueId} {l : Loc} (hv : t.Placed served mid v l) :
    (vm.writeAll ws).read l.bank ⟨l.index⟩ = g.eval I v := by
  obtain ⟨taken, bound, arena, hmid, htaken⟩ := hgives.allocated
  -- A write to the place is the write of the value that has it.
  have howner : ∀ w ∈ ws, w.1.bank = l.bank → w.1.slot = ⟨l.index⟩ → fresh v ∧ w.2 = g.eval I v := by
    intro w hw hbank hslot
    obtain ⟨u, hu, hentry, hvalue⟩ := hgives.sound w hw
    have hentry' : mid[u]? = some (some l) := by
      rw [hentry, hbank, hslot]
    cases slot_apart hmid hentry' (hgives.placed u hu).1 (htaken u hu) hv
    exact ⟨hu, hvalue⟩
  -- A fresh value was just written; an old one's place was written by nobody.
  by_cases hfresh : fresh v
  · obtain ⟨hhome, m, hentry, hbank, hslot, w, hw, hwl⟩ := hgives.placed v hfresh
    have hlm : l = m := by
      rcases hv.2 with ⟨_, hslot'⟩ | ⟨hsome, _⟩
      · rw [hentry] at hslot'
        cases hslot'
        rfl
      · rw [hhome] at hsome
        cases hsome
    subst hlm
    apply VmState.read_writeAll_of_mem h.ready hbank hslot
    · exact fun w hw hb hs => (howner w hw hb hs).2
    · exact ⟨w, hw, by rw [hwl], by rw [hwl]⟩
  · rw [VmState.read_writeAll_other fun w hw hb hs => hfresh (howner w hw hb hs).1]
    exact h.values v l (hv.sub fun _ => (hgives.kept v l hfresh hv.1).mp)

/-- What the writes leave, where no gadget node is passed. -/
theorem Agrees.define {taken : List ValueId} {e : Emitter} (hok : t.Ok taken i e)
    (h : t.Agrees p I served i e.slot siteInputs vm) {fresh : ValueId → Prop} {mid : List (Option Loc)}
    {ws : List (ResultTarget × Fr)} (hgives : t.Gives p I fresh e.slot mid ws)
    (hfresh : ∀ v, fresh v → i ≤ v) {j : Nat}
    (hnodes : ∀ (u : ValueId) (site : GadgetId) (inputs : List ValueId), i ≤ u → u < j →
      g.nodes[u]? ≠ some ⟨.gadget site, inputs⟩) {vm' : VmState Unit Fr} (hready : vm'.Ready p)
    (hread : ∀ bank s, vm'.read bank s = (vm.writeAll ws).read bank s)
    (hproducts : List.Forall₂ (fun v (s : Slot) => mid[v]? = some (some ⟨.local, s.index⟩))
      (g.pendingAt j) vm'.pendingMulDst)
    (hpending : (vm'.pendingMulLhs.zip vm'.pendingMulRhs).map (fun x => x.1 * x.2) =
      (g.pendingAt j).map (g.eval I)) : t.Agrees p I served j mid siteInputs vm' := by
  refine ⟨hready, ?_, ?_, hproducts, hpending⟩
  · intro v l hv
    rw [hread]
    exact h.values_of_gives hgives hv
  · intro plan hplan site hsite hnot u inputs hu hat
    have hlt : u < i := Nat.lt_of_not_le fun hle => hnodes u site inputs hle hu hat
    obtain ⟨sis, hsis, hinputs⟩ := h.waiting plan hplan site hsite hnot u inputs hlt hat
    refine ⟨sis, hsis, forall₂_imp_mem hinputs ?_⟩
    intro v _ si hplaced
    refine hplaced.sub fun hhome hslot => (hgives.kept v _ ?_ hplaced.1).mpr hslot
    -- A value with an entry stands in front of the new ones.
    intro hf
    exact absurd (hok.front v _ hslot hhome) (Nat.not_lt_of_le (hfresh v hf))

end Setting

end Codegen
end CircomMpc
