import CircomMpc.Codegen.Homes

/-!
# What `reserve_slots` promises

The inputs come last, one slot for every input node. Put together, the tables of a `Reservation` are
one function from values to homes, read off in different places: `slot` has the constants and the
inputs, `result_phys` the gadget results, and the bindings say what the machine has to write before
it starts.
-/

namespace CircomMpc

open Lib CircomMpc.Graph

namespace Codegen

variable {g : Graph}

theorem signalDomain_ne_local (g : Graph) (signal : SignalIdx) : signalDomain g signal ≠ .local := by
  unfold signalDomain
  dsimp only
  split
  · decide
  · split <;> decide

theorem inputDomain_eq (g : Graph) (inputIndex : Nat) :
    inputDomain g inputIndex = .ok (bankOf (signalDomain g (g.numOutputs + inputIndex))) := by
  unfold inputDomain
  cases h : signalDomain g (g.numOutputs + inputIndex)
  · rfl
  · rfl
  · exact absurd h (signalDomain_ne_local g _)

/-- The banks of the inputs. -/
def inputBanks (g : Graph) : List Bank :=
  (List.range g.numInputs).map fun k => bankOf (signalDomain g (g.numOutputs + k))

theorem inputDomains_eq (g : Graph) :
    (List.range g.numInputs).mapM (inputDomain g) = .ok (inputBanks g) :=
  mapM_eq_ok fun k _ => inputDomain_eq g k

/-- The binding of an input node whose slot is `slot`. -/
def bindingOf (g : Graph) (signal : SignalIdx) (slot : Nat) : InputBinding :=
  ⟨bankOf (signalDomain g signal), ⟨slot⟩, ⟨signal - g.numOutputs⟩⟩

/-- Node `v` reads an input signal. -/
def InputAt (g : Graph) (signal : SignalIdx) (v : ValueId) : Prop :=
  ∃ inputs, g.nodes[v]? = some ⟨.input signal, inputs⟩

/-- The homes with the input nodes among the first `i` nodes done. A binding is pushed for each of
    them, and there is no other. -/
structure InputsDone (g : Graph) (early : ValueId → Option Loc) (i : Nat) (w : ReservingInputs)
    (home : ValueId → Option Loc) : Prop where
  homed : Homed home w.next
  extends_early : Extends early home
  length : w.slot.length = g.nodes.length
  table : ∀ v l, w.slot[v]? = some (some l) → home v = some l
  inputs : ∀ signal v, v < i → InputAt g signal v → g.numOutputs ≤ signal ∧ ∃ slot,
    home v = some ⟨bankOf (signalDomain g signal), slot⟩ ∧ bindingOf g signal slot ∈ w.bindings
  bindings : ∀ b ∈ w.bindings, ∃ signal v slot, InputAt g signal v ∧
    home v = some ⟨bankOf (signalDomain g signal), slot⟩ ∧ b = bindingOf g signal slot
  only : ∀ v l, home v = some l → early v = some l ∨ v < i ∧ ∃ signal, InputAt g signal v

theorem reserveInput_meets {early : ValueId → Option Loc}
    (hearly : ∀ signal v, InputAt g signal v → early v = none) {i : Nat} {w : ReservingInputs}
    {home : ValueId → Option Loc} (h : InputsDone g early i w home) {node : Node}
    (hnode : g.nodes[i]? = some node) :
    Meets (fun _ => True) (fun w' => ∃ home', InputsDone g early (i + 1) w' home')
      (reserveInput g (inputBanks g) w node i) := by
  obtain ⟨op, inputs⟩ := node
  have hother : (∀ signal, op ≠ .input signal) → InputsDone g early (i + 1) w home := by
    intro hop
    refine ⟨h.homed, h.extends_early, h.length, h.table, ?_, h.bindings, ?_⟩
    · intro signal v hv hat
      rcases Nat.lt_succ_iff_lt_or_eq.mp hv with hlt | rfl
      · exact h.inputs signal v hlt hat
      · obtain ⟨inputs', hat⟩ := hat
        rw [hnode] at hat
        cases hat
        exact absurd rfl (hop signal)
    · intro v l hl
      exact (h.only v l hl).imp_right fun ⟨hlt, hat⟩ => ⟨Nat.lt_succ_of_lt hlt, hat⟩
  unfold reserveInput
  cases op
  case input signal =>
    dsimp only
    apply Meets.guard_bind (fun _ => trivial)
    intro hsignal
    apply Meets.bind_eq
    intro bank hbank
    apply Meets.bind_eq
    rintro ⟨slotIndex, next⟩ htake
    apply Meets.bind_eq
    intro slot hslot
    obtain ⟨hlocal, htake⟩ := Cursors.take_eq_ok.mp htake
    cases htake
    obtain ⟨hlt, rfl⟩ := setIndex_eq_ok.mp (lift_eq_ok.mp hslot)
    have hbank' : bank = bankOf (signalDomain g signal) := by
      rw [lift_eq_ok, index_eq_ok, inputBanks, List.getElem?_map] at hbank
      obtain ⟨k, hk, rfl⟩ := Option.map_eq_some_iff.mp hbank
      rw [List.getElem?_eq_some_iff] at hk
      obtain ⟨_, hk⟩ := hk
      rw [List.getElem_range] at hk
      rw [← hk, Nat.add_sub_of_le hsignal]
    subst hbank'
    have hat : InputAt g signal i := ⟨inputs, hnode⟩
    -- No earlier loop and no earlier input gave this node a home.
    have hnone : home i = none := by
      cases hi : home i with
      | none => rfl
      | some l =>
        rcases h.only i l hi with hl | ⟨hlt, _⟩
        · rw [hearly signal i hat] at hl
          cases hl
        · exact absurd hlt (Nat.lt_irrefl i)
    have hextends := Extends.update hnone
      (some ⟨bankOf (signalDomain g signal), w.next.of (bankOf (signalDomain g signal))⟩)
    refine ⟨_, h.homed.push hlocal i, h.extends_early.trans hextends, ?_, ?_, ?_, ?_, ?_⟩
    · exact (List.length_set ..).trans h.length
    · intro v l hl
      by_cases hvi : i = v
      · subst hvi
        rw [List.getElem?_set_self hlt] at hl
        rw [Function.update_self]
        exact Option.some.inj hl
      · rw [List.getElem?_set_ne hvi] at hl
        exact hextends v l (h.table v l hl)
    · intro signal' v hv hat'
      rcases Nat.lt_succ_iff_lt_or_eq.mp hv with hlt' | rfl
      · obtain ⟨hle, slot, hhome, hmem⟩ := h.inputs signal' v hlt' hat'
        exact ⟨hle, slot, hextends v _ hhome, List.mem_append_left _ hmem⟩
      · obtain ⟨inputs', hat'⟩ := hat'
        rw [hnode] at hat'
        cases hat'
        exact ⟨hsignal, _, Function.update_self .., by simp [bindingOf]⟩
    · intro b hb
      rcases List.mem_append.mp hb with hb | hb
      · obtain ⟨signal', v, slot, hat', hhome, hb⟩ := h.bindings b hb
        exact ⟨signal', v, slot, hat', hextends v _ hhome, hb⟩
      · exact ⟨signal, i, _, hat, Function.update_self .., List.mem_singleton.mp hb⟩
    · intro v l hl
      by_cases hvi : v = i
      · subst hvi
        exact .inr ⟨Nat.lt_succ_self v, signal, hat⟩
      · rw [Function.update_of_ne hvi] at hl
        exact (h.only v l hl).imp_right fun ⟨hlt, hat⟩ => ⟨Nat.lt_succ_of_lt hlt, hat⟩
  all_goals exact ⟨home, hother (by intro signal hsignal; cases hsignal)⟩

/-- Node `v` is a constant. -/
def ConstantAt (g : Graph) (c : Fr) (v : ValueId) : Prop :=
  ∃ inputs, g.nodes[v]? = some ⟨.constant c, inputs⟩

/-- The tables of a reservation say of every constant, gadget result and input where its home is,
    and nothing else has one. The slot table holds homes only, and not those of gadget results. -/
structure Reservation.Holds (g : Graph) (res : Reservation) (home : ValueId → Option Loc) : Prop where
  homed : Homed home res.next
  length : res.slot.length = g.nodes.length
  table : ∀ v l, res.slot[v]? = some (some l) → home v = some l
  constants : ∀ c v, ConstantAt g c v → ∃ k, home v = some ⟨.public, k⟩ ∧ res.constants[k]? = some c
  inputs : ∀ signal v, InputAt g signal v → g.numOutputs ≤ signal ∧ ∃ slot,
    home v = some ⟨bankOf (signalDomain g signal), slot⟩ ∧ bindingOf g signal slot ∈ res.inputBindings
  bindings : ∀ b ∈ res.inputBindings, ∃ signal v slot, InputAt g signal v ∧
    home v = some ⟨bankOf (signalDomain g signal), slot⟩ ∧ b = bindingOf g signal slot
  bases : ∀ site v (base : Loc), g.SiteAt site v → res.gadgets.siteResultBase[site]? = some base →
    ∃ s, g.gadgetSites[site]? = some s ∧ gadgetResultBank s.kind (g.facts v).domain
      (s.precomputed && (g.facts v).domain == .shared) = .ok base.bank
  live : ∀ site row, res.gadgets.liveSlots[site]? = some row → ∃ vs,
    res.gadgets.liveNodes[site]? = some vs ∧
      List.Forall₂ (fun slot v => g.ResultAt site slot v) row vs ∧
        ∀ slot v, g.ResultAt site slot v → v ∈ vs
  results : ∀ site slot v, g.ResultAt site slot v → ∃ (base : Loc) (phys : Nat),
    res.gadgets.siteResultBase[site]? = some base ∧
      res.gadgets.resultPhys[v]? = some (some phys) ∧ home v = some ⟨base.bank, phys⟩
  only : ∀ v l, home v = some l → (∃ c, ConstantAt g c v) ∨ (∃ signal, InputAt g signal v) ∨
    ∃ site slot, g.ResultAt site slot v

theorem reserveSlots_meets (hg : g.Hosted) :
    Meets (fun _ => True) (fun res => (∃ home, res.Holds g home) ∧ res.inputDomains = inputBanks g)
      (reserveSlots g ((table (netRule g) g.nodes).map Facts.domain)) := by
  unfold reserveSlots
  apply Meets.bind (lift_meets (reserveConstants_meets g))
  rintro ⟨slot, constants⟩ ⟨early, hconstants⟩
  dsimp only at hconstants ⊢
  -- The constants' loop gave no gadget result a home,
  have hearly : ∀ v site slot, g.ResultAt site slot v → early v = none := by
    rintro v site slot ⟨u, hnode, _⟩
    cases hv : early v with
    | none => rfl
    | some l =>
      obtain ⟨_, c, inputs, hat⟩ := hconstants.only v l hv
      rw [hnode] at hat
      cases hat
  apply Meets.bind (reserveGadgetResults_meets hg hconstants.homed hearly)
  rintro ⟨gadgets, next⟩ ⟨mid, hresults⟩
  dsimp only at hresults ⊢
  -- and neither of the first two gave an input one.
  have hmid : ∀ signal v, InputAt g signal v → mid v = none := by
    rintro signal v ⟨inputs, hnode⟩
    cases hv : mid v with
    | none => rfl
    | some l =>
      rcases hresults.only v l hv with hl | ⟨site, slot, u, hat, _⟩
      · obtain ⟨_, c, inputs', hat⟩ := hconstants.only v l hl
        rw [hnode] at hat
        cases hat
      · rw [hnode] at hat
        cases hat
  unfold reserveInputs
  rw [inputDomains_eq, lift_ok, ok_bind, bind_assoc]
  -- The inputs, starting from the homes that are there.
  have hloop : Meets (fun _ : CodegenError => True)
      (fun w => ∃ home, InputsDone g mid g.nodes.length w home)
      (g.nodes.zipIdx.foldlM (fun w (x : Node × Nat) => reserveInput g (inputBanks g) w x.1 x.2)
        ⟨slot, [], next⟩) := by
    refine Meets.foldlM_enum (fun i (w : ReservingInputs) => ∃ home, InputsDone g mid i w home) ?_ ?_
    · refine ⟨mid, hresults.homed, Extends.refl mid, ?_, ?_, ?_, ?_, fun v l hl => .inl hl⟩
      · rw [hconstants.table]
        simp
      · intro v l hl
        apply hresults.extends_early
        rw [hconstants.table, List.getElem?_map] at hl
        obtain ⟨k, hk, hl⟩ := Option.map_eq_some_iff.mp hl
        obtain ⟨_, hk⟩ := List.getElem?_eq_some_iff.mp hk
        rw [List.getElem_range] at hk
        rw [hk]
        exact hl
      · intro signal v hv
        exact absurd hv (Nat.not_lt_zero v)
      · intro b hb
        cases hb
    · rintro i node w hnode ⟨home, h⟩
      exact reserveInput_meets hmid h hnode
  apply Meets.bind hloop
  rintro w ⟨home, h⟩
  refine ⟨⟨home, h.homed, h.length, h.table, ?_, ?_, h.bindings, hresults.bases, hresults.live, ?_,
    ?_⟩, rfl⟩
  · rintro c v ⟨inputs, hnode⟩
    obtain ⟨k, hk, hc⟩ := hconstants.constants v (List.getElem?_eq_some_iff.mp hnode).1 c inputs hnode
    exact ⟨k, h.extends_early _ _ (hresults.extends_early _ _ hk), hc⟩
  · rintro signal v ⟨inputs, hnode⟩
    exact h.inputs signal v (List.getElem?_eq_some_iff.mp hnode).1 ⟨inputs, hnode⟩
  · intro site slot v hat
    obtain ⟨base, phys, hbase, hphys, hhome⟩ := hresults.results site slot v hat
    exact ⟨base, phys, hbase, hphys, h.extends_early _ _ hhome⟩
  · intro v l hl
    rcases h.only v l hl with hl | ⟨_, signal, hat⟩
    · rcases hresults.only v l hl with hl | hat
      · obtain ⟨_, c, inputs, hat⟩ := hconstants.only v l hl
        exact .inl ⟨c, inputs, hat⟩
      · exact .inr (.inr hat)
    · exact .inr (.inl ⟨signal, hat⟩)

end Codegen
end CircomMpc
