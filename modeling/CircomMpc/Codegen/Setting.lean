import CircomMpc.Codegen.Allocated
import CircomMpc.Codegen.Liveness
import CircomMpc.Codegen.Reserved
import CircomMpc.Passes.Mpc.Lowering
import CircomMpc.Vm.Effect

/-!
# What the walk walks on

A graph code generation is made for, and the tables it has drawn up by the time it starts to emit.
Everything the walk's invariants mention that no step of it changes is a field of `Setting`.
-/

namespace CircomMpc

open Lib CircomMpc.Graph

/-- What the lowering and the frontend leave to code generation: a lowered graph whose sites can be
    scheduled, with the inputs their kinds read, and no precomputed site that is not a hash. -/
structure Graph.Emittable (g : Graph) : Prop where
  lowered : g.IsLowered
  sited : g.Sited
  arity : ∀ (v : ValueId) (site : GadgetId) (inputs : List ValueId) (s : GadgetSite),
    g.nodes[v]? = some ⟨.gadget site, inputs⟩ → g.gadgetSites[site]? = some s →
      inputs.length = s.kind.arity
  host : ∀ s ∈ g.gadgetSites, s.precomputed = true → ∃ t, s.kind = .poseidon2 t

namespace Codegen

/-! ## Opcodes -/

/-- What an arithmetic operation computes. -/
def opValue : Op → Fr → Fr → Fr
  | .add, x, y => x + y
  | .sub, x, y => x - y
  | .mul, x, y => x * y
  | _, _, _ => 0

/-- The chosen opcode reads the operands where their domains say, in one order or the other, and
    computes the operation. -/
theorem selectOpcode_eq_ok {op : Op} {da db : Domain} {opcode : Opcode} {bank : Bank} {swap : Bool}
    (h : selectOpcode op da db = .ok (opcode, bank, swap)) :
    bank = bankOf (da.join db) ∧ bank ≠ .local ∧
      opcode.banks = some (bank, if swap then (bankOf db, bankOf da) else (bankOf da, bankOf db)) ∧
      ∀ x y : Fr, opcode.apply (if swap then y else x) (if swap then x else y) = opValue op x y := by
  unfold selectOpcode at h
  cases op <;> cases da <;> cases db
  all_goals simp only [reduceCtorEq, or_self, or_true, or_false, if_true, if_false] at h
  all_goals cases h
  all_goals
    refine ⟨rfl, by decide, rfl, ?_⟩
    intro x y
    simp [Opcode.apply, opValue, add_comm, mul_comm]

/-- The domain of a site's results. -/
def resultDomain (kind : GadgetKind) (domain : Domain) : Domain :=
  match kind with
  | .reveal _ => .public
  | _ => domain

/-- The results of a site are in their domain's bank, given that the host supplies Poseidon2 only. -/
theorem gadgetResultBank_eq_ok {kind : GadgetKind} {domain : Domain} {precomputed : Bool}
    {bank : Bank} (h : gadgetResultBank kind domain precomputed = .ok bank)
    (hhost : precomputed = true → ∃ t, kind = .poseidon2 t) :
    domain ≠ .local ∧ bank = bankOf (resultDomain kind domain) := by
  unfold gadgetResultBank at h
  obtain ⟨hlocal, h⟩ := seq_eq_ok.mp h
  rw [ensure_eq_ok] at hlocal
  refine ⟨hlocal, ?_⟩
  cases precomputed with
  -- What the host supplies is shared Poseidon2, so both banks are the shared one.
  | true =>
    obtain ⟨t, rfl⟩ := hhost rfl
    obtain ⟨hshared, h⟩ := seq_eq_ok.mp h
    rw [ensure_eq_ok] at hshared
    rw [hshared]
    exact (pure_eq_ok.mp h).symm
  | false =>
    cases kind <;> cases domain
    all_goals first
      | exact absurd rfl hlocal
      | exact (pure_eq_ok.mp h).symm

/-! ## Taken products -/

variable {g : Graph}

/-- The products the rounds in front of node `i` have taken. -/
def takenAt (g : Graph) (i : Nat) : List ValueId := slots (g.nodes.take i)

theorem takenAt_succ {i : Nat} {node : Node} (hnode : g.nodes[i]? = some node) :
    takenAt g (i + 1) = takenAt g i ++ node.slots := by
  unfold takenAt slots
  rw [List.take_add_one, hnode, List.flatMap_append]
  simp

theorem takenAt_step {i : Nat} {op : Op} {inputs : List ValueId}
    (hnode : g.nodes[i]? = some ⟨op, inputs⟩) (hop : ∀ id, op ≠ .round id) :
    takenAt g (i + 1) = takenAt g i := by
  rw [takenAt_succ hnode]
  have hnone : Node.slots ⟨op, inputs⟩ = [] := by
    cases op
    case round id => exact absurd rfl (hop id)
    all_goals rfl
  rw [hnone, List.append_nil]

/-- Behind a round and its results, the round's operands are taken. -/
theorem takenAt_round (hg : g.IsLowered) {i : Nat} {id : RoundId} {args : List ValueId}
    (hnode : g.nodes[i]? = some ⟨.round id, args⟩) :
    takenAt g (i + 1 + args.length) = takenAt g i ++ args := by
  have hresults : ∀ k ≤ args.length, takenAt g (i + 1 + k) = takenAt g (i + 1) := by
    intro k
    induction k with
    | zero =>
      intro _
      rfl
    | succ k ih =>
      intro hk
      rw [← ih (Nat.le_of_succ_le hk)]
      exact takenAt_step (hg.block i id args hnode k hk) (by intro id' h; cases h)
  rw [hresults args.length (Nat.le_refl _), takenAt_succ hnode]
  rfl

/-- A taken product is an operand of a round in front. -/
theorem mem_takenAt {i : Nat} {v : ValueId} : v ∈ takenAt g i ↔
    ∃ r < i, ∃ id args, g.nodes[r]? = some ⟨.round id, args⟩ ∧ v ∈ args := by
  unfold takenAt
  rw [mem_slots]
  constructor
  · rintro ⟨id, args, hmem, hv⟩
    obtain ⟨r, hr⟩ := List.mem_iff_getElem?.mp hmem
    rw [List.getElem?_take] at hr
    split at hr
    · next hlt => exact ⟨r, hlt, id, args, hr, hv⟩
    · cases hr
  · rintro ⟨r, hlt, id, args, hr, hv⟩
    refine ⟨id, args, ?_, hv⟩
    apply List.mem_iff_getElem?.mpr
    exact ⟨r, by rw [List.getElem?_take, if_pos hlt]; exact hr⟩

theorem takenAt_nodup (hg : g.IsLowered) (i : Nat) : (takenAt g i).Nodup := by
  have hnodup : (slots g.nodes).Nodup := hg.slots.nodup_iff.mpr (localProducts_nodup _)
  have happend : slots g.nodes = takenAt g i ++ slots (g.nodes.drop i) := by
    unfold takenAt slots
    rw [← List.flatMap_append, List.take_append_drop]
  rw [happend] at hnodup
  exact (List.nodup_append.mp hnodup).1

/-! ## The setting -/

/-- The tables the walk is given, with what was proved of them. A theorem about the walk takes one
    of these and no hypothesis about the tables. -/
structure Setting (g : Graph) where
  schedule : BatchSchedule
  lastUse : List Nat
  res : Reservation
  home : ValueId → Option Loc
  emittable : g.Emittable
  planned : Planned g schedule lastUse
  holds : res.Holds g home

namespace Setting

variable (t : Setting g)

/-- A value with a home is a constant, an input or a gadget result. -/
theorem home_none {v : ValueId} {node : Node} (hnode : g.nodes[v]? = some node)
    (hconstant : ∀ c, node.op ≠ .constant c) (hinput : ∀ signal, node.op ≠ .input signal)
    (hresult : ∀ slot, node.op ≠ .gadgetResult slot) : t.home v = none := by
  cases h : t.home v with
  | none => rfl
  | some l =>
    rcases t.holds.only v l h with ⟨c, inputs, hat⟩ | ⟨signal, inputs, hat⟩ | ⟨site, slot, u, hat, _⟩
    · rw [hnode] at hat
      cases hat
      exact absurd rfl (hconstant c)
    · rw [hnode] at hat
      cases hat
      exact absurd rfl (hinput signal)
    · rw [hnode] at hat
      cases hat
      exact absurd rfl (hresult slot)

include t in
theorem facts_eq {v : ValueId} {node : Node} (hnode : g.nodes[v]? = some node) :
    g.facts v = netRule g node.op (node.inputs.map g.facts) :=
  CircomMpc.facts_eq t.emittable.lowered.indexed hnode

/-- The results of a site are in the bank of their domain. -/
theorem base_bank {site slot : Nat} {v : ValueId} (hv : g.ResultAt site slot v) {base : Loc}
    (hbase : t.res.gadgets.siteResultBase[site]? = some base) :
    base.bank = bankOf (g.facts v).domain := by
  obtain ⟨u, hnode, inputs, hsite⟩ := hv
  obtain ⟨s, hs, hbank⟩ := t.holds.bases site u base ⟨inputs, hsite⟩ hbase
  have hfacts : g.facts v = netRule g (.gadgetResult slot) [g.facts u] := t.facts_eq hnode
  have hsource : g.facts u = netRule g (.gadget site) (inputs.map g.facts) := t.facts_eq hsite
  have hdomain : (g.facts v).domain = resultDomain s.kind (g.facts u).domain := by
    have hreveals : (if g.reveals site then Domain.public else joinAll (inputs.map g.facts)) =
        resultDomain s.kind (joinAll (inputs.map g.facts)) := by
      simp only [Graph.reveals, hs]
      cases s.kind <;> rfl
    rw [hfacts, hsource]
    exact hreveals
  rw [hdomain]
  apply (gadgetResultBank_eq_ok hbank _).2
  intro hpre
  rw [Bool.and_eq_true] at hpre
  exact t.emittable.host s (List.mem_of_getElem? hs) hpre.1

/-- A home is in the bank of its value's domain. -/
theorem home_bank {v : ValueId} {l : Loc} (h : t.home v = some l) :
    l.bank = bankOf (g.facts v).domain := by
  rcases t.holds.only v l h with ⟨c, hat⟩ | ⟨signal, hat⟩ | ⟨site, slot, hat⟩
  · obtain ⟨k, hk, _⟩ := t.holds.constants c v hat
    obtain ⟨inputs, hnode⟩ := hat
    rw [h] at hk
    cases hk
    rw [t.facts_eq hnode]
    rfl
  · obtain ⟨_, slot, hslot, _⟩ := t.holds.inputs signal v hat
    obtain ⟨inputs, hnode⟩ := hat
    rw [h] at hslot
    cases hslot
    rw [t.facts_eq hnode]
    rfl
  · obtain ⟨base, phys, hbase, _, hhome⟩ := t.holds.results site slot v hat
    rw [h] at hhome
    cases hhome
    show base.bank = _
    exact t.base_bank hat hbase

end Setting

end Codegen
end CircomMpc
