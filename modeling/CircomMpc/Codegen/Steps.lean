import CircomMpc.Codegen.Emit
import CircomMpc.Codegen.Setting

/-!
# What one step of the walk does

`Emits` says, once for each kind of node, what `emit_node` appends to the stream, which values it
places and which it drops, and `emitNode_meets` that a step that succeeds is one of these and keeps
the allocation sound. Nothing behind this module looks into the emitter again.
-/

namespace CircomMpc

open Lib CircomMpc.Graph

namespace Codegen

variable {g : Graph}

namespace Setting

variable (t : Setting g)

/-- The allocation is sound in front of node `i`. -/
def Ok (taken : List ValueId) (i : Nat) (e : Emitter) : Prop :=
  Allocated g t.home t.res.next t.lastUse taken i e.arena e.slot

/-- The slot table `mid` is sound as well, and the emitter's own lacks only what is dead at
    `bound`. -/
structure Trims (taken : List ValueId) (bound : Nat) (mid : List (Option Loc)) (e : Emitter) :
    Prop where
  sound : ∃ arena, Allocated g t.home t.res.next t.lastUse taken bound arena mid
  ok : t.Ok taken bound e
  drops : Drops t.lastUse bound mid e.slot

/-- One kind of node after another: what the step appends, where it puts the node's value, and what
    it drops. The number is how many more nodes the step has dealt with, a round's results. -/
inductive Emits (i : ValueId) (e : Emitter) : Emitter → Nat → Prop
  /-- A constant or an input has its slot already. -/
  | reserved {node : Node} (hnode : g.nodes[i]? = some node)
      (hop : (∃ c, node.op = .constant c) ∨ ∃ signal, node.op = .input signal) : Emits i e e 0
  /-- An arithmetic instruction; a local product is one whose bank is local. -/
  | arith {op : Op} {x y u w : ValueId} {opcode : Opcode} {bank ba bb : Bank} {dst a b : Nat}
      {e' : Emitter} (hnode : g.nodes[i]? = some ⟨op, [x, y]⟩)
      (hop : (op = .add ∨ op = .sub ∨ op = .mul) ∧ bank ≠ .local ∨ op = .mulLocal ∧ bank = .local)
      (hu : u ∈ [x, y]) (hw : w ∈ [x, y]) (ha : e.slot[u]? = some (some ⟨ba, a⟩))
      (hb : e.slot[w]? = some (some ⟨bb, b⟩)) (hbanks : opcode.banks = some (bank, ba, bb))
      (hvalue : ∀ I, opcode.apply (g.eval I u) (g.eval I w) = g.eval I i)
      (htrims : t.Trims (takenAt g i) (i + 1) (e.slot.set i (some ⟨bank, dst⟩)) e')
      (hsame : e' = { e with
        arena := e'.arena
        slot := e'.slot
        instructions := e.instructions ++ [.arith opcode ⟨dst⟩ ⟨a⟩ ⟨b⟩] }) : Emits i e e' 0
  /-- A round takes its operands and places its results. -/
  | round {id : RoundId} {args : List ValueId} {operands results : List Slot}
      {mid : List (Option Loc)} {e' : Emitter} (hnode : g.nodes[i]? = some ⟨.round id, args⟩)
      (hoperands : List.Forall₂ (fun (v : ValueId) (s : Slot) =>
        e.slot[v]? = some (some ⟨.local, s.index⟩)) args operands)
      (hresults : results.length = args.length)
      (hplaced : ∀ (k : Nat) (s : Slot), results[k]? = some s →
        mid[i + 1 + k]? = some (some ⟨.shared, s.index⟩))
      (hother : ∀ v : ValueId, (∀ k < args.length, v ≠ i + 1 + k) → mid[v]? = e.slot[v]?)
      (hid : id < e.rounds.length)
      (htrims : t.Trims (takenAt g i ++ args) (i + 1 + args.length) mid e')
      (hsame : e' = { e with
        arena := e'.arena
        slot := e'.slot
        roundOperands := e.roundOperands ++ operands
        roundResults := e.roundResults ++ results
        rounds := e.rounds.set id ⟨e.roundOperands.length, args.length, e.roundResults.length⟩
        instructions := e.instructions ++ [.reshare ⟨id⟩] }) : Emits i e e' args.length
  /-- A gadget node notes where its inputs are. -/
  | gadget {site : GadgetId} {inputs : List ValueId} {sis : List SiteInput}
      (hnode : g.nodes[i]? = some ⟨.gadget site, inputs⟩)
      (hinputs : List.Forall₂ (fun (v : ValueId) (si : SiteInput) =>
        e.slot[v]? = some (some ⟨si.bank, si.slot.index⟩) ∧ si.bank ≠ .local) inputs sis)
      (hsite : site < e.siteInputs.length) :
      Emits i e { e with siteInputs := e.siteInputs.set site sis } 0
  /-- A gadget result gets its home. -/
  | result {slot : Nat} {inputs : List ValueId} {l : Loc}
      (hnode : g.nodes[i]? = some ⟨.gadgetResult slot, inputs⟩) (hhome : t.home i = some l)
      (hlt : i < e.slot.length) : Emits i e { e with slot := e.slot.set i (some l) } 0

variable {t} {taken : List ValueId} {i : Nat} {e : Emitter}

/-! ## Freeing -/

/-- What a few frees do: entries may go, of values that are not read from `bound` on, and nothing
    else of the emitter changes. -/
structure Frees (t : Setting g) (taken : List ValueId) (i bound : Nat) (e e' : Emitter) : Prop where
  ok : t.Ok taken i e'
  drops : Drops t.lastUse bound e.slot e'.slot
  same : e' = { e with arena := e'.arena, slot := e'.slot }

theorem Frees.refl (h : t.Ok taken i e) (bound : Nat) : Frees t taken i bound e e :=
  ⟨h, Drops.refl _ _ _, rfl⟩

theorem Frees.trans {bound : Nat} {e' e'' : Emitter} (h : Frees t taken i bound e e')
    (h' : Frees t taken i bound e' e'') : Frees t taken i bound e e'' := by
  refine ⟨h'.ok, h.drops.trans h'.drops, ?_⟩
  rw [h'.same, h.same]

theorem freeIfDead_meets (h : t.Ok taken i e) {current bound : Nat} (hbound : current < bound)
    (v : ValueId) :
    Meets (fun _ => True) (Frees t taken i bound e) (e.freeIfDead current v) := by
  unfold Emitter.freeIfDead Arena.freeIfDead
  rw [bind_assoc]
  apply Meets.bind_eq
  intro last hlast
  rw [index_eq_ok, h.fixed.lastUse] at hlast
  -- Only the last reader gives the slot back.
  by_cases hcurrent : last ≠ current
  · rw [if_pos hcurrent]
    exact Frees.refl h bound
  · rw [if_neg hcurrent, bind_assoc]
    rw [not_not] at hcurrent
    subst hcurrent
    apply Meets.bind_eq
    intro entry hentry
    rw [index_eq_ok] at hentry
    cases entry with
    -- A value with no place has nothing to give back.
    | none => exact Frees.refl h bound
    | some loc =>
      refine ⟨h.release t.holds.homed hentry, ⟨List.length_set, ?_, ?_⟩, rfl⟩
      · intro u l hl
        by_cases huv : v = u
        · subst huv
          rw [List.getElem?_set] at hl
          simp at hl
        · rw [List.getElem?_set_ne huv] at hl
          exact hl
      · intro u l hl
        by_cases huv : v = u
        · subst huv
          exact .inr ⟨last, hlast, hbound⟩
        · rw [List.getElem?_set_ne huv]
          exact .inl hl

/-- A row of frees. -/
theorem freeAll_meets (h : t.Ok taken i e) {α : Type} (current : α → Nat) (value : α → ValueId)
    {bound : Nat} (xs : List α) (hbound : ∀ x ∈ xs, current x < bound) :
    Meets (fun _ => True) (Frees t taken i bound e)
      (xs.foldlM (fun e x => e.freeIfDead (current x) (value x)) e) := by
  apply Meets.foldlM (Frees.refl h bound)
  intro x hx e' he'
  exact (freeIfDead_meets he'.ok (hbound x hx) (value x)).post fun _ h => he'.trans h

/-! ## Arithmetic -/

theorem resolve_eq_ok {message : String} {slot : List (Option Loc)} {v : ValueId} {l : Loc} :
    Emitter.resolve message slot v = .ok l ↔ slot[v]? = some (some l) := by
  unfold Emitter.resolve
  rw [bind_eq_ok]
  constructor
  · rintro ⟨entry, hentry, hl⟩
    rw [orElse_eq_ok] at hl
    rw [hl] at hentry
    exact index_eq_ok.mp hentry
  · intro h
    exact ⟨some l, index_eq_ok.mpr h, rfl⟩

/-- A value of the graph gets a fresh slot. -/
theorem define_meets (h : t.Ok taken i e) {v : ValueId} (hv : i ≤ v) (hhome : t.home v = none)
    (htaken : v ∉ taken) {bank : Bank} (hbank : bank = bankOf (g.facts v).domain) :
    Meets (fun _ => True) (fun r => t.Ok taken (v + 1) r.2 ∧ v < e.slot.length ∧
        r.2 = { e with arena := r.2.arena, slot := e.slot.set v (some ⟨bank, r.1⟩) })
      (e.define bank v) := by
  unfold Emitter.define
  dsimp only
  apply Meets.bind_eq
  intro slot hslot
  obtain ⟨hlt, rfl⟩ := setIndex_eq_ok.mp hslot
  subst hbank
  exact ⟨Allocated.define h hv hlt hhome htaken, hlt, rfl⟩

theorem emitBinary_meets (h : t.Ok taken i e) {op : Op} {inputs : List ValueId}
    (hhome : t.home i = none) (htaken : i ∉ taken) {bank : Bank}
    (hbank : bank = bankOf (g.facts i).domain) (opcode : Opcode) (a b : Nat) :
    Meets (fun _ => True) (fun e' => ∃ dst,
        t.Trims taken (i + 1) (e.slot.set i (some ⟨bank, dst⟩)) e' ∧
        e' = { e with
          arena := e'.arena
          slot := e'.slot
          instructions := e.instructions ++ [.arith opcode ⟨dst⟩ ⟨a⟩ ⟨b⟩] })
      (e.emitBinary ⟨op, inputs⟩ i opcode bank a b) := by
  unfold Emitter.emitBinary
  apply Meets.bind (define_meets h (Nat.le_refl i) hhome htaken hbank)
  -- First the destination, then the instruction, then the operands that die here.
  rintro ⟨dst, e₁⟩ ⟨hok, _, hsame⟩
  dsimp only at hok hsame ⊢
  have hslot : e₁.slot = e.slot.set i (some ⟨bank, dst⟩) := by rw [hsame]
  have hpushed : t.Ok taken (i + 1) (e₁.push (.arith opcode ⟨dst⟩ ⟨a⟩ ⟨b⟩)) := hok
  apply Meets.bind_any
  intro x
  apply Meets.bind (freeIfDead_meets hpushed (Nat.lt_succ_self i) x)
  intro e₂ h₂
  apply Meets.bind_any
  intro y
  apply (freeIfDead_meets h₂.ok (Nat.lt_succ_self i) y).post
  intro e₃ h₃
  have hfrees := h₂.trans h₃
  refine ⟨dst, ⟨⟨e₁.arena, ?_⟩, hfrees.ok, ?_⟩, ?_⟩
  · rw [← hslot]
    exact hok
  · rw [← hslot]
    exact hfrees.drops
  · rw [hfrees.same]
    unfold Emitter.push
    rw [hsame]

/-- What an arithmetic node evaluates to. -/
theorem eval_arith {op : Op} {x y : ValueId} (hord : Ordered g.nodes)
    (hnode : g.nodes[i]? = some ⟨op, [x, y]⟩)
    (hop : op = .add ∨ op = .sub ∨ op = .mul ∨ op = .mulLocal) (I : Interp) :
    g.eval I i = if op = .mulLocal then g.eval I x * g.eval I y
      else opValue op (g.eval I x) (g.eval I y) := by
  unfold eval
  rw [value_eq hord hnode]
  rcases hop with rfl | rfl | rfl | rfl <;> rfl

/-- Every value in the table is in the bank of its domain. -/
theorem Ok.bank (h : t.Ok taken i e) {v : ValueId} {l : Loc} (hl : e.slot[v]? = some (some l)) :
    l.bank = bankOf (g.facts v).domain := by
  cases hhome : t.home v with
  | some m =>
    cases h.homes v l m hl hhome
    exact t.home_bank hhome
  | none => exact h.banks v l hl hhome

/-- A node is not taken by a round in front of it. -/
theorem not_taken (t : Setting g) (i : Nat) {v : ValueId} (hv : i ≤ v) : v ∉ takenAt g i := by
  intro hmem
  obtain ⟨r, hr, id, args, hround, hin⟩ := mem_takenAt.mp hmem
  have hlt := t.emittable.lowered.indexed.ordered r _ hround v hin
  exact absurd (hlt.trans hr) (Nat.not_lt_of_le hv)

theorem emitArith_meets (h : t.Ok (takenAt g i) i e) {op : Op} {inputs : List ValueId}
    (hnode : g.nodes[i]? = some ⟨op, inputs⟩) (hop : op = .add ∨ op = .sub ∨ op = .mul) :
    Meets (fun _ => True) (fun e' => t.Ok (takenAt g (i + 1)) (i + 1) e' ∧ t.Emits i e e' 0)
      (e.emitArith ((table (netRule g) g.nodes).map Facts.domain) ⟨op, inputs⟩ i) := by
  have hlen : inputs.length = 2 := by
    apply t.emittable.lowered.indexed.arity _ (List.mem_of_getElem? hnode)
    rcases hop with rfl | rfl | rfl <;> rfl
  obtain ⟨x, y, rfl⟩ := eq_pair hlen
  have hord := t.emittable.lowered.indexed.ordered
  have hhome : t.home i = none := by
    apply t.home_none hnode <;> rcases hop with rfl | rfl | rfl <;> intro _ hne <;> cases hne
  have hx : x < i := hord i _ hnode x (by simp)
  have hy : y < i := hord i _ hnode y (by simp)
  have hi := (List.getElem?_eq_some_iff.mp hnode).1
  have hdomain : (g.facts i).domain = (g.facts x).domain.join (g.facts y).domain := by
    rw [t.facts_eq hnode]
    rcases hop with rfl | rfl | rfl <;> rfl
  have hfirst : index [x, y] 0 = .ok x := rfl
  have hsecond : index [x, y] 1 = .ok y := rfl
  unfold Emitter.emitArith
  simp only [hfirst, hsecond, index_table (hx.trans hi), index_table (hy.trans hi), lift_ok, ok_bind]
  apply Meets.bind_eq
  rintro ⟨opcode, bank, swap⟩ hselect
  -- The opcode's banks are the operands', after a possible swap.
  obtain ⟨hbank, hlocal, hbanks, hvalue⟩ := selectOpcode_eq_ok hselect
  apply Meets.bind_eq
  intro a ha
  apply Meets.bind_eq
  intro b hb
  rw [lift_eq_ok, resolve_eq_ok] at ha hb
  have hop' : (op = .add ∨ op = .sub ∨ op = .mul) ∧ bank ≠ .local ∨ op = .mulLocal ∧ bank = .local :=
    .inl ⟨hop, hlocal⟩
  have hsucc : takenAt g (i + 1) = takenAt g i :=
    takenAt_step hnode (by rintro id rfl; rcases hop with h | h | h <;> cases h)
  -- The node's value is the operation on the operands' values.
  have heval : ∀ I, g.eval I i = opValue op (g.eval I x) (g.eval I y) := by
    intro I
    rw [eval_arith hord hnode (by tauto), if_neg (by rintro rfl; rcases hop with h | h | h <;> cases h)]
  have hplace : bank = bankOf (g.facts i).domain := by rw [hdomain]; exact hbank
  cases swap with
  | false =>
    apply lift_meets
    apply (emitBinary_meets h hhome (not_taken t i (Nat.le_refl i)) hplace opcode a.index b.index).post
    rintro e' ⟨dst, htrims, hsame⟩
    refine ⟨by rw [hsucc]; exact htrims.ok, .arith hnode hop' (by simp) (by simp)
      ha hb ?_ ?_ htrims hsame⟩
    · rw [hbanks, h.bank ha, h.bank hb]
      rfl
    · intro I
      rw [heval]
      exact hvalue _ _
  | true =>
    apply lift_meets
    apply (emitBinary_meets h hhome (not_taken t i (Nat.le_refl i)) hplace opcode b.index a.index).post
    rintro e' ⟨dst, htrims, hsame⟩
    refine ⟨by rw [hsucc]; exact htrims.ok, .arith hnode hop' (by simp) (by simp)
      hb ha ?_ ?_ htrims hsame⟩
    · rw [hbanks, h.bank ha, h.bank hb]
      rfl
    · intro I
      rw [heval]
      exact hvalue _ _

theorem emitMulLocal_meets (h : t.Ok (takenAt g i) i e) {inputs : List ValueId}
    (hnode : g.nodes[i]? = some ⟨.mulLocal, inputs⟩) :
    Meets (fun _ => True) (fun e' => t.Ok (takenAt g (i + 1)) (i + 1) e' ∧ t.Emits i e e' 0)
      (e.emitMulLocal ((table (netRule g) g.nodes).map Facts.domain) ⟨.mulLocal, inputs⟩ i) := by
  have hlen : inputs.length = 2 :=
    t.emittable.lowered.indexed.arity _ (List.mem_of_getElem? hnode) 2 rfl
  obtain ⟨x, y, rfl⟩ := eq_pair hlen
  have hord := t.emittable.lowered.indexed.ordered
  have hhome : t.home i = none := by
    apply t.home_none hnode <;> intro _ hne <;> cases hne
  have hx : x < i := hord i _ hnode x (by simp)
  have hy : y < i := hord i _ hnode y (by simp)
  have hi := (List.getElem?_eq_some_iff.mp hnode).1
  have hfirst : index [x, y] 0 = .ok x := rfl
  have hsecond : index [x, y] 1 = .ok y := rfl
  have hplace : Bank.local = bankOf (g.facts i).domain := by
    rw [t.facts_eq hnode]
    rfl
  unfold Emitter.emitMulLocal
  simp only [hfirst, hsecond, index_table (hx.trans hi), index_table (hy.trans hi), lift_ok, ok_bind]
  apply Meets.bind_eq
  intro a ha
  apply Meets.bind_eq
  intro b hb
  rw [lift_eq_ok, resolve_eq_ok] at ha hb
  apply Meets.guard_bind (fun _ => trivial)
  rintro ⟨hdx, hdy⟩
  have hbanks : Opcode.banks .mulLocal = some (.local, a.bank, b.bank) := by
    rw [h.bank ha, h.bank hb]
    show some _ = some (_, bankOf (value (netRule g) g.nodes x).domain,
      bankOf (value (netRule g) g.nodes y).domain)
    rw [hdx, hdy]
    rfl
  have hsucc : takenAt g (i + 1) = takenAt g i := takenAt_step hnode (by intro id hid; cases hid)
  apply lift_meets
  apply (emitBinary_meets h hhome (not_taken t i (Nat.le_refl i)) hplace .mulLocal a.index
    b.index).post
  rintro e' ⟨dst, htrims, hsame⟩
  refine ⟨by rw [hsucc]; exact htrims.ok, .arith hnode (.inr ⟨rfl, rfl⟩) (by simp) (by simp)
    ha hb hbanks ?_ htrims hsame⟩
  intro I
  rw [eval_arith hord hnode (by simp), if_pos rfl]
  rfl

/-! ## Rounds -/

/-- A round takes one operand: its slot is in the local bank, and given back. -/
theorem takeOperand_meets (h : t.Ok taken i e) {v : ValueId} (hv : v ∉ taken) :
    Meets (fun _ => True) (fun e' => t.Ok (taken ++ [v]) i e' ∧ ∃ s : Slot,
        e.slot[v]? = some (some ⟨.local, s.index⟩) ∧
        e' = { e with arena := e'.arena, roundOperands := e.roundOperands ++ [s] })
      (e.takeOperand v) := by
  unfold Emitter.takeOperand
  apply Meets.bind_eq
  rintro ⟨bank, s⟩ hloc
  rw [lift_eq_ok, resolve_eq_ok] at hloc
  apply Meets.guard_bind (fun _ => trivial)
  intro hbank
  dsimp only at hbank
  subst hbank
  have hhome : t.home v = none := by
    cases hm : t.home v with
    | none => rfl
    | some m =>
      -- No home is in the local bank.
      cases h.homes v _ m hloc hm
      exact absurd (t.holds.homed.below v _ hm) (Nat.not_lt_zero s)
  have hdomain : (g.facts v).domain = .local := by
    have hbank := h.banks v _ hloc hhome
    generalize (g.facts v).domain = d at hbank
    cases d
    · cases hbank
    · cases hbank
    · rfl
  refine ⟨⟨⟨h.fixed.lastUse, h.fixed.pEnd, h.fixed.sEnd⟩, h.length, ?_, h.homes, h.front, h.banks, ?_⟩,
    ⟨s⟩, hloc, rfl⟩
  · intro bank
    have hown : owned t.home taken e.slot .local v = some s := owned_eq_some.mpr ⟨hv, hhome, hloc⟩
    rw [owned_take]
    cases bank
    case «local» => exact (h.pools .local).free hown
    case «public» => exact (h.pools .public).forget v
    case shared => exact (h.pools .shared).forget v
  · intro u hu
    rcases List.mem_append.mp hu with hu | hu
    · exact h.taken u hu
    · rw [List.mem_singleton.mp hu]
      exact hdomain

theorem takeOperands_meets (h : t.Ok taken i e) {args : List ValueId}
    (hnodup : (taken ++ args).Nodup) :
    Meets (fun _ => True) (fun e' => t.Ok (taken ++ args) i e' ∧ ∃ operands : List Slot,
        List.Forall₂ (fun (v : ValueId) (s : Slot) =>
          e.slot[v]? = some (some ⟨.local, s.index⟩)) args operands ∧
        e' = { e with arena := e'.arena, roundOperands := e.roundOperands ++ operands })
      (args.foldlM Emitter.takeOperand e) := by
  apply Meets.foldlM_prefix (fun done e' => t.Ok (taken ++ done) i e' ∧ ∃ operands : List Slot,
    List.Forall₂ (fun (v : ValueId) (s : Slot) =>
      e.slot[v]? = some (some ⟨.local, s.index⟩)) done operands ∧
    e' = { e with arena := e'.arena, roundOperands := e.roundOperands ++ operands })
  · rw [List.append_nil]
    refine ⟨h, [], .nil, ?_⟩
    rw [List.append_nil]
  · rintro done v rest e₁ hargs ⟨hok, operands, hoperands, hsame⟩
    -- No operand occurs twice, so the next one is not taken yet.
    have hv : v ∉ taken ++ done := by
      rw [hargs, ← List.append_assoc] at hnodup
      intro hmem
      exact (List.nodup_append.mp hnodup).2.2 v hmem v (by simp) rfl
    apply (takeOperand_meets hok hv).post
    rintro e₂ ⟨hok', s, hs, hsame'⟩
    rw [hsame] at hs
    refine ⟨?_, operands ++ [s], List.rel_append hoperands (.cons hs .nil), ?_⟩
    · rw [← List.append_assoc]
      exact hok'
    · rw [hsame', hsame, List.append_assoc]

/-- The first `k` results of the round at node `i` have their slots, in the shared bank, and stand
    at the end of the table of results. -/
structure Given (t : Setting g) (taken : List ValueId) (i k : Nat) (e e' : Emitter)
    (results : List Slot) : Prop where
  ok : t.Ok taken (i + 1 + k) e'
  length : results.length = k
  placed : ∀ (j : Nat) (s : Slot), results[j]? = some s →
    e'.slot[i + 1 + j]? = some (some ⟨.shared, s.index⟩)
  other : ∀ v : ValueId, (∀ j < k, v ≠ i + 1 + j) → e'.slot[v]? = e.slot[v]?
  same : e' = { e with
    arena := e'.arena, slot := e'.slot, roundResults := e.roundResults ++ results }

theorem giveResult_meets {id : RoundId} {args : List ValueId}
    (hnode : g.nodes[i]? = some ⟨.round id, args⟩) {k : Nat} (hk : k < args.length) {e' : Emitter}
    {results : List Slot} (h : Given t taken i k e e' results) :
    Meets (fun _ => True) (fun e'' => ∃ results', Given t taken i (k + 1) e e'' results')
      (Emitter.giveResult g.nodes id i e' k) := by
  have hresult := t.emittable.lowered.block i id args hnode k hk
  have hhome : t.home (i + 1 + k) = none := by
    apply t.home_none hresult <;> intro _ hne <;> cases hne
  have hdomain : (g.facts (i + 1 + k)).domain = .shared := by
    rw [t.facts_eq hresult]
    rfl
  -- What is taken is a local product, and this is a result.
  have htaken : i + 1 + k ∉ taken := by
    intro hmem
    have hlocal := h.ok.taken _ hmem
    rw [hdomain] at hlocal
    cases hlocal
  unfold Emitter.giveResult
  dsimp only
  apply Meets.guard_bind (fun _ => trivial)
  intro _
  have hbank : Bank.shared = bankOf (g.facts (i + 1 + k)).domain := by
    rw [hdomain]
    rfl
  apply Meets.bind (lift_meets (define_meets h.ok (Nat.le_refl _) hhome htaken hbank))
  rintro ⟨dst, e₁⟩ ⟨hok, hlt, hsame⟩
  dsimp only at hok hsame ⊢
  have hslot : e₁.slot = e'.slot.set (i + 1 + k) (some ⟨.shared, dst⟩) := by rw [hsame]
  refine ⟨results ++ [⟨dst⟩], hok, by simp [h.length], ?_, ?_, ?_⟩
  · intro j s hs
    rcases Nat.lt_or_ge j results.length with hj | hj
    · rw [List.getElem?_append_left hj] at hs
      have hne : i + 1 + k ≠ i + 1 + j := by
        rw [h.length] at hj
        omega
      show e₁.slot[i + 1 + j]? = _
      rw [hslot, List.getElem?_set_ne hne]
      exact h.placed j s hs
    · rw [List.getElem?_append_right hj, List.getElem?_singleton] at hs
      split at hs
      · next hzero =>
        cases hs
        rw [h.length] at hj hzero
        cases Nat.le_antisymm (Nat.sub_eq_zero_iff_le.mp hzero) hj
        show e₁.slot[i + 1 + k]? = _
        rw [hslot, List.getElem?_set_self hlt]
      · cases hs
  · intro v hv
    show e₁.slot[v]? = _
    rw [hslot, List.getElem?_set_ne (Ne.symm (hv k (Nat.lt_succ_self k)))]
    exact h.other v fun j hj => hv j (Nat.lt_succ_of_lt hj)
  · rw [hsame, h.same]
    simp only [List.append_assoc]

theorem emitRound_meets (h : t.Ok (takenAt g i) i e) {id : RoundId} {args : List ValueId}
    (hnode : g.nodes[i]? = some ⟨.round id, args⟩) :
    Meets (fun _ => True) (fun e' => t.Ok (takenAt g (i + 1 + args.length)) (i + 1 + args.length) e' ∧
        t.Emits i e e' args.length)
      (e.emitRound g.nodes ⟨.round id, args⟩ i id) := by
  have hnodup : (takenAt g i ++ args).Nodup := by
    rw [← takenAt_round t.emittable.lowered hnode]
    exact takenAt_nodup t.emittable.lowered _
  rw [takenAt_round t.emittable.lowered hnode]
  unfold Emitter.emitRound
  dsimp only
  apply Meets.bind (takeOperands_meets h hnodup)
  -- First every operand's slot is given back,
  rintro e₁ ⟨hok₁, operands, hoperands, hsame₁⟩
  -- then every result is given one.
  have hloop : Meets (fun _ : CodegenError => True)
      (fun e₂ => ∃ results, Given t (takenAt g i ++ args) i args.length e₁ e₂ results)
      ((List.range args.length).foldlM (Emitter.giveResult g.nodes id i) e₁) := by
    apply Meets.foldlM_range (fun k e₂ =>
      ∃ results, Given t (takenAt g i ++ args) i k e₁ e₂ results)
    · refine ⟨[], hok₁.mono (Nat.le_succ i), rfl, ?_, fun v _ => rfl, ?_⟩
      · intro j s hs
        cases hs
      · rw [List.append_nil]
    · rintro k hk e₂ ⟨results, hgiven⟩
      exact giveResult_meets hnode hk hgiven
  apply Meets.bind hloop
  rintro e₂ ⟨results, hgiven⟩
  apply Meets.bind_eq
  intro rounds hrounds
  obtain ⟨hid, rfl⟩ := setIndex_eq_ok.mp (lift_eq_ok.mp hrounds)
  have hok₂ : t.Ok (takenAt g i ++ args) (i + 1 + args.length)
      (Emitter.push { e₂ with
        rounds := e₂.rounds.set id ⟨e.roundOperands.length, args.length, e₁.roundResults.length⟩ }
        (.reshare ⟨id⟩)) := hgiven.ok
  -- A result nobody reads is given back at once.
  have hbound : ∀ k ∈ List.range args.length, i + 1 + k < i + 1 + args.length := by
    intro k hk
    rw [List.mem_range] at hk
    omega
  apply (lift_meets (freeAll_meets hok₂ (fun k => i + 1 + k) (fun k => i + 1 + k)
    (List.range args.length) hbound)).post
  · intro e₃ hfrees
    have hslot₁ : e₁.slot = e.slot := by rw [hsame₁]
    have hrounds₂ : e₂.rounds = e.rounds := by rw [hgiven.same, hsame₁]
    refine ⟨hfrees.ok, .round hnode hoperands hgiven.length hgiven.placed ?_ ?_
      ⟨⟨e₂.arena, hgiven.ok⟩, hfrees.ok, hfrees.drops⟩ ?_⟩
    · intro v hv
      rw [hgiven.other v hv, hslot₁]
    · rw [← hrounds₂]
      exact hid
    · rw [hfrees.same]
      unfold Emitter.push
      rw [hgiven.same, hsame₁]

/-! ## Gadgets -/

theorem siteInput_meets {site : GadgetId} {v : ValueId} :
    Meets (fun _ => True) (fun si : SiteInput =>
        e.slot[v]? = some (some ⟨si.bank, si.slot.index⟩) ∧ si.bank ≠ .local)
      (e.siteInput site v) := by
  unfold Emitter.siteInput
  apply Meets.bind_eq
  intro loc hloc
  apply Meets.guard_bind (fun _ => trivial)
  intro hbank
  rw [lift_eq_ok, resolve_eq_ok] at hloc
  exact ⟨hloc, hbank⟩

theorem collectSiteInputs_meets (h : t.Ok (takenAt g i) i e) {site : GadgetId} {inputs : List ValueId}
    (hnode : g.nodes[i]? = some ⟨.gadget site, inputs⟩) :
    Meets (fun _ => True) (fun e' => t.Ok (takenAt g (i + 1)) (i + 1) e' ∧ t.Emits i e e' 0)
      (e.collectSiteInputs ⟨.gadget site, inputs⟩ site) := by
  have hsucc : takenAt g (i + 1) = takenAt g i := takenAt_step hnode (by intro id hid; cases hid)
  unfold Emitter.collectSiteInputs
  apply Meets.bind (Meets.mapM_rel fun v _ => siteInput_meets)
  intro sis hsis
  apply Meets.bind_eq
  intro siteInputs hset
  obtain ⟨hsite, rfl⟩ := setIndex_eq_ok.mp (lift_eq_ok.mp hset)
  refine ⟨?_, .gadget hnode hsis hsite⟩
  rw [hsucc]
  exact h.mono (Nat.le_succ i)

theorem bindResult_meets (h : t.Ok (takenAt g i) i e) {slot : Nat} {inputs : List ValueId}
    (hnode : g.nodes[i]? = some ⟨.gadgetResult slot, inputs⟩) :
    Meets (fun _ => True) (fun e' => t.Ok (takenAt g (i + 1)) (i + 1) e' ∧ t.Emits i e e' 0)
      (e.bindResult g.nodes t.res.gadgets ⟨.gadgetResult slot, inputs⟩ i) := by
  obtain ⟨u, site, rfl, ⟨sources, hsite⟩, hresult⟩ := t.emittable.sited.hosted.resultAt hnode
  obtain ⟨base, phys, hbase, hphys, hhome⟩ := t.holds.results site slot i hresult
  have hsucc : takenAt g (i + 1) = takenAt g i := takenAt_step hnode (by intro id hid; cases hid)
  have hfirst : index [u] 0 = .ok u := rfl
  unfold Emitter.bindResult
  simp only [hfirst, index_eq hsite, index_eq hbase, index_eq hphys, orElse_some, ok_bind]
  apply Meets.bind_eq
  intro slots hslots
  obtain ⟨hlt, rfl⟩ := setIndex_eq_ok.mp hslots
  refine ⟨?_, .result hnode hhome hlt⟩
  rw [hsucc]
  exact (Allocated.bind h hhome hlt).mono (Nat.le_succ i)

/-- **A step of the walk is one of its kinds, and keeps the allocation sound.** -/
theorem emitNode_meets (h : t.Ok (takenAt g i) i e) {node : Node} (hnode : g.nodes[i]? = some node) :
    Meets (fun _ => True) (fun r => t.Ok (takenAt g (i + 1 + r.2)) (i + 1 + r.2) r.1 ∧
        t.Emits i e r.1 r.2)
      (e.emitNode g ((table (netRule g) g.nodes).map Facts.domain) t.res.gadgets node i) := by
  obtain ⟨op, inputs⟩ := node
  have hkept : (∀ id, op ≠ .round id) → t.Ok (takenAt g (i + 1)) (i + 1) e := by
    intro hop
    rw [takenAt_step hnode hop]
    exact h.mono (Nat.le_succ i)
  unfold Emitter.emitNode
  cases op with
  | constant c => exact ⟨hkept (by intro id hid; cases hid), .reserved hnode (.inl ⟨c, rfl⟩)⟩
  | input signal => exact ⟨hkept (by intro id hid; cases hid), .reserved hnode (.inr ⟨signal, rfl⟩)⟩
  | add => exact Meets.bind (emitArith_meets h hnode (by simp)) fun e' he' => he'
  | sub => exact Meets.bind (emitArith_meets h hnode (by simp)) fun e' he' => he'
  | mul => exact Meets.bind (emitArith_meets h hnode (by simp)) fun e' he' => he'
  | mulLocal => exact Meets.bind (emitMulLocal_meets h hnode) fun e' he' => he'
  | round id => exact Meets.bind (emitRound_meets h hnode) fun e' he' => he'
  | roundResult slot => exact trivial
  | gadget site => exact Meets.bind (collectSiteInputs_meets h hnode) fun e' he' => he'
  | gadgetResult slot =>
    exact Meets.bind (lift_meets (bindResult_meets h hnode)) fun e' he' => he'

/-! ## Batches -/

/-- Servicing the batches due at `pos`: an instruction for each of them, behind which their inputs
    may be dropped. -/
structure Services (t : Setting g) (taken : List ValueId) (pos : Nat) (e e' : Emitter) : Prop where
  ok : t.Ok taken (pos + 1) e'
  drops : Drops t.lastUse (pos + 1) e.slot e'.slot
  same : e' = { e with
    arena := e'.arena
    slot := e'.slot
    instructions := e.instructions ++ (dueAt t.schedule.plans pos).map fun k => .gadget ⟨k⟩ }

theorem serviceBatches_meets {pos : Nat} (h : t.Ok taken (pos + 1) e) :
    Meets (fun _ => True) (Services t taken pos e) (e.serviceBatches g.nodes t.schedule pos) := by
  unfold Emitter.serviceBatches
  apply Meets.bind_eq
  intro bs hbs
  rw [index_eq_ok] at hbs
  rw [t.planned.due pos bs hbs]
  have hloop : Meets (fun _ : Panic => True) (fun e' => t.Ok taken (pos + 1) e' ∧
      Drops t.lastUse (pos + 1) e.slot e'.slot ∧ e' = { e with
        arena := e'.arena
        slot := e'.slot
        instructions := e.instructions ++
          (dueAt t.schedule.plans pos).map fun k => .gadget ⟨k⟩ })
      ((dueAt t.schedule.plans pos).foldlM (Emitter.serviceBatch g.nodes t.schedule pos) e) := by
    apply Meets.foldlM_prefix (fun done e' => t.Ok taken (pos + 1) e' ∧
      Drops t.lastUse (pos + 1) e.slot e'.slot ∧ e' = { e with
        arena := e'.arena
        slot := e'.slot
        instructions := e.instructions ++ done.map fun k => .gadget ⟨k⟩ })
    · refine ⟨h, Drops.refl _ _ _, ?_⟩
      rw [List.map_nil, List.append_nil]
    · rintro done k rest e₁ _ ⟨hok, hdrops, hsame⟩
      unfold Emitter.serviceBatch
      apply Meets.bind_any
      intro plan
      apply Meets.bind_any
      intro vs
      have hok' : t.Ok taken (pos + 1) (e₁.push (.gadget ⟨k⟩)) := hok
      apply (freeAll_meets hok' (fun _ => pos) (fun v => v) vs fun _ _ => Nat.lt_succ_self pos).post
      intro e₂ hfrees
      refine ⟨hfrees.ok, hdrops.trans hfrees.drops, ?_⟩
      rw [hfrees.same]
      unfold Emitter.push
      rw [hsame]
      simp
  apply hloop.post
  rintro e' ⟨hok, hdrops, hsame⟩
  exact ⟨hok, hdrops, hsame⟩

end Setting

end Codegen
end CircomMpc
