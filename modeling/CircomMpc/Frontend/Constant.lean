import CircomMpc.Frontend.WellFormed

/-!
# Constant expressions

A constant expression is lowered to nodes and evaluated on them. What comes out is a function of the
expression and the variables alone: the operators of `fold_binary` applied bottom up
(`evaluates_iff`). With circom's own operators in their place the same recursion is circom's value,
so folding a whole expression is compared with circom operator by operator, and the shifts are the
only place where they part.

Two ways lead to a constant. The operators that have no run-time node are folded while they are
lowered; `+`, `-` and `*` become nodes like any other and are evaluated on the nodes afterwards. That
both come to `foldBinary` is what the two theorems `evaluates_removed` and `evaluates_runtime` say.
The template grows while an operand is lowered, so each needs that appending changes no constant.
-/

namespace CircomMpc
namespace Frontend

open Lib

/-- The value of a constant expression, given the binary operators. A variable is read where the
compiler resolves its address, which is circom's address (`getConstantValue_eq_ok`). -/
def constantWith (arith : OperatorType → Fr → Fr → Option Fr) (c : GraphCompiler) :
    Instruction → Option Fr
  | .value .bigInt v => c.constantTable[v.val]?
  | .load _ .variable (.indexed location) => do
    let i ← (getConstantValue c location).toOption
    c.constantVariable i
  | .compute _ op [a, b] => do
    let l ← constantWith arith c a
    let r ← constantWith arith c b
    arith op l r
  | _ => none

/-- circom's value of a constant expression. -/
def circomConstant (c : GraphCompiler) : Instruction → Option Fr :=
  constantWith circomArithmetic c

/-- The value folding gives it. -/
def foldedConstant (c : GraphCompiler) : Instruction → Option Fr :=
  constantWith foldBinary c

/-- The compiler evaluates `e`, as an operand in value position, to the constant `v`. -/
def Evaluates (c : GraphCompiler) (e : Instruction) (v : Fr) : Prop :=
  ∃ c', evalConstantOperand (handleInst e) c = .ok (some v, c')

/-! ## Appending nodes changes no constant -/

theorem getConstantValue_extends {c c' : GraphCompiler} (hc : c.WellFormed) (h : Extends c c') :
    ∀ e : Instruction, getConstantValue c' e = getConstantValue c e
  | .value .u32 _ => rfl
  | .value .bigInt _ => by rw [getConstantValue, getConstantValue, h.constantTable]
  | .load _ addressType (.indexed location) => by
    rw [getConstantValue, getConstantValue, getConstantValue_extends hc h location, h.varToValue]
    refine bind_congr fun i => ?_
    cases addressType with
    | «variable» =>
      dsimp only
      cases hid : c.varToValue i with
      | none => rfl
      | some id => rw [orElse_some, ok_bind, ok_bind, hc.constantAt_extends h (hc.bound i id hid)]
    | signal => rfl
    | subcmpSignal => rfl
  | .load _ _ .mapped => rfl
  | .compute _ op [a, b] => by
    unfold getConstantValue
    rw [getConstantValue_extends hc h a, getConstantValue_extends hc h b]
  | .compute _ op [a] => by
    unfold getConstantValue
    rw [getConstantValue_extends hc h a]
  | .compute _ _ [] => rfl
  | .compute _ _ (_ :: _ :: _ :: _) => rfl
  | .store .. | .branch .. | .loop .. | .ret _ | .assert | .log _ => rfl

theorem constantWith_extends {arith : OperatorType → Fr → Fr → Option Fr} {c c' : GraphCompiler}
    (hc : c.WellFormed) (h : Extends c c') :
    ∀ e : Instruction, constantWith arith c' e = constantWith arith c e
  | .value .u32 _ => rfl
  | .value .bigInt _ => by rw [constantWith, constantWith, h.constantTable]
  | .load _ .variable (.indexed location) => by
    simp only [constantWith, getConstantValue_extends hc h, hc.constantVariable_extends h]
  | .load _ .signal _ | .load _ (.subcmpSignal ..) _ | .load _ .variable .mapped => rfl
  | .compute _ op [a, b] => by
    rw [constantWith, constantWith, constantWith_extends hc h a, constantWith_extends hc h b]
  | .compute _ _ [_] | .compute _ _ [] | .compute _ _ (_ :: _ :: _ :: _) => rfl
  | .store .. | .branch .. | .loop .. | .ret _ | .assert | .log _ => rfl

/-! ## What a new node holds -/

/-- A pushed node holds the constant its operands give it. -/
theorem constantAt_push {op : TemplateOp} {inputs : List ValueId} {c c' : GraphCompiler}
    {id : ValueId} (hc : c.WellFormed) (hin : ∀ v ∈ inputs, v < c.nodes.length)
    (h : GraphCompiler.push op inputs c = .ok (id, c')) :
    c'.constantAt id =
      nodeConstant ⟨op, inputs⟩ fun i => index inputs i >>= c.constantAt := by
  obtain ⟨har, rfl, rfl⟩ := push_eq_ok.mp h
  have hread : index (c.nodes ++ [⟨op, inputs⟩]) c.nodes.length =
      (.ok ⟨op, inputs⟩ : Except Panic _) := by
    rw [index, List.getElem?_concat_length, orElse_some]
  simp only [GraphCompiler.constantAt, List.length_append, List.length_singleton]
  rw [evalConstantNode, hread, ok_bind]
  have hstable : ∀ i < (⟨op, inputs⟩ : TemplateNode).inputs.length, ∃ o,
      (index inputs i >>= evalConstantNode (c.nodes ++ [⟨op, inputs⟩]) c.nodes.length) = .ok o ∧
        (index inputs i >>= evalConstantNode c.nodes c.nodes.length) = .ok o := by
    intro i hi
    have hv : inputs[i] < c.nodes.length := hin _ (List.getElem_mem hi)
    have hindex : index inputs i = (.ok inputs[i] : Except Panic _) := by
      rw [index, List.getElem?_eq_getElem hi, orElse_some]
    obtain ⟨o, ho, ho'⟩ := evalConstantNode_stable hc.ordered hc.arity [⟨op, inputs⟩] inputs[i]
      c.nodes.length c.nodes.length hv hv hv
    rw [hindex]
    exact ⟨o, ho', ho⟩
  obtain ⟨o, ho, ho'⟩ := nodeConstant_congr har hstable
  rw [ho]
  exact ho'.symm

/-- A run-time operator's node holds the folded constant of its operands. -/
theorem constantAt_runtime {op : OperatorType} {runtime : Op} (hop : runtimeOp op = some runtime)
    {ida idb id : ValueId} {c c' : GraphCompiler} (hc : c.WellFormed)
    (hin : ∀ v ∈ [ida, idb], v < c.nodes.length)
    (h : GraphCompiler.push (.real runtime) [ida, idb] c = .ok (id, c')) {v : Fr} :
    c'.constantAt id = .ok (some v) ↔ ∃ l r, c.constantAt ida = .ok (some l) ∧
      c.constantAt idb = .ok (some r) ∧ foldBinary op l r = some v := by
  rw [constantAt_push hc hin h]
  obtain ⟨l, hl⟩ := hc.constantAt_returns (hin ida (by simp))
  obtain ⟨r, hr⟩ := hc.constantAt_returns (hin idb (by simp))
  have h0 : (index [ida, idb] 0 >>= c.constantAt) = .ok l := hl
  have h1 : (index [ida, idb] 1 >>= c.constantAt) = .ok r := hr
  have hvalue : nodeConstant ⟨.real runtime, [ida, idb]⟩
      (fun i => index [ida, idb] i >>= c.constantAt) =
        .ok (l.bind fun x => r.bind fun y => foldBinary op x y) := by
    cases op with
    | add | sub | mul =>
      obtain rfl := Option.some.inj hop
      refine (bothConstant_ok h0 h1).trans ?_
      cases l <;> cases r <;> rfl
    | _ => cases hop
  rw [hvalue, hl, hr]
  simp only [Except.ok.injEq, Option.bind_eq_some_iff]
  constructor
  · rintro ⟨x, rfl, y, rfl, hv⟩
    exact ⟨x, y, rfl, rfl, hv⟩
  · rintro ⟨x, y, rfl, rfl, hv⟩
    exact ⟨x, rfl, y, rfl, hv⟩

/-! ## Expressions -/

/-- A statement produces no value. -/
theorem statement_none : ∀ {inst : Instruction} {c : GraphCompiler},
    (∀ parseAs v, inst ≠ .value parseAs v) → (∀ line a src, inst ≠ .load line a src) →
      (∀ line op stack, inst ≠ .compute line op stack) →
        Meets (fun _ => True) (fun r => r.1 = none) (handleInst inst c) := by
  intro inst c hvalue hload hcompute
  cases inst with
  | value parseAs v => exact absurd rfl (hvalue parseAs v)
  | load line a src => exact absurd rfl (hload line a src)
  | compute line op stack => exact absurd rfl (hcompute line op stack)
  | store =>
    unfold handleInst
    split
    · exact trivial
    split
    · exact Meets.bind_any fun _ => rfl
    · exact Meets.bind_any fun _ => Meets.bind_any fun _ => rfl
  | branch =>
    unfold handleInst
    refine Meets.bind_any fun r => ?_
    dsimp only
    split
    · exact trivial
    · exact Meets.bind_any fun _ => rfl
    · exact Meets.bind_any fun _ => rfl
  | loop =>
    unfold handleInst
    exact Meets.bind_any fun _ => Meets.bind_any fun _ => Meets.bind_any fun _ => rfl
  | assert => exact rfl
  | ret => exact trivial
  | log => exact trivial

theorem evaluates_def {c : GraphCompiler} {e : Instruction} {v : Fr} :
    Evaluates c e v ↔
      ∃ id c', handleInst e c = .ok (some id, c') ∧ c'.constantAt id = .ok (some v) := by
  simp only [Evaluates, evalConstantOperand_eq_some]
  exact exists_comm

theorem not_evaluates_of_none {c : GraphCompiler} {e : Instruction} {v : Fr}
    (h : Meets (fun _ => True) (fun r => r.1 = none) (handleInst e c)) : ¬ Evaluates c e v := by
  rw [evaluates_def]
  rintro ⟨id, c', hid, _⟩
  rw [hid] at h
  exact nomatch (h : some id = none)

theorem evaluates_constant {c : GraphCompiler} (hc : c.WellFormed) (i : Usize) (v : Fr) :
    Evaluates c (.value .bigInt i) v ↔ foldedConstant c (.value .bigInt i) = some v := by
  rw [evaluates_def]
  simp only [handleInst, produced_eq_ok, GraphCompiler.pushConstant, bind_eq_ok, panicking_eq_ok,
    index, orElse_eq_ok, foldedConstant, constantWith]
  constructor
  · rintro ⟨id, c', ⟨_, ⟨x, hx, hpush⟩, hsame⟩, hv⟩
    rw [Option.some.inj hsame, constantAt_push hc (by simp) hpush] at hv
    rw [hx, ← Except.ok.inj hv]
  · intro hx
    have hpush : GraphCompiler.pushConstantValue v c = _ := push_ok rfl
    exact ⟨_, _, ⟨_, ⟨v, hx, hpush⟩, rfl⟩, constantAt_push hc (by simp) hpush⟩

theorem evaluates_load {c : GraphCompiler} (hc : c.WellFormed) (line : Nat)
    (addressType : AddressType Instruction) (location : Instruction) (v : Fr) :
    Evaluates c (.load line addressType (.indexed location)) v ↔
      foldedConstant c (.load line addressType (.indexed location)) = some v := by
  rw [evaluates_def]
  cases addressType with
  | «variable» =>
    simp only [handleInst, produced_eq_ok, readValueAt, bind_eq_ok, panicking_eq_ok, orElse_eq_ok,
      foldedConstant, constantWith, Option.bind_eq_bind, Option.bind_eq_some_iff,
      constantVariable_eq_some]
    constructor
    · rintro ⟨id, c', ⟨i, hi, _, ⟨id', hid, hr⟩, hsame⟩, hv⟩
      obtain ⟨rfl, rfl⟩ := Prod.mk.inj (pure_eq_ok.mp hr)
      rw [Option.some.inj hsame] at hv
      exact ⟨i, by rw [hi]; rfl, id', hid, hv⟩
    · rintro ⟨i, hi, id, hid, hv⟩
      cases hloc : getConstantValue c location with
      | error p => rw [hloc] at hi; cases hi
      | ok i' =>
        rw [hloc] at hi
        obtain rfl := Option.some.inj hi
        exact ⟨id, c, ⟨i', rfl, id, ⟨id, hid, rfl⟩, rfl⟩, hv⟩
  -- A signal, own or an instance's, is a node without a constant.
  | signal =>
    simp only [handleInst, produced_eq_ok, readValueAt, bind_eq_ok, foldedConstant, constantWith,
      reduceCtorEq, iff_false, not_exists, not_and]
    rintro id c' ⟨i, _, id', hpush, hsame⟩ hv
    rw [Option.some.inj hsame, constantAt_push hc (by simp) hpush] at hv
    cases hv
  | subcmpSignal cmpAddress isOutput =>
    simp only [handleInst, produced_eq_ok, readValueAt, bind_eq_ok, foldedConstant, constantWith,
      reduceCtorEq, iff_false, not_exists, not_and]
    rintro id c' ⟨i, _, id', ⟨_, _, cmpIndex, _, hpush⟩, hsame⟩ hv
    rw [Option.some.inj hsame, constantAt_push hc (by simp) hpush] at hv
    cases hv

/-- Folding applies to nothing an address or a comparison uses. -/
theorem foldBinary_none {op : OperatorType} (hr : runtimeOp op = none) (hm : isRemoved op = false)
    (a b : Fr) : foldBinary op a b = none := by
  cases op <;> simp_all [foldBinary, runtimeOp, isRemoved]

theorem runtime_not_removed {op : OperatorType} (hm : isRemoved op = true) :
    runtimeOp op = none ∧ isAddressOperator op = false := by
  cases op <;> simp_all [runtimeOp, isAddressOperator, isRemoved]

/-- What an operand's constant says about the template behind it. -/
theorem evalConstantOperand_folded {e : Instruction}
    (ih : ∀ (c : GraphCompiler), c.WellFormed → ∀ v, Evaluates c e v ↔ foldedConstant c e = some v)
    {c c' : GraphCompiler} (hc : c.WellFormed) {v : Fr}
    (h : evalConstantOperand (handleInst e) c = .ok (some v, c')) :
    foldedConstant c e = some v ∧ Extends c c' ∧ c'.WellFormed := by
  have hkept := evalConstantOperand_keeps (handleInst_keeps e) hc
  rw [h] at hkept
  exact ⟨(ih c hc v).mp ⟨c', h⟩, hkept.1, hkept.2⟩

theorem evaluates_removed {line : Nat} {op : OperatorType} (hm : isRemoved op = true)
    {a b : Instruction}
    (iha : ∀ c : GraphCompiler, c.WellFormed → ∀ v, Evaluates c a v ↔ foldedConstant c a = some v)
    (ihb : ∀ c : GraphCompiler, c.WellFormed → ∀ v, Evaluates c b v ↔ foldedConstant c b = some v)
    {c : GraphCompiler} (hc : c.WellFormed) (v : Fr) :
    Evaluates c (.compute line op [a, b]) v ↔
      foldedConstant c (.compute line op [a, b]) = some v := by
  obtain ⟨hr, haddr⟩ := runtime_not_removed hm
  have hinst : handleInst (.compute line op [a, b]) c =
      produced (foldRemoved line op (handleInst a) (handleInst b) c) := by
    unfold handleInst
    rw [hr, haddr, hm]
    rfl
  rw [evaluates_def, hinst]
  simp only [produced_eq_ok, foldRemoved_eq_ok, foldedConstant, constantWith, Option.bind_eq_bind,
    Option.bind_eq_some_iff]
  constructor
  · -- The right operand is lowered in the template the left one has left.
    rintro ⟨id, c', ⟨_, ⟨l, c₁, r, c₂, x, hl, hr, hx, hpush⟩, hsame⟩, hv⟩
    obtain ⟨hfl, hext, hc₁⟩ := evalConstantOperand_folded iha hc hl
    obtain ⟨hfr, hext', hc₂⟩ := evalConstantOperand_folded ihb hc₁ hr
    rw [foldedConstant, constantWith_extends hc hext] at hfr
    rw [Option.some.inj hsame, constantAt_push hc₂ (by simp) hpush] at hv
    have hxv : x = v := Option.some.inj (Except.ok.inj hv)
    exact ⟨l, hfl, r, hfr, hxv ▸ hx⟩
  · -- Conversely the fold succeeds, and the constant it pushes is read back.
    rintro ⟨l, hl, r, hr, hx⟩
    obtain ⟨c₁, hlc⟩ := (iha c hc l).mpr hl
    obtain ⟨_, hext, hc₁⟩ := evalConstantOperand_folded iha hc hlc
    rw [← constantWith_extends hc hext] at hr
    obtain ⟨c₂, hrc⟩ := (ihb c₁ hc₁ r).mpr hr
    obtain ⟨_, hext', hc₂⟩ := evalConstantOperand_folded ihb hc₁ hrc
    have hpush : GraphCompiler.pushConstantValue v c₂ = _ := push_ok rfl
    exact ⟨_, _, ⟨_, ⟨l, c₁, r, c₂, v, hlc, hrc, hx, hpush⟩, rfl⟩,
      constantAt_push hc₂ (by simp) hpush⟩

theorem evaluates_runtime {line : Nat} {op : OperatorType} {runtime : Op}
    (hop : runtimeOp op = some runtime) {a b : Instruction}
    (iha : ∀ c : GraphCompiler, c.WellFormed → ∀ v, Evaluates c a v ↔ foldedConstant c a = some v)
    (ihb : ∀ c : GraphCompiler, c.WellFormed → ∀ v, Evaluates c b v ↔ foldedConstant c b = some v)
    {c : GraphCompiler} (hc : c.WellFormed) (v : Fr) :
    Evaluates c (.compute line op [a, b]) v ↔
      foldedConstant c (.compute line op [a, b]) = some v := by
  have hinst : handleInst (.compute line op [a, b]) c =
      produced (pushRuntime runtime (expectValues [a, b] c)) := by
    unfold handleInst
    rw [hop]
  rw [evaluates_def, hinst]
  simp only [produced_eq_ok, pushRuntime_eq_ok, expectValues_pair, foldedConstant, constantWith,
    Option.bind_eq_bind, Option.bind_eq_some_iff]
  constructor
  · -- The node's constant is that of its operands, the left of which was evaluated before the
    -- right one's nodes were there.
    rintro ⟨id, c', ⟨_, ⟨_, c₂, ⟨ida, c₁, idb, ha, hb, rfl⟩, hpush⟩, hsame⟩, hv⟩
    have hpa : Produced c ida c₁ := (ha ▸ handleInst_keeps a c hc).produced ida rfl
    have hpb : Produced c₁ idb c₂ := (hb ▸ handleInst_keeps b c₁ hpa.wellFormed).produced idb rfl
    have hin : ∀ v ∈ [ida, idb], v < c₂.nodes.length := by
      simp only [List.mem_cons, List.not_mem_nil, or_false, forall_eq_or_imp, forall_eq]
      exact ⟨lt_of_lt_of_le hpa.bound hpb.extended.length_le, hpb.bound⟩
    rw [Option.some.inj hsame, constantAt_runtime hop hpb.wellFormed hin hpush] at hv
    obtain ⟨l, r, hl, hr, hx⟩ := hv
    rw [hpa.wellFormed.constantAt_extends hpb.extended hpa.bound] at hl
    have hfl := (iha c hc l).mp (evaluates_def.mpr ⟨ida, c₁, ha, hl⟩)
    have hfr := (ihb c₁ hpa.wellFormed r).mp (evaluates_def.mpr ⟨idb, c₂, hb, hr⟩)
    rw [foldedConstant, constantWith_extends hc hpa.extended] at hfr
    exact ⟨l, hfl, r, hfr, hx⟩
  · rintro ⟨l, hl, r, hr, hx⟩
    obtain ⟨ida, c₁, ha, hla⟩ := evaluates_def.mp ((iha c hc l).mpr hl)
    have hpa : Produced c ida c₁ := (ha ▸ handleInst_keeps a c hc).produced ida rfl
    rw [← constantWith_extends hc hpa.extended] at hr
    obtain ⟨idb, c₂, hb, hrb⟩ := evaluates_def.mp ((ihb c₁ hpa.wellFormed r).mpr hr)
    have hpb : Produced c₁ idb c₂ := (hb ▸ handleInst_keeps b c₁ hpa.wellFormed).produced idb rfl
    have hin : ∀ v ∈ [ida, idb], v < c₂.nodes.length := by
      simp only [List.mem_cons, List.not_mem_nil, or_false, forall_eq_or_imp, forall_eq]
      exact ⟨lt_of_lt_of_le hpa.bound hpb.extended.length_le, hpb.bound⟩
    -- A run-time operator takes two operands, so the push succeeds.
    have har : TemplateOp.arity (.real runtime) = .ok [ida, idb].length := by
      cases op <;> simp_all [runtimeOp] <;> subst hop <;> rfl
    have hpush := push_ok (c := c₂) har
    refine ⟨_, _, ⟨_, ⟨_, c₂, ⟨ida, c₁, idb, ha, hb, rfl⟩, hpush⟩, rfl⟩, ?_⟩
    refine (constantAt_runtime hop hpb.wellFormed hin hpush).mpr ⟨l, r, ?_, hrb, hx⟩
    rw [hpa.wellFormed.constantAt_extends hpb.extended hpa.bound]
    exact hla

/-- Any other number of operands is not an expression. -/
theorem expectValues_length : ∀ {insts : List Instruction} {c c' : GraphCompiler}
    {ids : List ValueId}, expectValues insts c = .ok (ids, c') → ids.length = insts.length
  | [], _, _, _, h => by
    obtain ⟨rfl, _⟩ := Prod.mk.inj (pure_eq_ok.mp h)
    rfl
  | inst :: insts, _, _, _, h => by
    simp only [expectValues, bind_eq_ok, Prod.exists, pure_eq_ok, Prod.mk.injEq] at h
    obtain ⟨_, _, _, ids, _, hrest, rfl, _⟩ := h
    rw [List.length_cons, List.length_cons, expectValues_length hrest]

theorem not_evaluates_stack {c : GraphCompiler} {line : Nat} {op : OperatorType}
    {stack : List Instruction} (hlen : stack.length ≠ 2) (v : Fr) :
    ¬ Evaluates c (.compute line op stack) v := by
  rw [evaluates_def]
  rintro ⟨id, c', hinst, _⟩
  unfold handleInst at hinst
  split at hinst
  next runtime hop =>
    simp only [produced_eq_ok, pushRuntime_eq_ok] at hinst
    obtain ⟨_, ⟨ids, c₁, hids, hpush⟩, _⟩ := hinst
    have harity : TemplateOp.arity (.real runtime) = .ok 2 := by
      cases op <;> simp_all [runtimeOp] <;> subst hop <;> rfl
    have har := (push_eq_ok.mp hpush).1
    rw [harity, expectValues_length hids] at har
    exact hlen (Except.ok.inj har).symm
  next =>
    split at hinst
    · cases hinst
    split at hinst
    · split at hinst
      next => exact hlen rfl
      next => cases hinst
    · cases hinst

/-- An operator that is neither a run-time nor a removed one has no value at compile time. -/
theorem not_evaluates_operator {c : GraphCompiler} {line : Nat} {op : OperatorType}
    {stack : List Instruction} (hr : runtimeOp op = none) (hm : isRemoved op = false) (v : Fr) :
    ¬ Evaluates c (.compute line op stack) v := by
  rw [evaluates_def]
  rintro ⟨id, c', hinst, _⟩
  unfold handleInst at hinst
  simp only [hr, hm, Bool.false_eq_true, if_false] at hinst
  split at hinst <;> cases hinst

/-- **Evaluating an operand in value position is folding it.** -/
theorem evaluates_iff : ∀ (e : Instruction) (c : GraphCompiler), c.WellFormed → ∀ v,
    Evaluates c e v ↔ foldedConstant c e = some v
  | .value .bigInt i, _, hc, v => evaluates_constant hc i v
  | .value .u32 _, c, _, v => by
    refine iff_of_false (not_evaluates_of_none ?_) (nomatch ·)
    exact trivial
  | .load line addressType (.indexed location), _, hc, v =>
    evaluates_load hc line addressType location v
  | .load line addressType .mapped, c, _, v => by
    refine iff_of_false (not_evaluates_of_none ?_) ?_
    · exact trivial
    · cases addressType <;> exact (nomatch ·)
  | .compute line op [a, b], c, hc, v => by
    -- A binary operator is a run-time one, a removed one, or has no value.
    cases hop : runtimeOp op with
    | some runtime =>
      exact evaluates_runtime hop (evaluates_iff a) (evaluates_iff b) hc v
    | none =>
      cases hm : isRemoved op with
      | true => exact evaluates_removed hm (evaluates_iff a) (evaluates_iff b) hc v
      | false =>
        refine iff_of_false (not_evaluates_operator hop hm v) ?_
        simp [foldedConstant, constantWith, foldBinary_none hop hm]
  | .compute _ _ [], _, _, v => iff_of_false (not_evaluates_stack (by simp) v) (nomatch ·)
  | .compute _ _ [_], _, _, v => iff_of_false (not_evaluates_stack (by simp) v) (nomatch ·)
  | .compute _ _ (_ :: _ :: _ :: _), _, _, v =>
    iff_of_false (not_evaluates_stack (by simp) v) (nomatch ·)
  | .store .., _, _, v | .branch .., _, _, v | .loop .., _, _, v | .ret _, _, _, v
  | .assert, _, _, v | .log _, _, _, v => by
    refine iff_of_false (not_evaluates_of_none (statement_none ?_ ?_ ?_)) (nomatch ·) <;>
      intros <;> exact nofun

end Frontend
end CircomMpc
