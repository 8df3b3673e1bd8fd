import CircomMpc.Frontend.Constant

/-!
# The compile-time evaluators and circom

Two agreements. Folding, for constants in value position and for branch conditions: an operator is
circom's exactly where no shift in it is one `ShiftExact` excludes. A branch condition is compared
with circom's value of the same expression over every operator (`numberWith`), also those folding
refuses, so what is settled is which arm is taken and not only that a decided one is right: the
branch decides exactly the conditions of `BranchFoldable`, by the truth value with every shift uncut
(`takesArm_iff`), and `TruthKept` says where that is circom's.

Addresses: `getConstantValue` returns circom's value exactly when every intermediate value fits
`usize`, and then it is what the same expression folds to in value position.
-/

namespace CircomMpc
namespace Frontend

open Lib

/-! ## Constants in value position -/

/-- The compiler's value of `e`, if it has one, is circom's. -/
def Right (c : GraphCompiler) (e : Instruction) : Prop :=
  ∀ v, Evaluates c e v → circomConstant c e = some v

/-- `e` and every operand in it are right. -/
def AllRight (c : GraphCompiler) : Instruction → Prop
  | .compute line op [a, b] => AllRight c a ∧ AllRight c b ∧ Right c (.compute line op [a, b])
  | e => Right c e

/-- Every shift in `e` is exact at circom's values of its operands. -/
def ShiftsExact (c : GraphCompiler) : Instruction → Prop
  | .compute _ op [a, b] => ShiftsExact c a ∧ ShiftsExact c b ∧
      ∀ x y, circomConstant c a = some x → circomConstant c b = some y → ShiftExact op x y
  | _ => True

theorem right_iff {c : GraphCompiler} (hc : c.WellFormed) {e : Instruction} :
    Right c e ↔ ∀ v, foldedConstant c e = some v → circomConstant c e = some v := by
  simp only [Right, evaluates_iff e c hc]

theorem AllRight.right {c : GraphCompiler} : ∀ {e : Instruction}, AllRight c e → Right c e
  | .compute _ _ [_, _], h => h.2.2
  | .compute _ _ [], h | .compute _ _ [_], h | .compute _ _ (_ :: _ :: _ :: _), h => h
  | .value .., h | .load .., h | .store .., h | .branch .., h | .loop .., h | .ret _, h
  | .assert, h | .log _, h => h

/-- Folding and circom have values for the same operands. -/
theorem foldBinary_isSome (op : OperatorType) (a b : Fr) :
    (foldBinary op a b).isSome = (circomArithmetic op a b).isSome := by
  cases op with
  | div => by_cases hb : b = 0 <;> simp [foldBinary, circomArithmetic, hb]
  | intDiv => by_cases hb : b = 0 <;> simp [foldBinary, circomArithmetic, hb]
  | shiftR => rw [foldBinary_shiftR]; rfl
  | _ => rfl

/-- An expression that is right everywhere folds whenever circom has a value for it. -/
theorem AllRight.complete {c : GraphCompiler} (hc : c.WellFormed) :
    ∀ {e : Instruction}, AllRight c e → ∀ {x : Fr}, circomConstant c e = some x →
      foldedConstant c e = some x
  | .compute line op [a, b], h, x, hx => by
    have hright := (right_iff hc).mp h.2.2
    simp only [circomConstant, foldedConstant, constantWith, Option.bind_eq_bind,
      Option.bind_eq_some_iff] at hx hright ⊢
    obtain ⟨l, hl, r, hr, hv⟩ := hx
    have hfl := h.1.complete hc hl
    have hfr := h.2.1.complete hc hr
    have hsome := foldBinary_isSome op l r
    rw [hv, Option.isSome_some, Option.isSome_iff_exists] at hsome
    obtain ⟨w, hw⟩ := hsome
    obtain ⟨l', hl', r', hr', hv'⟩ := hright w ⟨l, hfl, r, hfr, hw⟩
    rw [hl, Option.some.injEq] at hl'
    rw [hr, Option.some.injEq] at hr'
    subst hl' hr'
    rw [hv, Option.some.injEq] at hv'
    exact ⟨l, hfl, r, hfr, hv' ▸ hw⟩
  | .value .bigInt _, _, _, hx => hx
  | .load _ .variable (.indexed _), _, _, hx => hx
  | .value .u32 _, _, _, hx | .load _ .variable .mapped, _, _, hx | .load _ .signal _, _, _, hx
  | .load _ (.subcmpSignal ..) _, _, _, hx | .compute _ _ [], _, _, hx | .compute _ _ [_], _, _, hx
  | .compute _ _ (_ :: _ :: _ :: _), _, _, hx | .store .., _, _, hx | .branch .., _, _, hx
  | .loop .., _, _, hx | .ret _, _, _, hx | .assert, _, _, hx | .log _, _, _, hx => hx

/-- **A constant expression is folded to circom's values throughout exactly when its shifts are
    exact.** -/
theorem allRight_iff {c : GraphCompiler} (hc : c.WellFormed) :
    ∀ e : Instruction, AllRight c e ↔ ShiftsExact c e
  | .compute line op [a, b] => by
    rw [AllRight, ShiftsExact, allRight_iff hc a, allRight_iff hc b]
    refine and_congr_right fun hsa => and_congr_right fun hsb => ?_
    have ha := (allRight_iff hc a).mpr hsa
    have hb := (allRight_iff hc b).mpr hsb
    rw [right_iff hc]
    simp only [circomConstant, foldedConstant, constantWith, Option.bind_eq_bind,
      Option.bind_eq_some_iff]
    constructor
    · intro hright x y hx hy
      rw [← foldBinary_exact]
      intro v hv
      obtain ⟨x', hx', y', hy', hv'⟩ := hright v ⟨x, ha.complete hc hx, y, hb.complete hc hy, hv⟩
      rw [hx, Option.some.injEq] at hx'
      rw [hy, Option.some.injEq] at hy'
      subst hx' hy'
      exact hv'
    · rintro hshift v ⟨x, hx, y, hy, hv⟩
      have hx' := (right_iff hc).mp ha.right x hx
      have hy' := (right_iff hc).mp hb.right y hy
      exact ⟨x, hx', y, hy', (foldBinary_exact op x y).mpr (hshift x y hx' hy') v hv⟩
  | .value .bigInt _ | .load _ .variable (.indexed _) => by
    exact iff_of_true ((right_iff hc).mpr fun _ hv => hv) trivial
  | .value .u32 _ | .load _ .variable .mapped | .load _ .signal _ | .load _ (.subcmpSignal ..) _
  | .compute _ _ [] | .compute _ _ [_] | .compute _ _ (_ :: _ :: _ :: _) | .store .. | .branch ..
  | .loop .. | .ret _ | .assert | .log _ => by
    exact iff_of_true ((right_iff hc).mpr fun _ hv => hv) trivial

/-! ## circom's value of any expression -/

/-- The number an expression stands for in circom, given the operators outside addresses: nested
    comparisons, remainders, negations and complements included, whether folding handles them or not. -/
def numberWith (operator : OperatorType → Fr → Fr → Option Fr) (c : GraphCompiler) :
    Instruction → Option Nat
  | .value .u32 v => some v
  | .value .bigInt v => c.constantTable[v.val]?.map toBigint
  | .load _ .variable (.indexed location) => do
    let i ← numberWith operator c location
    (c.constantVariable i).map toBigint
  | .compute _ op [a, b] => do
    let x ← numberWith operator c a
    let y ← numberWith operator c b
    match circomAddressOperator op with
    | some f => f x y
    | none => (operator op (frFrom x) (frFrom y)).map toBigint
  | .compute _ .toAddress [a] => numberWith operator c a
  | .compute _ op [a] => do
    let x ← numberWith operator c a
    (circomUnary op (frFrom x)).map toBigint
  | _ => none

/-- circom's truth value of a condition: whether its value is not zero. -/
def circomTruth (c : GraphCompiler) (cond : Instruction) : Option Bool :=
  (numberWith circomOperator c cond).map (decide <| · ≠ 0)

/-- The truth value it would have with every shift uncut. -/
def uncutTruth (c : GraphCompiler) (cond : Instruction) : Option Bool :=
  (numberWith uncutOperator c cond).map (decide <| · ≠ 0)

/-- The operands a branch can have: constants, variables at a resolved index, and the folded
    operators over them. No comparison, connective, remainder or one-operand operator is among them. -/
def Foldable (c : GraphCompiler) : Instruction → Prop
  | .value .bigInt _ => True
  | .load _ .variable (.indexed location) => ∃ i, Resolved c location i
  | .compute _ op [a, b] => Folded op ∧ Foldable c a ∧ Foldable c b
  | _ => False

/-- The conditions a branch can have: at the root, and only there, also a comparison, a connective
    or a negation. -/
def BranchFoldable (c : GraphCompiler) : Instruction → Prop
  | .compute _ op [a, b] => Deciding op ∧ Foldable c a ∧ Foldable c b
  | .compute _ op [a] => op = .boolNot ∧ Foldable c a
  | cond => Foldable c cond

/-- The sum, difference and remainder of an address are those of a value, so an index has one
    number whichever operators stand outside it. -/
theorem numberWith_of_circomAddress {operator : OperatorType → Fr → Fr → Option Fr}
    {c : GraphCompiler} : ∀ {e : Instruction} {v : Nat}, circomAddress c e = some v →
      numberWith operator c e = some v
  | .value .u32 _, _, h | .value .bigInt _, _, h => h
  | .load _ .variable (.indexed location), v, h => by
    simp only [circomAddress, Option.bind_eq_bind, Option.bind_eq_some_iff] at h
    obtain ⟨i, hi, hv⟩ := h
    rw [numberWith, numberWith_of_circomAddress hi]
    exact hv
  | .compute _ op [a, b], v, h => by
    simp only [circomAddress, Option.bind_eq_bind, Option.bind_eq_some_iff] at h
    obtain ⟨f, hf, x, hx, y, hy, hv⟩ := h
    rw [numberWith, numberWith_of_circomAddress hx, numberWith_of_circomAddress hy, hf]
    exact hv
  | .compute _ .toAddress [a], _, h => by
    rw [numberWith]
    exact numberWith_of_circomAddress h

/-- The arithmetic of the folded operators, and the table of all operators it is part of: they agree
    on the folded operators, and sums and differences are the field's. -/
structure ReadsAs (arith operator : OperatorType → Fr → Fr → Option Fr) : Prop where
  agree : ∀ op, Folded op → ∀ x y, arith op x y = operator op x y
  add : ∀ x y, arith .add x y = some (x + y)
  sub : ∀ x y, arith .sub x y = some (x - y)

/-- An operator of the arithmetic gives no verdict. -/
theorem circomVerdict_of_folded {op : OperatorType} (hop : Folded op) (x y : Fr) :
    circomVerdict op x y = none := by
  cases op <;> first | rfl | simp [Folded] at hop

theorem readsAs_circom : ReadsAs circomArithmetic circomOperator where
  agree := fun op hop x y => by
    rw [circomOperator, circomVerdict_of_folded hop, Option.map_none, Option.or_none]
  add := fun _ _ => rfl
  sub := fun _ _ => rfl

/-- What folding computes is the uncut operator. -/
theorem readsAs_folded : ReadsAs foldBinary uncutOperator where
  agree := fun op hop x y => by
    by_cases hL : op = .shiftL
    · subst hL
      rw [foldBinary_shiftL, uncutOperator, frFrom_two_pow]
    by_cases hR : op = .shiftR
    · subst hR
      exact foldBinary_shiftR x y
    have huncut : uncutOperator op x y = circomOperator op x y := by
      cases op with
      | shiftL => exact absurd rfl hL
      | shiftR => exact absurd rfl hR
      | _ => rfl
    rw [huncut, ← readsAs_circom.agree op hop]
    exact foldBinary_eq_circomArithmetic hL hR x y
  add := fun _ _ => rfl
  sub := fun _ _ => rfl

/-- A decided operator on the numbers of two constants. -/
theorem ReadsAs.deciding {arith operator : OperatorType → Fr → Fr → Option Fr}
    (h : ReadsAs arith operator) {op : OperatorType} (hop : Deciding op) (x y : Fr) :
    (match circomAddressOperator op with
      | some f => f (toBigint x) (toBigint y)
      | none => (operator op (frFrom (toBigint x)) (frFrom (toBigint y))).map toBigint) =
      (operator op x y).map toBigint := by
  rw [frFrom_toBigint, frFrom_toBigint]
  by_cases hadd : op = .add
  · -- The sum is in the table of the address operators.
    subst hadd
    rw [← h.agree .add (by simp [Folded]), h.add]
    simp only [circomAddressOperator, frFrom_toBigint, Option.map_some]
  by_cases hsub : op = .sub
  · subst hsub
    rw [← h.agree .sub (by simp [Folded]), h.sub]
    simp only [circomAddressOperator, frFrom_toBigint, Option.map_some]
  have hnone : circomAddressOperator op = none := by
    cases op <;> simp_all [Deciding, Folded, circomAddressOperator]
  rw [hnone]

/-- **A foldable operand stands for the constant its operators give it**, whichever arithmetic the
    folded operators are read in. -/
theorem ReadsAs.foldable {arith operator : OperatorType → Fr → Fr → Option Fr}
    (h : ReadsAs arith operator) {c : GraphCompiler} : ∀ {e : Instruction}, Foldable c e →
      numberWith operator c e = (constantWith arith c e).map toBigint
  | .value .bigInt _, _ => rfl
  | .load _ .variable (.indexed location), ⟨i, hi⟩ => by
    rw [numberWith, numberWith_of_circomAddress hi.1, constantWith,
      (getConstantValue_eq_ok c location i).mpr hi]
    rfl
  | .compute _ op [a, b], ⟨hop, ha, hb⟩ => by
    rw [numberWith, constantWith, h.foldable ha, h.foldable hb]
    cases constantWith arith c a with
    | none => rfl
    | some x =>
      cases constantWith arith c b with
      | none => rfl
      | some y => exact (h.deciding (.inl hop) x y).trans (by rw [← h.agree op hop]; rfl)

/-- The truth value of a condition on two foldable operands. -/
theorem ReadsAs.truth {arith operator : OperatorType → Fr → Fr → Option Fr}
    (h : ReadsAs arith operator) {c : GraphCompiler} {line : Nat} {op : OperatorType}
    {a b : Instruction} (hop : Deciding op) (ha : Foldable c a) (hb : Foldable c b) :
    (numberWith operator c (.compute line op [a, b])).map (decide <| · ≠ 0) =
      (constantWith arith c a).bind fun x => (constantWith arith c b).bind fun y =>
        (operator op x y).map (decide <| · ≠ 0) := by
  rw [numberWith, h.foldable ha, h.foldable hb]
  cases constantWith arith c a with
  | none => rfl
  | some x =>
    cases constantWith arith c b with
    | none => rfl
    | some y =>
      refine (congrArg _ (h.deciding hop x y)).trans ?_
      rw [Option.map_map]
      refine congrArg (Option.map · _) (funext fun v => ?_)
      simp

/-- Only what folds is evaluated at all. -/
theorem foldable_of_folded {c : GraphCompiler} : ∀ {e : Instruction} {v : Fr},
    foldedConstant c e = some v → Foldable c e
  | .value .bigInt _, _, _ => trivial
  | .load _ .variable (.indexed location), v, h => by
    simp only [foldedConstant, constantWith, Option.bind_eq_bind, Option.bind_eq_some_iff] at h
    obtain ⟨i, hi, -⟩ := h
    refine ⟨i, (getConstantValue_eq_ok c location i).mp ?_⟩
    cases hloc : getConstantValue c location with
    | error => rw [hloc] at hi; cases hi
    | ok j => rw [hloc] at hi; rw [Option.some.inj hi]
  | .compute _ op [a, b], v, h => by
    simp only [foldedConstant, constantWith, Option.bind_eq_bind, Option.bind_eq_some_iff] at h
    obtain ⟨x, hx, y, hy, hv⟩ := h
    refine ⟨?_, foldable_of_folded hx, foldable_of_folded hy⟩
    cases op <;> first | cases hv; done | simp [Folded]

/-! ## Branch conditions -/

/-- The branch takes its if arm, or its else arm. -/
def TakesArm (c : GraphCompiler) (cond : Instruction) (arm : Bool) : Prop :=
  ∃ c', foldBranchCondition cond c = .ok (some arm, c')

/-- What the two-operand arm decides. -/
theorem foldBinaryCondition_eq_some {op : OperatorType} {a b : Instruction} {c : GraphCompiler}
    (hc : c.WellFormed) {taken : Bool} :
    (∃ c', foldBinaryCondition op (handleInst a) (handleInst b) c = .ok (some taken, c')) ↔
      ∃ x y, foldedConstant c a = some x ∧ foldedConstant c b = some y ∧
        (foldCondition op x y).or ((foldBinary op x y).map (· != 0)) = some taken := by
  constructor
  · rintro ⟨c', h⟩
    obtain ⟨⟨l, c₁⟩, hl, h⟩ := bind_eq_ok.mp h
    cases l with
    | none => cases h
    | some l =>
      obtain ⟨⟨r, c₂⟩, hr, h⟩ := bind_eq_ok.mp h
      obtain ⟨hfl, hext, hc₁⟩ := evalConstantOperand_folded (evaluates_iff a) hc hl
      cases r with
      | none => cases h
      | some r =>
        obtain ⟨hfr, -, -⟩ := evalConstantOperand_folded (evaluates_iff b) hc₁ hr
        rw [foldedConstant, constantWith_extends hc hext] at hfr
        refine ⟨l, r, hfl, hfr, ?_⟩
        dsimp only at h
        split at h
        next folded hfold =>
          rw [hfold, ← (Prod.mk.inj (pure_eq_ok.mp h)).1]
          rfl
        next hfold =>
          rw [hfold, ← (Prod.mk.inj (pure_eq_ok.mp h)).1]
          rfl
  · rintro ⟨x, y, hx, hy, htaken⟩
    obtain ⟨c₁, hl⟩ := (evaluates_iff a c hc x).mpr hx
    obtain ⟨-, hext, hc₁⟩ := evalConstantOperand_folded (evaluates_iff a) hc hl
    rw [foldedConstant, ← constantWith_extends hc hext] at hy
    obtain ⟨c₂, hr⟩ := (evaluates_iff b c₁ hc₁ y).mpr hy
    refine ⟨c₂, ?_⟩
    simp only [foldBinaryCondition, hl, hr, ok_bind]
    cases hfold : foldCondition op x y with
    | some folded =>
      rw [hfold] at htaken
      exact congrArg (fun o => Except.ok (o, c₂)) htaken
    | none =>
      rw [hfold] at htaken
      exact congrArg (fun o => Except.ok (o, c₂)) htaken

theorem bne_zero (v : Fr) : (v != 0) = decide (v ≠ 0) := by simp [bne, beq_eq_decide]

/-- What one operand's truth decides. -/
theorem foldTruth_eq_some {e : Instruction} {c : GraphCompiler} (hc : c.WellFormed) {taken : Bool} :
    (∃ c', foldTruth (handleInst e) c = .ok (some taken, c')) ↔
      (foldedConstant c e).map (decide <| · ≠ 0) = some taken := by
  simp only [Option.map_eq_some_iff, ← evaluates_iff e c hc, ← bne_zero]
  constructor
  · rintro ⟨c', h⟩
    obtain ⟨⟨o, c₁⟩, hop, hr⟩ := bind_eq_ok.mp h
    obtain ⟨v, rfl, hv⟩ := Option.map_eq_some_iff.mp (Prod.mk.inj (pure_eq_ok.mp hr)).1
    exact ⟨v, ⟨c₁, hop⟩, hv⟩
  · rintro ⟨v, ⟨c₁, hop⟩, rfl⟩
    exact ⟨c₁, bind_eq_ok.mpr ⟨(some v, c₁), hop, rfl⟩⟩

/-- What a negation decides; no other operator on one operand decides anything. -/
theorem foldNegatedCondition_eq_some {op : OperatorType} {a : Instruction} {c : GraphCompiler}
    (hc : c.WellFormed) {taken : Bool} :
    (∃ c', foldNegatedCondition op (handleInst a) c = .ok (some taken, c')) ↔
      op = .boolNot ∧ (foldedConstant c a).map (decide <| · = 0) = some taken := by
  simp only [Option.map_eq_some_iff, ← evaluates_iff a c hc, ← beq_eq_decide]
  constructor
  · rintro ⟨c', h⟩
    obtain ⟨⟨o, c₁⟩, hop, hr⟩ := bind_eq_ok.mp h
    obtain ⟨v, rfl, hv⟩ := Option.bind_eq_some_iff.mp (Prod.mk.inj (pure_eq_ok.mp hr)).1
    cases op with
    | boolNot => exact ⟨rfl, v, ⟨c₁, hop⟩, Option.some.inj hv⟩
    | _ => cases hv
  · rintro ⟨rfl, v, ⟨c₁, hop⟩, rfl⟩
    exact ⟨c₁, bind_eq_ok.mpr ⟨(some v, c₁), hop, rfl⟩⟩

theorem truthElement_ne_zero (verdict : Bool) : decide (truthElement verdict ≠ 0) = verdict := by
  cases verdict <;> decide

/-- Both readings of an operator that decides: its verdict, or its value against zero. -/
theorem fold_deciding {op : OperatorType} {x y : Fr} {taken : Bool} :
    (foldCondition op x y).or ((foldBinary op x y).map (· != 0)) = some taken ↔
      Deciding op ∧ (uncutOperator op x y).map (decide <| · ≠ 0) = some taken := by
  rw [foldCondition_eq]
  by_cases hop : Folded op
  · rw [circomVerdict_of_folded hop, Option.none_or, readsAs_folded.agree op hop]
    simp only [bne_zero]
    exact (and_iff_right (.inl hop)).symm
  · have hfold : foldBinary op x y = none := by
      cases op <;> first | rfl | simp [Folded] at hop
    have hreal : uncutOperator op x y = (circomVerdict op x y).map truthElement := by
      cases op <;> first | rfl | simp [Folded] at hop
    rw [hfold, Option.map_none, Option.or_none, hreal, Option.map_map]
    have htruth : (fun v => decide (v ≠ 0)) ∘ truthElement = id := funext truthElement_ne_zero
    rw [htruth, Option.map_id, id_eq]
    refine ⟨fun h => ⟨.inr ?_, h⟩, And.right⟩
    cases op with
    | eq size =>
      -- Only an `Eq` of one element decides.
      cases size with
      | multiple => cases h
      | single n =>
        rcases n with _ | _ | n
        · cases h
        · simp
        · cases h
    | _ => first | cases h; done | simp

/-- **What a branch decides**: for exactly the conditions of `BranchFoldable`, the truth value with
    every shift uncut. -/
theorem takesArm_iff {c : GraphCompiler} (hc : c.WellFormed) (cond : Instruction) (arm : Bool) :
    TakesArm c cond arm ↔ BranchFoldable c cond ∧ uncutTruth c cond = some arm := by
  -- A condition that is no operator on two or one operands is its own operand.
  have hoperand : ∀ e, (∃ c', foldTruth (handleInst e) c = .ok (some arm, c')) ↔
      Foldable c e ∧ uncutTruth c e = some arm := by
    intro e
    have hnumber : Foldable c e → uncutTruth c e = (foldedConstant c e).map (decide <| · ≠ 0) := by
      intro he
      rw [uncutTruth, readsAs_folded.foldable he, Option.map_map]
      exact congrArg (Option.map · _) (funext fun v => by simp)
    rw [foldTruth_eq_some hc]
    constructor
    · intro h
      obtain ⟨v, hv, -⟩ := Option.map_eq_some_iff.mp h
      exact ⟨foldable_of_folded hv, (hnumber (foldable_of_folded hv)).trans h⟩
    · rintro ⟨he, h⟩
      rw [← hnumber he]
      exact h
  match cond with
  | .compute line op [a, b] =>
    refine (foldBinaryCondition_eq_some hc).trans ?_
    constructor
    · rintro ⟨x, y, hx, hy, htaken⟩
      obtain ⟨hop, htruth⟩ := fold_deciding.mp htaken
      have ha := foldable_of_folded hx
      have hb := foldable_of_folded hy
      refine ⟨⟨hop, ha, hb⟩, (readsAs_folded.truth hop ha hb).trans ?_⟩
      rw [foldedConstant] at hx hy
      rw [hx, hy]
      exact htruth
    · rintro ⟨⟨hop, ha, hb⟩, htruth⟩
      rw [uncutTruth, readsAs_folded.truth hop ha hb] at htruth
      obtain ⟨x, hx, htruth⟩ := Option.bind_eq_some_iff.mp htruth
      obtain ⟨y, hy, htruth⟩ := Option.bind_eq_some_iff.mp htruth
      exact ⟨x, y, hx, hy, fold_deciding.mpr ⟨hop, htruth⟩⟩
  | .compute line op [a] =>
    refine (foldNegatedCondition_eq_some hc).trans ?_
    have hnegated : Foldable c a → uncutTruth c (.compute line .boolNot [a]) =
        (foldedConstant c a).map (decide <| · = 0) := by
      intro ha
      rw [uncutTruth, numberWith, readsAs_folded.foldable ha, foldedConstant]
      · cases constantWith foldBinary c a with
        | none => rfl
        | some v =>
          simp only [Option.map_some, Option.bind_eq_bind, Option.bind_some, circomUnary,
            frFrom_toBigint, ne_eq, toBigint_eq_zero]
          exact congrArg some (truthElement_ne_zero _)
      · exact nofun
    constructor
    · rintro ⟨rfl, h⟩
      obtain ⟨v, hv, -⟩ := Option.map_eq_some_iff.mp h
      exact ⟨⟨rfl, foldable_of_folded hv⟩, (hnegated (foldable_of_folded hv)).trans h⟩
    · rintro ⟨⟨rfl, ha⟩, h⟩
      exact ⟨rfl, (hnegated ha).symm.trans h⟩
  | .compute _ _ [] | .compute _ _ (_ :: _ :: _ :: _) =>
    exact iff_of_false (fun ⟨_, h⟩ => nomatch h) (fun h => h.1)
  | .value .bigInt _ | .value .u32 _ | .load .. | .store .. | .branch .. | .loop .. | .ret _
  | .assert | .log _ => exact hoperand _

/-- The if arm is taken exactly when circom's value of the condition is not zero. -/
def BranchesAsCircom (c : GraphCompiler) (cond : Instruction) : Prop :=
  TakesArm c cond true ↔ circomTruth c cond = some true

/-- Uncutting the shifts of a condition the branch can have makes it neither true nor false, and a
    condition it cannot have, which is refused, is not true. -/
def TruthKept (c : GraphCompiler) (cond : Instruction) : Prop :=
  (BranchFoldable c cond → (uncutTruth c cond = some true ↔ circomTruth c cond = some true)) ∧
    (¬ BranchFoldable c cond → circomTruth c cond ≠ some true)

/-- **A branch is folded as circom means it exactly where its truth survives the uncut shifts.** -/
theorem branchesAsCircom_iff {c : GraphCompiler} (hc : c.WellFormed) (cond : Instruction) :
    BranchesAsCircom c cond ↔ TruthKept c cond := by
  rw [BranchesAsCircom, TruthKept, takesArm_iff hc]
  by_cases h : BranchFoldable c cond
  · simp [h]
  · simp [h]

/-! ### Conditions on exact operands -/

/-- Every shift inside the operands of the condition is exact. -/
def OperandsExact (c : GraphCompiler) : Instruction → Prop
  | .compute _ _ [a, b] => ShiftsExact c a ∧ ShiftsExact c b
  | .compute _ _ [a] => ShiftsExact c a
  | _ => True

/-- A shift at the root of the condition has circom's truth value. -/
def RootDecides (c : GraphCompiler) : Instruction → Prop
  | .compute _ op [a, b] =>
    ∀ x y, circomConstant c a = some x → circomConstant c b = some y → ShiftDecides op x y
  | _ => True

/-- Exact operands are evaluated to circom's constants, or have no value in either reading. -/
theorem folded_eq_circom {c : GraphCompiler} (hc : c.WellFormed) {e : Instruction}
    (h : ShiftsExact c e) : foldedConstant c e = circomConstant c e := by
  have hall := (allRight_iff hc e).mpr h
  refine Option.ext fun v => ⟨(right_iff hc).mp hall.right v, fun hv => hall.complete hc hv⟩

/-- An operator keeps its truth uncut exactly where its shift has circom's truth value. -/
theorem uncut_decides {op : OperatorType} (x y : Fr) :
    (uncutOperator op x y).map (decide <| · ≠ 0) = (circomOperator op x y).map (decide <| · ≠ 0) ↔
      ShiftDecides op x y := by
  by_cases hop : Folded op
  · rw [← readsAs_folded.agree op hop, ← readsAs_circom.agree op hop, ← foldBinary_decides,
      DecidesAsCircom]
    have hsome := foldBinary_isSome op x y
    cases hfold : foldBinary op x y with
    | none =>
      rw [hfold, Option.isSome_none, eq_comm, Option.isSome_eq_false_iff,
        Option.isNone_iff_eq_none] at hsome
      simp [hsome]
    | some v =>
      rw [hfold, Option.isSome_some, eq_comm, Option.isSome_iff_exists] at hsome
      obtain ⟨w, hw⟩ := hsome
      simp [hw]
  · refine iff_of_true ?_ ?_
    · cases op <;> first | rfl | simp [Folded] at hop
    · cases op <;> first | exact trivial | simp [Folded] at hop

/-- The three kinds of condition a branch can have: two operands, a negation, and an operand, which
    has no operator at its root that could turn its truth. -/
theorem branchFoldable_cases {c : GraphCompiler} : ∀ {cond : Instruction}, BranchFoldable c cond →
    (∃ line op a b, cond = .compute line op [a, b] ∧ Deciding op ∧ Foldable c a ∧ Foldable c b) ∨
    (∃ line a, cond = .compute line .boolNot [a] ∧ Foldable c a) ∨
    (Foldable c cond ∧ ShiftsExact c cond ∧ RootDecides c cond)
  | .compute line op [a, b], h => .inl ⟨line, op, a, b, rfl, h⟩
  | .compute line _ [a], ⟨hop, ha⟩ => .inr (.inl ⟨line, a, hop ▸ rfl, ha⟩)
  | .value .bigInt _, h | .load _ .variable (.indexed _), h => .inr (.inr ⟨h, trivial, trivial⟩)

/-- **Over exact operands a branch takes the arm of circom's truth value, whichever it is, exactly
    where a shift at its root allows it.** -/
theorem takesArm_exact {c : GraphCompiler} (hc : c.WellFormed) {cond : Instruction}
    (hfold : BranchFoldable c cond) (hexact : OperandsExact c cond) :
    (∀ arm, TakesArm c cond arm ↔ circomTruth c cond = some arm) ↔ RootDecides c cond := by
  have htruth : (∀ arm, TakesArm c cond arm ↔ circomTruth c cond = some arm) ↔
      uncutTruth c cond = circomTruth c cond := by
    simp only [takesArm_iff hc, hfold, true_and]
    exact ⟨Option.ext, fun h arm => by rw [h]⟩
  rw [htruth]
  -- Without a shift at the root the two truth values are read off the same constant.
  have hoperand : ∀ e, ShiftsExact c e → Foldable c e →
      numberWith uncutOperator c e = numberWith circomOperator c e := by
    intro e he hf
    rw [readsAs_folded.foldable hf, readsAs_circom.foldable hf]
    exact congrArg _ (folded_eq_circom hc he)
  obtain ⟨line, op, a, b, rfl, hop, ha, hb⟩ | ⟨line, a, rfl, ha⟩ | ⟨hcond, hshifts, hroot⟩ :=
    branchFoldable_cases hfold
  · -- A shift at the root is the only operator whose truth value may have been turned.
    have hx := folded_eq_circom hc hexact.1
    have hy := folded_eq_circom hc hexact.2
    rw [uncutTruth, circomTruth, readsAs_folded.truth hop ha hb, readsAs_circom.truth hop ha hb]
    rw [foldedConstant, circomConstant] at hx hy
    rw [hx, hy]
    simp only [RootDecides, circomConstant, ← uncut_decides]
    cases constantWith circomArithmetic c a with
    | none => simp
    | some x =>
      cases constantWith circomArithmetic c b with
      | none => simp
      | some y => simp
  · refine iff_of_true ?_ trivial
    have hnegated : ∀ operator, numberWith operator c (.compute line .boolNot [a]) =
        (numberWith operator c a).bind fun x => (circomUnary .boolNot (frFrom x)).map toBigint := by
      intro operator
      rw [numberWith]
      · rfl
      · intro hop
        cases hop
    rw [uncutTruth, circomTruth, hnegated, hnegated, hoperand a hexact ha]
  · exact iff_of_true (congrArg _ (hoperand cond hshifts hcond)) hroot

/-- **Compile-time folding against circom's semantics.** `fold_binary` is circom's arithmetic
    exactly where `ShiftExact` holds of its operands, and gives up on an operator of its own only on a
    division by zero; `fold_condition` decides by the signed reading, whose order is total. A branch
    takes its if arm exactly when circom's value is not zero, for exactly the conditions of `TruthKept`;
    where the operands of the condition fold to circom's constants, that is `RootDecides`. -/
theorem fold_exact (op : OperatorType) (a b : Fr) {c : GraphCompiler} (hc : c.WellFormed)
    (cond : Instruction) :
    (FoldsAsCircom op a b ↔ ShiftExact op a b) ∧
    (Folded op → foldBinary op a b = none → (op = .div ∨ op = .intDiv) ∧ b = 0) ∧
    foldCondition op a b = circomVerdict op a b ∧
    circomCmp a b = compare (signed a) (signed b) ∧ (signed a = signed b → a = b) ∧
    (BranchesAsCircom c cond ↔ TruthKept c cond) ∧
    (BranchFoldable c cond → OperandsExact c cond →
      ((∀ arm, TakesArm c cond arm ↔ circomTruth c cond = some arm) ↔ RootDecides c cond)) :=
  ⟨foldBinary_exact op a b, fun hop => (foldBinary_eq_none hop).mp, foldCondition_eq op a b,
    circomCmp_eq a b, fun h => signed_injective h, branchesAsCircom_iff hc cond, takesArm_exact hc⟩

/-- A template with one node, the constant zero, and a variable that reads it. -/
def zeroTemplate : GraphCompiler where
  nodes := [⟨.real (.constant 0), []⟩]
  varToValue := fun i => if i = 0 then some 0 else none
  constantTable := [1, 253, 254, 5, 2].map frFrom

theorem zeroTemplate_wellFormed : zeroTemplate.WellFormed where
  ordered := by decide
  arity := by simp [zeroTemplate, TemplateOp.arity, Op.fixedArity, orElse]
  bound := by simp [zeroTemplate]

/-- `(1 << k) op 5`, for the amount at place `k` of the constants. -/
def shiftAgainstFive (op : OperatorType) (k : Usize) : Instruction :=
  .compute 0 op [.compute 0 .shiftL [.value .bigInt 0, .value .bigInt k], .value .bigInt 3]

/-- `(1 < 2) && (2 < 5)`. -/
def bothLesser : Instruction :=
  .compute 0 .boolAnd [.compute 0 .lesser [.value .bigInt 0, .value .bigInt 4],
    .compute 0 .lesser [.value .bigInt 4, .value .bigInt 3]]

theorem shiftAgainstFive_foldable {op : OperatorType} (hop : Deciding op) (k : Usize) :
    BranchFoldable zeroTemplate (shiftAgainstFive op k) :=
  ⟨hop, ⟨by simp [Folded], trivial, trivial⟩, trivial⟩

/-- The highest power of two a shift reaches uncut reads as negative, so it is less than five; one
    further up the shift is wrong, and yet not equal to five either way. -/
theorem fold_exact_zeroTemplate :
    FoldsAsCircom .shiftL 1 253 ∧
      TakesArm zeroTemplate (shiftAgainstFive .lesser 1) true ∧
      BranchesAsCircom zeroTemplate (shiftAgainstFive (.eq (.single 1)) 2) := by
  have hshift : ShiftExact .shiftL 1 253 := .inr (by decide +kernel)
  have hlesser := fold_exact .shiftL 1 253 zeroTemplate_wellFormed (shiftAgainstFive .lesser 1)
  have hequal := fold_exact .shiftL 1 253 zeroTemplate_wellFormed
    (shiftAgainstFive (.eq (.single 1)) 2)
  refine ⟨hlesser.1.mpr hshift, ?_, hequal.2.2.2.2.2.1.mpr ⟨fun _ => ?_, fun h => ?_⟩⟩
  · have hexact : OperandsExact zeroTemplate (shiftAgainstFive .lesser 1) := by
      refine ⟨⟨trivial, trivial, fun x y hx hy => ?_⟩, trivial⟩
      rw [← Option.some.inj hx, ← Option.some.inj hy]
      exact hshift
    have harm := hlesser.2.2.2.2.2.2 (shiftAgainstFive_foldable (by simp [Deciding]) 1) hexact
    exact (harm.mpr fun _ _ _ _ => trivial) true |>.mpr (by decide +kernel)
  · exact iff_of_false (by decide +kernel) (by decide +kernel)
  · exact absurd (shiftAgainstFive_foldable (by simp [Deciding]) 2) h

/-- `1 << 254` is zero in circom and a power of two here; `1 >> (p - 1)` is two in circom and zero
    here; and `(1 < 2) && (2 < 5)` is true in circom and refused here. -/
theorem folding_differs :
    ¬ FoldsAsCircom .shiftL 1 254 ∧ ¬ FoldsAsCircom .shiftR 1 (-1) ∧
      ¬ BranchesAsCircom zeroTemplate bothLesser := by
  have hone : toBigint 1 = 1 := by decide
  have hamount : toBigint 254 = 254 := by decide
  have hlast : toBigint (-1) = modulus - 1 := by decide
  refine ⟨?_, ?_, ?_⟩
  · rw [shiftL_exact, ShiftExact, hone, hamount]
    simp
  · rw [shiftR_exact, ShiftExact, hone, hlast]
    decide
  · rw [branchesAsCircom_iff zeroTemplate_wellFormed]
    -- An operand that compares is none a branch can have.
    have hrefused : ¬ BranchFoldable zeroTemplate bothLesser := by
      simp [bothLesser, BranchFoldable, Foldable, Folded]
    exact fun h => h.2 hrefused (by decide +kernel)

/-! ## Addresses -/

/-- Sums and differences of constants and variables: what may stand in either position. -/
def Additive : Instruction → Prop
  | .value .bigInt _ => True
  | .load _ .variable (.indexed _) => True
  | .compute _ op [a, b] => (op = .add ∨ op = .sub) ∧ Additive a ∧ Additive b
  | _ => False

/-- What an additive expression folds to in value position is circom's address. -/
theorem circomAddress_of_folded {c : GraphCompiler} : ∀ {e : Instruction}, Additive e →
    ∀ {x : Fr}, foldedConstant c e = some x → circomAddress c e = some (toBigint x)
  | .value .bigInt i, _, x, hx => by
    rw [circomAddress, Option.map_eq_some_iff]
    exact ⟨x, hx, rfl⟩
  | .load _ .variable (.indexed location), _, x, hx => by
    simp only [foldedConstant, constantWith, circomAddress, Option.bind_eq_bind,
      Option.bind_eq_some_iff, Option.map_eq_some_iff] at hx ⊢
    obtain ⟨i, hi, hx⟩ := hx
    cases hloc : getConstantValue c location with
    | error p => rw [hloc] at hi; cases hi
    | ok j =>
      rw [hloc] at hi
      obtain rfl := Option.some.inj hi
      exact ⟨j, ((getConstantValue_eq_ok c location j).mp hloc).1, x, hx, rfl⟩
  | .compute _ op [a, b], h, x, hx => by
    obtain ⟨hop, ha, hb⟩ := h
    simp only [foldedConstant, constantWith, circomAddress, Option.bind_eq_bind,
      Option.bind_eq_some_iff] at hx ⊢
    obtain ⟨l, hl, r, hr, hv⟩ := hx
    rcases hop with rfl | rfl
    all_goals
      refine ⟨_, rfl, _, circomAddress_of_folded ha hl, _, circomAddress_of_folded hb hr, ?_⟩
      rw [frFrom_toBigint, frFrom_toBigint, Option.some.inj hv]

/-- **Address arithmetic against circom's.** Where circom's value of an index expression fits
    `usize`, `get_constant_value` returns it exactly when every subexpression's value fits as well, and
    an expression that may also stand in value position evaluates to the same number there. -/
theorem getConstantValue_as_circom {c : GraphCompiler} {e : Instruction} {v : Nat}
    (hv : circomAddress c e = some v) (hfit : v < 2 ^ 64) :
    (getConstantValue c e = .ok v ↔ IntermediatesFit c e) ∧
      ∀ x, c.WellFormed → Additive e → Evaluates c e x → toBigint x = v := by
  refine ⟨getConstantValue_exact hv hfit, fun x hc he hx => ?_⟩
  have hfolded := circomAddress_of_folded he ((evaluates_iff e c hc x).mp hx)
  rw [hv] at hfolded
  exact (Option.some.inj hfolded).symm

/-- `i + 1`, for the counter the template holds. -/
def counterPlusOne : Instruction :=
  .compute 0 .add [.load 0 .variable (.indexed (.value .u32 0)), .value .bigInt 0]

theorem getConstantValue_as_circom_plusOne :
    getConstantValue zeroTemplate counterPlusOne = .ok 1 ↔
      IntermediatesFit zeroTemplate counterPlusOne :=
  (getConstantValue_as_circom (by decide +kernel) (by decide)).1

/-- `(i - 1) + 1`. -/
def counterMinusPlusOne : Instruction :=
  .compute 0 .add [.compute 0 .sub
    [.load 0 .variable (.indexed (.value .u32 0)), .value .bigInt 0], .value .bigInt 0]

/-- With `i = 0` it is zero in circom, and the subtraction leaves `usize` here. -/
theorem counterMinusPlusOne_panics :
    circomAddress zeroTemplate counterMinusPlusOne = some 0 ∧
      getConstantValue zeroTemplate counterMinusPlusOne =
        .error (.assertion "attempt to subtract with overflow") := by
  decide +kernel

end Frontend
end CircomMpc
