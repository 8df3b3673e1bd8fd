import CircomMpc.Passes.Classical

/-!
# Constant folding

`const_fold`: constant folding and the algebraic identities of `Add`, `Sub` and `Mul`. The callback
looks at the producers of a node's operands among the nodes already emitted, so what it needs to
know of them is one fact: an emitted `Constant` evaluates to its constant.

The source matches on the pair of the operands' constants, and `foldPair` is that match. A product
with zero is zero whatever the other operand is, so it may drop a read; no other rule does more than
forward an operand.
-/

namespace CircomMpc

open Lib CircomMpc.Graph

namespace ConstFold

/-- `constant_of`: the constant `v`'s producer is, if it is one. Looked up among the nodes emitted
    so far, so an operand that was folded itself counts. -/
def constantOf (emitted : List Node) (v : ValueId) : Except Panic (Option Fr) := do
  match (← index emitted v).op with
  | .constant c => pure (some c)
  | _ => pure none

/-- Replaces a node by a constant. -/
def emitConstant (c : Fr) : Except Panic RewriteAction := do
  pure (.emit (← Node.new (.constant c) []))

/-- `fold_node`: sums, differences and products of constants, and the identities of zero and one. A
    difference with a constant on the left is kept. -/
def foldNode (node : Node) (emitted : List Node) : Except Panic RewriteAction :=
  match node.op with
  | .add => do
    let a ← index node.inputs 0
    let b ← index node.inputs 1
    match ← constantOf emitted a, ← constantOf emitted b with
    | some x, some y => emitConstant (x + y)
    | some x, none => pure (if x = 0 then .replaceWith b else .keep)
    | none, some y => pure (if y = 0 then .replaceWith a else .keep)
    | none, none => pure .keep
  | .sub => do
    let a ← index node.inputs 0
    let b ← index node.inputs 1
    match ← constantOf emitted a, ← constantOf emitted b with
    | some x, some y => emitConstant (x - y)
    | none, some y => pure (if y = 0 then .replaceWith a else .keep)
    | _, _ => pure .keep
  | .mul => do
    let a ← index node.inputs 0
    let b ← index node.inputs 1
    match ← constantOf emitted a, ← constantOf emitted b with
    | some x, some y => emitConstant (x * y)
    | some x, none =>
      if x = 0 then emitConstant 0 else pure (if x = 1 then .replaceWith b else .keep)
    | none, some y =>
      if y = 0 then emitConstant 0 else pure (if y = 1 then .replaceWith a else .keep)
    | none, none => pure .keep
  | _ => pure .keep

/-- `const_fold::run`. -/
def run (g : Graph) : Except Panic (Graph × Bool) := do
  let (g, _, changed) ← g.rewrite (fun _ _ node emitted => do
    pure ((), ← foldNode node emitted)) ()
  pure (g, changed)

/-! ## What folding answers -/

variable {emitted : List Node} {node : Node}

/-- What the callback knows of an operand: its value, when its producer is a constant. -/
theorem constantOf_returns {v : ValueId} (hv : v < emitted.length) (hord : Ordered emitted) :
    Returns (fun c => ∀ x, c = some x → ∀ I, value (evalRule I) emitted v = fun _ => x)
      (constantOf emitted v) := by
  have hget : emitted[v]? = some emitted[v] := List.getElem?_eq_getElem hv
  have hread : index emitted v = .ok emitted[v] := by rw [index, hget, orElse_some]
  unfold constantOf
  rw [hread, ok_bind]
  split
  · rename_i c hop
    intro x hx I
    cases hx
    rw [value_eq hord hget, hop]
    rfl
  · intro x hx
    cases hx

theorem emitConstant_returns {c : Fr} (hpure : node.op.isPure = true)
    (hvalue : ∀ I, (fun _ => c) =
      evalRule I node.op (node.inputs.map (value (evalRule I) emitted))) :
    Returns (Answers emitted node) (emitConstant c) := by
  have hnew : Node.new (.constant c) [] = .ok ⟨.constant c, []⟩ :=
    Node.new_eq_ok (by simp [Op.fixedArity])
  unfold emitConstant
  rw [hnew]
  exact Answers.constant c hpure hvalue

/-- The two operands of a binary node, looked up. -/
theorem operands_bind {β : Type} {k : ValueId → ValueId → Option Fr → Option Fr → Except Panic β}
    {Post : β → Prop} {a b : ValueId} {op : Op} (ha : a < emitted.length) (hb : b < emitted.length)
    (hord : Ordered emitted)
    (hk : ∀ ca cb, (∀ x, ca = some x → ∀ I, value (evalRule I) emitted a = fun _ => x) →
      (∀ y, cb = some y → ∀ I, value (evalRule I) emitted b = fun _ => y) →
      Returns Post (k a b ca cb)) :
    Returns Post (do
      let a ← index (Cell.mk op [a, b]).inputs 0
      let b ← index (Cell.mk op [a, b]).inputs 1
      k a b (← constantOf emitted a) (← constantOf emitted b)) := by
  show Returns Post (constantOf emitted a >>= fun ca => constantOf emitted b >>= fun cb =>
    k a b ca cb)
  apply Meets.bind (constantOf_returns ha hord)
  intro ca hca
  apply Meets.bind (constantOf_returns hb hord)
  intro cb hcb
  exact hk ca cb hca hcb

theorem foldNode_returns (harity : ∀ arity ∈ node.op.fixedArity, node.inputs.length = arity)
    (hin : ∀ u ∈ node.inputs, u < emitted.length)
    (hscalars : node.op.isResult = false → ∀ u ∈ node.inputs, ∀ source,
      emitted[u]? = some source → source.invokes = false) (hord : Ordered emitted) :
    Returns (Answers emitted node) (foldNode node emitted) := by
  obtain ⟨op, inputs⟩ := node
  cases op
  -- Each of the three operations is a case on what is known of its two operands.
  case add =>
    obtain ⟨a, b, rfl⟩ := eq_pair (harity 2 rfl)
    have ha : a < emitted.length := hin a (by simp)
    have hb : b < emitted.length := hin b (by simp)
    apply operands_bind ha hb hord
    intro ca cb hca hcb
    cases ca with
    | some x =>
      cases cb with
      | some y =>
        apply emitConstant_returns rfl
        intro I
        funext k
        simp [evalRule, operand, hca x rfl I, hcb y rfl I]
      | none =>
        show Answers _ _ (if x = 0 then _ else _)
        split
        · rename_i hx
          apply Answers.same b rfl hb (hscalars rfl b (by simp))
          intro I
          funext k
          simp [evalRule, operand, hca x rfl I, hx]
        · exact .keep
    -- Nothing is known of the left operand, so only the right one can fold.
    | none =>
      cases cb with
      | some y =>
        show Answers _ _ (if y = 0 then _ else _)
        split
        · rename_i hy
          apply Answers.same a rfl ha (hscalars rfl a (by simp))
          intro I
          funext k
          simp [evalRule, operand, hcb y rfl I, hy]
        · exact .keep
      | none => exact .keep
  case sub =>
    obtain ⟨a, b, rfl⟩ := eq_pair (harity 2 rfl)
    have ha : a < emitted.length := hin a (by simp)
    have hb : b < emitted.length := hin b (by simp)
    apply operands_bind ha hb hord
    intro ca cb hca hcb
    cases ca with
    | some x =>
      cases cb with
      | some y =>
        apply emitConstant_returns rfl
        intro I
        funext k
        simp [evalRule, operand, hca x rfl I, hcb y rfl I]
      | none => exact .keep
    | none =>
      cases cb with
      | some y =>
        show Answers _ _ (if y = 0 then _ else _)
        split
        · rename_i hy
          apply Answers.same a rfl ha (hscalars rfl a (by simp))
          intro I
          funext k
          simp [evalRule, operand, hcb y rfl I, hy]
        · exact .keep
      | none => exact .keep
  case mul =>
    obtain ⟨a, b, rfl⟩ := eq_pair (harity 2 rfl)
    have ha : a < emitted.length := hin a (by simp)
    have hb : b < emitted.length := hin b (by simp)
    apply operands_bind ha hb hord
    intro ca cb hca hcb
    cases ca with
    | some x =>
      cases cb with
      | some y =>
        apply emitConstant_returns rfl
        intro I
        funext k
        simp [evalRule, operand, hca x rfl I, hcb y rfl I]
      | none =>
        show Returns _ (if x = 0 then emitConstant 0 else _)
        split
        · rename_i hx
          apply emitConstant_returns rfl
          intro I
          funext k
          simp [evalRule, operand, hca x rfl I, hx]
        · show Answers _ _ (if x = 1 then _ else _)
          split
          · rename_i hx
            apply Answers.same b rfl hb (hscalars rfl b (by simp))
            intro I
            funext k
            simp [evalRule, operand, hca x rfl I, hx]
          · exact .keep
    | none =>
      cases cb with
      | some y =>
        show Returns _ (if y = 0 then emitConstant 0 else _)
        split
        · rename_i hy
          apply emitConstant_returns rfl
          intro I
          funext k
          simp [evalRule, operand, hcb y rfl I, hy]
        · show Answers _ _ (if y = 1 then _ else _)
          split
          · rename_i hy
            apply Answers.same a rfl ha (hscalars rfl a (by simp))
            intro I
            funext k
            simp [evalRule, operand, hcb y rfl I, hy]
          · exact .keep
      | none => exact .keep
  all_goals exact .keep

/-- **Constant folding simplifies.** -/
theorem run_returns {g : Graph} (hg : g.Frontend) : Returns (fun r => Refines g r.1) (run g) := by
  unfold run
  apply Meets.bind (classical_rewrite hg (fun _ _ => True) trivial ?_)
  · intro r hr
    exact hr
  · intro s i node emitted harity hin hscalars hord _
    apply Meets.bind (foldNode_returns harity hin hscalars hord)
    intro action haction
    exact ⟨haction, trivial⟩

end ConstFold
end CircomMpc
