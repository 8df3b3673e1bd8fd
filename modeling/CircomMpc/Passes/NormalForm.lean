import CircomMpc.Ir.Stable
import CircomMpc.Passes.Optimize

/-!
# Normal forms of the classical passes

Each pass has a normal form it reaches in one walk and leaves alone afterwards: `Masked` and
`AllLive` for dead code, `Folded` for constant folding, `Distinct` for common subexpressions. What
makes the loop over them short is that a pass keeps the normal forms of the passes that ran in front
of it: a node's constant operands are a matter of operations, which merging and collecting keep, and
renaming tells no two nodes together that it kept apart.
-/

namespace CircomMpc

open Lib CircomMpc.Graph

/-! ## Nothing to fold -/

/-- The constant an operation is. -/
def Op.constant? : Op → Option Fr
  | .constant c => some c
  | _ => none

/-- The constant value `v` is, if its producer is one. -/
def constantAt (nodes : List Node) (v : ValueId) : Option Fr :=
  nodes[v]?.bind fun node => node.op.constant?

/-- An operation on two operands, known where they are constants, that folding gets rid of. These
    are the source's identities and no others; `c - x` is not among them. -/
inductive Op.Simplifies : Op → Option Fr → Option Fr → Prop
  | addConstants (x y : Fr) : Simplifies .add (some x) (some y)
  | subConstants (x y : Fr) : Simplifies .sub (some x) (some y)
  | mulConstants (x y : Fr) : Simplifies .mul (some x) (some y)
  /-- `0 + x` -/
  | zeroAdd (b : Option Fr) : Simplifies .add (some 0) b
  /-- `x + 0` -/
  | addZero (a : Option Fr) : Simplifies .add a (some 0)
  /-- `x - 0` -/
  | subZero (a : Option Fr) : Simplifies .sub a (some 0)
  /-- `0 * x` -/
  | zeroMul (b : Option Fr) : Simplifies .mul (some 0) b
  /-- `x * 0` -/
  | mulZero (a : Option Fr) : Simplifies .mul a (some 0)
  /-- `1 * x` -/
  | oneMul (b : Option Fr) : Simplifies .mul (some 1) b
  /-- `x * 1` -/
  | mulOne (a : Option Fr) : Simplifies .mul a (some 1)

/-- A node folding gets rid of. Whether it does depends on the node and on which of its operands are
    constants, not on their place in the list. -/
def Foldable (nodes : List Node) (node : Node) : Prop :=
  ∃ a b, node.inputs = [a, b] ∧ node.op.Simplifies (constantAt nodes a) (constantAt nodes b)

/-- No `Add`, `Sub` or `Mul` has two constant operands or matches an identity. -/
def Graph.Folded (g : Graph) : Prop := ∀ node ∈ g.nodes, ¬ Foldable g.nodes node

/-! ## No two alike -/

/-- Two nodes with the same operation and the same inputs, up to the order for `Add` and `Mul`: what
    merging takes for one node. -/
def Twin (a b : Node) : Prop :=
  a.op = b.op ∧
    (a.inputs = b.inputs ∨ (a.op = .add ∨ a.op = .mul) ∧ a.inputs.Perm b.inputs)

/-- No two pure nodes are twins. -/
def Graph.Distinct (g : Graph) : Prop :=
  ∀ (i j : ValueId) (a b : Node), g.nodes[i]? = some a → g.nodes[j]? = some b →
    a.op.isPure = true → Twin a b → i = j

/-! ## Nothing dead -/

/-- With a witness projection, an output names a signal it addresses. -/
def Graph.Masked (g : Graph) : Prop :=
  g.signalToWitness ≠ [] → ∀ o ∈ g.outputs, o.1 + 1 ∈ g.signalToWitness

/-- A matter of which signals are bound. -/
theorem Graph.Masked.of_signals {g g' : Graph} (h : g.Masked)
    (hwitness : g'.signalToWitness = g.signalToWitness)
    (hsignals : g'.outputs.map Prod.fst = g.outputs.map Prod.fst) : g'.Masked := by
  intro hne o ho
  have hmem : o.1 ∈ g.outputs.map Prod.fst := hsignals ▸ List.mem_map_of_mem ho
  obtain ⟨o', ho', hsame⟩ := List.mem_map.mp hmem
  rw [hwitness] at hne ⊢
  rw [← hsame]
  exact h hne o' ho'

/-- Every node is reachable from an output or from a gadget node. -/
def Graph.AllLive (g : Graph) : Prop := ∀ v < g.nodes.length, Live g v

/-! ## Operands under a renaming -/

theorem constantAt_append {nodes more : List Node} {v : ValueId} (hv : v < nodes.length) :
    constantAt (nodes ++ more) v = constantAt nodes v := by
  unfold constantAt
  rw [List.getElem?_append_left hv]

/-- Two operand lists that are the same constants in the same places. -/
def SameConstants (nodes nodes' : List Node) (inputs inputs' : List ValueId) : Prop :=
  List.Forall₂ (fun v u => constantAt nodes' u = constantAt nodes v) inputs inputs'

/-- Whether a node can be folded is a matter of its operation and its constant operands. -/
theorem Foldable.transport {nodes nodes' : List Node} {node node' : Node}
    (hop : node'.op = node.op) (hinputs : SameConstants nodes nodes' node.inputs node'.inputs)
    (h : Foldable nodes' node') : Foldable nodes node := by
  obtain ⟨a', b', hpair, hsimplifies⟩ := h
  rw [SameConstants, hpair] at hinputs
  obtain ⟨a, rest, ha, hrest, hab⟩ := List.forall₂_cons_right_iff.mp hinputs
  obtain ⟨b, rest', hb, hrest', hbs⟩ := List.forall₂_cons_right_iff.mp hrest
  cases hrest'
  subst hbs
  refine ⟨a, b, hab, ?_⟩
  rw [← hop, ← ha, ← hb]
  exact hsimplifies

theorem Foldable.of_append {nodes more : List Node} {node : Node}
    (hin : ∀ v ∈ node.inputs, v < nodes.length) (h : Foldable (nodes ++ more) node) :
    Foldable nodes node := by
  apply h.transport rfl
  apply List.forall₂_same.mpr
  intro v hv
  exact constantAt_append (hin v hv)

/-- A renaming that keeps operations keeps constants. -/
theorem sameConstants_of_renamed {nodes nodes' : List Node} {remap : List (Option ValueId)}
    {inputs inputs' : List ValueId} (hin : ∀ v ∈ inputs, v < nodes.length)
    (hkept : ∀ (j t : Nat) (node : Node), remap[j]? = some (some t) → nodes[j]? = some node →
      ∃ args, nodes'[t]? = some ⟨node.op, args⟩)
    (hren : Renamed remap inputs inputs') : SameConstants nodes nodes' inputs inputs' := by
  induction hren with
  | nil => exact .nil
  | @cons v u inputs inputs' hvu _ ih =>
    refine .cons ?_ (ih fun w hw => hin w (by simp [hw]))
    obtain ⟨node, hv⟩ : ∃ node, nodes[v]? = some node :=
      ⟨_, List.getElem?_eq_getElem (hin v (by simp))⟩
    obtain ⟨args, hu⟩ := hkept v u node hvu hv
    unfold constantAt
    rw [hv, hu]
    rfl

/-- The references of a node that stands in an ordered list point into it. -/
theorem inputs_lt {nodes : List Node} (hord : Ordered nodes) {node : Node}
    (hnode : node ∈ nodes) {v : ValueId} (hv : v ∈ node.inputs) : v < nodes.length := by
  obtain ⟨q, hq, hget⟩ := List.getElem_of_mem hnode
  exact (hord q node (hget ▸ List.getElem?_eq_getElem hq) v hv).trans hq

/-! ## Folding folds everything -/

namespace ConstFold

variable {emitted : List Node} {node : Node}

theorem constantOf_eq {v : ValueId} (hv : v < emitted.length) :
    constantOf emitted v = .ok (constantAt emitted v) := by
  have hget : emitted[v]? = some emitted[v] := List.getElem?_eq_getElem hv
  have hread : index emitted v = .ok emitted[v] := by rw [index, hget, orElse_some]
  unfold constantOf constantAt
  rw [hread, hget, ok_bind, Option.bind_some]
  cases emitted[v].op <;> rfl

/-- What folding answers, and when it keeps a node. The values are not mentioned: that they are
    right is `Answers`, of the same walk. -/
inductive Folds (emitted : List Node) (node : Node) : RewriteAction → Prop
  | keep (h : ¬ Foldable emitted node) : Folds emitted node .keep
  | same (target : ValueId) (htarget : target < emitted.length) (h : Foldable emitted node) :
      Folds emitted node (.replaceWith target)
  | constant (c : Fr) (h : Foldable emitted node) : Folds emitted node (.emit ⟨.constant c, []⟩)

/-- Folding looks at three operations only. -/
theorem simplifies_binary {op : Op} {ca cb : Option Fr} (h : op.Simplifies ca cb) :
    op = .add ∨ op = .sub ∨ op = .mul := by
  cases h <;> simp

/-- A binary node whose operands are known where they are constants. -/
theorem foldable_pair {op : Op} {a b : ValueId} :
    Foldable emitted ⟨op, [a, b]⟩ ↔ op.Simplifies (constantAt emitted a) (constantAt emitted b) := by
  constructor
  · rintro ⟨a', b', hpair, hsimplifies⟩
    cases hpair
    exact hsimplifies
  · intro h
    exact ⟨a, b, rfl, h⟩

/-- What folding answers for a binary node, given its constant operands. -/
def foldPair (op : Op) (a b : ValueId) (ca cb : Option Fr) : RewriteAction :=
  match op, ca, cb with
  | .add, some x, some y => .emit ⟨.constant (x + y), []⟩
  | .add, some x, none => if x = 0 then .replaceWith b else .keep
  | .add, none, some y => if y = 0 then .replaceWith a else .keep
  | .sub, some x, some y => .emit ⟨.constant (x - y), []⟩
  | .sub, none, some y => if y = 0 then .replaceWith a else .keep
  | .mul, some x, some y => .emit ⟨.constant (x * y), []⟩
  | .mul, some x, none =>
    if x = 0 then .emit ⟨.constant 0, []⟩ else if x = 1 then .replaceWith b else .keep
  | .mul, none, some y =>
    if y = 0 then .emit ⟨.constant 0, []⟩ else if y = 1 then .replaceWith a else .keep
  | _, _, _ => .keep

theorem foldNode_pair {op : Op} {a b : ValueId} (ha : a < emitted.length)
    (hb : b < emitted.length) : foldNode ⟨op, [a, b]⟩ emitted =
      .ok (foldPair op a b (constantAt emitted a) (constantAt emitted b)) := by
  have hnew : ∀ c, emitConstant c = .ok (.emit ⟨.constant c, []⟩) := fun _ => rfl
  cases op
  case add | sub | mul =>
    show (constantOf emitted a >>= fun ca => constantOf emitted b >>= fun cb => _) = _
    rw [constantOf_eq ha, constantOf_eq hb, ok_bind, ok_bind]
    cases constantAt emitted a <;> cases constantAt emitted b <;> simp only [foldPair, hnew]
    all_goals (try split) <;> rfl
  all_goals rfl

/-- Every branch of the folding, and why the node is or is not foldable there. -/
theorem foldPair_folds {op : Op} {a b : ValueId} {ca cb : Option Fr} (ha : a < emitted.length)
    (hb : b < emitted.length) (hfold : Foldable emitted ⟨op, [a, b]⟩ ↔ op.Simplifies ca cb) :
    Folds emitted ⟨op, [a, b]⟩ (foldPair op a b ca cb) := by
  -- The four answers, each with what has to be shown for it.
  have hkeep : (¬ op.Simplifies ca cb) → Folds emitted ⟨op, [a, b]⟩ .keep :=
    fun h => .keep fun hfoldable => h (hfold.mp hfoldable)
  have hconstant : op.Simplifies ca cb → ∀ c, Folds emitted ⟨op, [a, b]⟩
      (.emit ⟨.constant c, []⟩) := fun h c => .constant c (hfold.mpr h)
  have hsameA : op.Simplifies ca cb → Folds emitted ⟨op, [a, b]⟩ (.replaceWith a) :=
    fun h => .same a ha (hfold.mpr h)
  have hsameB : op.Simplifies ca cb → Folds emitted ⟨op, [a, b]⟩ (.replaceWith b) :=
    fun h => .same b hb (hfold.mpr h)
  unfold foldPair
  split
  · exact hconstant (.addConstants _ _) _
  · split
    · rename_i hx
      exact hsameB (hx ▸ .zeroAdd _)
    · exact hkeep fun h => by cases h; contradiction
  · split
    · rename_i hy
      exact hsameA (hy ▸ .addZero _)
    · exact hkeep fun h => by cases h; contradiction
  · exact hconstant (.subConstants _ _) _
  · split
    · rename_i hy
      exact hsameA (hy ▸ .subZero _)
    · exact hkeep fun h => by cases h; contradiction
  · exact hconstant (.mulConstants _ _) _
  · split
    · rename_i hx
      exact hconstant (hx ▸ .zeroMul _) _
    · split
      · rename_i hx
        exact hsameB (hx ▸ .oneMul _)
      · exact hkeep fun h => by cases h <;> contradiction
  · split
    · rename_i hy
      exact hconstant (hy ▸ .mulZero _) _
    · split
      · rename_i hy
        exact hsameA (hy ▸ .mulOne _)
      · exact hkeep fun h => by cases h <;> contradiction
  · -- What is left has no constant operand, or is `c - x`.
    apply hkeep
    intro h
    cases h with
    | addConstants | subConstants | mulConstants => simp_all
    | zeroAdd | zeroMul | oneMul => cases cb <;> simp_all
    | addZero | subZero | mulZero | mulOne => cases ca <;> simp_all

theorem foldNode_folds (harity : ∀ arity ∈ node.op.fixedArity, node.inputs.length = arity)
    (hin : ∀ u ∈ node.inputs, u < emitted.length) :
    Returns (Folds emitted node) (foldNode node emitted) := by
  obtain ⟨op, inputs⟩ := node
  cases op
  case add | sub | mul =>
    obtain ⟨a, b, rfl⟩ := eq_pair (harity 2 rfl)
    have ha : a < emitted.length := hin a (by simp)
    have hb : b < emitted.length := hin b (by simp)
    rw [foldNode_pair ha hb]
    exact foldPair_folds ha hb foldable_pair
  all_goals
    refine .keep ?_
    rintro ⟨a, b, _, hsimplifies⟩
    simpa using simplifies_binary hsimplifies

/-- A node that cannot be folded is kept. -/
theorem foldNode_keep (harity : ∀ arity ∈ node.op.fixedArity, node.inputs.length = arity)
    (hin : ∀ u ∈ node.inputs, u < emitted.length) (h : ¬ Foldable emitted node) :
    foldNode node emitted = .ok .keep := by
  obtain ⟨action, hrun, haction⟩ := (foldNode_folds harity hin).ok_of_never
  cases haction with
  | keep => exact hrun
  | same _ _ hfoldable => exact absurd hfoldable h
  | constant _ hfoldable => exact absurd hfoldable h

/-- What the walk has emitted so far: nothing left to fold. The first two clauses are there to carry
    the third over a push, which looks operands up in a longer list. -/
structure Folding (w : Rewriting Unit) : Prop where
  ordered : Ordered w.nodes
  valid : ∀ j t : Nat, w.remap[j]? = some (some t) → t < w.nodes.length
  folded : ∀ node ∈ w.nodes, ¬ Foldable w.nodes node

theorem Folding.after {n i : Nat} {w : Rewriting Unit} {action : RewriteAction}
    (hreached : Reached n i w.remap) (hw : Folding w) (hin : ∀ u ∈ node.inputs, u < w.nodes.length)
    (haction : Folds w.nodes node action) : Folding (w.after i node () action) := by
  -- A node kept earlier was not foldable, and more nodes behind it change nothing.
  have hold : ∀ more, ∀ old ∈ w.nodes, ¬ Foldable (w.nodes ++ more) old := by
    intro more old hmem hfoldable
    exact hw.folded old hmem (hfoldable.of_append fun v hv => inputs_lt hw.ordered hmem hv)
  have hvalid : ∀ more t, t < (w.nodes ++ more).length → ∀ j u : Nat,
      (w.remap.set i (some t))[j]? = some (some u) → u < (w.nodes ++ more).length := by
    intro more t ht j u hju
    rcases hreached.entry hju with ⟨_, rfl⟩ | hju
    · exact ht
    · rw [List.length_append]
      exact (hw.valid j u hju).trans_le (Nat.le_add_right _ _)
  cases haction with
  | keep h =>
    refine ⟨hw.ordered.push hin, hvalid _ _ (by simp [RewriteAction.target, RewriteAction.pushed]), ?_⟩
    intro new hnew
    rcases List.mem_append.mp hnew with hmem | hmem
    · exact hold _ new hmem
    · rw [List.mem_singleton.mp hmem]
      exact fun hfoldable => h (hfoldable.of_append hin)
  | same target htarget _ =>
    refine ⟨?_, hvalid [] target (by simpa using htarget), ?_⟩
    · simpa [Rewriting.after, RewriteAction.pushed] using hw.ordered
    · simpa [Rewriting.after, RewriteAction.pushed] using hw.folded
  | constant c _ =>
    refine ⟨hw.ordered.push (by simp), hvalid _ _ (by simp [RewriteAction.target, RewriteAction.pushed]), ?_⟩
    intro new hnew
    rcases List.mem_append.mp hnew with hmem | hmem
    · exact hold _ new hmem
    · rw [List.mem_singleton.mp hmem]
      rintro ⟨a, b, hpair, _⟩
      cases hpair

/-- **One walk folds everything**, and a walk that reports no change made none. -/
theorem run_folds {g : Graph} (hg : g.Frontend) :
    Returns (fun r => r.1.Folded ∧ (r.2 = false → r.1 = g) ∧
      r.1.outputs.map Prod.fst = g.outputs.map Prod.fst) (run g) := by
  unfold run
  apply Meets.bind (@rewrite_unchanged _ g _ () (fun _ w => Folding w) hg.ordered hg.outputs ?_ ?_)
  · rintro r ⟨⟨w, hw, hrewritten⟩, hsame⟩
    refine ⟨?_, hsame, hrewritten.outputs.signals⟩
    show ∀ node ∈ r.1.nodes, ¬ Foldable r.1.nodes node
    rw [hrewritten.graph]
    exact hw.folded
  · refine ⟨?_, ?_, ?_⟩
    · intro i node hnode
      cases hnode
    · intro j t hjt
      cases List.eq_of_mem_replicate (List.mem_of_getElem? hjt)
    · intro node hnode
      cases hnode
  · intro i node w inputs hnode hreached hw hren
    have hin : ∀ u ∈ inputs, u < w.nodes.length := by
      intro u hu
      obtain ⟨v, _, hvu⟩ := hren.source hu
      exact hw.valid v u hvu
    have harity : ∀ arity ∈ node.op.fixedArity, inputs.length = arity := by
      intro arity h
      rw [hren.length]
      exact hg.arity node (List.mem_of_getElem? hnode) arity h
    have hfolds : Returns (Folds w.nodes ⟨node.op, inputs⟩)
        (foldNode ⟨node.op, inputs⟩ w.nodes) := foldNode_folds harity hin
    apply Meets.bind hfolds
    intro action haction
    refine ⟨?_, hw.after hreached hin haction⟩
    cases haction <;> exact RewriteAction.noConfusion

/-- **Folding leaves a folded graph alone.** -/
theorem run_of_folded {g : Graph} (hg : g.Frontend) (h : g.Folded) : run g = .ok (g, false) := by
  -- The callback answers `keep`, or the node would have been foldable.
  have hkeep : ∀ (i : Nat) (node : Node), g.nodes[i]? = some node →
      foldNode node (g.nodes.take i) = .ok .keep := by
    intro i node hnode
    have hi : i < g.nodes.length := (List.getElem?_eq_some_iff.mp hnode).1
    have hmem : node ∈ g.nodes := List.mem_of_getElem? hnode
    have hin : ∀ u ∈ node.inputs, u < (g.nodes.take i).length := by
      intro u hu
      rw [List.length_take, Nat.min_eq_left hi.le]
      exact hg.ordered i node hnode u hu
    apply foldNode_keep (hg.arity node hmem) hin
    intro hfoldable
    apply h node hmem
    apply hfoldable.transport rfl
    apply List.forall₂_same.mpr
    intro v hv
    rw [← constantAt_append (hin v hv), List.take_append_drop]
  have hrewrite : ∃ s, g.rewrite (fun _ _ node emitted => do
      pure ((), ← foldNode node emitted)) () = .ok (g, s, false) := by
    apply rewrite_of_keep (P := fun _ _ => True) hg.ordered hg.outputs trivial
    intro i node s hnode _
    refine ⟨(), ?_, trivial⟩
    rw [hkeep i node hnode]
    rfl
  obtain ⟨s, hrun⟩ := hrewrite
  unfold run
  rw [hrun]
  rfl

end ConstFold

end CircomMpc
