import CircomMpc.Frontend.Address
import CircomMpc.Frontend.Lower

/-!
# Templates under construction

Lowering only ever appends nodes. Every node reads earlier ones, every variable names a node that
exists, and the constant a node holds never changes once it is there; in particular evaluating it
neither panics nor recurses past the length of the list.

`Keeps` is what an instruction does for its caller: the template is well formed behind it, and where
the instruction produced a value, nodes were only appended and the value is one of them. A statement
may also rebind variables, so nothing is said there about the variables of before. One lemma for each
function of the lowering, and `handleInst_keeps` puts them together by recursion on the instruction.
-/

namespace CircomMpc
namespace Frontend

open Lib

/-- Every node reads the earlier nodes its operation asks for, and every variable is a node. It
    holds of the empty template and survives every step that returns. -/
structure GraphCompiler.WellFormed (c : GraphCompiler) : Prop where
  ordered : Ordered c.nodes
  arity : ∀ node ∈ c.nodes, node.op.arity = .ok node.inputs.length
  bound : ∀ i id, c.varToValue i = some id → id < c.nodes.length

/-- Nodes were appended, and nothing else changed: the variables name the same nodes, and the table
of constants is one for all templates. -/
structure Extends (c c' : GraphCompiler) : Prop where
  nodes : ∃ more, c'.nodes = c.nodes ++ more
  varToValue : c'.varToValue = c.varToValue
  constantTable : c'.constantTable = c.constantTable

theorem Extends.refl (c : GraphCompiler) : Extends c c :=
  ⟨⟨[], (List.append_nil _).symm⟩, rfl, rfl⟩

theorem Extends.trans {c₁ c₂ c₃ : GraphCompiler} (h₁ : Extends c₁ c₂) (h₂ : Extends c₂ c₃) :
    Extends c₁ c₃ := by
  obtain ⟨more₁, hn₁⟩ := h₁.nodes
  obtain ⟨more₂, hn₂⟩ := h₂.nodes
  refine ⟨⟨more₁ ++ more₂, ?_⟩, h₂.varToValue.trans h₁.varToValue,
    h₂.constantTable.trans h₁.constantTable⟩
  rw [hn₂, hn₁, List.append_assoc]

theorem Extends.length_le {c c' : GraphCompiler} (h : Extends c c') :
    c.nodes.length ≤ c'.nodes.length := by
  obtain ⟨more, hmore⟩ := h.nodes
  rw [hmore, List.length_append]
  exact Nat.le_add_right _ _

/-! ## The constant a node holds -/

theorem bothConstant_ok {f : Fr → Fr → Fr} {lhs rhs : Except Panic (Option Fr)} {l r : Option Fr}
    (hl : lhs = .ok l) (hr : rhs = .ok r) :
    bothConstant f lhs rhs = .ok (l.bind fun x => r.map (f x)) := by
  subst hl hr
  cases l <;> cases r <;> rfl

/-- A node's constant is found when its operands' are, and depends on nothing else. -/
theorem nodeConstant_congr {node : TemplateNode} (harity : node.op.arity = .ok node.inputs.length)
    {operand operand' : Nat → Except Panic (Option Fr)}
    (h : ∀ i < node.inputs.length, ∃ o, operand i = .ok o ∧ operand' i = .ok o) :
    ∃ o, nodeConstant node operand = .ok o ∧ nodeConstant node operand' = .ok o := by
  have hbinary : 2 = node.inputs.length → ∀ f : Fr → Fr → Fr, ∃ o,
      bothConstant f (operand 0) (operand 1) = .ok o ∧
        bothConstant f (operand' 0) (operand' 1) = .ok o := by
    intro hlen f
    obtain ⟨l, hl, hl'⟩ := h 0 (by omega)
    obtain ⟨r, hr, hr'⟩ := h 1 (by omega)
    exact ⟨_, bothConstant_ok hl hr, bothConstant_ok hl' hr'⟩
  rw [nodeConstant, nodeConstant]
  cases hop : node.op with
  | real op =>
    rw [hop] at harity
    cases op with
    | constant c => exact ⟨some c, rfl, rfl⟩
    | add | sub | mul => exact hbinary (Except.ok.inj harity) _
    | _ => exact ⟨none, rfl, rfl⟩
  | _ => exact ⟨none, rfl, rfl⟩

/-- In an ordered list a node's constant is found within its position, and what stands behind the
node does not matter. -/
theorem evalConstantNode_stable {nodes : List TemplateNode} (hord : Ordered nodes)
    (harity : ∀ node ∈ nodes, node.op.arity = .ok node.inputs.length) (more : List TemplateNode)
    (id : Nat) : ∀ fuel fuel' : Nat, id < nodes.length → id < fuel → id < fuel' →
      ∃ o, evalConstantNode nodes fuel id = .ok o ∧
        evalConstantNode (nodes ++ more) fuel' id = .ok o := by
  -- A node reads smaller numbers, so the induction is on the number, for any fuel above it.
  induction id using Nat.strong_induction_on with
  | _ id ih =>
    intro fuel fuel' hid hfuel hfuel'
    obtain ⟨fuel, rfl⟩ := Nat.exists_eq_add_of_lt hfuel
    obtain ⟨fuel', rfl⟩ := Nat.exists_eq_add_of_lt hfuel'
    have hnode : nodes[id]? = some nodes[id] := List.getElem?_eq_getElem hid
    have hread : index nodes id = (.ok nodes[id] : Except Panic _) := by
      rw [index, hnode, orElse_some]
    have hread' : index (nodes ++ more) id = (.ok nodes[id] : Except Panic _) := by
      rw [index, List.getElem?_append_left hid, hnode, orElse_some]
    rw [evalConstantNode, evalConstantNode, hread, hread', ok_bind, ok_bind]
    refine nodeConstant_congr (harity _ (List.getElem_mem hid)) fun i hi => ?_
    have hin : index nodes[id].inputs i = (.ok nodes[id].inputs[i] : Except Panic _) := by
      rw [index, List.getElem?_eq_getElem hi, orElse_some]
    have hback := hord id nodes[id] hnode nodes[id].inputs[i] (List.getElem_mem hi)
    rw [hin, ok_bind, ok_bind]
    exact ih _ hback _ _ (by omega) (by omega) (by omega)

theorem GraphCompiler.WellFormed.constantAt_extends {c c' : GraphCompiler} (hc : c.WellFormed)
    (h : Extends c c') {id : ValueId} (hid : id < c.nodes.length) :
    c'.constantAt id = c.constantAt id := by
  obtain ⟨more, hmore⟩ := h.nodes
  obtain ⟨o, ho, ho'⟩ := evalConstantNode_stable hc.ordered hc.arity more id c.nodes.length
    c'.nodes.length hid hid (lt_of_lt_of_le hid h.length_le)
  rw [GraphCompiler.constantAt, GraphCompiler.constantAt, ho, hmore]
  rwa [hmore] at ho'

/-- Evaluating a node never panics. -/
theorem GraphCompiler.WellFormed.constantAt_returns {c : GraphCompiler} (hc : c.WellFormed)
    {id : ValueId} (hid : id < c.nodes.length) : ∃ o, c.constantAt id = .ok o := by
  obtain ⟨o, ho, _⟩ := evalConstantNode_stable hc.ordered hc.arity [] id c.nodes.length
    c.nodes.length hid hid hid
  exact ⟨o, ho⟩

theorem GraphCompiler.WellFormed.constantVariable_extends {c c' : GraphCompiler} (hc : c.WellFormed)
    (h : Extends c c') (i : Nat) : c'.constantVariable i = c.constantVariable i := by
  rw [GraphCompiler.constantVariable, GraphCompiler.constantVariable, h.varToValue]
  cases hid : c.varToValue i with
  | none => rfl
  | some id => simp [hc.constantAt_extends h (hc.bound i id hid)]

/-! ## Pushing a node -/

theorem push_eq_ok {op : TemplateOp} {inputs : List ValueId} {c c' : GraphCompiler} {id : ValueId} :
    GraphCompiler.push op inputs c = .ok (id, c') ↔ op.arity = .ok inputs.length ∧
      id = c.nodes.length ∧ c' = { c with nodes := c.nodes ++ [⟨op, inputs⟩] } := by
  simp only [GraphCompiler.push, bind_eq_ok, panicking_eq_ok, pure_eq_ok, Prod.mk.injEq]
  constructor
  · rintro ⟨arity, har, ⟨⟩, hlen, rfl, rfl⟩
    rw [ensure_eq_ok] at hlen
    exact ⟨hlen ▸ har, rfl, rfl⟩
  · rintro ⟨har, rfl, rfl⟩
    exact ⟨_, har, (), ensure_of rfl, rfl, rfl⟩

theorem push_ok {op : TemplateOp} {inputs : List ValueId} {c : GraphCompiler}
    (har : op.arity = .ok inputs.length) : GraphCompiler.push op inputs c =
      .ok (c.nodes.length, { c with nodes := c.nodes ++ [⟨op, inputs⟩] }) :=
  push_eq_ok.mpr ⟨har, rfl, rfl⟩

/-- What a step that produces a value leaves behind: the template with more nodes, well formed, and
    the value among them. -/
structure Produced (c : GraphCompiler) (id : ValueId) (c' : GraphCompiler) : Prop where
  extended : Extends c c'
  wellFormed : c'.WellFormed
  bound : id < c'.nodes.length

theorem push_produced {op : TemplateOp} {inputs : List ValueId} {c c' : GraphCompiler}
    {id : ValueId} (hc : c.WellFormed) (hin : ∀ v ∈ inputs, v < c.nodes.length)
    (h : GraphCompiler.push op inputs c = .ok (id, c')) : Produced c id c' := by
  obtain ⟨har, rfl, rfl⟩ := push_eq_ok.mp h
  refine ⟨⟨⟨_, rfl⟩, rfl, rfl⟩, ⟨hc.ordered.push hin, ?_, ?_⟩, ?_⟩
  · intro node hnode
    rcases List.mem_append.mp hnode with hold | hnew
    · exact hc.arity node hold
    · rw [List.mem_singleton.mp hnew]
      exact har
  · intro i id hid
    rw [List.length_append]
    exact Nat.lt_add_right _ (hc.bound i id hid)
  · rw [List.length_append, List.length_singleton]
    exact Nat.lt_succ_self _

theorem Produced.of_push {op : TemplateOp} {inputs : List ValueId} {c c₁ c' : GraphCompiler}
    {id : ValueId} (h : Extends c c₁) (hc : c₁.WellFormed) (hin : ∀ v ∈ inputs, v < c₁.nodes.length)
    (hpush : GraphCompiler.push op inputs c₁ = .ok (id, c')) : Produced c id c' := by
  have hp := push_produced hc hin hpush
  exact ⟨h.trans hp.extended, hp.wellFormed, hp.bound⟩

/-! ## Inversion of the steps -/

theorem expectValue_eq_ok {operand : Lower (Option ValueId)} {c c' : GraphCompiler} {id : ValueId} :
    expectValue operand c = .ok (id, c') ↔ operand c = .ok (some id, c') := by
  simp only [expectValue, bind_eq_ok, panicking_eq_ok, orElse_eq_ok, pure_eq_ok, Prod.mk.injEq]
  constructor
  · rintro ⟨⟨o, c₁⟩, hop, id', rfl, rfl, rfl⟩
    exact hop
  · intro hop
    exact ⟨(some id, c'), hop, id, rfl, rfl, rfl⟩

/-- An operand is constant when it produces a node that holds a constant. -/
theorem evalConstantOperand_eq_some {operand : Lower (Option ValueId)} {c c' : GraphCompiler}
    {v : Fr} : evalConstantOperand operand c = .ok (some v, c') ↔
      ∃ id, operand c = .ok (some id, c') ∧ c'.constantAt id = .ok (some v) := by
  simp only [← expectValue_eq_ok, evalConstantOperand]
  cases hop : expectValue operand c with
  | error e => cases e <;> simp [pure_eq_ok]
  | ok r =>
    simp only [bind_eq_ok, panicking_eq_ok, pure_eq_ok, Prod.mk.injEq, Except.ok.injEq]
    constructor
    · rintro ⟨o, ho, rfl, rfl⟩
      exact ⟨r.1, rfl, ho⟩
    · rintro ⟨id, rfl, hid⟩
      exact ⟨some v, hid, rfl, rfl⟩

/-- An operand that is not constant either produced a node or was refused. -/
theorem evalConstantOperand_cases {operand : Lower (Option ValueId)} {c c' : GraphCompiler}
    {o : Option Fr} (h : evalConstantOperand operand c = .ok (o, c')) :
    c' = c ∨ ∃ id, operand c = .ok (some id, c') := by
  simp only [evalConstantOperand] at h
  split at h
  next => cases h
  next => exact .inl (congrArg Prod.snd (Except.ok.inj h)).symm
  next id c₁ hop =>
    obtain ⟨o', _, ho⟩ := bind_eq_ok.mp h
    obtain ⟨rfl, rfl⟩ := Prod.mk.inj (pure_eq_ok.mp ho)
    exact .inr ⟨id, expectValue_eq_ok.mp hop⟩

@[simp] theorem produced_eq_ok {x : Except BuildError (ValueId × GraphCompiler)}
    {r : Option ValueId × GraphCompiler} :
    produced x = .ok r ↔ ∃ id, x = .ok (id, r.2) ∧ r.1 = some id := by
  simp only [produced, bind_eq_ok, Prod.exists, pure_eq_ok]
  constructor
  · rintro ⟨id, c, hx, rfl⟩
    exact ⟨id, hx, rfl⟩
  · rintro ⟨id, hx, hr⟩
    exact ⟨id, r.2, hx, Prod.ext hr.symm rfl⟩

theorem pushRuntime_eq_ok {runtime : Op} {x : Except BuildError (List ValueId × GraphCompiler)}
    {id : ValueId} {c' : GraphCompiler} : pushRuntime runtime x = .ok (id, c') ↔
      ∃ operands c, x = .ok (operands, c) ∧
        GraphCompiler.push (.real runtime) operands c = .ok (id, c') := by
  simp only [pushRuntime, bind_eq_ok, Prod.exists]

theorem foldRemoved_eq_ok {line : Nat} {op : OperatorType} {lhs rhs : Lower (Option ValueId)}
    {c c' : GraphCompiler} {id : ValueId} :
    foldRemoved line op lhs rhs c = .ok (id, c') ↔
      ∃ l c₁ r c₂ v, evalConstantOperand lhs c = .ok (some l, c₁) ∧
        evalConstantOperand rhs c₁ = .ok (some r, c₂) ∧ foldBinary op l r = some v ∧
        GraphCompiler.pushConstantValue v c₂ = .ok (id, c') := by
  simp only [foldRemoved, bind_eq_ok]
  constructor
  · rintro ⟨⟨l, c₁⟩, hl, ⟨r, c₂⟩, hr, h⟩
    cases l with
    | none => cases h
    | some l =>
      cases r with
      | none => cases h
      | some r =>
        simp only at h
        split at h
        next v hv => exact ⟨l, c₁, r, c₂, v, hl, hr, hv, h⟩
        next => cases h
  · rintro ⟨l, c₁, r, c₂, v, hl, hr, hv, h⟩
    exact ⟨(some l, c₁), hl, (some r, c₂), hr, by simpa only [hv] using h⟩

/-- A run-time operator on two operands. -/
theorem expectValues_pair {a b : Instruction} {c c' : GraphCompiler} {ids : List ValueId} :
    expectValues [a, b] c = .ok (ids, c') ↔
      ∃ ida c₁ idb, handleInst a c = .ok (some ida, c₁) ∧
        handleInst b c₁ = .ok (some idb, c') ∧ ids = [ida, idb] := by
  simp only [expectValues, bind_eq_ok, pure_eq_ok, Prod.mk.injEq]
  constructor
  · rintro ⟨⟨ida, c₁⟩, ha, ⟨_, _⟩, ⟨⟨idb, c₂⟩, hb, ⟨_, _⟩, ⟨rfl, rfl⟩, rfl, rfl⟩, rfl, rfl⟩
    exact ⟨ida, c₁, idb, expectValue_eq_ok.mp ha, expectValue_eq_ok.mp hb, rfl⟩
  · rintro ⟨ida, c₁, idb, ha, hb, rfl⟩
    refine ⟨(ida, c₁), expectValue_eq_ok.mpr ha, ([idb], c'), ?_, rfl, rfl⟩
    exact ⟨(idb, c'), expectValue_eq_ok.mpr hb, ([], c'), rfl, rfl⟩

/-! ## Every step keeps a template well formed -/

/-- After a step: the template is well formed, and a step that produced a value only appended. -/
structure Kept (c : GraphCompiler) (value : Option ValueId) (c' : GraphCompiler) : Prop where
  wellFormed : c'.WellFormed
  produced : ∀ id, value = some id → Produced c id c'

/-- A step of the lowering keeps templates well formed. -/
def Keeps (operand : Lower (Option ValueId)) : Prop :=
  ∀ c : GraphCompiler, c.WellFormed →
    Meets (fun _ => True) (fun r => Kept c r.1 r.2) (operand c)

theorem Kept.of_produced {c c' : GraphCompiler} {id : ValueId} (h : Produced c id c') :
    Kept c (some id) c' :=
  ⟨h.wellFormed, fun _ hid => Option.some.inj hid ▸ h⟩

theorem Kept.none {c c' : GraphCompiler} (h : c'.WellFormed) : Kept c none c' :=
  ⟨h, fun _ hid => nomatch hid⟩

theorem push_keeps {op : TemplateOp} {inputs : List ValueId} {c : GraphCompiler}
    (hc : c.WellFormed) (hin : ∀ v ∈ inputs, v < c.nodes.length) :
    Meets (fun _ => True) (fun r => Produced c r.1 r.2) (GraphCompiler.push op inputs c) := by
  cases h : GraphCompiler.push op inputs c with
  | error e => exact trivial
  | ok r => exact push_produced hc hin h

theorem GraphCompiler.WellFormed.setVariable {c : GraphCompiler} (hc : c.WellFormed) (i : Nat)
    {value : ValueId} (hv : value < c.nodes.length) : (c.setVariable i value).WellFormed := by
  refine ⟨hc.ordered, hc.arity, fun j id hid => ?_⟩
  by_cases hj : j = i
  · rw [hj, GraphCompiler.setVariable_self, Option.some.injEq] at hid
    exact hid ▸ hv
  · rw [GraphCompiler.setVariable_of_ne hj] at hid
    exact hc.bound j id hid

theorem readValueAt_keeps {addressType : AddressType Instruction} {i : Nat} {c : GraphCompiler}
    (hc : c.WellFormed) :
    Meets (fun _ => True) (fun r => Produced c r.1 r.2) (readValueAt addressType i c) := by
  cases addressType with
  | «variable» =>
    cases hid : c.varToValue i with
    | none => simp [readValueAt, hid, panicking]
    | some id =>
      simp only [readValueAt, hid, orElse_some, panicking, ok_bind]
      exact ⟨Extends.refl c, hc, hc.bound i id hid⟩
  | signal => exact push_keeps hc (by simp)
  | subcmpSignal cmpAddress isOutput =>
    refine Meets.bind_any fun _ => Meets.bind_any fun _ => ?_
    exact push_keeps hc (by simp)

theorem writeValueAt_keeps {addressType : AddressType Instruction} {i : Nat} {value : ValueId}
    {c : GraphCompiler} (hc : c.WellFormed) (hv : value < c.nodes.length) :
    Meets (fun _ => True) GraphCompiler.WellFormed (writeValueAt addressType i value c) := by
  have hin : ∀ v ∈ [value], v < c.nodes.length := by simpa using hv
  cases addressType with
  | «variable» => exact hc.setVariable i hv
  | signal => exact Meets.bind (push_keeps hc hin) fun _ hr => hr.wellFormed
  | subcmpSignal cmpAddress isOutput =>
    refine Meets.bind_any fun _ => Meets.bind_any fun _ => ?_
    exact Meets.bind (push_keeps hc hin) fun _ hr => hr.wellFormed

theorem copyElements_keeps {srcAddressType destAddressType : AddressType Instruction}
    {srcBase destBase : Nat} : ∀ (n i : Nat) {c : GraphCompiler}, c.WellFormed →
      Meets (fun _ => True) GraphCompiler.WellFormed
        (copyElements srcAddressType destAddressType srcBase destBase n i c)
  | 0, _, _, hc => hc
  | n + 1, i, c, hc => by
    rw [copyElements]
    refine Meets.bind (readValueAt_keeps hc) fun r hr => ?_
    refine Meets.bind (writeValueAt_keeps hr.wellFormed hr.bound) fun c' hc' => ?_
    exact copyElements_keeps n (i + 1) hc'

theorem handleBulkStoreBucket_keeps {line size : Nat} {destAddressType : AddressType Instruction}
    {dest : LocationRule Instruction} {src : Instruction} {c : GraphCompiler} (hc : c.WellFormed) :
    Meets (fun _ => True) GraphCompiler.WellFormed
      (handleBulkStoreBucket line size destAddressType dest src c) := by
  unfold handleBulkStoreBucket
  split
  · refine Meets.bind_any fun _ => ?_
    split
    · refine Meets.bind_any fun _ => ?_
      exact copyElements_keeps _ _ hc
    · exact trivial
  · exact trivial

theorem storeValue_keeps {line : Nat} {destAddressType : AddressType Instruction}
    {dest : LocationRule Instruction} {value : ValueId} {c : GraphCompiler} (hc : c.WellFormed)
    (hv : value < c.nodes.length) : Meets (fun _ => True) GraphCompiler.WellFormed
      (storeValue line destAddressType dest value c) := by
  cases dest with
  | indexed location =>
    refine Meets.bind_any fun _ => ?_
    exact writeValueAt_keeps hc hv
  | mapped => exact trivial

theorem expectValue_keeps {operand : Lower (Option ValueId)} (h : Keeps operand)
    {c : GraphCompiler} (hc : c.WellFormed) :
    Meets (fun _ => True) (fun r => Produced c r.1 r.2) (expectValue operand c) := by
  refine Meets.bind (h c hc) fun r hr => ?_
  obtain ⟨value, c'⟩ := r
  cases value with
  | none => exact trivial
  | some id => exact hr.produced id rfl

theorem evalConstantOperand_keeps {operand : Lower (Option ValueId)} (h : Keeps operand)
    {c : GraphCompiler} (hc : c.WellFormed) :
    Meets (fun _ => True) (fun r => Extends c r.2 ∧ r.2.WellFormed)
      (evalConstantOperand operand c) := by
  cases hop : evalConstantOperand operand c with
  | error e => exact trivial
  | ok r =>
    rcases evalConstantOperand_cases hop with heq | ⟨id, hid⟩
    · exact ⟨heq ▸ Extends.refl c, heq ▸ hc⟩
    · have hkept := h c hc
      rw [hid] at hkept
      have hp := hkept.produced id rfl
      exact ⟨hp.extended, hp.wellFormed⟩

theorem foldRemoved_keeps {line : Nat} {op : OperatorType} {lhs rhs : Lower (Option ValueId)}
    (hl : Keeps lhs) (hr : Keeps rhs) {c : GraphCompiler} (hc : c.WellFormed) :
    Meets (fun _ => True) (fun r => Produced c r.1 r.2) (foldRemoved line op lhs rhs c) := by
  cases h : foldRemoved line op lhs rhs c with
  | error e => exact trivial
  | ok r =>
    obtain ⟨l, c₁, x, c₂, v, hlc, hrc, _, hpush⟩ := foldRemoved_eq_ok.mp h
    have hkl := evalConstantOperand_keeps hl hc
    rw [hlc] at hkl
    have hkr := evalConstantOperand_keeps hr hkl.2
    rw [hrc] at hkr
    exact Produced.of_push (hkl.1.trans hkr.1) hkr.2 (by simp) hpush

theorem produced_keeps {x : Except BuildError (ValueId × GraphCompiler)} {c : GraphCompiler}
    (h : Meets (fun _ => True) (fun r => Produced c r.1 r.2) x) :
    Meets (fun _ => True) (fun r => Kept c r.1 r.2) (produced x) :=
  Meets.bind h fun _ hr => Kept.of_produced hr

/-- The values of several operands. -/
structure ProducedAll (c : GraphCompiler) (ids : List ValueId) (c' : GraphCompiler) : Prop where
  extended : Extends c c'
  wellFormed : c'.WellFormed
  bound : ∀ id ∈ ids, id < c'.nodes.length

theorem addInductionVariableNode_keeps {varIndex value : Nat} {c : GraphCompiler}
    (hc : c.WellFormed) : Meets (fun _ => True) GraphCompiler.WellFormed
      (addInductionVariableNode varIndex value c) := by
  refine Meets.bind (push_keeps hc (by simp)) fun r hr => ?_
  exact hr.wellFormed.setVariable varIndex hr.bound

theorem addTerminalNode_keeps {varIndex : Nat} {roundTrips : List Nat} {step : Step}
    {c : GraphCompiler} (hc : c.WellFormed) : Meets (fun _ => True) GraphCompiler.WellFormed
      (addTerminalNode varIndex roundTrips step c) := by
  unfold addTerminalNode
  split
  · exact hc
  · split
    · exact addInductionVariableNode_keeps hc
    · refine Meets.bind (push_keeps hc (by simp)) fun r hr => ?_
      exact hr.wellFormed.setVariable varIndex hr.bound
    · exact hc

theorem foldBinaryCondition_keeps {op : OperatorType} {lhs rhs : Lower (Option ValueId)}
    (hl : Keeps lhs) (hr : Keeps rhs) {c : GraphCompiler} (hc : c.WellFormed) :
    Meets (fun _ => True) (fun r => r.2.WellFormed) (foldBinaryCondition op lhs rhs c) := by
  refine Meets.bind (evalConstantOperand_keeps hl hc) fun l hl => ?_
  obtain ⟨l, c₁⟩ := l
  cases l with
  | none => exact hl.2
  | some l =>
    refine Meets.bind (evalConstantOperand_keeps hr hl.2) fun r hr => ?_
    obtain ⟨r, c₂⟩ := r
    cases r with
    | none => exact hr.2
    | some r =>
      dsimp only
      split <;> exact hr.2

theorem foldTruth_keeps {operand : Lower (Option ValueId)} (h : Keeps operand) {c : GraphCompiler}
    (hc : c.WellFormed) :
    Meets (fun _ => True) (fun r => r.2.WellFormed) (foldTruth operand c) :=
  Meets.bind (evalConstantOperand_keeps h hc) fun _ hr => hr.2

theorem foldNegatedCondition_keeps {op : OperatorType} {operand : Lower (Option ValueId)}
    (h : Keeps operand) {c : GraphCompiler} (hc : c.WellFormed) :
    Meets (fun _ => True) (fun r => r.2.WellFormed) (foldNegatedCondition op operand c) :=
  Meets.bind (evalConstantOperand_keeps h hc) fun _ hr => hr.2

mutual

/-- **Every instruction keeps a template well formed, and an expression only appends to it.** -/
theorem handleInst_keeps : ∀ inst : Instruction, Keeps (handleInst inst)
  | .value .bigInt v, c, hc => by
    refine produced_keeps (Meets.bind_any fun x => ?_)
    exact push_keeps hc (by simp)
  | .value .u32 _, _, _ => trivial
  | .load _ addressType (.indexed location), c, hc => by
    refine Meets.bind_any fun i => ?_
    exact produced_keeps (readValueAt_keeps hc)
  | .load _ _ .mapped, _, _ => trivial
  | .compute line op stack, c, hc => by
    unfold handleInst
    split
    -- A run-time operator: the operands' nodes, and one that reads them.
    next runtime _ =>
      refine produced_keeps (Meets.bind (expectValues_keeps stack hc) fun r hr => ?_)
      refine (push_keeps hr.wellFormed hr.bound).post fun s hs => ?_
      exact ⟨hr.extended.trans hs.extended, hs.wellFormed, hs.bound⟩
    next =>
      split
      · exact trivial
      split
      · split
        -- A removed operator is folded, or the whole template is given up.
        next a b =>
          exact produced_keeps (foldRemoved_keeps (handleInst_keeps a) (handleInst_keeps b) hc)
        next => exact trivial
      · exact trivial
  | .store line size destAddressType dest src, c, hc => by
    unfold handleInst
    split
    · exact trivial
    split
    · refine Meets.bind (handleBulkStoreBucket_keeps hc) fun c' hc' => ?_
      exact Kept.none hc'
    · refine Meets.bind (expectValue_keeps (handleInst_keeps src) hc) fun r hr => ?_
      refine Meets.bind (storeValue_keeps hr.wellFormed hr.bound) fun c' hc' => ?_
      exact Kept.none hc'
  | .branch line cond ifBranch elseBranch, c, hc => by
    unfold handleInst
    refine Meets.bind ?_ fun (r : Option Bool × GraphCompiler) (hr : r.2.WellFormed) => ?_
    · split
      next a b =>
        exact foldBinaryCondition_keeps (handleInst_keeps a) (handleInst_keeps b) hc
      next a => exact foldNegatedCondition_keeps (handleInst_keeps a) hc
      next => exact hc
      next => exact foldTruth_keeps (handleInst_keeps cond) hc
    · obtain ⟨taken, c'⟩ := r
      dsimp only
      split
      · exact trivial
      · exact Meets.bind (handleAll_keeps ifBranch hr) fun _ h => Kept.none h
      · exact Meets.bind (handleAll_keeps elseBranch hr) fun _ h => Kept.none h
  | .loop line continueCondition body, c, hc => by
    unfold handleInst
    refine Meets.bind_any fun r => ?_
    refine Meets.bind (Meets.foldlM hc fun value _ c' hc' => ?_) fun c' hc' => ?_
    · refine Meets.bind (addInductionVariableNode_keeps hc') fun c₁ hc₁ => ?_
      exact handleBody_keeps line r.1 body hc₁
    · exact Meets.bind (addTerminalNode_keeps hc') fun _ h => Kept.none h
  | .ret _, _, _ => trivial
  | .assert, _, hc => Kept.none hc
  | .log _, _, _ => trivial

theorem expectValues_keeps : ∀ (insts : List Instruction) {c : GraphCompiler}, c.WellFormed →
    Meets (fun _ => True) (fun r => ProducedAll c r.1 r.2) (expectValues insts c)
  | [], c, hc => ⟨Extends.refl c, hc, by simp⟩
  | inst :: insts, c, hc => by
    rw [expectValues]
    refine Meets.bind (expectValue_keeps (handleInst_keeps inst) hc) fun r hr => ?_
    refine Meets.bind (expectValues_keeps insts hr.wellFormed) fun rs hrs => ?_
    refine ⟨hr.extended.trans hrs.extended, hrs.wellFormed, ?_⟩
    intro id hid
    rcases List.mem_cons.mp hid with rfl | hid
    · exact lt_of_lt_of_le hr.bound hrs.extended.length_le
    · exact hrs.bound id hid

theorem handleAll_keeps : ∀ (insts : List Instruction) {c : GraphCompiler}, c.WellFormed →
    Meets (fun _ => True) GraphCompiler.WellFormed (handleAll insts c)
  | [], _, hc => hc
  | inst :: insts, c, hc => by
    rw [handleAll]
    refine Meets.bind (handleInst_keeps inst c hc) fun r hr => ?_
    exact handleAll_keeps insts hr.wellFormed

theorem handleBody_keeps (line varIndex : Nat) : ∀ (insts : List Instruction) {c : GraphCompiler},
    c.WellFormed → Meets (fun _ => True) GraphCompiler.WellFormed (handleBody line varIndex insts c)
  | [], _, hc => hc
  | [_], _, hc => hc
  | inst :: next :: insts, c, hc => by
    rw [handleBody]
    refine Meets.bind_any fun _ => Meets.bind_any fun _ => ?_
    refine Meets.bind (handleInst_keeps inst c hc) fun r hr => ?_
    exact handleBody_keeps line varIndex (next :: insts) hr.wellFormed

end

end Frontend
end CircomMpc
