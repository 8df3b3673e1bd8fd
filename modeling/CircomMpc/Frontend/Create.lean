import CircomMpc.Frontend.Hierarchy

/-!
# Instances, where they are created

`handle_create_cmp_bucket` for a template the compiler services itself: the template's name says which
gadget it is, its shape is checked against that gadget's, and its instances are pushed at consecutive
offsets. What comes out is canonical, which is all inlining asks of a gadget.

The check compares three counts with the kind's: inputs, outputs, and the intermediates, which are the
span circom's layout reserves for an instance less the other two. The spans are a parameter, since
they are summed over circom's own template table. Nothing else a gadget's template says is looked at:
its body is not lowered.
-/

namespace CircomMpc
namespace Frontend

open Lib

/-- What the frontend reads of a template it does not compile. -/
structure TemplateCode where
  name : String
  header : String
  numberOfInputs : Nat
  numberOfOutputs : Nat

/-- The fields of a `CreateCmpBucket` that place its instances. -/
structure CreateCmpBucket where
  signalOffset : Nat
  signalOffsetJump : Nat
  numberOfCmp : Nat

inductive CreateError where
  | nonCanonical (name : String)
  | poseidon2Width (t : Nat)
  | revealCounts
  | notPrecomputable (enclosing name : String)
  | noSpan (header : String)
deriving DecidableEq, Repr

def CreateError.text : CreateError → String
  | .nonCanonical name => s!"non-canonical {name} shape"
  | .poseidon2Width t => s!"unsupported Poseidon2 width {t}"
  | .revealCounts => "TACEO_REVEAL input/output counts differ"
  | .notPrecomputable enclosing name =>
    s!"`{enclosing}` wraps `{name}`, but only Poseidon2 can be host-precomputed"
  | .noSpan header => s!"no signal-span entry for gadget template `{header}`"

/-- The gadget a template is, by its name; `none` for a template that is compiled. -/
def gadgetKind (code : TemplateCode) : Except CreateError (Option GadgetKind) :=
  if code.name = "Poseidon2" then do
    ensure (code.numberOfInputs = code.numberOfOutputs) (.nonCanonical "Poseidon2")
    let t ← orElse (.poseidon2Width code.numberOfInputs) (Poseidon2Width.new? code.numberOfInputs)
    pure (some (.poseidon2 t))
  else if code.name = "Num2Bits" then do
    ensure (code.numberOfInputs = 1) (.nonCanonical "Num2Bits")
    pure (some (.num2Bits code.numberOfOutputs))
  else if code.name = "IsZero" then do
    ensure (code.numberOfInputs = 1 ∧ code.numberOfOutputs = 1) (.nonCanonical "IsZero")
    pure (some .isZero)
  else if code.name = "AliasCheck" then do
    ensure (code.numberOfInputs = 254 ∧ code.numberOfOutputs = 0) (.nonCanonical "AliasCheck")
    pure (some .aliasCheck)
  else if code.name = "TACEO_REVEAL" then do
    ensure (code.numberOfInputs = code.numberOfOutputs) .revealCounts
    pure (some (.reveal code.numberOfInputs))
  else
    pure none

def GadgetKind.isPoseidon2 : GadgetKind → Bool
  | .poseidon2 _ => true
  | _ => false

/-- `push_instances`. -/
def pushInstances (bucket : CreateCmpBucket) (make : Nat → SubGraphInstance)
    (subGraphs : List SubGraphInstance) : List SubGraphInstance :=
  ((List.range bucket.numberOfCmp).foldl
    (fun (acc : List SubGraphInstance × Nat) _ =>
      (acc.1 ++ [make acc.2], acc.2 + bucket.signalOffsetJump))
    (subGraphs, bucket.signalOffset)).1

/-- The gadget arm of `handle_create_cmp_bucket`, inside the template `enclosing`. -/
def createGadget (enclosing : String) (precomputedGadgets : Bool)
    (gadgetSpans : String → Option Nat) (code : TemplateCode) (bucket : CreateCmpBucket)
    (kind : GadgetKind) (subGraphs : List SubGraphInstance) :
    Except CreateError (List SubGraphInstance) := do
  let precomputed := precomputedGadgets && decide (enclosing = "TACEO_PRECOMPUTATION_Poseidon2")
  ensure (precomputed = true → GadgetKind.isPoseidon2 kind = true)
    (.notPrecomputable enclosing code.name)
  let span ← orElse (.noSpan code.header) (gadgetSpans code.header)
  pure (pushInstances bucket (fun signalOffset => .gadget {
    kind
    header := code.header
    signalOffset
    numInputs := code.numberOfInputs
    numOutputs := code.numberOfOutputs
    numIntermediates := span - code.numberOfInputs - code.numberOfOutputs
    precomputed }) subGraphs)

/-- The instances of a bucket stand `signal_offset_jump` apart. -/
theorem pushInstances_eq (bucket : CreateCmpBucket) (make : Nat → SubGraphInstance)
    (subGraphs : List SubGraphInstance) :
    pushInstances bucket make subGraphs = subGraphs ++ (List.range bucket.numberOfCmp).map
      fun k => make (bucket.signalOffset + k * bucket.signalOffsetJump) := by
  have hloop : ∀ n, (List.range n).foldl
      (fun (acc : List SubGraphInstance × Nat) _ =>
        (acc.1 ++ [make acc.2], acc.2 + bucket.signalOffsetJump))
      (subGraphs, bucket.signalOffset) =
        (subGraphs ++ (List.range n).map
          fun k => make (bucket.signalOffset + k * bucket.signalOffsetJump),
          bucket.signalOffset + n * bucket.signalOffsetJump) := by
    intro n
    induction n with
    | zero => simp
    | succ n ih =>
      rw [List.range_succ, List.foldl_append, ih, List.foldl_cons, List.foldl_nil, List.map_append,
        Nat.succ_mul, ← Nat.add_assoc, List.append_assoc]
      rfl
  unfold pushInstances
  rw [hloop]

/-- A recognized template has its gadget's inputs. -/
theorem gadgetKind_arity {code : TemplateCode} {kind : GadgetKind}
    (h : gadgetKind code = .ok (some kind)) : code.numberOfInputs = kind.arity := by
  unfold gadgetKind at h
  split at h
  · obtain ⟨_, h⟩ := seq_eq_ok.mp h
    obtain ⟨t, ht, h⟩ := bind_eq_ok.mp h
    cases h
    exact (Poseidon2Width.new?_eq_some (orElse_eq_ok.mp ht)).symm
  · split at h
    · obtain ⟨hshape, h⟩ := seq_eq_ok.mp h
      cases h
      exact ensure_eq_ok.mp hshape
    · split at h
      · obtain ⟨hshape, h⟩ := seq_eq_ok.mp h
        cases h
        exact (ensure_eq_ok.mp hshape).1
      · split at h
        · obtain ⟨hshape, h⟩ := seq_eq_ok.mp h
          cases h
          exact (ensure_eq_ok.mp hshape).1
        · split at h
          · obtain ⟨_, h⟩ := seq_eq_ok.mp h
            cases h
            rfl
          · cases h

/-- **Every gadget instance that is created is canonical**, and stands where its bucket says. -/
theorem createGadget_canonical {enclosing : String} {precomputedGadgets : Bool}
    {gadgetSpans : String → Option Nat} {code : TemplateCode} {bucket : CreateCmpBucket}
    {kind : GadgetKind} {subGraphs subGraphs' : List SubGraphInstance}
    (hkind : gadgetKind code = .ok (some kind))
    (h : createGadget enclosing precomputedGadgets gadgetSpans code bucket kind subGraphs =
      .ok subGraphs') :
    ∃ sites : List GadgetInstance, subGraphs' = subGraphs ++ sites.map .gadget ∧
      (∀ site ∈ sites, site.Canonical) ∧ sites.map (·.signalOffset) =
        (List.range bucket.numberOfCmp).map fun k =>
          bucket.signalOffset + k * bucket.signalOffsetJump := by
  unfold createGadget at h
  obtain ⟨hprecomputed, h⟩ := seq_eq_ok.mp h
  obtain ⟨span, _, h⟩ := bind_eq_ok.mp h
  rw [pushInstances_eq] at h
  cases h
  refine ⟨(List.range bucket.numberOfCmp).map fun k => ⟨kind, code.header,
    bucket.signalOffset + k * bucket.signalOffsetJump, code.numberOfInputs, code.numberOfOutputs,
    span - code.numberOfInputs - code.numberOfOutputs,
    precomputedGadgets && decide (enclosing = "TACEO_PRECOMPUTATION_Poseidon2")⟩, ?_, ?_, ?_⟩
  · rw [List.map_map]
    rfl
  · intro site hsite
    obtain ⟨k, _, rfl⟩ := List.mem_map.mp hsite
    refine ⟨gadgetKind_arity hkind, fun hpre => ?_⟩
    have hposeidon := ensure_eq_ok.mp hprecomputed hpre
    cases kind with
    | poseidon2 t => exact ⟨t, rfl⟩
    | reveal | num2Bits | isZero | aliasCheck => cases hposeidon
  · rw [List.map_map]
    rfl

/-- An instance that some template's creation has left. -/
def GadgetInstance.Created (site : GadgetInstance) : Prop :=
  ∃ (enclosing : String) (precomputedGadgets : Bool) (gadgetSpans : String → Option Nat)
    (code : TemplateCode) (bucket : CreateCmpBucket) (kind : GadgetKind)
    (instances : List SubGraphInstance), gadgetKind code = .ok (some kind) ∧
      createGadget enclosing precomputedGadgets gadgetSpans code bucket kind [] = .ok instances ∧
      .gadget site ∈ instances

theorem GadgetInstance.Created.canonical {site : GadgetInstance} (h : site.Created) :
    site.Canonical := by
  obtain ⟨_, _, _, _, _, _, _, hkind, hcreate, hmem⟩ := h
  obtain ⟨sites, rfl, hcanonical, _⟩ := createGadget_canonical hkind hcreate
  obtain ⟨site', hsite', heq⟩ := List.mem_map.mp hmem
  cases heq
  exact hcanonical _ hsite'

end Frontend
end CircomMpc
