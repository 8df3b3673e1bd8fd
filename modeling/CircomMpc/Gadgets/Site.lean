import CircomMpc.Gadgets.Traces
import CircomMpc.Gadgets.Poseidon2Requests

/-!
# The plain trace of one gadget site

What a site means, independently of any batch: `GadgetKind.plainTrace` takes the site's inputs to
its outputs followed by its intermediates. Graph evaluation, the virtual machine's batches and the
host's precomputation are all stated against this one function.

It is total: where a function of the source checks a length or may refuse an allocation, it takes
what the check lets pass, and that a batch's own checks let it pass is proved where the batch is.
-/

namespace CircomMpc

open Lib

/-- How many inputs one site reads. -/
def GadgetKind.arity : GadgetKind → Nat
  | .poseidon2 t => t.get
  | .num2Bits _ | .isZero => 1
  | .aliasCheck => 254
  | .reveal n => n

/-- `AliasCheck.plainTrace` on inputs of the right length. -/
def AliasCheck.trace (input : List Fr) : List Fr :=
  match AliasCheck.plainTrace input with
  | .ok trace => trace
  | .error _ => []

theorem AliasCheck.plainTrace_eq_ok {input : List Fr} (h : input.length = 254) :
    AliasCheck.plainTrace input = .ok (AliasCheck.trace input) ∧
      (AliasCheck.trace input).length = 519 := by
  obtain ⟨trace, htrace, hlen⟩ := AliasCheck.plainTrace_ok h
  have : AliasCheck.trace input = trace := by unfold AliasCheck.trace; rw [htrace]
  rw [this]
  exact ⟨htrace, hlen⟩

/-- One site's outputs and intermediates, in slot order. -/
def GadgetKind.plainTrace (host : Poseidon2.Host) : GadgetKind → List Fr → List Fr
  | .poseidon2 t, inputs =>
    (List.range (Poseidon2.resultSlots t.get)).map
      (Poseidon2.fullTrace t.get (host.constants t) inputs)
  | .num2Bits n, inputs => Num2Bits.bits (inputs.getD 0 0) n
  | .isZero, inputs => IsZero.plainTrace (inputs.getD 0 0)
  | .aliasCheck, inputs => AliasCheck.trace inputs
  | .reveal _, inputs => inputs

/-- A requested slot of a Poseidon2 site. -/
theorem GadgetKind.plainTrace_poseidon2_getD (host : Poseidon2.Host) (t : Poseidon2Width)
    (inputs : List Fr) {slot : Nat} (h : slot < Poseidon2.resultSlots t.get) :
    ((GadgetKind.poseidon2 t).plainTrace host inputs).getD slot 0 =
      Poseidon2.fullTrace t.get (host.constants t) inputs slot := by
  simp [plainTrace, List.getElem?_range h]

/-- One site of a batch: a gadget's trace, or the fused zero test's `[out, inv, revealed]`. -/
def BatchKind.plainTrace (host : Poseidon2.Host) : BatchKind → List Fr → List Fr
  | .gadget kind, inputs => kind.plainTrace host inputs
  | .precomputedPoseidon2 t, inputs => (GadgetKind.poseidon2 t).plainTrace host inputs
  | .isZeroReveal, inputs =>
    let trace := IsZero.plainTrace (inputs.getD 0 0)
    trace ++ [trace.getD 0 0]

end CircomMpc
