import CircomMpc.Gadgets.Traces
import CircomMpc.Gadgets.Poseidon2

/-!
# `VmDriver`: the backend a program runs against

The trait as a record of functions over two parameters: the share type `S`, and the state `σ` a
driver threads through its calls (`&mut self`). The linear operations are local and cannot fail; the
rest may, and may communicate. `plainDriver` is the single-party reference driver, whose share is
the field element itself and which has no state.

A product of shares is one of many: `mul_vec` multiplies a round's factors in one call, so that a
driver needs one round of communication for all of them. The gadgets are calls too, over the inputs of
a whole batch and for the same reason; only Poseidon2 is told which slots are requested, since leaving
out the others saves it work.
-/

namespace CircomMpc

open Lib

/-- One fused `IsZero` trace together with its revealed result. -/
structure IsZeroRevealTrace (S : Type) where
  isZero : S
  inverse : S
  revealed : Fr

structure VmDriver (σ S : Type) where
  /-- `Share::default()`. -/
  default : S
  promote : Fr → S
  addSS : S → S → S
  subSS : S → S → S
  addSP : S → Fr → S
  subSP : S → Fr → S
  subPS : Fr → S → S
  mulSP : S → Fr → S
  /-- One complete multiplication stage, in a single call. -/
  mulVec : List S → List S → σ → Except RunError (List S × σ)
  /-- `open`: reveals every share. -/
  openShares : List S → σ → Except RunError (List Fr × σ)
  poseidon2RequestedTraces :
    (t : Nat) → (states : List S) → (resultRequests resultOffsets : List Nat) → σ →
      Except RunError (List S × σ)
  num2bitsTraces : (n : Nat) → List S → σ → Except RunError (List S × σ)
  isZeroTraces : List S → σ → Except RunError (List S × σ)
  isZeroRevealTraces : List S → σ → Except RunError (List (IsZeroRevealTrace S) × σ)
  aliasCheckTraces : List S → σ → Except RunError (List S × σ)
  /-- Runs once, on the success path. -/
  finish : σ → Except RunError σ

/-- `alias_check_traces` in the clear: one trace per 254 inputs. -/
def aliasCheckTracesPlain (inputs : List Fr) : Except RunError (List Fr) := do
  ensure (inputs.length % 254 = 0) (.aliasCheckInputs inputs.length)
  let traces ← (Poseidon2.chunksExact 254 inputs).mapM AliasCheck.plainTrace
  pure traces.flatten

/-- `PlainDriver`. -/
def plainDriver (host : Poseidon2.Host) : VmDriver Unit Fr where
  default := 0
  promote value := value
  addSS a b := a + b
  subSS a b := a - b
  addSP a b := a + b
  subSP a b := a - b
  subPS a b := a - b
  mulSP a b := a * b
  mulVec a b s := .ok ((a.zip b).map fun (a, b) => a * b, s)
  openShares shares s := .ok (shares, s)
  poseidon2RequestedTraces t states resultRequests resultOffsets s := do
    let values ← Poseidon2.plainTraceRequested host t states resultRequests resultOffsets
    pure (values, s)
  num2bitsTraces n inputs s := do
    let values ← Num2Bits.plainTraceMany host.isizeMax n inputs
    pure (values, s)
  isZeroTraces inputs s := .ok (IsZero.plainTraceMany inputs, s)
  isZeroRevealTraces inputs s :=
    .ok (inputs.map fun x =>
      let trace := IsZero.plainTrace x
      let isZero := trace.getD 0 0
      { isZero, inverse := trace.getD 1 0, revealed := isZero }, s)
  aliasCheckTraces inputs s := do
    let values ← aliasCheckTracesPlain inputs
    pure (values, s)
  finish s := .ok s

@[simp] theorem plainDriver_finish (host : Poseidon2.Host) (s : Unit) :
    (plainDriver host).finish s = .ok s := rfl

@[simp] theorem plainDriver_openShares (host : Poseidon2.Host) (shares : List Fr) (s : Unit) :
    (plainDriver host).openShares shares s = .ok (shares, s) := rfl

end CircomMpc
