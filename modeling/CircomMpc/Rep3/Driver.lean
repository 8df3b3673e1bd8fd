import CircomMpc.Rep3.Poseidon2

/-!
# The three-party driver

`driver/rep3.rs`. The driver's state is the protocol's and the mask pool; a new driver prepares the
pool its program's budget asks for, and finishing checks that all of it was used. `Vm::run` takes
the driver by value, so a run that fails leaves nobody with its pool.

Poseidon2 is the only service that looks at the pool. Every other call is one of the protocol's beside
it (`besidePool`), and the linear operations are the share type's own.
-/

namespace CircomMpc

open Lib

variable {σ S α : Type} (net : Rep3 σ S)

/-- A call that leaves the pool alone. -/
def besidePool (f : σ → Except RunError (α × σ)) (state : σ × Poseidon2.MaskPool S) :
    Except RunError (α × (σ × Poseidon2.MaskPool S)) := do
  let (a, s) ← f state.1
  pure (a, (s, state.2))

/-- `Rep3Driver`. -/
def rep3Driver (host : Poseidon2.Host) : VmDriver (σ × Poseidon2.MaskPool S) S where
  default := net.default
  promote := net.promote
  addSS := net.add
  subSS := net.sub
  addSP := net.addPublic
  subSP := net.subSharedByPublic
  subPS := net.subPublicByShared
  mulSP := net.mulPublic
  mulVec a b := besidePool fun s =>
    let (locals, s) := net.localMulVec a b s
    call (net.reshareVec locals s)
  openShares shares := besidePool fun s => call (net.openVec shares s)
  poseidon2RequestedTraces t states resultRequests resultOffsets state :=
    (Poseidon2.rep3TraceRequestedPreprocessed net host t states resultRequests resultOffsets
      state).mapError Prod.fst
  num2bitsTraces n inputs := besidePool (Num2Bits.rep3Trace net n inputs)
  isZeroTraces inputs := besidePool (IsZero.rep3Trace net inputs)
  isZeroRevealTraces inputs := besidePool (IsZero.rep3MaskedRevealTrace net inputs)
  aliasCheckTraces inputs := besidePool (AliasCheck.rep3Trace net inputs)
  finish state := do
    state.2.ensureConsumed
    pure state

/-- `Rep3Driver::new`. -/
def Rep3Driver.new (p : ProgramParts) (s : σ) : Except RunError (σ × Poseidon2.MaskPool S) := do
  let maskBudget ← Poseidon2.maskBudget p
  let (poseidon2, s) ← Poseidon2.preprocessRep3 net maskBudget s
  pure (s, poseidon2)

end CircomMpc
