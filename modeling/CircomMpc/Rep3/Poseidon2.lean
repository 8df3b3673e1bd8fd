import CircomMpc.Gadgets.Poseidon2Trace
import CircomMpc.Rep3.Gadgets

/-!
# Poseidon2 on sharings, and its mask pool

The three-party half of `poseidon2.rs`. An s-box layer costs one opening: with a secret mask `r` and
its powers prepared beforehand, `y = x - r` is made public and `x^2`, `x^4`, `x^5` are binomials in
`y` over the prepared powers. The powers of a whole execution are one pool with one cursor, and
`maskBudget` is how long the pool has to be.

`MaskPool.served` is not in the source: it lists the slices of the columns that were read, in the
order they were, so that there is something to say about them. `MaskPool.read` is the only function
that looks into the columns behind the preparation, and it notes where it looked.

The pool is the caller's, who keeps it when a call fails. So what fails here fails with the pool as
it stands, and the error of a call is a pair.
-/

namespace CircomMpc
namespace Poseidon2

open Lib

variable {σ S α : Type}

/-! ## The budget -/

/-- `checked_add` on `usize`. -/
def checkedAdd (e : RunError) (a b : Nat) : Except RunError Nat := do
  ensure (a + b < 2 ^ 64) e
  pure (a + b)

/-- `checked_mul` on `usize`. -/
def checkedMul (e : RunError) (a b : Nat) : Except RunError Nat := do
  ensure (a * b < 2 ^ 64) e
  pure (a * b)

/-- `mask_elements`: how many masks one service consumes. -/
def maskElements (t sites : Nat) : Except RunError Nat := do
  ensure (t ∈ poseidon2SupportedWidths) (.poseidon2Width t)
  let full ← checkedMul (.maskFullOverflow t) t 8
  let perSite ← checkedAdd (.maskSiteOverflow t) full (partialRounds t)
  checkedMul (.maskBatchOverflow t sites) sites perSite

/-- `mask_budget`, one instruction: only a batch that runs on sharings spends masks. -/
def maskBudgetStep (p : ProgramParts) (total : Nat) :
    Instruction × Nat → Except RunError Nat
  | (.gadget index, i) => do
    let batch ← orElse (.maskBudgetBatch i index) p.gadgetBatches[index.index]?
    match batch.kind with
    | .gadget (.poseidon2 t) =>
      if batch.anyShared then do
        let batchMasks ← maskElements t.get batch.sites
        checkedAdd (.maskBudgetOverflow i) total batchMasks
      else pure total
    | .gadget (.num2Bits _) | .gadget .isZero | .gadget .aliasCheck | .gadget (.reveal _)
    | .precomputedPoseidon2 _ | .isZeroReveal => pure total
  | (.arith _ _ _ _, _) | (.reshare _, _) => pure total

/-- `mask_budget`. -/
def maskBudget (p : ProgramParts) : Except RunError Nat :=
  p.instructions.zipIdx.foldlM (maskBudgetStep p) 0

/-! ## The pool -/

/-- `Rep3Poseidon2Preprocessing`: `r` and its powers, one entry per s-box element. -/
structure MaskPool (S : Type) where
  r : List S
  r2 : List S
  r3 : List S
  r4 : List S
  r5 : List S
  /-- How many elements of the pool have been handed to an s-box layer. -/
  consumed : Nat
  /-- The slices read, oldest first. -/
  served : List (Nat × Nat)

/-- One slice of the five columns. -/
structure Masks (S : Type) where
  r : List S
  r2 : List S
  r3 : List S
  r4 : List S
  r5 : List S

namespace MaskPool

/-- `ensure_available`. -/
def ensureAvailable (pool : MaskPool S) (count : Nat) : Except RunError Unit := do
  let stop ← checkedAdd .maskCursorOverflow pool.consumed count
  ensure (stop ≤ pool.r.length) (.maskPoolExhausted count (pool.r.length - pool.consumed))

/-- `ensure_consumed`. -/
def ensureConsumed (pool : MaskPool S) : Except RunError Unit :=
  ensure (pool.consumed = pool.r.length) (.maskPoolMismatch pool.consumed pool.r.length)

/-- `&pool.r[start..end]` and the same slice of the other columns. -/
def read (pool : MaskPool S) (start stop : Nat) : Except RunError (Masks S × MaskPool S) := do
  let r ← rangeOf "r" pool.r start stop
  let r2 ← rangeOf "r2" pool.r2 start stop
  let r3 ← rangeOf "r3" pool.r3 start stop
  let r4 ← rangeOf "r4" pool.r4 start stop
  let r5 ← rangeOf "r5" pool.r5 start stop
  pure ({ r, r2, r3, r4, r5 }, { pool with served := pool.served ++ [(start, stop)] })

/-- A computation whose caller is left with this pool if it fails. -/
def leaving (pool : MaskPool S) (x : Except RunError α) : Except (RunError × MaskPool S) α :=
  x.mapError (·, pool)

end MaskPool

variable (net : Rep3 σ S)

/-- `preprocess_rep3`: `r, r^2, r^3, r^4, r^5` in three multiplications. -/
def preprocessRep3 (totalElements : Nat) (s : σ) : Except RunError (MaskPool S × σ) :=
  if totalElements = 0 then
    pure ({ r := [], r2 := [], r3 := [], r4 := [], r5 := [], consumed := 0, served := [] }, s)
  else do
    let n := totalElements
    let _ ← checkedMul .maskPowersOverflow n 2
    let (r, s) := net.draw n s
    let (r2, s) ← call (net.mulVec r r s)
    let (r4, s) ← call (net.mulVec r2 r2 s)
    let (r35, s) ← call (net.mulVec (r ++ r) (r2 ++ r4) s)
    ensure (n ≤ r35.length) (.assertion "split_off past the end")
    pure ({ r, r2, r3 := r35.take n, r4, r5 := r35.drop n, consumed := 0, served := [] }, s)

/-! ## The backend -/

/-- `|v| v.double().double()`. -/
def times4 (v : Fr) : Fr := v + v + (v + v)

/-- `|v| times4(v) + v`. -/
def times5 (v : Fr) : Fr := times4 v + v

/-- `x^2`, `x^4` and `x^5` of `x = y + r`, by binomial expansion over the powers of `r`. -/
def unmaskPowers (y : Fr) (r r2 r3 r4 r5 : S) : SboxTrace S :=
  let y2 := y * y
  let y3 := y2 * y
  let y4 := y3 * y
  let y5 := y4 * y
  let square := net.mulPublic r (y + y)
  let square := net.add square r2
  let square := net.addPublic square y2
  let pow4 := net.mulPublic r (times4 y3)
  let pow4 := net.add pow4 (net.mulPublic r2 (times4 y2 + (y2 + y2)))
  let pow4 := net.add pow4 (net.mulPublic r3 (times4 y))
  let pow4 := net.add pow4 r4
  let pow4 := net.addPublic pow4 y4
  let fifth := net.mulPublic r (times5 y4)
  let fifth := net.add fifth (net.mulPublic r2 (times5 y3 + times5 y3))
  let fifth := net.add fifth (net.mulPublic r3 (times5 y2 + times5 y2))
  let fifth := net.add fifth (net.mulPublic r4 (times5 y))
  let fifth := net.add fifth r5
  let fifth := net.addPublic fifth y5
  { square, pow4, out := fifth }

/-- The layer's element `i`, unmasked: the body of the loop behind the opening. -/
def unmaskAt (y : List Fr) (masks : Masks S) (i : Nat) : Except RunError (SboxTrace S) := do
  let y ← readAt "y" y i
  let r ← readAt "r" masks.r i
  let r2 ← readAt "r2" masks.r2 i
  let r3 ← readAt "r3" masks.r3 i
  let r4 ← readAt "r4" masks.r4 i
  let r5 ← readAt "r5" masks.r5 i
  pure (unmaskPowers net y r r2 r3 r4 r5)

/-- `Rep3Ops::sbox_layer`. The source moves the cursor in front of the slices; those are in range, or
    a panic that leaves no pool to speak of. -/
def rep3SboxLayer (xs : List S) (state : σ × MaskPool S) :
    Except (RunError × MaskPool S) (List (SboxTrace S) × (σ × MaskPool S)) := do
  let (s, pool) := state
  let n := xs.length
  pool.leaving (pool.ensureAvailable n)
  let start := pool.consumed
  let stop := start + n
  let (masks, pool) ← pool.leaving (pool.read start stop)
  let pool := { pool with consumed := stop }
  pool.leaving do
    let masked := (xs.zip masks.r).map fun p => net.sub p.1 p.2
    let (y, s) ← call (net.openVec masked s)
    let out ← (List.range n).mapM (unmaskAt net y masks)
    pure (out, (s, pool))

/-- `Rep3Ops`. -/
def rep3Ops : Ops S (σ × MaskPool S) (RunError × MaskPool S) where
  default := net.default
  ofPublic := net.promote
  add := net.add
  addPublic := net.addPublic
  mulPublic := net.mulPublic
  sboxLayer := rep3SboxLayer net
  raise e state := (e, state.2)

/-! ## The entry points -/

/-- `rep3_walk`. -/
def rep3Walk (host : Host) (t : Nat) (states : List S) (outputs : List (SiteOutput S))
    (state : σ × MaskPool S) :
    Except (RunError × MaskPool S) (List (SiteOutput S) × (σ × MaskPool S)) := do
  let required ← state.2.leaving (maskElements t outputs.length)
  state.2.leaving (state.2.ensureAvailable required)
  let ⟨w, rc⟩ ← state.2.leaving (host.load t)
  let (outputs, state') ← walk (rep3Ops net) w.get states rc outputs state
  state'.2.leaving (ensure (state'.2.consumed - state.2.consumed = required)
    (.poseidon2Consumed t (state'.2.consumed - state.2.consumed) required))
  pure (outputs, state')

/-- `rep3_trace_requested_preprocessed`. -/
def rep3TraceRequestedPreprocessed (host : Host) (t : Nat) (states : List S)
    (resultRequests resultOffsets : List Nat) (state : σ × MaskPool S) :
    Except (RunError × MaskPool S) (List S × (σ × MaskPool S)) := do
  let sites ← state.2.leaving (checkWidth t states.length)
  let plan ← state.2.leaving (RequestPlan.new sites (resultSlots t) resultRequests resultOffsets)
  let (outputs, state) ← rep3Walk net host t states (plan.outputs net.default) state
  pure (outputs.flatMap (·.values), state)

/-! ## The standalone service -/

/-- `Poseidon2Service`. -/
structure Service (S : Type) where
  t : Nat
  preprocessing : MaskPool S

/-- `Poseidon2Service::new`. -/
def Service.new (t sites : Nat) (s : σ) : Except RunError (Service S × σ) := do
  let required ← maskElements t sites
  let (preprocessing, s) ← preprocessRep3 net required s
  pure ({ t, preprocessing }, s)

/-- A public input is promoted, a shared one is taken as it is. -/
def shareOf : InputValue S → S
  | .public v => net.promote v
  | .secret share => share

/-- A computation that leaves the service as it is. -/
def Service.leaving (service : Service S) (x : Except RunError α) :
    Except (RunError × Service S) α :=
  x.mapError (·, service)

/-- `Poseidon2Service::trace`, with the service it leaves. -/
def Service.trace (host : Host) (service : Service S) (t : Nat) (states : List (InputValue S))
    (s : σ) : Except (RunError × Service S) (List (SiteTrace S) × (σ × Service S)) := do
  service.leaving (ensure (t = service.t) (.serviceWidth service.t t))
  let states := states.map (shareOf net)
  let sites ← service.leaving (checkWidth t states.length)
  let (outputs, (s, preprocessing)) ←
    (rep3Walk net host t states (fullOutputs (emptySiteTraces net.default t sites))
      (s, service.preprocessing)).mapError fun (e, preprocessing) =>
        (e, { service with preprocessing })
  pure (outputs.map fun o => { output := o.head, intermediate := o.values },
    (s, { service with preprocessing }))

/-- `Poseidon2Service::finish`. -/
def Service.finish (service : Service S) : Except RunError Unit :=
  service.preprocessing.ensureConsumed

end Poseidon2
end CircomMpc
