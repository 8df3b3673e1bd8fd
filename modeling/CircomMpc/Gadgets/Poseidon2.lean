import CircomMpc.Vm.Error

/-!
# Poseidon2: the permutation walk and its sparse trace

`gadgets/poseidon2.rs`, over an arbitrary arithmetic backend `Ops` of which only `sboxLayer`
communicates (and so threads a state and may fail). The walk is layer-major: every site's round is
one `sboxLayer` call. What it leaves behind is a *trace*: for every position of the circuit's signal
layout, the value that position holds — in an order that is not the layout's.

A function of the source that takes `trace: &mut SiteOutput` is a `Traced` computation here: it
returns its value together with the list of `record` calls it made, in order. A site's sink replays
that list (`SiteOutput.recordAll`), which is where an unrequested slot is dropped, a slot recorded
twice is caught, and a slot past the end of the table is a panic.

The scratch buffers the walk reuses from round to round (`next`, `sbox_out`, `mds_out`) are threaded
with their old contents, as the source's in-place writes see them: `overwrite`.
-/

namespace CircomMpc
namespace Poseidon2

open Lib

/-! ## Signal counts -/

/-- `Acc(n)`: `[out][in[n]][sums[n]]`. -/
def accSignals (n : Nat) : Nat := 2 * n + 1

/-- The fixed-width leaves of `ExternalMatMulT`. -/
def externalMatmulLeafSignals (t : Nat) : Nat :=
  if t = 2 then 5 else if t = 3 then 7 else 18

/-- `ExternalMatMulT(t)`: `[out[t]][in[t]]` plus its subtree. -/
def externalMatmulSignals (t : Nat) : Nat :=
  if 2 ≤ t ∧ t ≤ 4 then 2 * t + externalMatmulLeafSignals t
  else
    let m := t / 4
    2 * t + m * 18 + 4 * accSignals m

/-- `InternalMatMulT(t)`. -/
def internalMatmulSignals (t : Nat) : Nat :=
  if t = 2 then 2 * t + 5 else if t = 3 then 2 * t + 7 else (2 * t + 1) + accSignals t

/-- `Sbox_e`: `[out][in][square][pow_4]`. -/
def sboxESignals : Nat := 4

/-- `Sbox(t)`: `[out[t]][in[t]]` and `t` times `Sbox_e`. -/
def sboxSignals (t : Nat) : Nat := 2 * t + t * sboxESignals

/-- `FullRound(t)`. -/
def fullRoundSignals (t : Nat) : Nat := 5 * t + externalMatmulSignals t + sboxSignals t

/-- `PartialRound(t)`. -/
def partialRoundSignals (t : Nat) : Nat := (2 * t + 3) + sboxESignals + internalMatmulSignals t

/-- How many partial rounds `Poseidon2(t)` runs. -/
def partialRounds (t : Nat) : Nat := if t ≤ 4 then 56 else 57

/-- Every signal of the template and its subtree, inputs included. -/
def totalSignals (t : Nat) : Nat :=
  let pr := partialRounds t
  2 * t + (9 + pr) * t + externalMatmulSignals t + 8 * fullRoundSignals t
    + pr * partialRoundSignals t

/-- How many result slots one site occupies: every signal except its own inputs. -/
def resultSlots (t : Nat) : Nat := totalSignals t - t

/-- The two crates' slot counts are one number. -/
theorem expectedResults_eq_resultSlots (t : Poseidon2Width) :
    (GadgetKind.poseidon2 t).expectedResults = resultSlots t.get := by
  obtain ⟨t, ht⟩ := t
  simp only [poseidon2SupportedWidths, List.mem_cons, List.not_mem_nil, or_false] at ht
  rcases ht with rfl | rfl | rfl | rfl | rfl <;> rfl

/-! ## The arithmetic backend -/

/-- One `Sbox_e`'s three witness values, for `x^5`. -/
structure SboxTrace (V : Type) where
  square : V
  pow4 : V
  out : V

/-- The field operations the walker needs. Everything but `sboxLayer` is local work. The backend's
    state outlives a walk that fails, as the source's `&mut` does: `raise` is what a caller sees of a
    failure between two layers, and of the state it leaves behind. -/
structure Ops (V σ ε : Type) where
  default : V
  ofPublic : Fr → V
  add : V → V → V
  addPublic : V → Fr → V
  mulPublic : V → Fr → V
  sboxLayer : List V → σ → Except ε (List (SboxTrace V) × σ)
  raise : RunError → σ → ε

/-- A computation between two layers, which leaves the backend in state `s`. -/
def Ops.leaving {V σ ε α : Type} (ops : Ops V σ ε) (s : σ) (x : Except RunError α) : Except ε α :=
  x.mapError (ops.raise · s)

/-- `x^5` and its two intermediate powers. -/
def plainSbox (x : Fr) : SboxTrace Fr :=
  let square := x * x
  let pow4 := square * square
  { square, pow4, out := pow4 * x }

/-- `PlainOps`. It has no state to leave behind. -/
def plainOps : Ops Fr Unit RunError where
  default := 0
  ofPublic c := c
  add a b := a + b
  addPublic a c := a + c
  mulPublic a c := a * c
  sboxLayer xs s := .ok (xs.map plainSbox, s)
  raise e _ := e

@[simp] theorem plainOps_leaving {α : Type} (s : Unit) (x : Except RunError α) :
    plainOps.leaving s x = x := by
  cases x <;> rfl

/-! ## Recording -/

/-- The `record` calls of a computation, in order. -/
abbrev Log (V : Type) : Type := List (Nat × V)

/-- A computation that may fail and records values at logical slots. -/
def Traced (V α : Type) : Type := Except RunError (α × Log V)

variable {V W σ ε α β : Type}

instance : Monad (Traced V) where
  pure a := Except.ok (a, [])
  bind x f :=
    match x with
    | .error e => .error e
    | .ok (a, log) =>
      match f a with
      | .error e => .error e
      | .ok (b, log') => .ok (b, log ++ log')

/-- A panic inside a traced computation. -/
def fault (e : RunError) : Traced V α := Except.error e

/-- `SiteOutput::record`. -/
def record (logical : Nat) (value : V) : Traced V Unit := Except.ok ((), [(logical, value)])

/-- `SiteOutput::record_slice`. -/
def recordSlice (start : Nat) (values : List V) : Traced V Unit :=
  Except.ok ((), values.zipIdx.map fun (value, offset) => (start + offset, value))

/-- `for (o, x) in out.iter_mut().zip(xs) { *o = x }`. -/
def overwrite (out xs : List V) : List V := xs.take out.length ++ out.drop xs.length

/-- `chunks_exact(t)`. -/
def chunksExact (t : Nat) (xs : List α) : List (List α) :=
  (List.range (xs.length / t)).map fun i => slice xs (i * t) (i * t + t)

/-! ## The blocks of the circuit -/

/-- `acc`: `Acc(n)` over `input`, keeping the running sum. -/
def acc (ops : Ops V σ ε) (input : List V) (base : Nat) : Traced V V :=
  let n := input.length
  match input with
  | [] => fault (.assertion "Acc takes at least one element")
  | first :: rest => do
    record (base + 1) first
    record (base + 1 + n) first
    let sum ← (rest.zipIdx 1).foldlM
      (fun sum (x, i) => do
        let sum := ops.add sum x
        record (base + 1 + i) x
        record (base + 1 + n + i) sum
        pure sum) first
    record base sum
    pure sum

/-- `2 * x` as an addition. -/
def double (ops : Ops V σ ε) (x : V) : V := ops.add x x

/-- `external_matmul_leaf`: `ExternalMatMul2`/`3`/`4` over exactly 2, 3 or 4 elements. -/
def externalMatmulLeaf (ops : Ops V σ ε) (input out : List V) (base : Nat) : Traced V (List V) := do
  let t := input.length
  recordSlice (base + t) input
  let out ← match input with
    | [x0, x1, x2, x3] => do
      let doubleIn1 := double ops x1
      let doubleIn3 := double ops x3
      let t0 := ops.add x0 x1
      let t1 := ops.add x2 x3
      let quadT0 := double ops (double ops t0)
      let quadT1 := double ops (double ops t1)
      let t2 := ops.add doubleIn1 t1
      let t3 := ops.add doubleIn3 t0
      let t4 := ops.add quadT1 t3
      let t5 := ops.add quadT0 t2
      -- Source-declaration order of the ten named intermediates.
      recordSlice (base + 2 * t) [doubleIn1, doubleIn3, t0, t1, quadT0, quadT1, t2, t3, t4, t5]
      pure (overwrite out [ops.add t3 t5, t5, ops.add t2 t4, t4])
    | x0 :: xs =>
      if t = 2 ∨ t = 3 then do
        -- `out[i] = in[i] + sum`
        let sum := xs.foldl ops.add x0
        record (base + 2 * t) sum
        pure (overwrite out (input.map fun x => ops.add x sum))
      else fault (.unreachable "external_matmul_leaf takes 2, 3 or 4 elements")
    | [] => fault (.unreachable "external_matmul_leaf takes 2, 3 or 4 elements")
  recordSlice base out
  pure out

/-- `iter().skip(l).step_by(4)`: every `mds` output's element `l`. -/
def column (l : Nat) (xs : List V) : List V :=
  (xs.zipIdx.filter fun (_, i) => l ≤ i ∧ (i - l) % 4 = 0).map (·.1)

/-- `external_matmul`: `ExternalMatMulT(t)`. For `t >= 8`, `mdsOut` holds the `ExternalMatMul4`
    outputs; every `Acc` subtree is laid out before them although it is computed after. -/
def externalMatmul (ops : Ops V σ ε) (input out mdsOut : List V) (base : Nat) :
    Traced V (List V × List V) := do
  let t := input.length
  recordSlice (base + t) input
  let (out, mdsOut) ←
    if t ≤ 4 then do
      let out ← externalMatmulLeaf ops input out (base + 2 * t)
      pure (out, mdsOut)
    else do
      let m := t / 4
      let accsBase := base + 2 * t
      let mdsBase := accsBase + 4 * accSignals m
      let mdsOut ← (List.range m).foldlM
        (fun mds i => do
          let block ← externalMatmulLeaf ops (slice input (4 * i) (4 * i + 4))
            (slice mds (4 * i) (4 * i + 4)) (mdsBase + i * externalMatmulLeafSignals 4)
          pure (mds.take (4 * i) ++ block ++ mds.drop (4 * i + 4))) mdsOut
      let accOut ← (List.range 4).mapM fun l =>
        acc ops (column l mdsOut) (accsBase + l * accSignals m)
      pure (overwrite out (mdsOut.zipIdx.map fun (x, i) =>
        ops.add x (accOut.getD (i % 4) ops.default)), mdsOut)
  recordSlice base out
  pure (out, mdsOut)

/-- `internal_matmul_leaf`: the last element is doubled, the rest pass through. -/
def internalMatmulLeaf (ops : Ops V σ ε) (input out : List V) (base : Nat) :
    Traced V (List V) :=
  let t := input.length
  match input with
  | [] => fault (.indexOutOfRange "internal_matmul_leaf" 0)
  | x0 :: xs => do
    let sum := xs.foldl ops.add x0
    let out := overwrite out (input.zipIdx.map fun (x, i) =>
      if i = t - 1 then ops.add (double ops x) sum else ops.add x sum)
    recordSlice base out
    recordSlice (base + t) input
    record (base + 2 * t) sum
    pure out

/-- `internal_matmul`: `InternalMatMulT(t)`. The own intermediate `acc` precedes the `Acc(t)`
    subtree. -/
def internalMatmul (ops : Ops V σ ε) (input : List V) (diag : List Fr) (out : List V)
    (base : Nat) : Traced V (List V) := do
  let t := input.length
  recordSlice (base + t) input
  let out ←
    if t = 2 ∨ t = 3 then internalMatmulLeaf ops input out (base + 2 * t)
    else do
      let accValue ← acc ops input (base + 2 * t + 1)
      record (base + 2 * t) accValue
      pure (overwrite out ((input.zip diag).map fun (x, d) =>
        ops.add (ops.mulPublic x d) accValue))
  recordSlice base out
  pure out

/-- `record_sbox_e`: `[out][in][square][pow_4]`. -/
def recordSboxE (base : Nat) (input : V) (trace : SboxTrace V) : Traced V Unit :=
  recordSlice base [trace.out, input, trace.square, trace.pow4]

/-! ## One site's sink -/

/-- `SiteOutput`: writes only the requested logical result slots into the site's row, and refuses a
    slot written twice. The row may be cut in two buffers, as a full trace's outputs and
    intermediates are. -/
structure SiteOutput (V : Type) where
  /-- `logical -> position` for a sparse row, `none` for a full one. -/
  positions : Option (List (Option Nat))
  /-- Positions `0..head.length`. -/
  head : List V
  /-- Positions `head.length..`. -/
  values : List V
  written : List Bool

namespace SiteOutput

/-- `SiteOutput::split`. -/
def split (positions : Option (List (Option Nat))) (head values : List V) : SiteOutput V :=
  { positions, head, values, written := List.replicate (head.length + values.length) false }

/-- `SiteOutput::new`. -/
def new (positions : Option (List (Option Nat))) (values : List V) : SiteOutput V :=
  split positions [] values

/-- `SiteOutput::destination`. A sparse row's table holds `NOT_REQUESTED` as `none`. -/
def destination (o : SiteOutput V) (logical : Nat) : Except RunError (Option Nat) :=
  match o.positions with
  | none => .ok (some logical)
  | some positions => orElse (.indexOutOfRange "SiteOutput::positions" logical) positions[logical]?

/-- `SiteOutput::write`. -/
def write (o : SiteOutput V) (destination : Nat) (value : V) :
    Except RunError (SiteOutput V) := do
  let written ← orElse (.indexOutOfRange "SiteOutput::written" destination)
    o.written[destination]?
  ensure (written = false) (.assertion "result position recorded twice")
  let o := { o with written := o.written.set destination true }
  if destination < o.head.length then
    pure { o with head := o.head.set destination value }
  else
    pure { o with values := o.values.set (destination - o.head.length) value }

/-- `SiteOutput::record`, as the sink sees it. -/
def record (o : SiteOutput V) (entry : Nat × V) : Except RunError (SiteOutput V) := do
  match ← o.destination entry.1 with
  | none => pure o
  | some destination => o.write destination entry.2

/-- The sink replays a computation's `record` calls. -/
def recordAll (o : SiteOutput V) (log : Log V) : Except RunError (SiteOutput V) :=
  log.foldlM record o

/-- `SiteOutput::finish`: the first position left unwritten is an error. -/
def finish (o : SiteOutput V) (site : Nat) : Except RunError Unit :=
  match o.written.idxOf? false with
  | some position => .error (.poseidon2Unrecorded site position)
  | none => .ok ()

end SiteOutput

/-- Runs a traced computation against a site's sink. -/
def runOn (o : SiteOutput V) (x : Traced V α) : Except RunError (α × SiteOutput V) :=
  match x with
  | .error e => .error e
  | .ok (a, log) => do
    let o ← o.recordAll log
    pure (a, o)

/-! ## The walk -/

/-- `Layout`: starts of the four sections in one site's logical result layout. The order of the
    sections is the circuit's own, not that of the walk. -/
structure Layout where
  states : Nat
  initialMatmul : Nat
  full : Nat
  partials : Nat

/-- `Layout::new`. -/
def Layout.new (t : Nat) : Layout :=
  let pr := partialRounds t
  let states := t
  let initialMatmul := states + (9 + pr) * t
  let full := initialMatmul + externalMatmulSignals t
  { states, initialMatmul, full, partials := full + 8 * fullRoundSignals t }

/-- One site's evolving permutation state and its output sink. -/
structure Site (V : Type) where
  state : List V
  output : SiteOutput V

/-- The buffers the walk reuses from site to site and round to round. -/
structure Buffers (V : Type) where
  next : List V
  sboxOut : List V
  mdsOut : List V

/-- The round constants of one width, with the lengths of the tables: the walk cuts them by index
    and nothing of it depends on what they hold. -/
structure RoundConstants (t : Nat) where
  full1 : List Fr
  partialRc : List Fr
  full2 : List Fr
  diag : List Fr
  full1_length : full1.length = 4 * t
  full2_length : full2.length = 4 * t
  partialRc_length : partialRc.length = partialRounds t
  diag_length : diag.length = if t < 4 then 0 else t

/-- `WalkState::new`, one site: the initial external matrix. -/
def initSite (ops : Ops V σ ε) (t : Nat) (input mdsOut : List V) : Traced V (List V × List V) := do
  let layout := Layout.new t
  let (state, mdsOut) ← externalMatmul ops input (List.replicate t ops.default) mdsOut
    layout.initialMatmul
  recordSlice layout.states state
  pure (state, mdsOut)

/-- `full_round`'s matrix half, for one site: `[out][in][RC][linear_layer][sbox]`, the external
    matrix, then `Sbox(t)`'s own block. Returns the next state and the buffers. -/
def fullRoundSite (ops : Ops V σ ε) (t : Nat) (roundRc : List Fr) (layoutRound stateRow : Nat)
    (state linear : List V) (sboxes : List (SboxTrace V)) (buffers : Buffers V) :
    Traced V (List V × Buffers V) := do
  let layout := Layout.new t
  let base := layout.full + layoutRound * fullRoundSignals t
  let emmBase := base + 5 * t
  let sboxBase := emmBase + externalMatmulSignals t
  let statesBase := layout.states + stateRow * t
  let sboxOut := overwrite buffers.sboxOut (sboxes.map (·.out))
  let (next, mdsOut) ← externalMatmul ops sboxOut buffers.next buffers.mdsOut emmBase
  recordSlice base next
  recordSlice (base + t) state
  recordSlice (base + 2 * t) (roundRc.map ops.ofPublic)
  recordSlice (base + 3 * t) linear
  recordSlice (base + 4 * t) sboxOut
  recordSlice sboxBase sboxOut
  recordSlice (sboxBase + t) linear
  let _ ← (sboxes.zip linear).zipIdx.mapM fun ((s, x), k) =>
    recordSboxE (sboxBase + 2 * t + k * sboxESignals) x s
  recordSlice statesBase next
  -- `swap(&mut site.state, &mut self.next)`
  pure (next, { next := state, sboxOut, mdsOut })

/-- `partial_round`'s matrix half, for one site. -/
def partialRoundSite (ops : Ops V σ ε) (t : Nat) (round : Nat) (c : Fr) (diag : List Fr)
    (state : List V) (linear : V) (sbox : SboxTrace V) (buffers : Buffers V) :
    Traced V (List V × Buffers V) := do
  let layout := Layout.new t
  let base := layout.partials + round * partialRoundSignals t
  let immBase := base + 2 * t + 3 + sboxESignals
  let statesBase := layout.states + (5 + round) * t
  let sboxOut := overwrite buffers.sboxOut (sbox.out :: state.drop 1)
  let next ← internalMatmul ops sboxOut diag buffers.next immBase
  recordSlice base next
  recordSlice (base + t) state
  record (base + 2 * t) (ops.ofPublic c)
  record (base + 2 * t + 1) linear
  record (base + 2 * t + 2) sbox.out
  recordSboxE (base + 2 * t + 3) linear sbox
  recordSlice statesBase next
  pure (next, { next := state, sboxOut, mdsOut := buffers.mdsOut })

/-- One round's matrix half over every site in lock-step: each site takes its own slice of the
    layer and hands the buffers to the next. -/
def eachSite {A : Type} (f : A → List V → Buffers V → Traced V (List V × Buffers V)) :
    List A → List (Site V) → Buffers V → Except RunError (List (Site V) × Buffers V)
  | a :: as, site :: sites, buffers => do
    let ((state, buffers), output) ← runOn site.output (f a site.state buffers)
    let (sites, buffers) ← eachSite f as sites buffers
    pure ({ state, output } :: sites, buffers)
  | _, sites, buffers => .ok (sites, buffers)

/-- `WalkState`: the sites, the shared buffers and the backend's state. The buffers belong to no
    site and hold what the last one left. -/
structure WalkState (V σ : Type) where
  sites : List (Site V)
  buffers : Buffers V
  ops : σ

/-- `WalkState::new`. -/
def WalkState.new (ops : Ops V σ ε) (t : Nat) (states : List V) (outputs : List (SiteOutput V))
    (s : σ) : Except ε (WalkState V σ) := ops.leaving s do
  ensure (outputs.length = states.length / t) (.assertion "one SiteOutput per site")
  let fresh := List.replicate t ops.default
  let mdsOut := List.replicate (if 4 < t then t else 0) ops.default
  let (sites, buffers) ← eachSite
    (fun input _ buffers => do
      let (state, mdsOut) ← initSite ops t input buffers.mdsOut
      pure (state, { buffers with mdsOut }))
    (chunksExact t states) (outputs.map fun output => { state := fresh, output })
    { next := fresh, sboxOut := fresh, mdsOut }
  pure { sites, buffers, ops := s }

/-- `full_round`, for every site at once: add `RC`, one s-box layer, external matrix. -/
def fullRound (ops : Ops V σ ε) (t : Nat) (roundRc : List Fr) (layoutRound stateRow : Nat)
    (w : WalkState V σ) : Except ε (WalkState V σ) := do
  let linear := w.sites.flatMap fun site => (site.state.zip roundRc).map fun (x, c) =>
    ops.addPublic x c
  let (sboxes, s) ← ops.sboxLayer linear w.ops
  let (sites, buffers) ← ops.leaving s <| eachSite
    (fun (linear, sboxes) state buffers =>
      fullRoundSite ops t roundRc layoutRound stateRow state linear sboxes buffers)
    ((chunksExact t linear).zip (chunksExact t sboxes)) w.sites w.buffers
  pure { sites, buffers, ops := s }

/-- `partial_round`: `RC` and s-box on element 0 only, then the internal matrix. -/
def partialRound (ops : Ops V σ ε) (t : Nat) (round : Nat) (c : Fr) (diag : List Fr)
    (w : WalkState V σ) : Except ε (WalkState V σ) := do
  let linear ← ops.leaving w.ops <| w.sites.mapM fun site => do
    let x ← orElse (.indexOutOfRange "site.state" 0) site.state[0]?
    pure (ops.addPublic x c)
  let (sboxes, s) ← ops.sboxLayer linear w.ops
  let (sites, buffers) ← ops.leaving s <| eachSite
    (fun (linear, sbox) state buffers =>
      partialRoundSite ops t round c diag state linear sbox buffers)
    (linear.zip sboxes) w.sites w.buffers
  pure { sites, buffers, ops := s }

/-- `WalkState::finish`: the top-level outputs, known only after the second full-round group. -/
def WalkState.finish (w : WalkState V σ) : Except RunError (List (SiteOutput V)) :=
  w.sites.zipIdx.mapM fun (site, i) => do
    let ((), output) ← runOn site.output (recordSlice 0 site.state)
    output.finish i
    pure output

/-- `walk`: the permutation for every site in `states`, in lock-step. -/
def walk (ops : Ops V σ ε) (t : Nat) (states : List V) (rc : RoundConstants t)
    (outputs : List (SiteOutput V)) (s : σ) : Except ε (List (SiteOutput V) × σ) := do
  let pr := partialRounds t
  let w ← WalkState.new ops t states outputs s
  let w ← (List.range 4).foldlM (fun w round =>
    fullRound ops t (slice rc.full1 (round * t) ((round + 1) * t)) round (round + 1) w) w
  let w ← (List.range pr).foldlM (fun w round =>
    partialRound ops t round (rc.partialRc.getD round 0) rc.diag w) w
  let w ← (List.range 4).foldlM (fun w round =>
    fullRound ops t (slice rc.full2 (round * t) ((round + 1) * t)) (4 + round)
      (5 + pr + round) w) w
  let outputs ← ops.leaving w.ops w.finish
  pure (outputs, w.ops)

/-! ## The request table and the two entry points -/

/-- `check_width`. -/
def checkWidth (t states : Nat) : Except RunError Nat := do
  ensure (t ∈ poseidon2SupportedWidths) (.poseidon2Width t)
  ensure (states ≠ 0 ∧ states % t = 0) (.poseidon2States t states)
  pure (states / t)

/-- `RequestPlan`: one dense `logical -> position` table per distinct sparse row. Sites with equal
    rows share a table, and a full row has none. -/
structure RequestPlan where
  offsets : List Nat
  tables : List (List (Option Nat))
  /-- Per site: an index into `tables`, or `none` for a full row. -/
  siteTables : List (Option Nat)

/-- The dense lookup table of one row: `vec![NOT_REQUESTED; capacity]`, then each requested slot's
    position. -/
def rowTable (capacity : Nat) (row : List Nat) : List (Option Nat) :=
  row.zipIdx.foldl (fun table (logical, position) => table.set logical (some position))
    (List.replicate capacity none)

/-- The plan under construction: the tables so far and the rows they came from, the source's hash
    map as the list of its entries. -/
structure PlanState where
  tables : List (List (Option Nat))
  tableByRow : List (List Nat × Nat)
  siteTables : List (Option Nat)

/-- `RequestPlan::new`, one site. -/
def RequestPlan.addSite (capacity : Nat) (requests offsets : List Nat) (plan : PlanState)
    (site : Nat) : Except RunError PlanState := do
  let lo := offsets.getD site 0
  let hi := offsets.getD (site + 1) 0
  ensure (lo ≤ hi ∧ hi ≤ requests.length) (.poseidon2Row site lo hi)
  let row := slice requests lo hi
  ensure ((windows row).all fun w => decide (w.1 < w.2)) (.poseidon2RowOrder site)
  ensure (∀ last ∈ row.getLast?, last < capacity)
    (.poseidon2RowCapacity site (row.getLast?.getD 0) capacity)
  -- Strictly ascending and below `capacity`, so `capacity` entries is exactly `0..capacity`.
  if row.length = capacity then
    pure { plan with siteTables := plan.siteTables ++ [none] }
  else
    match plan.tableByRow.lookup row with
    | some index => pure { plan with siteTables := plan.siteTables ++ [some index] }
    | none =>
      pure { tables := plan.tables ++ [rowTable capacity row]
             tableByRow := (row, plan.tables.length) :: plan.tableByRow
             siteTables := plan.siteTables ++ [some plan.tables.length] }

/-- `RequestPlan::new`. -/
def RequestPlan.new (sites capacity : Nat) (requests offsets : List Nat) :
    Except RunError RequestPlan := do
  ensure (offsets.length = sites + 1)
    (.poseidon2OffsetCount offsets.length (sites + 1) sites)
  ensure (offsets.getD 0 0 = 0) .poseidon2OffsetStart
  ensure (offsets.getD sites 0 = requests.length)
    (.poseidon2OffsetEnd (offsets.getD sites 0) requests.length)
  let plan ← (List.range sites).foldlM (RequestPlan.addSite capacity requests offsets)
    { tables := [], tableByRow := [], siteTables := [] }
  pure { offsets, tables := plan.tables, siteTables := plan.siteTables }

/-- `RequestPlan::outputs`: one sink per site, each over its own row of a zeroed buffer. -/
def RequestPlan.outputs (plan : RequestPlan) (zero : V) : List (SiteOutput V) :=
  (plan.siteTables.zip (windows plan.offsets)).map fun (table, row) =>
    SiteOutput.new (table.map fun i => plan.tables.getD i []) (List.replicate (row.2 - row.1) zero)

/-- What the host supplies besides the program: the round constants of every supported width, how
    many threads the plain walk may split a batch over, and its target's `isize::MAX`, the bytes a
    vector may have. The targets are those of at least 32 bits. -/
structure Host where
  constants : (t : Poseidon2Width) → RoundConstants t.get
  threads : Nat
  isizeMax : Nat
  isizeMax_ge : 2 ^ 31 - 1 ≤ isizeMax

/-- A host of 64 bits whose round constants are all zero, for runs that need no permutation. -/
instance : Inhabited Host where
  default :=
    { constants := fun _ =>
        { full1 := List.replicate _ 0
          partialRc := List.replicate _ 0
          full2 := List.replicate _ 0
          diag := List.replicate _ 0
          full1_length := List.length_replicate
          full2_length := List.length_replicate
          partialRc_length := List.length_replicate
          diag_length := List.length_replicate }
      threads := 1
      isizeMax := 2 ^ 63 - 1
      isizeMax_ge := by decide }

/-- `RoundConstants::load`. -/
def Host.load (host : Host) (t : Nat) : Except RunError (Σ w : Poseidon2Width, RoundConstants w.get) :=
  match Poseidon2Width.new? t with
  | some w => .ok ⟨w, host.constants w⟩
  | none => .error (.poseidon2Width t)

/-- `plain_walk`'s chunks: whole permutations, at least four sites a chunk, at most one chunk a
    thread. -/
def chunkSize (host : Host) (sites : Nat) : Nat :=
  let numChunks := min (max (sites / 4) 1) host.threads
  if numChunks ≤ 1 then sites else (sites + numChunks - 1) / numChunks

/-- `plain_walk`, given the width's constants: every chunk is a walk of its own. `fuel` counts the
    sites left. -/
def walkChunks (t : Nat) (rc : RoundConstants t) (size : Nat) :
    Nat → List Fr → List (SiteOutput Fr) → Except RunError (List (SiteOutput Fr))
  | 0, _, _ => .ok []
  | fuel + 1, states, outputs =>
    if outputs = [] then .ok []
    else do
      let (done, ()) ← walk plainOps t (states.take (size * t)) rc (outputs.take size) ()
      let rest ← walkChunks t rc size fuel (states.drop (size * t)) (outputs.drop size)
      pure (done ++ rest)

/-- `plain_walk`. -/
def plainWalk (host : Host) (t : Nat) (states : List Fr) (outputs : List (SiteOutput Fr)) :
    Except RunError (List (SiteOutput Fr)) := do
  let ⟨w, rc⟩ ← host.load t
  walkChunks w.get rc (chunkSize host outputs.length) outputs.length states outputs

/-- `plain_trace_requested`: only the requested logical slots of each site, site-major. -/
def plainTraceRequested (host : Host) (t : Nat) (states : List Fr)
    (resultRequests resultOffsets : List Nat) : Except RunError (List Fr) := do
  let sites ← checkWidth t states.length
  let plan ← RequestPlan.new sites (resultSlots t) resultRequests resultOffsets
  let outputs ← plainWalk host t states (plan.outputs 0)
  pure (outputs.flatMap (·.values))

end Poseidon2
end CircomMpc
