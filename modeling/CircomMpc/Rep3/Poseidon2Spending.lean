import CircomMpc.Gadgets.Poseidon2Mirrors
import CircomMpc.Lib.Ranges
import CircomMpc.Rep3.Poseidon2
import CircomMpc.Vm.Rows

/-!
# What a trace call spends

The pool under a walk, whatever the other parties answer. `Ahead` relates a pool to the one it was
before: the columns are the same, the cursor has moved, and every slice read since starts where the
one before it stopped. A layer keeps that whether it succeeds or fails, so a call does
(`rep3Walk_ahead`). `Spending` counts besides: a layer of `n` s-boxes moves the cursor by `n`, so a
walk that the pool has enough masks for uses exactly the ones it asked for at the start, and no check
on the pool fails on the way.
-/

namespace CircomMpc
namespace Poseidon2

open Lib

variable {σ S V W τ : Type} {net : Rep3 σ S} {pool start : MaskPool S}

/-- The failures that would mean the pool was too short, or used otherwise than planned. -/
def PoolFailed : RunError → Prop
  | .maskCursorOverflow | .maskPoolExhausted _ _ | .maskPoolMismatch _ _
  | .poseidon2Consumed _ _ _ => True
  | _ => False

theorem raise_not_pool (e : Rep3Error) : ¬ PoolFailed e.raise := by
  cases e <;> exact id

theorem readAt_not_pool {α : Type} (what : String) (xs : List α) (i : Nat) :
    Meets (fun e => ¬ PoolFailed e) (fun x => xs[i]? = some x) (readAt what xs i) := by
  unfold readAt
  cases xs[i]? with
  | none => exact id
  | some x => exact rfl

theorem rangeOf_not_pool {α : Type} (what : String) (xs : List α) (lo hi : Nat) :
    Meets (fun e => ¬ PoolFailed e) (fun ys => ys = slice xs lo hi) (rangeOf what xs lo hi) := by
  unfold rangeOf
  split
  next h => exact rfl
  next => exact id

/-! ## The cursor -/

/-- At least `n` masks are left; a length is a `usize`, so the cursor's own arithmetic does not
    wrap. -/
structure MaskPool.Holds (pool : MaskPool S) (n : Nat) : Prop where
  left : pool.consumed + n ≤ pool.r.length
  bounded : pool.r.length < 2 ^ 64

theorem MaskPool.Holds.weaken {n m : Nat} (h : pool.Holds n) (hle : m ≤ n) : pool.Holds m :=
  ⟨Nat.le_trans (Nat.add_le_add_left hle _) h.left, h.bounded⟩

theorem MaskPool.ensureAvailable_ok {n : Nat} (h : pool.Holds n) :
    pool.ensureAvailable n = .ok () := by
  obtain ⟨hleft, hbounded⟩ := h
  unfold MaskPool.ensureAvailable checkedAdd
  rw [ensure_of (by omega), ok_bind]
  exact ensure_of hleft

/-- The pool behind a layer of `count` s-boxes. -/
def MaskPool.advance (pool : MaskPool S) (count : Nat) : MaskPool S :=
  { pool with
    consumed := pool.consumed + count
    served := pool.served ++ [(pool.consumed, pool.consumed + count)] }

/-- The pool some layers later: the columns as they were, and every slice read since behind the one
    before it, up to the cursor. -/
structure Ahead (start pool : MaskPool S) : Prop where
  r : pool.r = start.r
  r2 : pool.r2 = start.r2
  r3 : pool.r3 = start.r3
  r4 : pool.r4 = start.r4
  r5 : pool.r5 = start.r5
  served : ∃ layers, pool.served = start.served ++ layers ∧
    Consecutive start.consumed layers pool.consumed

namespace Ahead

theorem refl : Ahead pool pool :=
  ⟨rfl, rfl, rfl, rfl, rfl, [], (List.append_nil _).symm, .nil⟩

theorem advance (h : Ahead start pool) (count : Nat) : Ahead start (pool.advance count) := by
  obtain ⟨layers, hserved, hlayers⟩ := h.served
  refine ⟨h.r, h.r2, h.r3, h.r4, h.r5, layers ++ [(pool.consumed, pool.consumed + count)], ?_, ?_⟩
  · simp only [MaskPool.advance, hserved, List.append_assoc]
  · exact hlayers.append (.single (Nat.le_add_right _ _))

/-- One call after another. -/
theorem trans {middle : MaskPool S} (h : Ahead start middle) (h' : Ahead middle pool) :
    Ahead start pool := by
  obtain ⟨layers, hserved, hlayers⟩ := h.served
  obtain ⟨layers', hserved', hlayers'⟩ := h'.served
  exact ⟨h'.r.trans h.r, h'.r2.trans h.r2, h'.r3.trans h.r3, h'.r4.trans h.r4, h'.r5.trans h.r5,
    layers ++ layers', by rw [hserved', hserved, List.append_assoc], hlayers.append hlayers'⟩

/-- Ahead of a new pool, the slices read lie end to end from zero up to the cursor. -/
theorem consecutive (h : Ahead start pool) (hserved : start.served = [])
    (hconsumed : start.consumed = 0) : Consecutive 0 pool.served pool.consumed := by
  obtain ⟨layers, hlayers, hconsecutive⟩ := h.served
  rw [hlayers, hserved, List.nil_append, ← hconsumed]
  exact hconsecutive

end Ahead

/-- The positions read so far, in order. -/
def MaskPool.positions (pool : MaskPool S) : List Nat :=
  pool.served.flatMap fun range => List.range' range.1 (range.2 - range.1)

/-- Slices laid end to end leave out no position and read none twice. -/
theorem MaskPool.positions_eq (h : Consecutive 0 pool.served pool.consumed) :
    pool.positions = List.range pool.consumed :=
  h.positions.trans List.range_eq_range'.symm

/-- The pool a call has reached, with `n` of its `total` masks still to come. Only the cursor is
    ever moved. -/
structure Spending (start : MaskPool S) (total n : Nat) (pool : MaskPool S) : Prop
    extends Ahead start pool where
  cursor : pool.consumed + n = start.consumed + total

namespace Spending

variable {total n m : Nat}

theorem fresh : Spending start total total start := ⟨.refl, rfl⟩

theorem holds (h : Spending start total n pool) (hstart : start.Holds total) : pool.Holds n := by
  have hleft := hstart.left
  have hcursor := h.cursor
  exact ⟨by rw [h.r]; omega, by rw [h.r]; exact hstart.bounded⟩

theorem advance (h : Spending start total (n + m) pool) :
    Spending start total n (pool.advance m) := by
  refine ⟨h.toAhead.advance m, ?_⟩
  have hcursor := h.cursor
  simp only [MaskPool.advance]
  omega

/-- One call after another. -/
theorem trans {middle : MaskPool S} {m : Nat} (h : Spending start total 0 middle)
    (h' : Spending middle m 0 pool) : Spending start (total + m) 0 pool := by
  have hcursor := h.cursor
  have hcursor' := h'.cursor
  exact ⟨h.toAhead.trans h'.toAhead, by omega⟩

/-- What a finished call leaves of a pool that held more. -/
theorem leaves {whole m : Nat} (h : Spending start total 0 pool) (hstart : start.Holds whole)
    (hle : total + m ≤ whole) : pool.Holds m := by
  have hleft := hstart.left
  have hcursor := h.cursor
  exact ⟨by rw [h.r]; omega, by rw [h.r]; exact hstart.bounded⟩

end Spending

/-! ## One layer -/

/-- What fails beside the pool is reported with it. -/
theorem MaskPool.leaving_meets {α : Type} {Bad : RunError → Prop}
    {Bad' : RunError × MaskPool S → Prop} {Post : α → Prop} {x : Except RunError α}
    (h : Meets Bad Post x) (hbad : ∀ e, Bad e → Bad' (e, pool)) : Meets Bad' Post (pool.leaving x) :=
  h.mapError hbad

theorem MaskPool.leaving_ok {α : Type} {x : Except RunError α} {a : α} (h : x = .ok a) :
    pool.leaving x = .ok a := by
  rw [h]
  rfl

theorem MaskPool.leaving_error {α : Type} {x : Except RunError α} {e : RunError}
    (h : x = .error e) : pool.leaving x = .error (e, pool) := by
  rw [h]
  rfl

/-- The masks between two positions, with their powers. -/
def MaskPool.masks (pool : MaskPool S) (start stop : Nat) : Masks S where
  r := slice pool.r start stop
  r2 := slice pool.r2 start stop
  r3 := slice pool.r3 start stop
  r4 := slice pool.r4 start stop
  r5 := slice pool.r5 start stop

/-- A read takes the masks between the positions it notes. -/
theorem MaskPool.read_meets (pool : MaskPool S) (start stop : Nat) :
    Meets (fun e => ¬ PoolFailed e)
      (fun r => r.1 = pool.masks start stop ∧
        r.2 = { pool with served := pool.served ++ [(start, stop)] })
      (pool.read start stop) := by
  unfold MaskPool.read
  refine (rangeOf_not_pool _ _ _ _).bind fun r hr => (rangeOf_not_pool _ _ _ _).bind fun r2 h2 =>
    (rangeOf_not_pool _ _ _ _).bind fun r3 h3 => (rangeOf_not_pool _ _ _ _).bind fun r4 h4 =>
    (rangeOf_not_pool _ _ _ _).bind fun r5 h5 => ?_
  subst hr h2 h3 h4 h5
  exact ⟨rfl, rfl⟩

/-- What a layer does with a pool when it returns. `masks` are the next ones, the `i`-th of them `i`
    places behind the cursor: the `i`-th input is opened under its own, what was opened is unmasked
    by the powers of the same one, and the cursor is moved behind the last. -/
structure LayerReads (net : Rep3 σ S) (xs : List S) (s : σ) (pool : MaskPool S)
    (r : List (SboxTrace S) × (σ × MaskPool S)) : Prop where
  opens : ∃ y, net.openVec
      ((xs.zip (slice pool.r pool.consumed (pool.consumed + xs.length))).map fun p =>
        net.sub p.1 p.2) s = .ok (y, r.2.1) ∧
    (List.range xs.length).mapM
      (unmaskAt net y (pool.masks pool.consumed (pool.consumed + xs.length))) = .ok r.1
  advances : r.2.2 = pool.advance xs.length

/-- Every element is unmasked, once. -/
theorem LayerReads.length {xs : List S} {s : σ} {r : List (SboxTrace S) × (σ × MaskPool S)}
    (h : LayerReads net xs s pool r) : r.1.length = xs.length := by
  obtain ⟨y, _, hout⟩ := h.opens
  rw [← (mapM_eq_ok_iff.mp hout).length_eq, List.length_range]

variable (net) in
/-- **A layer opens its inputs under the next masks.** It fails with the pool ahead of where it was,
    and for a reason of the pool's only if too few masks are left. -/
theorem rep3SboxLayer_reads (xs : List S) (s : σ) (pool : MaskPool S) :
    Meets (fun e => Ahead pool e.2 ∧ (pool.Holds xs.length → ¬ PoolFailed e.1))
      (LayerReads net xs s pool) (rep3SboxLayer net xs (s, pool)) := by
  -- The cursor's check fails only if too few masks are left.
  have havailable : Meets (fun _ => ¬ pool.Holds xs.length) (fun _ => True)
      (pool.ensureAvailable xs.length) := by
    by_cases hholds : pool.Holds xs.length
    · rw [MaskPool.ensureAvailable_ok hholds]
      exact trivial
    · cases pool.ensureAvailable xs.length with
      | error e => exact hholds
      | ok _ => exact trivial
  unfold rep3SboxLayer
  dsimp only
  refine Meets.bind (MaskPool.leaving_meets havailable fun e he => ⟨.refl, fun h => absurd h he⟩)
    fun _ _ => ?_
  refine Meets.bind (MaskPool.leaving_meets (pool.read_meets _ _) fun e he =>
    ⟨.refl, fun _ => he⟩) ?_
  rintro ⟨masks, pool'⟩ ⟨hmasks, hpool'⟩
  dsimp only at hmasks hpool' ⊢
  -- Reading and moving the cursor is one advance, noted where it was read.
  have hadvanced : { pool' with consumed := pool.consumed + xs.length } = pool.advance xs.length := by
    rw [hpool']
    rfl
  rw [hadvanced, hmasks]
  apply MaskPool.leaving_meets _ fun e (he : ¬ PoolFailed e) => ⟨Ahead.refl.advance _, fun _ => he⟩
  refine Meets.bind (meets_call_any raise_not_pool fun _ hopened => hopened) fun opened hopened => ?_
  -- Behind the opening nothing looks at the pool.
  have hunmask : Meets (fun e => ¬ PoolFailed e) (fun _ => True)
      ((List.range xs.length).mapM
        (unmaskAt net opened.1 (pool.masks pool.consumed (pool.consumed + xs.length)))) := by
    refine (Meets.mapM_rel (R := fun _ _ => True) fun i _ => ?_).post fun _ _ => trivial
    exact (readAt_not_pool _ _ _).bind fun _ _ => (readAt_not_pool _ _ _).bind fun _ _ =>
    (readAt_not_pool _ _ _).bind fun _ _ => (readAt_not_pool _ _ _).bind fun _ _ =>
    (readAt_not_pool _ _ _).bind fun _ _ => (readAt_not_pool _ _ _).bind fun _ _ => trivial
  cases hout : (List.range xs.length).mapM
      (unmaskAt net opened.1 (pool.masks pool.consumed (pool.consumed + xs.length))) with
  | error e =>
    rw [hout] at hunmask
    exact hunmask
  | ok out => exact ⟨⟨opened.1, hopened, hout⟩, rfl⟩

/-! ## One call -/

theorem checkedAdd_ok {e : RunError} {a b : Nat} (h : a + b < 2 ^ 64) :
    checkedAdd e a b = .ok (a + b) := by
  unfold checkedAdd
  rw [ensure_of h]
  rfl

theorem checkedMul_ok {e : RunError} {a b : Nat} (h : a * b < 2 ^ 64) :
    checkedMul e a b = .ok (a * b) := by
  unfold checkedMul
  rw [ensure_of h]
  rfl

/-- How many masks one site uses. -/
def siteMasks (t : Nat) : Nat := 8 * t + partialRounds t

theorem maskElements_ok {t sites : Nat} (ht : t ∈ poseidon2SupportedWidths)
    (h : sites * siteMasks t < 2 ^ 64) : maskElements t sites = .ok (sites * siteMasks t) := by
  have hsmall : t * 8 + partialRounds t < 2 ^ 64 := by
    simp only [poseidon2SupportedWidths, List.mem_cons, List.not_mem_nil, or_false] at ht
    rcases ht with rfl | rfl | rfl | rfl | rfl <;> decide
  have hsite : t * 8 + partialRounds t = siteMasks t := by rw [siteMasks, Nat.mul_comm]
  unfold maskElements
  rw [ensure_of ht, ok_bind, checkedMul_ok (by omega), ok_bind, checkedAdd_ok hsmall, ok_bind, hsite]
  exact checkedMul_ok h

/-- `mask_elements` is the number of masks, or refuses. -/
theorem maskElements_eq_ok {t sites required : Nat} (h : maskElements t sites = .ok required) :
    t ∈ poseidon2SupportedWidths ∧ required = sites * siteMasks t ∧ required < 2 ^ 64 := by
  unfold maskElements at h
  obtain ⟨ht, h⟩ := seq_eq_ok.mp h
  obtain ⟨full, hfull, h⟩ := bind_eq_ok.mp h
  obtain ⟨perSite, hperSite, h⟩ := bind_eq_ok.mp h
  unfold checkedMul at hfull h
  unfold checkedAdd at hperSite
  obtain ⟨_, hfull⟩ := seq_eq_ok.mp hfull
  obtain ⟨_, hperSite⟩ := seq_eq_ok.mp hperSite
  obtain ⟨hbound, h⟩ := seq_eq_ok.mp h
  cases hfull
  cases hperSite
  cases h
  exact ⟨ensure_eq_ok.mp ht, by rw [siteMasks, Nat.mul_comm 8], ensure_eq_ok.mp hbound⟩

/-- A plan's sinks, zeroed by related values. -/
theorem outputs_rel {R : V → W → Prop} (plan : RequestPlan) {zero : V} {zero' : W}
    (h : R zero zero') : List.Forall₂ (OutputRel R) (plan.outputs zero) (plan.outputs zero') := by
  unfold RequestPlan.outputs
  refine forall₂_map (forall₂_eq _) fun p q hpq => ?_
  subst hpq
  constructor
  · rfl
  · exact .nil
  · exact forall₂_replicate h _
  · simp [SiteOutput.new, SiteOutput.split]

theorem fullOutputs_rel {R : V → W → Prop} (t sites : Nat) {zero : V} {zero' : W}
    (h : R zero zero') : List.Forall₂ (OutputRel R) (fullOutputs (emptySiteTraces zero t sites))
      (fullOutputs (emptySiteTraces zero' t sites)) := by
  unfold fullOutputs emptySiteTraces
  rw [List.map_map, List.map_map]
  refine forall₂_map (forall₂_eq _) fun i j _ => ?_
  constructor
  · rfl
  · exact forall₂_replicate h _
  · exact forall₂_replicate h _
  · simp [SiteOutput.split]

section Call

variable {R : V → Fr → Prop} {Bad : RunError × MaskPool V → Prop} {net : Rep3 σ V}
  {start : MaskPool V}

/-- What is asked of a layer on sharings: related values, and the slice it was given. -/
def LayerSpends (R : V → Fr → Prop) (Bad : RunError × MaskPool V → Prop) (net : Rep3 σ V)
    (start : MaskPool V) : Prop :=
  ∀ total, start.Holds total → LayerRel R
    (fun n (state : σ × MaskPool V) (_ : Unit) => Spending start total n state.2) Bad
    (rep3Ops net) plainOps

variable (hops : Mirrored R (rep3Ops net) plainOps) (hlayer : LayerSpends R Bad net start)
include hops hlayer

/-- **A walk on sharings mirrors the plain one and spends what it asked for.** -/
theorem rep3Walk_mirrors (host : Host) (w : Poseidon2Width) {sites : Nat} {states : List V}
    {states' : List Fr} {outputs : List (SiteOutput V)} {outputs' : List (SiteOutput Fr)} (s : σ)
    (hstates : List.Forall₂ R states states') (hlen : states'.length = sites * w.get)
    (houtputs : List.Forall₂ (OutputRel R) outputs outputs') (hcount : outputs'.length = sites)
    (hholds : start.Holds (sites * siteMasks w.get)) :
    Refines Bad
      (fun p q => List.Forall₂ (OutputRel R) p.1 q.1 ∧
        Spending start (sites * siteMasks w.get) 0 p.2.2)
      (rep3Walk net host w.get states outputs (s, start))
      (walk plainOps w.get states' (host.constants w) outputs' ()) := by
  have hbound : sites * siteMasks w.get < 2 ^ 64 := by
    have hleft := hholds.left
    have hbounded := hholds.bounded
    omega
  have hwalk : Refines Bad
      (fun p q => List.Forall₂ (OutputRel R) p.1 q.1 ∧
        Spending start (sites * siteMasks w.get) 0 p.2.2)
      (walk (rep3Ops net) w.get states (host.constants w) outputs (s, start))
      (walk plainOps w.get states' (host.constants w) outputs' ()) := by
    refine walk_mirrors hops (hlayer (sites * siteMasks w.get) hholds) w.supported hstates hlen
      houtputs ?_
    rw [Nat.zero_add]
    exact Spending.fresh
  unfold rep3Walk
  rw [houtputs.length_eq, hcount, MaskPool.leaving_ok (maskElements_ok w.supported hbound), ok_bind,
    MaskPool.leaving_ok (MaskPool.ensureAvailable_ok hholds), ok_bind,
    MaskPool.leaving_ok (host.load_eq_ok w), ok_bind]
  intro q hq
  refine (hwalk q hq).bind fun p hp => ?_
  obtain ⟨outs, state'⟩ := p
  have hcursor := hp.2.cursor
  dsimp only at hcursor ⊢
  rw [MaskPool.leaving_ok (ensure_of (by omega)), ok_bind]
  exact ⟨hp.1, hp.2⟩

/-- The sparse entry point, on a table the plan accepts. -/
theorem rep3TraceRequested_mirrors (host : Host) (w : Poseidon2Width) {inputs : List (List Fr)}
    {states : List V} {requests offsets : List Nat} (s : σ) (hne : inputs ≠ [])
    (hin : ∀ input ∈ inputs, input.length = w.get)
    (hstates : List.Forall₂ R states inputs.flatten)
    (hrows : RowsOk inputs.length (resultSlots w.get) requests offsets)
    (hholds : start.Holds (inputs.length * siteMasks w.get)) :
    Meets Bad
      (fun r => List.Forall₂ R r.1
          (requestedTrace w.get (host.constants w) inputs requests offsets) ∧
        Spending start (inputs.length * siteMasks w.get) 0 r.2.2)
      (rep3TraceRequestedPreprocessed net host w.get states requests offsets (s, start)) := by
  have hsum : inputs.flatten.length = inputs.length * w.get := by
    rw [List.length_flatten, List.map_congr_left hin, List.map_const', List.sum_replicate,
      smul_eq_mul]
  obtain ⟨plan, hplan, _, _⟩ := requestPlan_new_eq_ok hrows
  obtain ⟨hcount, outputs', hdone, hvalues⟩ :=
    planned_sitesDone (host.constants w) w.supported hin hplan
  have hplain := walk_eq_ok w.supported hcount.symm hin hdone
  unfold rep3TraceRequestedPreprocessed
  rw [MaskPool.leaving_ok (checkWidth_eq_ok w (List.length_pos_of_ne_nil hne)
    (hstates.length_eq.trans hsum)), ok_bind, MaskPool.leaving_ok hplan, ok_bind]
  refine Meets.bind (rep3Walk_mirrors hops hlayer host w s hstates hsum
    (outputs_rel plan hops.default) hcount hholds _ hplain) fun p hp => ?_
  obtain ⟨outs, state'⟩ := p
  refine ⟨?_, hp.2⟩
  rw [← hvalues]
  exact forall₂_flatMap hp.1 fun o o' ho => ho.values

/-- The full entry point, over fresh traces. -/
theorem rep3Walk_full (host : Host) (w : Poseidon2Width) {inputs : List (List Fr)}
    {states : List V} (s : σ) (hin : ∀ input ∈ inputs, input.length = w.get)
    (hstates : List.Forall₂ R states inputs.flatten)
    (hholds : start.Holds (inputs.length * siteMasks w.get)) :
    Meets Bad
      (fun r => List.Forall₂ (fun o trace => List.Forall₂ R o.head trace.output ∧
          List.Forall₂ R o.values trace.intermediate) r.1
          (inputs.map (siteTrace w.get (host.constants w))) ∧
        Spending start (inputs.length * siteMasks w.get) 0 r.2.2)
      (rep3Walk net host w.get states
        (fullOutputs (emptySiteTraces net.default w.get inputs.length)) (s, start)) := by
  have hsum : inputs.flatten.length = inputs.length * w.get := by
    rw [List.length_flatten, List.map_congr_left hin, List.map_const', List.sum_replicate,
      smul_eq_mul]
  obtain ⟨outputs', hdone, htraces⟩ := sitesDone_split (host.constants w) w.supported inputs hin
  have hfresh := fullOutputs_fresh (plainOps.default : Fr) w.get inputs
  have hplain := walk_eq_ok w.supported (List.length_map _).symm hin hdone
  refine (rep3Walk_mirrors hops hlayer host w s hstates hsum
    (fullOutputs_rel w.get inputs.length hops.default) (by rw [hfresh, List.length_map]) hholds
    _ (hfresh ▸ hplain)).post fun p hp => ⟨?_, hp.2⟩
  rw [← htraces, List.forall₂_map_right_iff]
  exact hp.1.imp fun o o' ho => ⟨ho.head, ho.values⟩

end Call

/-- With nothing asked of the values, every layer on sharings spends its slice. -/
theorem rep3Ops_spends (net : Rep3 σ V) (start : MaskPool V) :
    LayerSpends (fun (_ : V) (_ : Fr) => True) (fun e => ¬ PoolFailed e.1) net start := by
  intro total hstart n xs ys state s' hxs hstate
  obtain ⟨s, pool⟩ := state
  have hlen := hxs.length_eq
  rw [← hlen] at hstate
  intro out hout
  cases hout
  have hpool := (hstate.holds hstart).weaken (Nat.le_add_left _ n)
  refine (rep3SboxLayer_reads net xs s pool).weaken (fun e he => he.2 hpool) ?_
  intro r hr
  refine ⟨?_, by rw [List.length_map], ?_⟩
  · rw [List.forall₂_iff_get]
    exact ⟨by rw [hr.length, List.length_map, hlen], fun _ _ _ => ⟨trivial, trivial, trivial⟩⟩
  · show Spending start total n r.2.2
    rw [hr.advances]
    exact hstate.advance

/-- **A call leaves the pool ahead of where it was**, whether it returns or fails. -/
theorem rep3Walk_ahead (host : Host) (t : Nat) (states : List S) (outputs : List (SiteOutput S))
    (s : σ) (pool : MaskPool S) :
    Meets (fun e => Ahead pool e.2) (fun r => Ahead pool r.2.2)
      (rep3Walk net host t states outputs (s, pool)) := by
  have hchecked : ∀ {α : Type} {pool' : MaskPool S} (x : Except RunError α), Ahead pool pool' →
      Meets (fun e => Ahead pool e.2) (fun _ => True) (pool'.leaving x) := by
    intro α pool' x h
    cases x with
    | error e => exact h
    | ok a => exact trivial
  unfold rep3Walk
  refine (hchecked _ .refl).bind fun required _ => (hchecked _ .refl).bind fun _ _ =>
    (hchecked _ .refl).bind fun loaded _ => ?_
  have hwalk : Meets (fun e => Ahead pool e.2) (fun r => Ahead pool r.2.2)
      (walk (rep3Ops net) loaded.1.get states loaded.2 outputs (s, pool)) := by
    refine walk_keeps (I := fun state : σ × MaskPool S => Ahead pool state.2) ?_ ?_ Ahead.refl
    · rintro xs ⟨s', pool'⟩ h
      refine (rep3SboxLayer_reads net xs s' pool').weaken (fun e he => h.trans he.1) ?_
      intro r hr
      rw [hr.advances]
      exact h.advance _
    · exact fun e state h => h
  exact hwalk.bind fun r h => (hchecked _ h).bind fun _ _ => h

end Poseidon2
end CircomMpc
