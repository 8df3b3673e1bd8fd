import CircomMpc.Rep3.Poseidon2Spending
import CircomMpc.Rep3.Reconstruct

/-!
# The Poseidon2 walk reconstructs

With a pool of powers, whatever the masks are, an s-box layer on sharings leaves sharings of the
plain layer's three powers; the walk mirrors its backend, so it does too. `preprocessRep3_powers`
is that the pool a driver prepares is one of powers.

`x = y + r` with `y` public, so `x^5` is a polynomial in `y` whose coefficients are the powers of `r`,
and multiplying a sharing by a public value is local. The masks cancel: nothing is asked of them here,
not even that they are random.
-/

namespace CircomMpc
namespace Poseidon2

open Lib

variable {σ S : Type}

/-! ## A layer -/

/-- A pool of powers of its own masks: the four columns beside `r` share its second to fifth powers,
    mask by mask. -/
structure MaskPool.Powers (value : S → Fr) (pool : MaskPool S) : Prop where
  r2 : pool.r2.map value = pool.r.map fun r => value r ^ 2
  r3 : pool.r3.map value = pool.r.map fun r => value r ^ 3
  r4 : pool.r4.map value = pool.r.map fun r => value r ^ 4
  r5 : pool.r5.map value = pool.r.map fun r => value r ^ 5

variable {pool : MaskPool S} {net : Rep3 σ S} {value : S → Fr} {integer : net.Binary → Nat}
  {Fails : Rep3Error → Prop}

/-- Undoing the mask: binomials in `y = x - r` over the powers of `r`. -/
theorem unmaskPowers_reconstructs (hnet : net.Correct value integer Fails) {x y : Fr}
    {r r2 r3 r4 r5 : S} (hy : y = x - value r) (h2 : value r2 = value r ^ 2)
    (h3 : value r3 = value r ^ 3) (h4 : value r4 = value r ^ 4) (h5 : value r5 = value r ^ 5) :
    SboxRel (fun v w => value v = w) (unmaskPowers net y r r2 r3 r4 r5) (plainSbox x) := by
  obtain rfl : x = y + value r := by rw [hy, sub_add_cancel]
  constructor <;>
    simp only [unmaskPowers, plainSbox, times4, times5, hnet.add, hnet.addPublic, hnet.mulPublic,
      h2, h3, h4, h5]
  all_goals ring

theorem Spending.powers {start : MaskPool S} {total n : Nat} (h : Spending start total n pool)
    (hstart : start.Powers value) : pool.Powers value :=
  ⟨by rw [h.r, h.r2]; exact hstart.r2, by rw [h.r, h.r3]; exact hstart.r3,
    by rw [h.r, h.r4]; exact hstart.r4, by rw [h.r, h.r5]; exact hstart.r5⟩

/-- A column of powers, at one mask. -/
theorem power_at {column r : List S} {k i : Nat} {mask : S}
    (h : column.map value = r.map fun x => value x ^ k) (hi : r[i]? = some mask) :
    ∃ power, column[i]? = some power ∧ value power = value mask ^ k := by
  have hget := congrArg (fun xs => xs[i]?) h
  rw [List.getElem?_map, List.getElem?_map, hi] at hget
  exact Option.map_eq_some_iff.mp hget

/-- One element of a layer, once its mask has been opened. -/
theorem unmaskAt_reconstructs (hnet : net.Correct value integer Fails) {xs r r2 r3 r4 r5 : List S}
    {y : List Fr}
    (hr : r.length = xs.length) (h2 : r2.map value = r.map fun m => value m ^ 2)
    (h3 : r3.map value = r.map fun m => value m ^ 3)
    (h4 : r4.map value = r.map fun m => value m ^ 4)
    (h5 : r5.map value = r.map fun m => value m ^ 5)
    (hy : y = ((xs.zip r).map fun p => net.sub p.1 p.2).map value) {i : Nat} {x : S}
    (hx : xs[i]? = some x) :
    Refines (fun _ => False) (SboxRel fun v w => value v = w)
      (unmaskAt net y { r, r2, r3, r4, r5 } i)
      (.ok (plainSbox (value x)) : Except RunError (SboxTrace Fr)) := by
  have hi : i < r.length := hr ▸ (List.getElem?_eq_some_iff.mp hx).1
  have hmask : r[i]? = some r[i] := List.getElem?_eq_getElem hi
  generalize r[i] = mask at hmask
  have hopened : y[i]? = some (value x - value mask) := by
    have hpair : (xs.zip r)[i]? = some (x, mask) := List.getElem?_zip_eq_some.mpr ⟨hx, hmask⟩
    rw [hy, List.getElem?_map, List.getElem?_map, hpair]
    exact congrArg some (hnet.sub x mask)
  obtain ⟨p2, hp2, hv2⟩ := power_at h2 hmask
  obtain ⟨p3, hp3, hv3⟩ := power_at h3 hmask
  obtain ⟨p4, hp4, hv4⟩ := power_at h4 hmask
  obtain ⟨p5, hp5, hv5⟩ := power_at h5 hmask
  simp only [unmaskAt, readAt, hopened, hmask, hp2, hp3, hp4, hp5, orElse_some, ok_bind]
  exact Refines.ok (unmaskPowers_reconstructs hnet rfl hv2 hv3 hv4 hv5)

/-- One layer: the inputs masked and opened, every power recovered in place. -/
theorem rep3SboxLayer_reconstructs (hnet : net.Correct value integer Fails) (xs : List S) (s : σ)
    (hpool : pool.Holds xs.length) (hpowers : pool.Powers value) :
    Meets (fun e => Raised Fails e.1)
      (fun r => List.Forall₂ (SboxRel fun v w => value v = w) r.1
        ((xs.map value).map plainSbox) ∧ r.2.2 = pool.advance xs.length)
      (rep3SboxLayer net xs (s, pool)) := by
  have hrange : ∀ (what : String) {column : List S}, column.length = pool.r.length →
      rangeOf what column pool.consumed (pool.consumed + xs.length) =
        .ok (slice column pool.consumed (pool.consumed + xs.length)) := by
    intro what column hcolumn
    exact rangeOf_eq_ok (Nat.le_add_right _ _) (hcolumn ▸ hpool.left)
  -- A pool of powers has five columns of one length, so every slice is in range.
  have hlength : ∀ {column : List S} {k : Nat},
      (column.map value = pool.r.map fun r => value r ^ k) → column.length = pool.r.length := by
    intro column k h
    have hlen := congrArg List.length h
    rwa [List.length_map, List.length_map] at hlen
  have hslice : ∀ {column : List S} {k : Nat},
      (column.map value = pool.r.map fun r => value r ^ k) →
      (slice column pool.consumed (pool.consumed + xs.length)).map value =
        (slice pool.r pool.consumed (pool.consumed + xs.length)).map fun r => value r ^ k := by
    intro column k h
    rw [← slice_map, h, slice_map]
  unfold rep3SboxLayer MaskPool.read
  dsimp only
  rw [MaskPool.leaving_ok (MaskPool.ensureAvailable_ok hpool), ok_bind, hrange "r" rfl, ok_bind,
    hrange "r2" (hlength hpowers.r2), ok_bind, hrange "r3" (hlength hpowers.r3), ok_bind,
    hrange "r4" (hlength hpowers.r4), ok_bind, hrange "r5" (hlength hpowers.r5), ok_bind]
  apply MaskPool.leaving_meets _ fun e he => he
  apply Meets.bind (meets_call (hnet.openVec _ s))
  intro opened hopened
  -- The slice has a mask for every input.
  have hmasks : (slice pool.r pool.consumed (pool.consumed + xs.length)).length = xs.length := by
    rw [slice_length hpool.left, Nat.add_sub_cancel_left]
  -- Element by element, the binomials are the powers of what was opened plus its mask.
  have hout := Refines.mapM (forall₂_range xs) fun i x hx =>
    unmaskAt_reconstructs hnet hmasks (hslice hpowers.r2) (hslice hpowers.r3) (hslice hpowers.r4)
      (hslice hpowers.r5) hopened hx
  obtain ⟨out, hrun, hrel⟩ := (hout _ (mapM_eq_ok fun _ _ => rfl)).ok_of_never
  rw [hrun]
  exact ⟨by rw [List.map_map]; exact hrel, rfl⟩

theorem rep3Ops_mirrored (hnet : net.Correct value integer Fails) :
    Mirrored (fun v w => value v = w) (rep3Ops net) plainOps where
  default := hnet.default
  ofPublic := hnet.promote
  add ha hb := (hnet.add _ _).trans (congrArg₂ (· + ·) ha hb)
  addPublic c ha := (hnet.addPublic _ c).trans (congrArg (· + c) ha)
  mulPublic c ha := (hnet.mulPublic _ c).trans (congrArg (· * c) ha)

theorem rep3Ops_layer (hnet : net.Correct value integer Fails) {start : MaskPool S}
    (hpowers : start.Powers value) :
    LayerSpends (fun v w => value v = w) (fun e => Raised Fails e.1) net start := by
  intro total hstart n xs ys state s' hxs hstate
  obtain ⟨s, pool⟩ := state
  have hvalues : xs.map value = ys := by
    rwa [← List.forall₂_eq_eq_eq, List.forall₂_map_left_iff]
  subst hvalues
  rw [List.length_map] at hstate
  intro out hout
  cases hout
  have hpool := (hstate.holds hstart).weaken (Nat.le_add_left _ n)
  refine (rep3SboxLayer_reconstructs hnet xs s hpool (hstate.powers hpowers)).post ?_
  intro r hr
  refine ⟨hr.1, by rw [List.length_map], ?_⟩
  show Spending start total n r.2.2
  rw [hr.2]
  exact hstate.advance

/-- The reconstruction of a sink. -/
def SiteOutput.reconstruct (value : S → Fr) (o : SiteOutput S) : SiteOutput Fr :=
  { o with head := o.head.map value, values := o.values.map value }

theorem outputRel_reconstruct {o : SiteOutput S} {o' : SiteOutput Fr} :
    OutputRel (fun v w => value v = w) o o' ↔ o.reconstruct value = o' := by
  constructor
  · intro h
    have hhead := h.head
    have hvalues := h.values
    rw [← List.forall₂_map_left_iff, List.forall₂_eq_eq_eq] at hhead hvalues
    obtain ⟨positions, head, values, written⟩ := o'
    exact SiteOutput.mk.injEq .. |>.mpr ⟨h.positions, hhead, hvalues, h.written⟩
  · rintro rfl
    refine ⟨rfl, ?_, ?_, rfl⟩ <;>
      exact List.forall₂_map_right_iff.mpr (List.forall₂_same.mpr fun _ _ => rfl)

/-- **The walk on sharings reconstructs to the plain walk**, sink by sink. -/
theorem walk_reconstructs (hnet : net.Correct value integer Fails) {t sites : Nat}
    (rc : RoundConstants t) {states : List S} (outputs : List (SiteOutput S)) (s : σ)
    (ht : t ∈ poseidon2SupportedWidths) (hlen : states.length = sites * t)
    (hpowers : pool.Powers value) (hholds : pool.Holds (sites * siteMasks t))
    {outputs' : List (SiteOutput Fr)}
    (hplain : walk plainOps t (states.map value) rc (outputs.map (·.reconstruct value)) () =
      .ok (outputs', ())) :
    Meets (fun e => Raised Fails e.1) (fun r => r.1.map (·.reconstruct value) = outputs')
      (walk (rep3Ops net) t states rc outputs (s, pool)) := by
  have hstates : List.Forall₂ (fun v w => value v = w) states (states.map value) :=
    List.forall₂_map_right_iff.mpr (List.forall₂_same.mpr fun _ _ => rfl)
  have houtputs : List.Forall₂ (OutputRel fun v w => value v = w) outputs
      (outputs.map (·.reconstruct value)) :=
    List.forall₂_map_right_iff.mpr
      (List.forall₂_same.mpr fun _ _ => outputRel_reconstruct.mpr rfl)
  have hwalk : Refines (fun e => Raised Fails e.1)
      (fun p q => List.Forall₂ (OutputRel fun v w => value v = w) p.1 q.1 ∧
        Spending pool (sites * siteMasks t) 0 p.2.2)
      (walk (rep3Ops net) t states rc outputs (s, pool))
      (walk plainOps t (states.map value) rc (outputs.map (·.reconstruct value)) ()) := by
    refine walk_mirrors (rep3Ops_mirrored hnet) (rep3Ops_layer hnet hpowers _ hholds) ht hstates
      (by rw [List.length_map]; exact hlen) houtputs ?_
    rw [Nat.zero_add]
    exact Spending.fresh
  refine (hwalk _ hplain).post fun p hp => ?_
  rw [← List.forall₂_eq_eq_eq, List.forall₂_map_left_iff]
  exact hp.1.imp fun _ _ => outputRel_reconstruct.mp

/-- **The sparse entry point reconstructs to the plain one.** -/
theorem rep3TraceRequested_reconstructs (hnet : net.Correct value integer Fails) (host : Host)
    (w : Poseidon2Width) {states : List S} {requests offsets : List Nat} (s : σ) {values : List Fr}
    (hpowers : pool.Powers value) (hholds : pool.Holds (states.length / w.get * siteMasks w.get))
    (hplain : plainTraceRequested host w.get (states.map value) requests offsets = .ok values) :
    Meets (fun e => Raised Fails e.1) (fun r => r.1.map value = values)
      (rep3TraceRequestedPreprocessed net host w.get states requests offsets (s, pool)) := by
  obtain ⟨sites, hsites, hlen⟩ : ∃ sites, 0 < sites ∧ states.length = sites * w.get := by
    obtain ⟨sites, hwidth, _⟩ := bind_eq_ok.mp hplain
    obtain ⟨_, hwidth⟩ := seq_eq_ok.mp hwidth
    obtain ⟨hcount, _⟩ := seq_eq_ok.mp hwidth
    rw [ensure_eq_ok, List.length_map] at hcount
    have hpos := w.pos
    have hdiv := Nat.div_add_mod states.length w.get
    rw [hcount.2, Nat.add_zero] at hdiv
    refine ⟨states.length / w.get, ?_, by rw [Nat.mul_comm]; exact hdiv.symm⟩
    exact Nat.pos_of_ne_zero fun h => hcount.1 (by rw [← hdiv, h, Nat.mul_zero])
  have hlen' : (states.map value).length = sites * w.get := by rw [List.length_map, hlen]
  obtain ⟨hflat, hwidth, hcount⟩ := flatten_chunksExact w.pos hlen'
  have hrows := plainTraceRequested_rowsOk hsites hlen' hplain
  rw [← hcount] at hrows
  have hne : chunksExact w.get (states.map value) ≠ [] := by
    apply List.ne_nil_of_length_pos
    rw [hcount]
    exact hsites
  rw [← hflat, plainTraceRequested_eq_ok host w hne hwidth hrows, Except.ok.injEq] at hplain
  subst hplain
  have hstates : List.Forall₂ (fun v w => value v = w) states
      (chunksExact w.get (states.map value)).flatten := by
    rw [hflat]
    exact List.forall₂_map_right_iff.mpr (List.forall₂_same.mpr fun _ _ => rfl)
  rw [hlen, Nat.mul_div_cancel _ w.pos, ← hcount] at hholds
  refine (rep3TraceRequested_mirrors (rep3Ops_mirrored hnet) (rep3Ops_layer hnet hpowers) host w s
    hne hwidth hstates hrows hholds).post fun r hr => ?_
  rw [← List.forall₂_eq_eq_eq, List.forall₂_map_left_iff]
  exact hr.1

/-- The pool `preprocess_rep3` prepares holds the powers of the masks it drew. -/
theorem preprocessRep3_powers (hnet : net.Correct value integer Fails) (n : Nat) (s : σ) :
    Meets (fun e => Raised Fails e ∨ 2 ^ 64 ≤ n * 2)
      (fun r => r.1.Powers value ∧ r.1.r = (net.draw n s).1 ∧ r.1.consumed = 0)
      (preprocessRep3 net n s) := by
  unfold preprocessRep3
  by_cases hn : n = 0
  · rw [if_pos hn]
    subst hn
    exact ⟨⟨rfl, rfl, rfl, rfl⟩, rfl, rfl⟩
  rw [if_neg hn]
  dsimp only
  by_cases hbound : n * 2 < 2 ^ 64
  swap
  · unfold checkedMul
    rw [ensure_of_not hbound]
    exact .inr (Nat.le_of_not_lt hbound)
  rw [checkedMul_ok hbound]
  have hdrawn := net.draw_length n s
  generalize net.draw n s = drawn at hdrawn
  obtain ⟨r, s0⟩ := drawn
  dsimp only [ok_bind] at hdrawn ⊢
  have raised : ∀ {α : Type} {P : α → Prop} {x : Except Rep3Error α}, Meets Fails P x →
      Meets (fun e => Raised Fails e ∨ 2 ^ 64 ≤ n * 2) P (call x) :=
    fun h => (meets_call h).weaken (fun _ => .inl) fun _ h => h
  have hlength : ∀ {xs ys : List S} {f : S → Fr},
      xs.map value = ys.map f → xs.length = ys.length := by
    intro xs ys f h
    have hlen := congrArg List.length h
    rwa [List.length_map, List.length_map] at hlen
  -- Each multiplication raises the powers it is given.
  have hproduct : ∀ {xs ys out : List S} {i j : Nat},
      out.map value = (xs.zip ys).map (fun p => value p.1 * value p.2) →
      (xs.map value = r.map fun m => value m ^ i) → (ys.map value = r.map fun m => value m ^ j) →
      out.map value = r.map fun m => value m ^ (i + j) := by
    intro xs ys out i j hout hxs hys
    have hpairs : (xs.zip ys).map (fun p => value p.1 * value p.2) =
        ((xs.map value).zip (ys.map value)).map fun p => p.1 * p.2 := by
      rw [List.zip_map, List.map_map]
      rfl
    rw [hout, hpairs, hxs, hys, List.zip_map', List.map_map]
    simp only [Function.comp_def, pow_add]
  have hr1 : r.map value = r.map fun m => value m ^ 1 := by simp only [pow_one]
  refine Meets.bind (raised (hnet.mulVec rfl s0)) fun reply hr2 => ?_
  obtain ⟨r2, s1⟩ := reply
  have hr2 := hproduct hr2 hr1 hr1
  refine Meets.bind (raised (hnet.mulVec rfl s1)) fun reply hr4 => ?_
  obtain ⟨r4, s2⟩ := reply
  have hr4 := hproduct hr4 hr2 hr2
  have hlens : (r ++ r).length = (r2 ++ r4).length := by
    rw [List.length_append, List.length_append, hlength hr2, hlength hr4]
  refine Meets.bind (raised (hnet.mulVec hlens s2)) fun reply hr35 => ?_
  obtain ⟨r35, s3⟩ := reply
  have hsplit : r35.map value =
      (r.zip r2).map (fun p => value p.1 * value p.2) ++
        (r.zip r4).map (fun p => value p.1 * value p.2) := by
    rw [hr35, List.zip_append (hlength hr2).symm, List.map_append]
  have hpairs : ((r.zip r2).map fun p => value p.1 * value p.2).length = n := by
    rw [List.length_map, List.length_zip, hlength hr2, hdrawn, min_self]
  have hcount : n ≤ r35.length := by
    have hlen := congrArg List.length hsplit
    rw [List.length_map, List.length_append, hpairs] at hlen
    omega
  rw [ensure_of hcount]
  have htake : (r35.take n).map value = (r.zip r2).map fun p => value p.1 * value p.2 := by
    rw [List.map_take, hsplit, List.take_left' hpairs]
  have hdrop : (r35.drop n).map value = (r.zip r4).map fun p => value p.1 * value p.2 := by
    rw [List.map_drop, hsplit, List.drop_left' hpairs]
  exact ⟨⟨hr2, hproduct htake hr1 hr2, hr4, hproduct hdrop hr1 hr4⟩, rfl, rfl⟩

end Poseidon2
end CircomMpc
