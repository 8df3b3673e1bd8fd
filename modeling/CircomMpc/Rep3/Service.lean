import CircomMpc.Rep3.Poseidon2Spending

/-!
# The standalone Poseidon2 service

`Poseidon2Service` is a mask pool with a trace call, and its owner may go on calling it after a call
has failed. `Service.Reached` is every service such an owner can hold: whatever was asked of it, by
calls that returned or failed, the pool is ahead of the new one (`Service.Reached.ahead`). A call for
more sites than are left hands the service back as it was (`Service.trace_refuses`), and one for no
more is served when the parties answer (`Service.trace_serves`).
-/

namespace CircomMpc
namespace Poseidon2

open Lib

variable {σ S : Type} {net : Rep3 σ S} {value : S → Fr} {pool start : MaskPool S}

/-! ## A new pool -/

theorem preprocessRep3_fresh {n : Nat} {s s' : σ} (h : preprocessRep3 net n s = .ok (pool, s')) :
    pool.r.length = n ∧ pool.consumed = 0 ∧ pool.served = [] := by
  unfold preprocessRep3 at h
  split at h
  next hn =>
    cases h
    exact ⟨hn.symm, rfl, rfl⟩
  next =>
    obtain ⟨_, _, h⟩ := bind_eq_ok.mp h
    obtain ⟨_, _, h⟩ := bind_eq_ok.mp h
    obtain ⟨_, _, h⟩ := bind_eq_ok.mp h
    obtain ⟨_, _, h⟩ := bind_eq_ok.mp h
    obtain ⟨_, h⟩ := seq_eq_ok.mp h
    cases h
    exact ⟨net.draw_length _ _, rfl, rfl⟩

/-- All five columns of a pool have one length, as `preprocess_rep3` leaves them. -/
structure MaskPool.Even (pool : MaskPool S) : Prop where
  r2 : pool.r2.length = pool.r.length
  r3 : pool.r3.length = pool.r.length
  r4 : pool.r4.length = pool.r.length
  r5 : pool.r5.length = pool.r.length

/-- No layer touches the columns. -/
theorem Ahead.even (h : Ahead start pool) (heven : start.Even) : pool.Even :=
  ⟨by rw [h.r2, h.r]; exact heven.r2, by rw [h.r3, h.r]; exact heven.r3,
    by rw [h.r4, h.r]; exact heven.r4, by rw [h.r5, h.r]; exact heven.r5⟩

/-- With parties that answer, a prepared pool has even columns. -/
theorem preprocessRep3_even (hnet : net.Answers value) {n : Nat} {s s' : σ}
    (h : preprocessRep3 net n s = .ok (pool, s')) : pool.Even := by
  -- A multiplication that returned is the one the parties answered.
  have hlength : ∀ {xs ys : List S} {t : σ} {r : List S × σ}, xs.length = ys.length →
      call (net.mulVec xs ys t) = .ok r → r.1.length = xs.length := by
    intro xs ys t r hxs hr
    obtain ⟨zs, t', hmul, hzs⟩ := hnet.mulVec hxs t
    rw [hmul, call_ok, Except.ok.injEq] at hr
    rw [← hr]
    exact hzs
  unfold preprocessRep3 at h
  split at h
  next => cases h; exact ⟨rfl, rfl, rfl, rfl⟩
  next =>
    obtain ⟨_, _, h⟩ := bind_eq_ok.mp h
    obtain ⟨r2, hr2, h⟩ := bind_eq_ok.mp h
    obtain ⟨r4, hr4, h⟩ := bind_eq_ok.mp h
    obtain ⟨r35, hr35, h⟩ := bind_eq_ok.mp h
    obtain ⟨_, h⟩ := seq_eq_ok.mp h
    cases h
    have h2 := hlength rfl hr2
    have h4 := hlength rfl hr4
    have h35 := hlength (by simp only [List.length_append, h2, h4]) hr35
    rw [List.length_append, net.draw_length] at h35
    rw [net.draw_length] at h2
    constructor <;> dsimp only <;> rw [net.draw_length]
    · exact h2
    · rw [List.length_take, h35]
      omega
    · exact h4.trans h2
    · rw [List.length_drop, h35]
      omega

/-! ## A call for too much -/

theorem ensureAvailable_refuses {count : Nat} (h : pool.r.length < pool.consumed + count) :
    ∃ e, pool.ensureAvailable count = .error e := by
  unfold MaskPool.ensureAvailable checkedAdd
  by_cases hbound : pool.consumed + count < 2 ^ 64
  · rw [ensure_of hbound, ok_bind]
    exact ⟨_, ensure_of_not (Nat.not_le_of_lt h)⟩
  · rw [ensure_of_not hbound]
    exact ⟨_, rfl⟩

variable (net) in
/-- A walk over more sites than the pool has left is refused before it touches the pool. -/
theorem rep3Walk_refuses (host : Host) {t : Nat} (states : List S) {outputs : List (SiteOutput S)}
    (s : σ) (h : pool.r.length < pool.consumed + outputs.length * siteMasks t) :
    ∃ e, rep3Walk net host t states outputs (s, pool) = .error (e, pool) := by
  unfold rep3Walk
  cases hmasks : maskElements t outputs.length with
  | error e => exact ⟨e, rfl⟩
  | ok required =>
    obtain ⟨_, rfl, _⟩ := maskElements_eq_ok hmasks
    obtain ⟨e, he⟩ := ensureAvailable_refuses h
    refine ⟨e, ?_⟩
    rw [MaskPool.leaving_ok rfl, ok_bind, MaskPool.leaving_error he]
    rfl

theorem fullOutputs_length (zero : S) (t sites : Nat) :
    (fullOutputs (emptySiteTraces zero t sites)).length = sites := by
  simp [fullOutputs, emptySiteTraces]

/-- **A call for more sites than are left is refused**, with the service as it was. -/
theorem Service.trace_refuses (host : Host) {service : Service S} {t : Nat}
    {states : List (InputValue S)} (s : σ)
    (h : service.preprocessing.r.length <
      service.preprocessing.consumed + states.length / t * siteMasks t) :
    ∃ e, service.trace net host t states s = .error (e, service) := by
  unfold Service.trace
  by_cases ht : t = service.t
  · rw [ensure_of ht]
    cases hwidth : checkWidth t (states.map (shareOf net)).length with
    | error e => exact ⟨e, by simp only [hwidth]; rfl⟩
    | ok sites =>
      have hsites : sites = states.length / t := by
        obtain ⟨_, hwidth⟩ := seq_eq_ok.mp hwidth
        obtain ⟨_, hwidth⟩ := seq_eq_ok.mp hwidth
        rw [List.length_map] at hwidth
        cases hwidth
        rfl
      rw [← hsites, ← fullOutputs_length net.default t sites] at h
      obtain ⟨e, he⟩ := rep3Walk_refuses net host (states.map (shareOf net)) s h
      refine ⟨e, ?_⟩
      simp only [hwidth]
      show ((rep3Walk net host t _ _ (s, service.preprocessing)).mapError _ >>= _) = _
      rw [he]
      rfl
  · rw [ensure_of_not ht]
    exact ⟨_, rfl⟩

/-! ## A call that is served -/

/-- With parties that answer, a layer the pool has enough for succeeds. -/
theorem rep3SboxLayer_serves (hnet : net.Answers value) (heven : pool.Even) (xs : List S) (s : σ)
    (hpool : pool.Holds xs.length) :
    Meets (fun _ => False) (fun _ => True) (rep3SboxLayer net xs (s, pool)) := by
  have hrange : ∀ (what : String) {column : List S}, column.length = pool.r.length →
      Meets (fun _ => False) (fun ys => ys.length = xs.length)
        (rangeOf what column pool.consumed (pool.consumed + xs.length)) := by
    intro what column hcolumn
    rw [rangeOf_eq_ok (Nat.le_add_right _ _) (hcolumn ▸ hpool.left)]
    exact (slice_length (hcolumn ▸ hpool.left)).trans (Nat.add_sub_cancel_left _ _)
  have hread : ∀ {α : Type} (what : String) {ys : List α}, ys.length = xs.length →
      ∀ i ∈ List.range xs.length, Meets (fun _ => False) (fun _ => True) (readAt what ys i) := by
    intro α what ys hys i hi
    rw [readAt_eq_ok (by rw [hys]; exact List.mem_range.mp hi)]
    exact trivial
  -- The cursor's check passes and every slice is in range, since the columns are even.
  have hmasks : Meets (fun _ => False)
      (fun r => r.1.r.length = xs.length ∧ r.1.r2.length = xs.length ∧ r.1.r3.length = xs.length ∧
        r.1.r4.length = xs.length ∧ r.1.r5.length = xs.length)
      (pool.read pool.consumed (pool.consumed + xs.length)) := by
    unfold MaskPool.read
    exact (hrange "r" rfl).bind fun r hr => (hrange "r2" heven.r2).bind fun r2 hr2 =>
      (hrange "r3" heven.r3).bind fun r3 hr3 => (hrange "r4" heven.r4).bind fun r4 hr4 =>
      (hrange "r5" heven.r5).bind fun r5 hr5 => ⟨hr, hr2, hr3, hr4, hr5⟩
  unfold rep3SboxLayer
  dsimp only
  rw [MaskPool.leaving_ok (MaskPool.ensureAvailable_ok hpool), ok_bind]
  refine Meets.bind (MaskPool.leaving_meets hmasks fun _ => id) ?_
  rintro ⟨masks, pool'⟩ ⟨hr, hr2, hr3, hr4, hr5⟩
  dsimp only at hr hr2 hr3 hr4 hr5 ⊢
  apply MaskPool.leaving_meets _ fun _ => id
  -- The parties answer, with a value for every input.
  obtain ⟨y, s', hopen, hy⟩ := hnet.openVec ((xs.zip masks.r).map fun p => net.sub p.1 p.2) s
  rw [List.length_map, List.length_zip, hr, min_self] at hy
  rw [hopen, call_ok, ok_bind]
  refine (Meets.mapM_rel (R := fun _ _ => True) fun i hi => ?_).bind fun _ _ => trivial
  exact (hread "y" hy i hi).bind fun _ _ => (hread "r" hr i hi).bind fun _ _ =>
    (hread "r2" hr2 i hi).bind fun _ _ => (hread "r3" hr3 i hi).bind fun _ _ =>
    (hread "r4" hr4 i hi).bind fun _ _ => (hread "r5" hr5 i hi).bind fun _ _ => trivial

theorem rep3Ops_serves (hnet : net.Answers value) (heven : start.Even) :
    LayerSpends (fun (_ : S) (_ : Fr) => True) (fun _ => False) net start := by
  intro total hstart n xs ys state s' hxs hstate out hout
  obtain ⟨s, pool⟩ := state
  have hstate' : Spending start total (n + ys.length) pool := hstate
  have hpool : pool.Holds xs.length :=
    (hstate'.holds hstart).weaken (hxs.length_eq ▸ Nat.le_add_left _ n)
  obtain ⟨reply, hrun, _⟩ :=
    (rep3SboxLayer_serves hnet (hstate'.toAhead.even heven) xs s hpool).ok_of_never
  have hspends := rep3Ops_spends net start total hstart n xs ys (s, pool) s' hxs hstate out hout
  show Meets _ _ (rep3SboxLayer net xs (s, pool))
  change Meets _ _ (rep3SboxLayer net xs (s, pool)) at hspends
  rw [hrun] at hspends ⊢
  exact hspends

/-- **A call the pool has enough for is served**, when the parties answer. -/
theorem Service.trace_serves (host : Host) (hnet : net.Answers value) {service : Service S}
    (heven : service.preprocessing.Even) {w : Poseidon2Width} (hw : service.t = w.get)
    {states : List (InputValue S)} {sites : Nat} (hsites : 0 < sites)
    (hlen : states.length = sites * w.get)
    (hholds : service.preprocessing.Holds (sites * siteMasks w.get)) (s : σ) :
    ∃ traces s' service', service.trace net host w.get states s = .ok (traces, (s', service')) ∧
      traces.length = sites ∧
      Spending service.preprocessing (sites * siteMasks w.get) 0 service'.preprocessing := by
  -- Nothing is asked of the values, so any cleartext states do for the walk that is mirrored.
  have hinputs : ∀ input ∈ List.replicate sites (List.replicate w.get (0 : Fr)),
      input.length = w.get := by
    intro input hinput
    rw [List.eq_of_mem_replicate hinput, List.length_replicate]
  have hcount : (List.replicate sites (List.replicate w.get (0 : Fr))).length = sites :=
    List.length_replicate
  have hstates : List.Forall₂ (fun (_ : S) (_ : Fr) => True) (states.map (shareOf net))
      (List.replicate sites (List.replicate w.get (0 : Fr))).flatten := by
    rw [List.forall₂_iff_get]
    exact ⟨by simp [hlen], fun _ _ _ => trivial⟩
  have hmirrored : Mirrored (fun (_ : S) (_ : Fr) => True) (rep3Ops net) plainOps :=
    ⟨trivial, fun _ => trivial, fun _ _ => trivial, fun _ _ => trivial, fun _ _ => trivial⟩
  rw [← hcount] at hholds
  have hwalk := rep3Walk_full hmirrored (rep3Ops_serves hnet heven) host w s hinputs hstates hholds
  rw [hcount] at hwalk
  obtain ⟨reply, hrun, htraces, hspent⟩ := hwalk.ok_of_never
  obtain ⟨outputs, s', pool⟩ := reply
  refine ⟨outputs.map fun o => { output := o.head, intermediate := o.values }, s',
    { service with preprocessing := pool }, ?_, ?_, hspent⟩
  · unfold Service.trace
    rw [ensure_of hw.symm]
    dsimp only
    rw [checkWidth_eq_ok w hsites (by rw [List.length_map]; exact hlen)]
    show ((rep3Walk net host w.get _ _ (s, service.preprocessing)).mapError _ >>= _) = _
    rw [hrun]
    rfl
  · rw [List.length_map, htraces.length_eq, List.length_map, hcount]

/-! ## Any number of calls -/

/-- The services an owner of `fresh` can come to hold, by calls that return and calls that fail. -/
inductive Service.Reached (net : Rep3 σ S) (host : Host) (fresh : Service S) : Service S → Prop
  | fresh : Reached net host fresh fresh
  | returned {service service' : Service S} {t : Nat} {states : List (InputValue S)} {s s' : σ}
      {traces : List (SiteTrace S)} (h : Reached net host fresh service)
      (htrace : service.trace net host t states s = .ok (traces, (s', service'))) :
      Reached net host fresh service'
  | failed {service service' : Service S} {t : Nat} {states : List (InputValue S)} {s : σ}
      {e : RunError} (h : Reached net host fresh service)
      (htrace : service.trace net host t states s = .error (e, service')) :
      Reached net host fresh service'

variable (net) in
/-- One call keeps the width and leaves the pool ahead, whether it returns or fails. -/
theorem Service.trace_ahead (host : Host) (service : Service S) (t : Nat)
    (states : List (InputValue S)) (s : σ) :
    Meets (fun e => e.2.t = service.t ∧ Ahead service.preprocessing e.2.preprocessing)
      (fun r => r.2.2.t = service.t ∧ Ahead service.preprocessing r.2.2.preprocessing)
      (service.trace net host t states s) := by
  have hchecked : ∀ {α : Type} (x : Except RunError α),
      Meets (fun e => e.2.t = service.t ∧ Ahead service.preprocessing e.2.preprocessing)
        (fun _ => True) (service.leaving x) := by
    intro α x
    cases x with
    | error e => exact ⟨rfl, .refl⟩
    | ok a => exact trivial
  unfold Service.trace
  refine (hchecked _).bind fun _ _ => (hchecked _).bind fun sites _ => ?_
  refine Meets.bind ((rep3Walk_ahead host t _ _ s service.preprocessing).mapError
    fun e he => ⟨rfl, he⟩) ?_
  rintro ⟨outputs, s', preprocessing⟩ h
  exact ⟨rfl, h⟩

theorem Service.Reached.ahead {host : Host} {fresh service : Service S}
    (h : Service.Reached net host fresh service) :
    service.t = fresh.t ∧ Ahead fresh.preprocessing service.preprocessing := by
  induction h with
  | fresh => exact ⟨rfl, .refl⟩
  | @returned service service' t states s s' traces h htrace ih =>
    have hstep := service.trace_ahead net host t states s
    rw [htrace] at hstep
    exact ⟨hstep.1.trans ih.1, ih.2.trans hstep.2⟩
  | @failed service service' t states s e h htrace ih =>
    have hstep := service.trace_ahead net host t states s
    rw [htrace] at hstep
    exact ⟨hstep.1.trans ih.1, ih.2.trans hstep.2⟩

/-- A new service holds the masks of the sites it was made for. -/
theorem Service.new_eq_ok {t sites : Nat} {s s' : σ} {service : Service S}
    (h : Service.new net t sites s = .ok (service, s')) :
    t ∈ poseidon2SupportedWidths ∧ service.t = t ∧
      service.preprocessing.r.length = sites * siteMasks t ∧
      service.preprocessing.r.length < 2 ^ 64 ∧ service.preprocessing.consumed = 0 ∧
      service.preprocessing.served = [] := by
  obtain ⟨required, hmasks, h⟩ := bind_eq_ok.mp h
  obtain ⟨reply, hpreprocess, h⟩ := bind_eq_ok.mp h
  cases h
  obtain ⟨ht, rfl, hbound⟩ := maskElements_eq_ok hmasks
  obtain ⟨hlength, hconsumed, hserved⟩ := preprocessRep3_fresh hpreprocess
  exact ⟨ht, rfl, hlength, hlength.trans_lt hbound, hconsumed, hserved⟩

theorem Service.new_even (hnet : net.Answers value) {t sites : Nat} {s s' : σ} {service : Service S}
    (h : Service.new net t sites s = .ok (service, s')) : service.preprocessing.Even := by
  obtain ⟨required, _, h⟩ := bind_eq_ok.mp h
  obtain ⟨reply, hpreprocess, h⟩ := bind_eq_ok.mp h
  cases h
  exact preprocessRep3_even hnet hpreprocess

end Poseidon2
end CircomMpc
