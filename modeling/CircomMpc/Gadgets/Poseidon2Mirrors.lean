import CircomMpc.Lib.Refines
import CircomMpc.Gadgets.Poseidon2Walk

/-!
# The walk does not look at its values

`walk` is written once over an arithmetic backend, so two backends whose values are related
(`Mirrored`) record related values at the same slots: `walk_mirrors`. Which relation is left open.
With "reconstructs to" it says that a walk over shares is the walk over what they share; with the
relation that always holds it says that whether a walk succeeds, and how many s-boxes each of its
layers has, does not depend on the values at all.

The one operation that may fail and has a state is the s-box layer. Its premise carries a relation on
the two states indexed by how many s-boxes are still to come, which is where a backend that spends
something on each of them says that it has enough left.
-/

namespace CircomMpc
namespace Poseidon2

open Lib

variable {V W σ τ ε ε' α β α' β' : Type} {R : V → W → Prop}

/-! ## Traced computations -/

/-- The same slots, related values. -/
def LogRel (R : V → W → Prop) : Log V → Log W → Prop :=
  List.Forall₂ fun e e' => e.1 = e'.1 ∧ R e.2 e'.2

/-- Where `y` returns, `x` returns a related value and has recorded related values. -/
def Mirrors (R : V → W → Prop) (Q : α → β → Prop) (x : Traced V α) (y : Traced W β) : Prop :=
  Refines (fun _ => False) (fun p q => Q p.1 q.1 ∧ LogRel R p.2 q.2) x y

namespace Mirrors

variable {Q : α → β → Prop} {Q' : α' → β' → Prop} {x : Traced V α} {y : Traced W β}

theorem pure {a : α} {b : β} (h : Q a b) :
    Mirrors R Q (Pure.pure a : Traced V α) (Pure.pure b) :=
  Refines.ok ⟨h, .nil⟩

theorem fault {e : RunError} : Mirrors R Q x (Poseidon2.fault e) := Refines.error

theorem record {k : Nat} {v : V} {w : W} (h : R v w) :
    Mirrors R (fun _ _ => True) (Poseidon2.record k v) (Poseidon2.record k w) :=
  Refines.ok ⟨trivial, .cons ⟨rfl, h⟩ .nil⟩

theorem recordSlice {k : Nat} {vs : List V} {ws : List W} (h : List.Forall₂ R vs ws) :
    Mirrors R (fun _ _ => True) (Poseidon2.recordSlice k vs) (Poseidon2.recordSlice k ws) := by
  refine Refines.ok ⟨trivial, forall₂_map (forall₂_zipIdx 0 h) ?_⟩
  intro p q hpq
  exact ⟨congrArg (k + ·) hpq.2, hpq.1⟩

theorem bind {f : α → Traced V α'} {g : β → Traced W β'} (h : Mirrors R Q x y)
    (hf : ∀ a b, Q a b → Mirrors R Q' (f a) (g b)) : Mirrors R Q' (x >>= f) (y >>= g) := by
  intro b' hb'
  rcases hy : y with e | ⟨b, log⟩
  · rw [hy] at hb'
    cases hb'
  obtain ⟨⟨a, log'⟩, hx, hab, hlog⟩ := (h _ hy).ok_of_never
  rw [bind_ok hy] at hb'
  rcases hg : g b with e | ⟨c, rest⟩
  · rw [hg] at hb'
    cases hb'
  obtain ⟨⟨c', rest'⟩, hfa, hcc, hrest⟩ := (hf a b hab _ hg).ok_of_never
  rw [hg] at hb'
  cases hb'
  rw [bind_ok hx, hfa]
  exact ⟨hcc, forall₂_append hlog hrest⟩

theorem post {Q₂ : α → β → Prop} (h : Mirrors R Q x y) (hq : ∀ a b, Q a b → Q₂ a b) :
    Mirrors R Q₂ x y :=
  Refines.post h fun _ _ hpq => ⟨hq _ _ hpq.1, hpq.2⟩

/-- What is known of the specification's result. -/
theorem writes {keys : List Nat} {Post : β → Prop} (h : Mirrors R Q x y) (hw : Writes y keys Post) :
    Mirrors R (fun a b => Q a b ∧ Post b) x y := by
  obtain ⟨b, log, hy, -, hpost⟩ := hw
  intro p hp
  obtain ⟨a, hx, hq⟩ := (h p hp).ok_of_never
  rw [hy] at hp
  cases hp
  rw [hx]
  exact ⟨⟨hq.1, hpost⟩, hq.2⟩

theorem foldlM {γ δ : Type} {Item : γ → δ → Prop} {f : α → γ → Traced V α}
    {g : β → δ → Traced W β} :
    ∀ {xs : List γ} {ys : List δ} {s : α} {t : β}, List.Forall₂ Item xs ys → Q s t →
      (∀ c d s t, Item c d → Q s t → Mirrors R Q (f s c) (g t d)) →
      Mirrors R Q (xs.foldlM f s) (ys.foldlM g t)
  | [], [], _, _, .nil, hs, _ => pure hs
  | c :: xs, d :: ys, s, t, .cons hcd hrest, hs, hf => by
    rw [List.foldlM_cons, List.foldlM_cons]
    exact (hf c d s t hcd hs).bind fun s' t' hs' => foldlM hrest hs' hf

theorem mapM {γ δ : Type} {Item : γ → δ → Prop} {f : γ → Traced V α} {g : δ → Traced W β} :
    ∀ {xs : List γ} {ys : List δ}, List.Forall₂ Item xs ys →
      (∀ c d, Item c d → Mirrors R Q (f c) (g d)) →
      Mirrors R (List.Forall₂ Q) (xs.mapM f) (ys.mapM g)
  | [], [], .nil, _ => pure .nil
  | c :: xs, d :: ys, .cons hcd hrest, hf => by
    rw [List.mapM_cons, List.mapM_cons]
    exact (hf c d hcd).bind fun a b hab =>
      (mapM hrest hf).bind fun as bs habs => pure (.cons hab habs)

end Mirrors

/-- The local operations of two backends, related: each takes related operands to related results,
    and a public element to related values. -/
structure Mirrored (R : V → W → Prop) (ops : Ops V σ ε) (ops' : Ops W τ ε') : Prop where
  default : R ops.default ops'.default
  ofPublic : ∀ c, R (ops.ofPublic c) (ops'.ofPublic c)
  add : ∀ {a b a' b'}, R a a' → R b b' → R (ops.add a b) (ops'.add a' b')
  addPublic : ∀ {a a'} (c : Fr), R a a' → R (ops.addPublic a c) (ops'.addPublic a' c)
  mulPublic : ∀ {a a'} (c : Fr), R a a' → R (ops.mulPublic a c) (ops'.mulPublic a' c)

/-- Two s-box traces, value by value. -/
structure SboxRel (R : V → W → Prop) (s : SboxTrace V) (s' : SboxTrace W) : Prop where
  square : R s.square s'.square
  pow4 : R s.pow4 s'.pow4
  out : R s.out s'.out

/-! ## The blocks -/

theorem overwrite_rel {out xs : List V} {out' xs' : List W} (ho : List.Forall₂ R out out')
    (h : List.Forall₂ R xs xs') : List.Forall₂ R (overwrite out xs) (overwrite out' xs') := by
  unfold overwrite
  rw [ho.length_eq, h.length_eq]
  exact forall₂_append (List.forall₂_take _ h) (List.forall₂_drop _ ho)

theorem column_rel {xs : List V} {xs' : List W} (l : Nat) (h : List.Forall₂ R xs xs') :
    List.Forall₂ R (column l xs) (column l xs') := by
  unfold column
  refine forall₂_map (List.rel_filter ?_ (forall₂_zipIdx 0 h)) fun p q hpq => hpq.1
  intro p q hpq
  simp only [decide_eq_true_eq, hpq.2]

theorem foldl_add_rel {ops : Ops V σ ε} {ops' : Ops W τ ε'} (hops : Mirrored R ops ops') {xs : List V}
    {xs' : List W} {a : V} {a' : W} (h : List.Forall₂ R xs xs') (ha : R a a') :
    R (xs.foldl ops.add a) (xs'.foldl ops'.add a') := by
  induction h generalizing a a' with
  | nil => exact ha
  | cons hx _ ih => exact ih (hops.add ha hx)

section Blocks

variable {ops : Ops V σ ε} {ops' : Ops W τ ε'} (hops : Mirrored R ops ops')
include hops

theorem acc_mirrors {xs : List V} {xs' : List W} (h : List.Forall₂ R xs xs') (base : Nat) :
    Mirrors R R (acc ops xs base) (acc ops' xs' base) := by
  have hlen := h.length_eq
  cases h with
  | nil => exact Mirrors.fault
  | @cons a b rest rest' hab hrest =>
    simp only [acc]
    rw [hlen]
    refine (Mirrors.record hab).bind fun _ _ _ => (Mirrors.record hab).bind fun _ _ _ => ?_
    refine (Mirrors.foldlM (Q := R) (forall₂_zipIdx 1 hrest) hab ?_).bind ?_
    · intro c d sum sum' hcd hsum
      rw [hcd.2]
      exact (Mirrors.record hcd.1).bind fun _ _ _ =>
        (Mirrors.record (hops.add hsum hcd.1)).bind fun _ _ _ => Mirrors.pure (hops.add hsum hcd.1)
    · intro sum sum' hsum
      exact (Mirrors.record hsum).bind fun _ _ _ => Mirrors.pure hsum

theorem externalMatmulLeaf_mirrors {xs out : List V} {xs' out' : List W}
    (h : List.Forall₂ R xs xs') (ho : List.Forall₂ R out out') (base : Nat) :
    Mirrors R (List.Forall₂ R) (externalMatmulLeaf ops xs out base)
      (externalMatmulLeaf ops' xs' out' base) := by
  have hlen := h.length_eq
  by_cases h23 : xs'.length = 2 ∨ xs'.length = 3
  · obtain ⟨x', rest', rfl⟩ := List.exists_cons_of_length_pos (l := xs') (by omega)
    obtain ⟨x, rest, hx, hrest, rfl⟩ := List.forall₂_cons_right_iff.mp h
    rw [externalMatmulLeaf_small ops h23 hlen, externalMatmulLeaf_small ops' h23 rfl]
    have hsum : R (rest.foldl ops.add x) (rest'.foldl ops'.add x') := foldl_add_rel hops hrest hx
    have hadded : List.Forall₂ R ((x :: rest).map fun v => ops.add v (rest.foldl ops.add x))
        ((x' :: rest').map fun v => ops'.add v (rest'.foldl ops'.add x')) :=
      forall₂_map h fun a b hab => hops.add hab hsum
    have hout := overwrite_rel ho hadded
    refine (Mirrors.recordSlice h).bind fun _ _ _ => (Mirrors.record hsum).bind fun _ _ _ =>
      (Mirrors.recordSlice hout).bind fun _ _ _ => Mirrors.pure hout
  · simp only [externalMatmulLeaf]
    rw [hlen]
    refine (Mirrors.recordSlice h).bind fun _ _ _ => ?_
    cases h with
    | nil => exact Mirrors.fault
    | @cons a a' _ _ ha h =>
    cases h with
    | nil => exact Mirrors.fault
    | @cons b b' _ _ hb h =>
    cases h with
    | nil => exact absurd (.inl rfl) h23
    | @cons c c' _ _ hc h =>
    cases h with
    | nil => exact absurd (.inr rfl) h23
    | @cons d d' _ _ hd h =>
    cases h with
    | nil =>
      have double : ∀ {v : V} {w : W}, R v w →
          R (Poseidon2.double ops v) (Poseidon2.double ops' w) := fun hv => hops.add hv hv
      have t0 := hops.add ha hb
      have t1 := hops.add hc hd
      have t2 := hops.add (double hb) t1
      have t3 := hops.add (double hd) t0
      have t4 := hops.add (double (double t1)) t3
      have t5 := hops.add (double (double t0)) t2
      have hout := overwrite_rel ho (.cons (hops.add t3 t5) (.cons t5 (.cons (hops.add t2 t4)
        (.cons t4 .nil))))
      simp only [pure_bind]
      refine (Mirrors.recordSlice ?_).bind fun _ _ _ =>
        (Mirrors.recordSlice hout).bind fun _ _ _ => Mirrors.pure hout
      exact .cons (double hb) (.cons (double hd) (.cons t0 (.cons t1 (.cons (double (double t0))
        (.cons (double (double t1)) (.cons t2 (.cons t3 (.cons t4 (.cons t5 .nil)))))))))
    | cons he h =>
      simp only [List.length_cons]
      rw [if_neg (by omega)]
      exact Mirrors.fault

/-- `ExternalMatMulT`: the result and the four-element blocks' outputs. -/
theorem externalMatmul_mirrors {xs out mds : List V} {xs' out' mds' : List W}
    (h : List.Forall₂ R xs xs') (ho : List.Forall₂ R out out') (hm : List.Forall₂ R mds mds')
    (base : Nat) :
    Mirrors R (fun p q => List.Forall₂ R p.1 q.1 ∧ List.Forall₂ R p.2 q.2)
      (externalMatmul ops xs out mds base) (externalMatmul ops' xs' out' mds' base) := by
  have hlen := h.length_eq
  simp only [externalMatmul]
  rw [hlen]
  refine (Mirrors.recordSlice h).bind fun _ _ _ => ?_
  by_cases h4 : xs'.length ≤ 4
  · simp only [if_pos h4, pure_bind]
    refine (externalMatmulLeaf_mirrors hops h ho _).bind fun o o' ho' => ?_
    exact (Mirrors.recordSlice ho').bind fun _ _ _ => Mirrors.pure ⟨ho', hm⟩
  · -- The blocks one after the other, then the four column sums, then their results.
    simp only [if_neg h4, pure_bind]
    refine (Mirrors.foldlM (Q := List.Forall₂ R) (forall₂_eq _) hm ?_).bind fun done done' hd => ?_
    · intro i i' mds mds' hi hmds
      subst hi
      refine (externalMatmulLeaf_mirrors hops (forall₂_slice h _ _)
        (forall₂_slice hmds _ _) _).bind fun block block' hb => Mirrors.pure ?_
      exact forall₂_append (forall₂_append (List.forall₂_take _ hmds) hb) (List.forall₂_drop _ hmds)
    · refine (Mirrors.mapM (Q := R) (forall₂_eq _) ?_).bind fun accs accs' ha => ?_
      · intro l l' hl
        subst hl
        exact acc_mirrors hops (column_rel l hd) _
      · have hadded : List.Forall₂ R
            (done.zipIdx.map fun x => ops.add x.1 (accs.getD (x.2 % 4) ops.default))
            (done'.zipIdx.map fun x => ops'.add x.1 (accs'.getD (x.2 % 4) ops'.default)) := by
          refine forall₂_map (forall₂_zipIdx 0 hd) ?_
          intro p q hpq
          rw [hpq.2]
          exact hops.add hpq.1 (forall₂_getD ha hops.default _)
        have hout := overwrite_rel ho hadded
        exact (Mirrors.recordSlice hout).bind fun _ _ _ => Mirrors.pure ⟨hout, hd⟩

theorem internalMatmulLeaf_mirrors {xs out : List V} {xs' out' : List W}
    (h : List.Forall₂ R xs xs') (ho : List.Forall₂ R out out') (base : Nat) :
    Mirrors R (List.Forall₂ R) (internalMatmulLeaf ops xs out base)
      (internalMatmulLeaf ops' xs' out' base) := by
  have hlen := h.length_eq
  cases h with
  | nil => exact Mirrors.fault
  | @cons x x' rest rest' hx hrest =>
    have h : List.Forall₂ R (x :: rest) (x' :: rest') := .cons hx hrest
    have hsum : R (rest.foldl ops.add x) (rest'.foldl ops'.add x') := foldl_add_rel hops hrest hx
    simp only [internalMatmulLeaf]
    rw [hlen]
    have hscaled : List.Forall₂ R
        ((x :: rest).zipIdx.map fun p =>
          if p.2 = (x' :: rest').length - 1 then
            ops.add (double ops p.1) (rest.foldl ops.add x)
          else ops.add p.1 (rest.foldl ops.add x))
        ((x' :: rest').zipIdx.map fun p =>
          if p.2 = (x' :: rest').length - 1 then
            ops'.add (double ops' p.1) (rest'.foldl ops'.add x')
          else ops'.add p.1 (rest'.foldl ops'.add x')) := by
      refine forall₂_map (forall₂_zipIdx 0 h) ?_
      intro p q hpq
      rw [hpq.2]
      split
      · exact hops.add (hops.add hpq.1 hpq.1) hsum
      · exact hops.add hpq.1 hsum
    have hout := overwrite_rel ho hscaled
    exact (Mirrors.recordSlice hout).bind fun _ _ _ => (Mirrors.recordSlice h).bind fun _ _ _ =>
      (Mirrors.record hsum).bind fun _ _ _ => Mirrors.pure hout

theorem internalMatmul_mirrors {xs out : List V} {xs' out' : List W} (h : List.Forall₂ R xs xs')
    (diag : List Fr) (ho : List.Forall₂ R out out') (base : Nat) :
    Mirrors R (List.Forall₂ R) (internalMatmul ops xs diag out base)
      (internalMatmul ops' xs' diag out' base) := by
  simp only [internalMatmul]
  rw [h.length_eq]
  refine (Mirrors.recordSlice h).bind fun _ _ _ => ?_
  by_cases h23 : xs'.length = 2 ∨ xs'.length = 3
  · simp only [if_pos h23]
    exact (internalMatmulLeaf_mirrors hops h ho _).bind fun o o' ho' =>
      (Mirrors.recordSlice ho').bind fun _ _ _ => Mirrors.pure ho'
  · simp only [if_neg h23, pure_bind]
    refine (acc_mirrors hops h _).bind fun v w hv => (Mirrors.record hv).bind fun _ _ _ => ?_
    have hscaled : List.Forall₂ R
        ((xs.zip diag).map fun p => ops.add (ops.mulPublic p.1 p.2) v)
        ((xs'.zip diag).map fun p => ops'.add (ops'.mulPublic p.1 p.2) w) := by
      refine forall₂_map (forall₂_zip_pair h (forall₂_eq diag)) ?_
      intro p q hpq
      rw [hpq.2]
      exact hops.add (hops.mulPublic _ hpq.1) hv
    have hout := overwrite_rel ho hscaled
    exact (Mirrors.recordSlice hout).bind fun _ _ _ => Mirrors.pure hout

omit hops in
theorem recordSboxE_mirrors {s : SboxTrace V} {s' : SboxTrace W} {x : V} {x' : W}
    (hx : R x x') (hs : SboxRel R s s') (base : Nat) :
    Mirrors R (fun _ _ => True) (recordSboxE base x s) (recordSboxE base x' s') :=
  Mirrors.recordSlice (.cons hs.out (.cons hx (.cons hs.square (.cons hs.pow4 .nil))))

/-! ## The rounds of one site -/

/-- Scratch buffers, entry by entry. -/
structure BuffersRel (R : V → W → Prop) (b : Buffers V) (b' : Buffers W) : Prop where
  next : List.Forall₂ R b.next b'.next
  sboxOut : List.Forall₂ R b.sboxOut b'.sboxOut
  mdsOut : List.Forall₂ R b.mdsOut b'.mdsOut

/-- What a round returns: the next state and the buffers. -/
def RoundRel (R : V → W → Prop) (p : List V × Buffers V) (q : List W × Buffers W) : Prop :=
  List.Forall₂ R p.1 q.1 ∧ BuffersRel R p.2 q.2

theorem initSite_mirrors (t : Nat) {input mds : List V} {input' mds' : List W}
    (h : List.Forall₂ R input input') (hm : List.Forall₂ R mds mds') :
    Mirrors R (fun p q => List.Forall₂ R p.1 q.1 ∧ List.Forall₂ R p.2 q.2)
      (initSite ops t input mds) (initSite ops' t input' mds') := by
  simp only [initSite]
  refine (externalMatmul_mirrors hops h (forall₂_replicate hops.default t) hm _).bind ?_
  intro p q hpq
  exact (Mirrors.recordSlice hpq.1).bind fun _ _ _ => Mirrors.pure hpq

theorem fullRoundSite_mirrors (t : Nat) (roundRc : List Fr) (layoutRound stateRow : Nat)
    {state linear : List V} {state' linear' : List W} {sboxes : List (SboxTrace V)}
    {sboxes' : List (SboxTrace W)} {b : Buffers V} {b' : Buffers W}
    (hs : List.Forall₂ R state state') (hl : List.Forall₂ R linear linear')
    (hx : List.Forall₂ (SboxRel R) sboxes sboxes') (hb : BuffersRel R b b') :
    Mirrors R (RoundRel R)
      (fullRoundSite ops t roundRc layoutRound stateRow state linear sboxes b)
      (fullRoundSite ops' t roundRc layoutRound stateRow state' linear' sboxes' b') := by
  have hrc : List.Forall₂ R (roundRc.map ops.ofPublic) (roundRc.map ops'.ofPublic) :=
    forall₂_map (forall₂_eq roundRc) fun c c' hc => hc ▸ hops.ofPublic c
  have hout := overwrite_rel hb.sboxOut (forall₂_map hx fun s s' h => h.out)
  simp only [fullRoundSite]
  refine (externalMatmul_mirrors hops hout hb.next hb.mdsOut _).bind fun p q hpq => ?_
  refine (Mirrors.recordSlice hpq.1).bind fun _ _ _ => (Mirrors.recordSlice hs).bind fun _ _ _ =>
    (Mirrors.recordSlice hrc).bind fun _ _ _ => (Mirrors.recordSlice hl).bind fun _ _ _ =>
    (Mirrors.recordSlice hout).bind fun _ _ _ => (Mirrors.recordSlice hout).bind fun _ _ _ =>
    (Mirrors.recordSlice hl).bind fun _ _ _ => ?_
  refine (Mirrors.mapM (Q := fun _ _ => True)
    (forall₂_zipIdx 0 (forall₂_zip_pair hx hl)) ?_).bind fun _ _ _ => ?_
  · intro c d hcd
    have hbase : c.2 = d.2 := hcd.2
    have hmirror := recordSboxE_mirrors hcd.1.2 hcd.1.1
      ((Layout.new t).full + layoutRound * fullRoundSignals t + 5 * t + externalMatmulSignals t
        + 2 * t + d.2 * sboxESignals)
    rw [← hbase] at hmirror
    exact hbase ▸ hmirror
  · exact (Mirrors.recordSlice hpq.1).bind fun _ _ _ =>
      Mirrors.pure ⟨hpq.1, hs, hout, hpq.2⟩

theorem partialRoundSite_mirrors (t round : Nat) (c : Fr) (diag : List Fr)
    {state : List V} {state' : List W} {linear : V} {linear' : W} {sbox : SboxTrace V}
    {sbox' : SboxTrace W} {b : Buffers V} {b' : Buffers W} (hs : List.Forall₂ R state state')
    (hl : R linear linear') (hx : SboxRel R sbox sbox') (hb : BuffersRel R b b') :
    Mirrors R (RoundRel R) (partialRoundSite ops t round c diag state linear sbox b)
      (partialRoundSite ops' t round c diag state' linear' sbox' b') := by
  have hout := overwrite_rel hb.sboxOut (.cons hx.out (List.forall₂_drop 1 hs))
  simp only [partialRoundSite]
  refine (internalMatmul_mirrors hops hout diag hb.next _).bind fun next next' hn => ?_
  refine (Mirrors.recordSlice hn).bind fun _ _ _ => (Mirrors.recordSlice hs).bind fun _ _ _ =>
    (Mirrors.record (hops.ofPublic c)).bind fun _ _ _ => (Mirrors.record hl).bind fun _ _ _ =>
    (Mirrors.record hx.out).bind fun _ _ _ => (recordSboxE_mirrors hl hx _).bind fun _ _ _ =>
    (Mirrors.recordSlice hn).bind fun _ _ _ => Mirrors.pure ⟨hn, hs, hout, hb.mdsOut⟩

end Blocks

/-! ## The sinks -/

/-- Two sinks with one request table and the same positions written, their buffers related entry by
    entry. So a record is accepted by both or by neither. -/
structure OutputRel (R : V → W → Prop) (o : SiteOutput V) (o' : SiteOutput W) : Prop where
  positions : o.positions = o'.positions
  head : List.Forall₂ R o.head o'.head
  values : List.Forall₂ R o.values o'.values
  written : o.written = o'.written

theorem write_rel {o : SiteOutput V} {o' : SiteOutput W} (h : OutputRel R o o') (d : Nat) {v : V}
    {w : W} (hv : R v w) :
    Refines (fun _ => False) (OutputRel R) (o.write d v) (o'.write d w) := by
  unfold SiteOutput.write
  simp only [h.written, h.head.length_eq]
  refine (Refines.orElse (R := fun b b' => b = b') fun b hb => ⟨b, hb, rfl⟩).bind ?_
  intro b b' hb
  subst hb
  refine Refines.ensure_bind id fun _ => ?_
  split
  · exact Refines.pure ⟨h.positions, forall₂_set h.head hv d, h.values, rfl⟩
  · exact Refines.pure ⟨h.positions, h.head, forall₂_set h.values hv _, rfl⟩

theorem record_rel {o : SiteOutput V} {o' : SiteOutput W} (h : OutputRel R o o') {e : Nat × V}
    {e' : Nat × W} (he : e.1 = e'.1 ∧ R e.2 e'.2) :
    Refines (fun _ => False) (OutputRel R) (o.record e) (o'.record e') := by
  have hdestination : o.destination e.1 = o'.destination e'.1 := by
    unfold SiteOutput.destination
    rw [h.positions, he.1]
  unfold SiteOutput.record
  rw [hdestination]
  cases o'.destination e'.1 with
  | error e => exact Refines.error
  | ok d =>
    rw [ok_bind, ok_bind]
    cases d with
    | none => exact Refines.pure h
    | some d => exact write_rel h d he.2

theorem recordAll_rel {o : SiteOutput V} {o' : SiteOutput W} (h : OutputRel R o o') {log : Log V}
    {log' : Log W} (hlog : LogRel R log log') :
    Refines (fun _ => False) (OutputRel R) (o.recordAll log) (o'.recordAll log') :=
  Refines.foldlM hlog h fun _ _ _ _ he ho => record_rel ho he

theorem runOn_rel {Q : α → β → Prop} {o : SiteOutput V} {o' : SiteOutput W}
    (h : OutputRel R o o') {x : Traced V α} {y : Traced W β} (hxy : Mirrors R Q x y) :
    Refines (fun _ => False) (fun p q => Q p.1 q.1 ∧ OutputRel R p.2 q.2)
      (runOn o x) (runOn o' y) := by
  cases y with
  | error e => exact Refines.error
  | ok q =>
    obtain ⟨p, rfl, hq, hlog⟩ := (hxy q rfl).ok_of_never
    exact (recordAll_rel h hlog).bind fun _ _ ho => Refines.pure ⟨hq, ho⟩

/-! ## The walk -/

/-- Two sites of width `t`, state and sink. -/
structure SiteRel (R : V → W → Prop) (t : Nat) (s : Site V) (s' : Site W) : Prop where
  state : List.Forall₂ R s.state s'.state
  output : OutputRel R s.output s'.output
  length : s'.state.length = t

/-- A turn of `eachSite` that respects its arguments. -/
def TurnRel {A A' : Type} (R : V → W → Prop) (t : Nat) (Arg : A → A' → Prop)
    (f : A → List V → Buffers V → Traced V (List V × Buffers V))
    (g : A' → List W → Buffers W → Traced W (List W × Buffers W)) : Prop :=
  ∀ a a' s s' b b', Arg a a' → List.Forall₂ R s s' → s'.length = t → BuffersRel R b b' →
    b'.Fit t → Mirrors R (fun p q => RoundRel R p q ∧ q.1.length = t ∧ q.2.Fit t)
      (f a s b) (g a' s' b')

theorem eachSite_rel {A A' : Type} {t : Nat} {Arg : A → A' → Prop}
    {f : A → List V → Buffers V → Traced V (List V × Buffers V)}
    {g : A' → List W → Buffers W → Traced W (List W × Buffers W)} (hturn : TurnRel R t Arg f g)
    {as : List A} {as' : List A'} {sites : List (Site V)} {sites' : List (Site W)}
    {b : Buffers V} {b' : Buffers W} (ha : List.Forall₂ Arg as as')
    (hs : List.Forall₂ (SiteRel R t) sites sites') (hb : BuffersRel R b b') (hfit : b'.Fit t) :
    Refines (fun _ => False) (fun p q => List.Forall₂ (SiteRel R t) p.1 q.1 ∧
        q.1.length = sites'.length ∧ BuffersRel R p.2 q.2 ∧ q.2.Fit t)
      (eachSite f as sites b) (eachSite g as' sites' b') := by
  -- By induction on the sites: each leaves the buffers related for the next.
  induction ha generalizing sites sites' b b' with
  | nil =>
    cases hs with
    | nil => exact Refines.ok ⟨.nil, rfl, hb, hfit⟩
    | cons hs hss => exact Refines.ok ⟨.cons hs hss, rfl, hb, hfit⟩
  | cons ha _ ih =>
    cases hs with
    | nil => exact Refines.ok ⟨.nil, rfl, hb, hfit⟩
    | cons hs hss =>
      simp only [eachSite]
      refine (runOn_rel hs.output (hturn _ _ _ _ _ _ ha hs.state hs.length hb hfit)).bind ?_
      intro p q hpq
      obtain ⟨⟨hround, hlen, hfit'⟩, hout⟩ := hpq
      refine (ih hss hround.2 hfit').bind ?_
      intro ps qs hps
      exact Refines.pure ⟨.cons ⟨hround.1, hout, hlen⟩ hps.1, congrArg (· + 1) hps.2.1, hps.2.2⟩

/-- Cutting two related lists into pieces of one length. -/
theorem chunksExact_rel {xs : List α} {ys : List β} {Q : α → β → Prop} {t n : Nat} (ht : 0 < t)
    (h : List.Forall₂ Q xs ys) (hlen : ys.length = n * t) :
    List.Forall₂ (fun c d => List.Forall₂ Q c d ∧ d.length = t) (chunksExact t xs)
      (chunksExact t ys) := by
  have hchunks : List.Forall₂ (List.Forall₂ Q) (chunksExact t xs) (chunksExact t ys) := by
    unfold chunksExact
    rw [h.length_eq]
    refine forall₂_map (forall₂_eq _) ?_
    intro i j hij
    subst hij
    exact forall₂_slice h _ _
  rw [List.forall₂_iff_get] at hchunks ⊢
  refine ⟨hchunks.1, fun i h h' => ⟨hchunks.2 i h h', ?_⟩⟩
  exact (flatten_chunksExact ht hlen).2.1 _ (List.get_mem _ _)

/-- The two walks between two layers. `P` relates the backends' states, by how many s-boxes are
    still to come. -/
structure WalkRel (R : V → W → Prop) (P : Nat → σ → τ → Prop) (t sites n : Nat)
    (w : WalkState V σ) (w' : WalkState W τ) : Prop where
  each : List.Forall₂ (SiteRel R t) w.sites w'.sites
  count : w'.sites.length = sites
  buffers : BuffersRel R w.buffers w'.buffers
  fit : w'.buffers.Fit t
  state : P n w.ops w'.ops

section Walk

variable {ops : Ops V σ ε} {ops' : Ops W τ ε'} {P : Nat → σ → τ → Prop} {Bad : ε → Prop}

/-- What is asked of the two s-box layers: related inputs, and enough left for this layer. -/
def LayerRel (R : V → W → Prop) (P : Nat → σ → τ → Prop) (Bad : ε → Prop) (ops : Ops V σ ε)
    (ops' : Ops W τ ε') : Prop :=
  ∀ (n : Nat) (xs : List V) (ys : List W) (s : σ) (s' : τ), List.Forall₂ R xs ys →
    P (n + ys.length) s s' →
    Refines Bad (fun p q => List.Forall₂ (SboxRel R) p.1 q.1 ∧ q.1.length = ys.length ∧ P n p.2 q.2)
      (ops.sboxLayer xs s) (ops'.sboxLayer ys s')

/-- Between two layers a walk fails only where the one it mirrors does. -/
theorem leaving_mirrors {Q : α → β → Prop} {s : σ} {s' : τ} {x : Except RunError α}
    {y : Except RunError β} (h : Refines (fun _ => False) Q x y) :
    Refines Bad Q (ops.leaving s x) (ops'.leaving s' y) :=
  h.mapError fun _ he => he.elim

variable (hops : Mirrored R ops ops') (hlayer : LayerRel R P Bad ops ops')
include hops hlayer

omit hlayer in
theorem walkState_new_mirrors {t sites n : Nat} {states : List V} {states' : List W}
    {outputs : List (SiteOutput V)} {outputs' : List (SiteOutput W)} {s : σ} {s' : τ}
    (ht : t ∈ poseidon2SupportedWidths) (hstates : List.Forall₂ R states states')
    (hlen : states'.length = sites * t) (houtputs : List.Forall₂ (OutputRel R) outputs outputs')
    (hstate : P n s s') :
    Refines Bad (WalkRel R P t sites n) (WalkState.new ops t states outputs s)
      (WalkState.new ops' t states' outputs' s') := by
  have hpos : 0 < t := Poseidon2Width.pos ⟨t, ht⟩
  unfold WalkState.new
  apply leaving_mirrors
  rw [hstates.length_eq, houtputs.length_eq]
  refine Refines.ensure_bind id fun hcount => ?_
  rw [hlen, Nat.mul_div_cancel _ hpos] at hcount
  -- The buffers start with the backend's default, which need only be related to the other's.
  have hfresh := forall₂_replicate hops.default t
  have hmds := forall₂_replicate hops.default (if 4 < t then t else 0)
  have hinputs := chunksExact_rel hpos hstates hlen
  have hsites : List.Forall₂ (SiteRel R t)
      (outputs.map fun output => { state := List.replicate t ops.default, output })
      (outputs'.map fun output => { state := List.replicate t ops'.default, output }) :=
    forall₂_map houtputs fun o o' ho => ⟨hfresh, ho, List.length_replicate⟩
  have hfit : Buffers.Fit t (V := W)
      { next := List.replicate t ops'.default
        sboxOut := List.replicate t ops'.default
        mdsOut := List.replicate (if 4 < t then t else 0) ops'.default } :=
    ⟨List.length_replicate, List.length_replicate, List.length_replicate⟩
  have hbuffers : BuffersRel R
      { next := List.replicate t ops.default
        sboxOut := List.replicate t ops.default
        mdsOut := List.replicate (if 4 < t then t else 0) ops.default }
      { next := List.replicate t ops'.default
        sboxOut := List.replicate t ops'.default
        mdsOut := List.replicate (if 4 < t then t else 0) ops'.default } :=
    ⟨hfresh, hfresh, hmds⟩
  refine (eachSite_rel ?_ hinputs hsites hbuffers hfit).bind fun p q hpq => Refines.pure ?_
  · intro input input' _ _ b b' hinput _ _ hb hfit
    refine ((initSite_mirrors hops t hinput.1 hb.mdsOut).writes
      (initSite_writes ops' ht hinput.2 hfit.mdsOut)).bind ?_
    intro p q hpq
    exact Mirrors.pure ⟨⟨hpq.1.1, hb.next, hb.sboxOut, hpq.1.2⟩, hpq.2.1, hfit.next, hfit.sboxOut,
      hpq.2.2⟩
  · refine ⟨hpq.1, ?_, hpq.2.2.1, hpq.2.2.2, hstate⟩
    rw [hpq.2.1, List.length_map, hcount]

theorem fullRound_mirrors {t sites n : Nat} {roundRc : List Fr} (layoutRound stateRow : Nat)
    {w : WalkState V σ} {w' : WalkState W τ} (ht : t ∈ poseidon2SupportedWidths)
    (hrc : roundRc.length = t) (hw : WalkRel R P t sites (n + sites * t) w w') :
    Refines Bad (WalkRel R P t sites n) (fullRound ops t roundRc layoutRound stateRow w)
      (fullRound ops' t roundRc layoutRound stateRow w') := by
  have hpos : 0 < t := Poseidon2Width.pos ⟨t, ht⟩
  have hlinear : List.Forall₂ R
      (w.sites.flatMap fun site => (site.state.zip roundRc).map fun x => ops.addPublic x.1 x.2)
      (w'.sites.flatMap fun site =>
        (site.state.zip roundRc).map fun x => ops'.addPublic x.1 x.2) := by
    refine forall₂_flatMap hw.each fun s s' hs => ?_
    refine forall₂_map (forall₂_zip_pair hs.state (forall₂_eq roundRc)) ?_
    intro p q hpq
    rw [hpq.2]
    exact hops.addPublic _ hpq.1
  have hlength : ∀ s' ∈ w'.sites, ((s'.state.zip roundRc).map fun x =>
      ops'.addPublic x.1 x.2).length = t := by
    intro s' hs'
    obtain ⟨i, hi, rfl⟩ := List.mem_iff_getElem.mp hs'
    have hrel := hw.each.get (hw.each.length_eq ▸ hi) hi
    rw [List.length_map, List.length_zip, hrc]
    have hstate : w'.sites[i].state.length = t := hrel.length
    rw [hstate, Nat.min_self]
  -- The layer's s-boxes number the sites times the width, which is what the round may spend.
  have htotal : (w'.sites.flatMap fun site => (site.state.zip roundRc).map fun x =>
      ops'.addPublic x.1 x.2).length = sites * t := by
    rw [List.length_flatMap, List.map_congr_left hlength, List.map_const', List.sum_replicate,
      hw.count, smul_eq_mul]
  have hturn : TurnRel R t (fun (x : List V × List (SboxTrace V)) (y : List W × List (SboxTrace W)) =>
      (List.Forall₂ R x.1 y.1 ∧ y.1.length = t) ∧ List.Forall₂ (SboxRel R) x.2 y.2 ∧ y.2.length = t)
      (fun x state buffers => fullRoundSite ops t roundRc layoutRound stateRow state x.1 x.2 buffers)
      (fun x state buffers =>
        fullRoundSite ops' t roundRc layoutRound stateRow state x.1 x.2 buffers) := by
    intro x y s s' b b' hxy hs hlen hb hfit
    refine ((fullRoundSite_mirrors hops t roundRc layoutRound stateRow hs hxy.1.1 hxy.2.1 hb).writes
      (fullRoundSite_writes ops' ht hrc hlen hxy.1.2 hxy.2.2 hfit)).post ?_
    intro p q hpq
    exact hpq
  unfold fullRound
  -- The s-box layer is the only step with a state, and pays for itself out of `P`.
  refine (hlayer n _ _ w.ops w'.ops hlinear (by rw [htotal]; exact hw.state)).bind ?_
  intro p q hpq
  obtain ⟨hsboxes, hcount, hstate⟩ := hpq
  have heach := eachSite_rel hturn (forall₂_zip_pair (chunksExact_rel hpos hlinear htotal)
    (chunksExact_rel hpos hsboxes (hcount.trans htotal))) hw.each hw.buffers hw.fit
  refine (leaving_mirrors heach).bind fun p' q' hpq' => Refines.pure ?_
  exact ⟨hpq'.1, hpq'.2.1.trans hw.count, hpq'.2.2.1, hpq'.2.2.2, hstate⟩

theorem partialRound_mirrors {t sites n round : Nat} (c : Fr) {diag : List Fr}
    {w : WalkState V σ} {w' : WalkState W τ} (ht : t ∈ poseidon2SupportedWidths)
    (hd : diag.length = if t < 4 then 0 else t) (hw : WalkRel R P t sites (n + sites) w w') :
    Refines Bad (WalkRel R P t sites n) (partialRound ops t round c diag w)
      (partialRound ops' t round c diag w') := by
  have hturn : TurnRel R t (fun (x : V × SboxTrace V) (y : W × SboxTrace W) =>
      R x.1 y.1 ∧ SboxRel R x.2 y.2)
      (fun x state buffers => partialRoundSite ops t round c diag state x.1 x.2 buffers)
      (fun x state buffers => partialRoundSite ops' t round c diag state x.1 x.2 buffers) := by
    intro x y s s' b b' hxy hs hlen hb hfit
    refine ((partialRoundSite_mirrors hops t round c diag hs hxy.1 hxy.2 hb).writes
      (partialRoundSite_writes ops' ht hd hlen hfit)).post ?_
    intro p q hpq
    exact hpq
  unfold partialRound
  -- The read of a site's first element may miss, on both sides alike.
  have hlinear : Refines (fun _ => False) (List.Forall₂ R)
      (w.sites.mapM fun site => do
        let x ← orElse (RunError.indexOutOfRange "site.state" 0) site.state[0]?
        Pure.pure (ops.addPublic x c))
      (w'.sites.mapM fun site => do
        let x ← orElse (RunError.indexOutOfRange "site.state" 0) site.state[0]?
        Pure.pure (ops'.addPublic x c)) := by
    refine Refines.mapM hw.each fun s s' hs => ?_
    refine (Refines.orElse (R := R) fun x' hx' => ?_).bind fun x x' hx =>
      Refines.pure (hops.addPublic c hx)
    exact forall₂_getElem? hs.state hx'
  refine (leaving_mirrors hlinear.known).bind fun xs ys hxs => ?_
  have hcount : ys.length = sites := by
    rw [← hw.count, (mapM_eq_ok_iff.mp hxs.2).length_eq]
  refine (hlayer n xs ys w.ops w'.ops hxs.1 (by rw [hcount]; exact hw.state)).bind ?_
  intro p q hpq
  have heach := eachSite_rel hturn (forall₂_zip_pair hxs.1 hpq.1) hw.each hw.buffers hw.fit
  refine (leaving_mirrors heach).bind fun p' q' hpq' => Refines.pure ?_
  exact ⟨hpq'.1, hpq'.2.1.trans hw.count, hpq'.2.2.1, hpq'.2.2.2, hpq.2.2⟩

omit hops hlayer in
theorem walkState_finish_mirrors {t sites n : Nat} {w : WalkState V σ} {w' : WalkState W τ}
    (hw : WalkRel R P t sites n w w') :
    Refines (fun _ => False) (List.Forall₂ (OutputRel R)) w.finish w'.finish := by
  unfold WalkState.finish
  refine Refines.mapM (forall₂_zipIdx 0 hw.each) fun p q hpq => ?_
  obtain ⟨site, i⟩ := p
  obtain ⟨site', i'⟩ := q
  obtain ⟨hs, hi⟩ := hpq
  dsimp only at hs hi ⊢
  subst hi
  have hrun := runOn_rel hs.output (Mirrors.recordSlice (k := 0) hs.state)
  refine hrun.bind fun p q hpq => ?_
  have hfinish : p.2.finish i = q.2.finish i := by
    unfold SiteOutput.finish
    rw [hpq.2.written]
  rw [hfinish]
  cases q.2.finish i with
  | error e => exact Refines.error
  | ok u => exact Refines.ok hpq.2

omit hops hlayer in
/-- A group of rounds, each spending `m` s-boxes. -/
theorem rounds_mirrors {t sites m : Nat} {f : WalkState V σ → Nat → Except ε (WalkState V σ)}
    {g : WalkState W τ → Nat → Except ε' (WalkState W τ)} :
    ∀ {rounds : List Nat} {n : Nat} {w : WalkState V σ} {w' : WalkState W τ},
      (∀ r ∈ rounds, ∀ n w w', WalkRel R P t sites (n + m) w w' →
        Refines Bad (WalkRel R P t sites n) (f w r) (g w' r)) →
      WalkRel R P t sites (n + rounds.length * m) w w' →
      Refines Bad (WalkRel R P t sites n) (rounds.foldlM f w) (rounds.foldlM g w')
  | [], n, w, w', _, hw => by
    rw [List.length_nil, Nat.zero_mul, Nat.add_zero] at hw
    exact Refines.pure hw
  | r :: rounds, n, w, w', hstep, hw => by
    rw [List.foldlM_cons, List.foldlM_cons]
    have hspend : n + (r :: rounds).length * m = n + rounds.length * m + m := by
      rw [List.length_cons, Nat.succ_mul, Nat.add_assoc]
    rw [hspend] at hw
    refine (hstep r (by simp) _ w w' hw).bind fun u u' hu => ?_
    exact rounds_mirrors (fun r' hr' => hstep r' (by simp [hr'])) hu

/-- **The walk mirrors its backend.** It spends one s-box for each element of every site in each of
    the eight full rounds, and one for each site in every partial round. -/
theorem walk_mirrors {t sites n : Nat} {rc : RoundConstants t} {states : List V}
    {states' : List W} {outputs : List (SiteOutput V)} {outputs' : List (SiteOutput W)} {s : σ}
    {s' : τ} (ht : t ∈ poseidon2SupportedWidths) (hstates : List.Forall₂ R states states')
    (hlen : states'.length = sites * t) (houtputs : List.Forall₂ (OutputRel R) outputs outputs')
    (hstate : P (n + sites * (8 * t + partialRounds t)) s s') :
    Refines Bad (fun p q => List.Forall₂ (OutputRel R) p.1 q.1 ∧ P n p.2 q.2)
      (walk ops t states rc outputs s) (walk ops' t states' rc outputs' s') := by
  -- The s-boxes a walk spends, in the order its groups of rounds spend them.
  have hsplit : n + sites * (8 * t + partialRounds t) =
      n + 4 * (sites * t) + partialRounds t * sites + 4 * (sites * t) := by ring
  rw [hsplit] at hstate
  have hfull1 : ∀ r ∈ List.range 4, ∀ n w w', WalkRel R P t sites (n + sites * t) w w' →
      Refines Bad (WalkRel R P t sites n)
        (fullRound ops t (slice rc.full1 (r * t) ((r + 1) * t)) r (r + 1) w)
        (fullRound ops' t (slice rc.full1 (r * t) ((r + 1) * t)) r (r + 1) w') :=
    fun r hr n w w' hw => fullRound_mirrors hops hlayer r (r + 1) ht
      (roundRc_length rc.full1_length (List.mem_range.mp hr)) hw
  have hpartials : ∀ r ∈ List.range (partialRounds t), ∀ n w w',
      WalkRel R P t sites (n + sites) w w' →
      Refines Bad (WalkRel R P t sites n)
        (partialRound ops t r (rc.partialRc.getD r 0) rc.diag w)
        (partialRound ops' t r (rc.partialRc.getD r 0) rc.diag w') :=
    fun r _ n w w' hw => partialRound_mirrors hops hlayer _ ht rc.diag_length hw
  have hfull2 : ∀ r ∈ List.range 4, ∀ n w w', WalkRel R P t sites (n + sites * t) w w' →
      Refines Bad (WalkRel R P t sites n)
        (fullRound ops t (slice rc.full2 (r * t) ((r + 1) * t)) (4 + r)
          (5 + partialRounds t + r) w)
        (fullRound ops' t (slice rc.full2 (r * t) ((r + 1) * t)) (4 + r)
          (5 + partialRounds t + r) w') :=
    fun r hr n w w' hw => fullRound_mirrors hops hlayer (4 + r) (5 + partialRounds t + r) ht
      (roundRc_length rc.full2_length (List.mem_range.mp hr)) hw
  unfold walk
  refine (walkState_new_mirrors hops ht hstates hlen houtputs hstate).bind fun w w' hw => ?_
  refine (rounds_mirrors (n := n + 4 * (sites * t) + partialRounds t * sites) hfull1
    (by rw [List.length_range]; exact hw)).bind fun w w' hw => ?_
  refine (rounds_mirrors (n := n + 4 * (sites * t)) hpartials
    (by rw [List.length_range]; exact hw)).bind fun w w' hw => ?_
  refine (rounds_mirrors (n := n) hfull2
    (by rw [List.length_range]; exact hw)).bind fun w w' hw => ?_
  exact (leaving_mirrors (walkState_finish_mirrors hw)).bind fun o o' ho => Refines.pure ⟨ho, hw.state⟩

end Walk

/-! ## What every layer keeps -/

section Keeps

variable {ops : Ops V σ ε} {I : σ → Prop} {Bad : ε → Prop}
  (hlayer : ∀ xs s, I s → Meets Bad (fun r => I r.2) (ops.sboxLayer xs s))
  (hraise : ∀ e s, I s → Bad (ops.raise e s))
include hraise

omit hlayer in
theorem leaving_keeps {s : σ} (h : I s) (x : Except RunError α) :
    Meets Bad (fun _ => True) (ops.leaving s x) := by
  cases x with
  | error e => exact hraise e s h
  | ok a => exact trivial

omit hlayer in
theorem walkState_new_keeps {t : Nat} {states : List V} {outputs : List (SiteOutput V)} {s : σ}
    (h : I s) : Meets Bad (fun w => I w.ops) (WalkState.new ops t states outputs s) := by
  unfold WalkState.new Ops.leaving
  apply Meets.mapError _ fun e (_ : True) => hraise e s h
  exact Meets.bind_any fun _ => Meets.bind_any fun _ => h

include hlayer

theorem fullRound_keeps {t : Nat} {roundRc : List Fr} {layoutRound stateRow : Nat}
    {w : WalkState V σ} (h : I w.ops) :
    Meets Bad (fun w => I w.ops) (fullRound ops t roundRc layoutRound stateRow w) := by
  refine (hlayer _ _ h).bind fun r hr => ?_
  exact (leaving_keeps hraise hr _).bind fun _ _ => hr

theorem partialRound_keeps {t round : Nat} {c : Fr} {diag : List Fr} {w : WalkState V σ}
    (h : I w.ops) : Meets Bad (fun w => I w.ops) (partialRound ops t round c diag w) := by
  refine (leaving_keeps hraise h _).bind fun linear _ => (hlayer linear _ h).bind fun r hr => ?_
  exact (leaving_keeps hraise hr _).bind fun _ _ => hr

/-- **What every layer keeps of the backend's state, a walk keeps**, and hands to its caller if it
    fails. -/
theorem walk_keeps {t : Nat} {states : List V} {rc : RoundConstants t}
    {outputs : List (SiteOutput V)} {s : σ} (h : I s) :
    Meets Bad (fun r => I r.2) (walk ops t states rc outputs s) := by
  unfold walk
  refine (walkState_new_keeps hraise h).bind fun w hw => ?_
  refine (Meets.foldlM_range (fun _ w => I w.ops) hw fun _ _ _ hw =>
    fullRound_keeps hlayer hraise hw).bind fun w hw => ?_
  refine (Meets.foldlM_range (fun _ w => I w.ops) hw fun _ _ _ hw =>
    partialRound_keeps hlayer hraise hw).bind fun w hw => ?_
  refine (Meets.foldlM_range (fun _ w => I w.ops) hw fun _ _ _ hw =>
    fullRound_keeps hlayer hraise hw).bind fun w hw => ?_
  exact (leaving_keeps hraise hw _).bind fun _ _ => hw

end Keeps

end Poseidon2
end CircomMpc
