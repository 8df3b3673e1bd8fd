import CircomMpc.Gadgets.Poseidon2Blocks

/-!
# A batch of permutations is its sites, one by one

`walk` runs every site's round before the next round, through buffers the sites share. `siteWalk` is
the same permutation for one site with buffers of its own: the reference the rest of the development
means by "the site's trace". The results:

* `siteWalk_writes` — a site records every slot of its layout, each exactly once;
* `walk_eq_ok` — the lock-step walk feeds each site's sink exactly that site's record calls.

So a batch depends neither on the other sites nor on the order they were walked in.
-/

namespace CircomMpc
namespace Poseidon2

open Lib

variable {V σ : Type}

/-! ## One site alone -/

/-- Buffers nobody has used yet. -/
def freshBuffers (t : Nat) : Buffers Fr :=
  { next := List.replicate t 0, sboxOut := List.replicate t 0
    mdsOut := List.replicate (mdsLength t) 0 }

theorem freshBuffers_fit (t : Nat) : (freshBuffers t).Fit t := by
  constructor <;> exact List.length_replicate

/-- A full round of one site, its s-boxes included. -/
def siteFull (t : Nat) (roundRc : List Fr) (layoutRound stateRow : Nat) (state : List Fr) :
    Traced Fr (List Fr) :=
  let linear := (state.zip roundRc).map fun (x, c) => plainOps.addPublic x c
  Prod.fst <$> fullRoundSite plainOps t roundRc layoutRound stateRow state linear
    (linear.map plainSbox) (freshBuffers t)

/-- A partial round of one site, its s-box included. -/
def sitePartial (t : Nat) (rc : RoundConstants t) (round : Nat) (state : List Fr) :
    Traced Fr (List Fr) :=
  let c := rc.partialRc.getD round 0
  let linear := plainOps.addPublic (state.getD 0 0) c
  Prod.fst <$> partialRoundSite plainOps t round c rc.diag state linear (plainSbox linear)
    (freshBuffers t)

/-- One site's permutation, with every record call it makes. -/
def siteWalk (t : Nat) (rc : RoundConstants t) (input : List Fr) : Traced Fr (List Fr) := do
  let (state, _) ← initSite plainOps t input (List.replicate (mdsLength t) 0)
  let state ← (List.range 4).foldlM (fun state round =>
    siteFull t (slice rc.full1 (round * t) ((round + 1) * t)) round (round + 1) state) state
  let state ← (List.range (partialRounds t)).foldlM (fun state round =>
    sitePartial t rc round state) state
  let state ← (List.range 4).foldlM (fun state round =>
    siteFull t (slice rc.full2 (round * t) ((round + 1) * t)) (4 + round)
      (5 + partialRounds t + round) state) state
  recordSlice 0 state
  pure state

theorem Writes.fst {α β : Type} {x : Traced V (α × β)} {keys : List Nat} {Post : α → Prop}
    (h : Writes x keys fun r => Post r.1) : Writes (Prod.fst <$> x) keys Post := by
  rw [map_eq_pure_bind]
  exact (h.bind fun r hr => Writes.intro hr).perm (by rw [List.append_nil])

theorem siteFull_writes {t : Nat} {roundRc state : List Fr} {layoutRound stateRow : Nat}
    (ht : t ∈ poseidon2SupportedWidths) (hrc : roundRc.length = t) (hs : state.length = t) :
    Writes (siteFull t roundRc layoutRound stateRow state)
      (List.range' ((Layout.new t).full + layoutRound * fullRoundSignals t) (fullRoundSignals t) ++
        List.range' ((Layout.new t).states + stateRow * t) t) fun next => next.length = t := by
  have hl : ((state.zip roundRc).map fun x => plainOps.addPublic x.1 x.2).length = t := by
    rw [List.length_map, List.length_zip, hs, hrc, Nat.min_self]
  exact Writes.fst ((fullRoundSite_writes plainOps ht hrc hs hl (by rw [List.length_map, hl])
    (freshBuffers_fit t)).post fun _ hr => hr.1)

theorem sitePartial_writes {t round : Nat} {rc : RoundConstants t} {state : List Fr}
    (ht : t ∈ poseidon2SupportedWidths) (hs : state.length = t) :
    Writes (sitePartial t rc round state)
      (List.range' ((Layout.new t).partials + round * partialRoundSignals t)
        (partialRoundSignals t) ++ List.range' ((Layout.new t).states + (5 + round) * t) t)
      fun next => next.length = t :=
  Writes.fst ((partialRoundSite_writes plainOps ht rc.diag_length hs (freshBuffers_fit t)).post
    fun _ hr => hr.1)

/-- A round's share of the constants. -/
theorem roundRc_length {t round : Nat} {xs : List Fr} (h : xs.length = 4 * t) (hr : round < 4) :
    (slice xs (round * t) ((round + 1) * t)).length = t := by
  have hle : (round + 1) * t ≤ 4 * t := Nat.mul_le_mul_right t (by omega)
  rw [slice_length (by omega), Nat.add_mul, Nat.one_mul, Nat.add_sub_cancel_left]

/-- A group of rounds: blocks of the layout and rows of states, both consecutive. -/
theorem rounds_perm {p q : Nat → Nat} {b c s t : Nat} (n : Nat)
    (hb : ∀ r, p r = b + r * c) (hs : ∀ r, q r = s + r * t) :
    ((List.range n).flatMap fun r => List.range' (p r) c ++ List.range' (q r) t).Perm
      (List.range' b (n * c) ++ List.range' s (n * t)) := by
  simp only [hb, hs]
  rw [← range'_blocks b c n, ← range'_blocks s t n]
  exact (List.flatMap_append_perm _ _ _).symm

/-- Four full rounds, from layout round `l` and state row `r` on. -/
theorem fullRounds_writes {t l r : Nat} {xs state : List Fr} {layoutRound stateRow : Nat → Nat}
    (ht : t ∈ poseidon2SupportedWidths) (hx : xs.length = 4 * t) (hs : state.length = t)
    (hl : ∀ i, layoutRound i = l + i) (hr : ∀ i, stateRow i = r + i) :
    Writes ((List.range 4).foldlM (fun state round =>
        siteFull t (slice xs (round * t) ((round + 1) * t)) (layoutRound round) (stateRow round)
          state) state)
      (List.range' ((Layout.new t).full + l * fullRoundSignals t) (4 * fullRoundSignals t) ++
        List.range' ((Layout.new t).states + r * t) (4 * t)) fun next => next.length = t := by
  have hkeys := rounds_perm
    (p := fun i => (Layout.new t).full + layoutRound i * fullRoundSignals t)
    (q := fun i => (Layout.new t).states + stateRow i * t)
    (b := (Layout.new t).full + l * fullRoundSignals t) (c := fullRoundSignals t)
    (s := (Layout.new t).states + r * t) (t := t) 4 (fun i => by rw [hl]; ring)
    fun i => by rw [hr]; ring
  refine Writes.perm ?_ hkeys
  exact Writes.foldlM (I := fun state : List Fr => state.length = t) hs
    fun round hround state hs => siteFull_writes ht
      (roundRc_length hx (List.mem_range.mp hround)) hs

theorem partialRounds_writes {t : Nat} {rc : RoundConstants t} {state : List Fr} (n : Nat)
    (ht : t ∈ poseidon2SupportedWidths) (hs : state.length = t) :
    Writes ((List.range n).foldlM (fun state round => sitePartial t rc round state) state)
      (List.range' (Layout.new t).partials (n * partialRoundSignals t) ++
        List.range' ((Layout.new t).states + 5 * t) (n * t)) fun next => next.length = t := by
  have hkeys := rounds_perm
    (p := fun i => (Layout.new t).partials + i * partialRoundSignals t)
    (q := fun i => (Layout.new t).states + (5 + i) * t) (b := (Layout.new t).partials)
    (c := partialRoundSignals t) (s := (Layout.new t).states + 5 * t) (t := t) n (fun _ => rfl)
    fun i => by ring
  refine Writes.perm ?_ hkeys
  exact Writes.foldlM (I := fun state : List Fr => state.length = t) hs
    fun round _ state hs => sitePartial_writes ht hs

/-- **A site records every slot of its layout exactly once.** -/
theorem siteWalk_writes {t : Nat} (rc : RoundConstants t) {input : List Fr}
    (ht : t ∈ poseidon2SupportedWidths) (hi : input.length = t) :
    Writes (siteWalk t rc input) (List.range (resultSlots t)) fun state => state.length = t := by
  have hslots : resultSlots t = t + (9 + partialRounds t) * t + externalMatmulSignals t
      + 8 * fullRoundSignals t + partialRounds t * partialRoundSignals t := by
    unfold resultSlots totalSignals; simp only []; omega
  simp only [siteWalk]
  refine ((initSite_writes plainOps ht hi List.length_replicate).bind fun r hr =>
    (fullRounds_writes (l := 0) (r := 1) ht rc.full1_length hr.1 (fun _ => by omega)
      fun _ => by omega).bind fun state hs =>
    (partialRounds_writes (partialRounds t) ht hs).bind fun state hs =>
    (fullRounds_writes (l := 4) (r := 5 + partialRounds t) ht rc.full2_length hs (fun _ => rfl)
      fun _ => rfl).bind fun state hs =>
    (Writes.ofSlice hs).bind fun _ _ => Writes.ofLength hs).perm (perm_of_below fun k => ?_)
  simp only [List.range_eq_range', List.count_append, Nat.cast_add, count_range'_below,
    List.count_nil, hslots, Layout.new]
  ring_nf

/-! ## One site's step, and its sink -/

/-- `x`, run on site `s`, leaves it as `s'`: the state it returns, the sink having replayed its
    record calls. -/
def StepOn (x : Traced V (List V)) (s s' : Site V) : Prop :=
  ∃ log, x = .ok (s'.state, log) ∧ s.output.recordAll log = .ok s'.output

theorem recordAll_append {o o' : SiteOutput V} {log log' : Log V} :
    o.recordAll (log ++ log') = .ok o' ↔
      ∃ m, o.recordAll log = .ok m ∧ m.recordAll log' = .ok o' := by
  unfold SiteOutput.recordAll
  exact foldlM_append_ok

/-- A sequence of computations is a sequence of steps, through the site as it stands between them. -/
theorem StepOn.of_bind {x : Traced V (List V)} {f : List V → Traced V (List V)} {s s' : Site V}
    (h : StepOn (x >>= f) s s') : ∃ m, StepOn x s m ∧ StepOn (f m.state) m s' := by
  obtain ⟨log, hx, hrec⟩ := h
  rcases hx1 : x with e | ⟨a, log1⟩
  · rw [hx1] at hx; cases hx
  rw [bind_ok hx1] at hx
  rcases hf : f a with e | ⟨b, log2⟩
  · rw [hf] at hx; cases hx
  rw [hf] at hx
  cases hx
  obtain ⟨o, h1, h2⟩ := recordAll_append.mp hrec
  exact ⟨⟨a, o⟩, ⟨log1, rfl, h1⟩, ⟨log2, hf, h2⟩⟩

/-- Pointwise chains of two relations pass through a list of middles. -/
theorem forall₂_of_comp {α β γ : Type} {R : α → β → Prop} {S : β → γ → Prop} :
    ∀ {xs : List α} {zs : List γ}, List.Forall₂ (fun x z => ∃ y, R x y ∧ S y z) xs zs →
      ∃ ys, List.Forall₂ R xs ys ∧ List.Forall₂ S ys zs
  | [], [], .nil => ⟨[], .nil, .nil⟩
  | _ :: _, _ :: _, .cons ⟨y, hR, hS⟩ h =>
    have ⟨ys, hRs, hSs⟩ := forall₂_of_comp h
    ⟨y :: ys, .cons hR hRs, .cons hS hSs⟩

/-- The walk's invariant: every state and every buffer has its length. -/
structure WalkState.Ready (t : Nat) (w : WalkState V σ) : Prop where
  buffers : w.buffers.Fit t
  states : ∀ site ∈ w.sites, site.state.length = t

/-- One site's turn: `f`, through whatever buffers, does to the site what `g` does to its state. -/
def Turn {A : Type} (t : Nat) (f : A → List V → Buffers V → Traced V (List V × Buffers V))
    (g : List V → Traced V (List V)) (a : A) (state : List V) : Prop :=
  ∀ b : Buffers V, b.Fit t → ∃ next b' log,
    f a state b = .ok ((next, b'), log) ∧ g state = .ok (next, log) ∧ next.length = t ∧ b'.Fit t

theorem Turn.of {A : Type} {t : Nat}
    {f : A → List V → Buffers V → Traced V (List V × Buffers V)} {g : List V → Traced V (List V)}
    {a : A} {state : List V} {keys : List Nat}
    (hw : ∀ b : Buffers V, b.Fit t → Writes (f a state b) keys fun r => r.1.length = t ∧ r.2.Fit t)
    (hg : ∀ b : Buffers V, b.Fit t → Prod.fst <$> f a state b = g state) : Turn t f g a state := by
  intro b hb
  obtain ⟨⟨next, b'⟩, log, hf, -, hn, hb'⟩ := hw b hb
  refine ⟨next, b', log, hf, ?_, hn, hb'⟩
  rw [← hg b hb, map_eq_pure_bind, bind_ok hf]
  simp only [pure, List.append_nil]
  rfl

/-- A lock-step layer is every site's own step, whatever the sites before it left in the buffers. -/
theorem eachSite_eq_ok {A : Type} {t : Nat}
    {f : A → List V → Buffers V → Traced V (List V × Buffers V)}
    {g : A → List V → Traced V (List V)} :
    ∀ (as : List A) (sites : List (Site V)) {sites' : List (Site V)} {b : Buffers V}, b.Fit t →
      as.length = sites.length →
      List.Forall₂ (fun (p : A × Site V) s' =>
        Turn t f (g p.1) p.1 p.2.state ∧ StepOn (g p.1 p.2.state) p.2 s') (as.zip sites) sites' →
      ∃ b', b'.Fit t ∧ eachSite f as sites b = .ok (sites', b') ∧ ∀ s ∈ sites', s.state.length = t
  | [], [], [], b, hb, _, .nil => ⟨b, hb, rfl, by simp⟩
  | a :: as, s :: sites, s' :: sites', b, hb, hlen, .cons ⟨hturn, log, hg, hrec⟩ hrest => by
    obtain ⟨next, b', log', hf, hg', hn, hb'⟩ := hturn b hb
    obtain ⟨rfl, rfl⟩ : s'.state = next ∧ log = log' := by
      rw [hg] at hg'; cases hg'; exact ⟨rfl, rfl⟩
    obtain ⟨b'', hb'', hrun, hlens⟩ := eachSite_eq_ok as sites hb' (by simpa using hlen) hrest
    refine ⟨b'', hb'', ?_, ?_⟩
    · simp only [eachSite, runOn, hf, hrec, ok_bind, pure, Except.pure, hrun]
    · simpa using ⟨hn, hlens⟩

/-- The same, when the layer's arguments are computed from the sites. -/
theorem eachSite_map_eq_ok {A : Type} {t : Nat}
    {f : A → List V → Buffers V → Traced V (List V × Buffers V)} {g : List V → Traced V (List V)}
    {arg : Site V → A} {sites sites' : List (Site V)} {b : Buffers V} (hb : b.Fit t)
    (hturn : ∀ s ∈ sites, Turn t f g (arg s) s.state)
    (hsteps : List.Forall₂ (fun s s' => StepOn (g s.state) s s') sites sites') :
    ∃ b', b'.Fit t ∧ eachSite f (sites.map arg) sites b = .ok (sites', b') ∧
      ∀ s ∈ sites', s.state.length = t := by
  refine eachSite_eq_ok (g := fun _ => g) _ _ hb (List.length_map _) ?_
  rw [zip_map_self, List.forall₂_map_left_iff]
  exact (List.forall₂_and_left _ _).mpr ⟨hturn, hsteps⟩

/-! ## Chunks -/

/-- Cutting a concatenation of equal pieces gives the pieces back. -/
theorem chunksExact_flatten {α : Type} {t : Nat} (ht : 0 < t) :
    ∀ {xss : List (List α)}, (∀ xs ∈ xss, xs.length = t) → chunksExact t xss.flatten = xss
  | [], _ => by simp [chunksExact]
  | xs :: xss, h => by
    have ih : chunksExact t xss.flatten = xss :=
      chunksExact_flatten ht fun ys hys => h ys (by simp [hys])
    have hx : xs.length = t := h xs (by simp)
    have hdiv : (xs ++ xss.flatten).length / t = xss.flatten.length / t + 1 := by
      rw [List.length_append, hx, Nat.add_div_left _ ht]
    unfold chunksExact at ih ⊢
    rw [List.flatten_cons, hdiv, List.range_succ_eq_map, List.map_cons, List.map_map]
    congr 1
    · simp [slice, ← hx]
    · conv_rhs => rw [← ih]
      refine List.map_congr_left fun i _ => ?_
      simp only [Function.comp_apply, Nat.succ_eq_add_one, Nat.add_mul, Nat.one_mul]
      have hlo : i * t + t = xs.length + i * t := by omega
      rw [slice, slice, Nat.add_sub_cancel_left, Nat.add_sub_cancel_left, hlo, ← List.drop_drop,
        List.drop_left]

theorem chunksExact_flatMap {α β : Type} {t : Nat} (ht : 0 < t) {xs : List α} {h : α → List β}
    (hlen : ∀ x ∈ xs, (h x).length = t) : chunksExact t (xs.flatMap h) = xs.map h := by
  rw [List.flatMap_def]
  exact chunksExact_flatten ht (by simpa using hlen)

theorem chunksExact_map {α β : Type} (t : Nat) (f : α → β) (xs : List α) :
    chunksExact t (xs.map f) = (chunksExact t xs).map (List.map f) := by
  unfold chunksExact
  rw [List.length_map, List.map_map]
  exact List.map_congr_left fun i _ => slice_map

/-- Cutting a whole number of pieces loses nothing. -/
theorem flatten_chunksExact {α : Type} {t n : Nat} (ht : 0 < t) :
    ∀ {xs : List α}, xs.length = n * t → (chunksExact t xs).flatten = xs ∧
      (∀ c ∈ chunksExact t xs, c.length = t) ∧ (chunksExact t xs).length = n := by
  intro xs hxs
  have hn : xs.length / t = n := by rw [hxs, Nat.mul_div_cancel _ ht]
  have hmem : ∀ c ∈ chunksExact t xs, c.length = t := by
    intro c hc
    obtain ⟨i, hi, rfl⟩ := List.mem_map.mp hc
    rw [hn, List.mem_range] at hi
    have hle : (i + 1) * t ≤ n * t := Nat.mul_le_mul_right t hi
    rw [Nat.add_mul, Nat.one_mul] at hle
    rw [slice_length (by omega), Nat.add_sub_cancel_left]
  refine ⟨?_, hmem, by simp [chunksExact, hn]⟩
  have hjoin : ∀ k, k ≤ n →
      ((List.range k).map fun i => slice xs (i * t) (i * t + t)).flatten = slice xs 0 (k * t) := by
    intro k
    induction k with
    | zero => intro _; simp [slice]
    | succ k ih =>
      intro hk
      rw [List.range_succ, List.map_append, List.flatten_append, ih (by omega)]
      simp only [List.map_cons, List.map_nil, List.flatten_cons, List.flatten_nil, List.append_nil]
      rw [slice_append_slice (Nat.zero_le _) (Nat.le_add_right _ _), Nat.succ_mul]
  rw [chunksExact, hn, hjoin n (le_refl n), ← hxs, slice_full]

/-! ## The lock-step walk -/

/-- A layer of full rounds is every site's full round. -/
theorem fullRound_eq_ok {t : Nat} {roundRc : List Fr} (layoutRound stateRow : Nat)
    {w : WalkState Fr Unit} {sites' : List (Site Fr)} (ht : t ∈ poseidon2SupportedWidths)
    (hrc : roundRc.length = t) (hw : w.Ready t)
    (hsteps : List.Forall₂
      (fun s s' => StepOn (siteFull t roundRc layoutRound stateRow s.state) s s') w.sites sites') :
    ∃ w', fullRound plainOps t roundRc layoutRound stateRow w = .ok w' ∧ w'.sites = sites' ∧
      w'.Ready t := by
  have hpos : 0 < t := Poseidon2Width.pos ⟨t, ht⟩
  let linear := fun site : Site Fr =>
    (site.state.zip roundRc).map fun x => plainOps.addPublic x.1 x.2
  have hlin : ∀ site ∈ w.sites, (linear site).length = t := fun site hs => by
    simp only [linear, List.length_map, List.length_zip, hw.states site hs, hrc, Nat.min_self]
  -- A site's turn is its own full round, since the buffers cannot be read through it.
  have hturn : ∀ s ∈ w.sites, Turn t
      (fun (x : List Fr × List (SboxTrace Fr)) state buffers =>
        fullRoundSite plainOps t roundRc layoutRound stateRow state x.1 x.2 buffers)
      (siteFull t roundRc layoutRound stateRow) (linear s, (linear s).map plainSbox) s.state := by
    intro s hs
    have hx : ((linear s).map plainSbox).length = t := by rw [List.length_map, hlin s hs]
    exact Turn.of
      (fun b hb => fullRoundSite_writes plainOps ht hrc (hw.states s hs) (hlin s hs) hx hb)
      fun b hb => congrArg (Prod.fst <$> ·)
        (fullRoundSite_scratch plainOps ht hx hb (freshBuffers_fit t))
  obtain ⟨b', hb', hrun, hlen⟩ := eachSite_map_eq_ok hw.buffers hturn hsteps
  refine ⟨{ sites := sites', buffers := b', ops := () }, ?_, rfl, hb', hlen⟩
  -- The layer is one call over all sites; cut back, each site has its own s-boxes.
  have hsbox : ((w.sites.flatMap linear).map plainSbox) =
      w.sites.flatMap fun s => (linear s).map plainSbox := List.map_flatMap
  have hzip : ((chunksExact t (w.sites.flatMap linear)).zip
      (chunksExact t ((w.sites.flatMap linear).map plainSbox))) =
      w.sites.map fun s => (linear s, (linear s).map plainSbox) := by
    rw [hsbox, chunksExact_flatMap hpos hlin, chunksExact_flatMap hpos fun s hs => by
      rw [List.length_map, hlin s hs], List.zip_map']
  have hlayer : fullRound plainOps t roundRc layoutRound stateRow w =
      (eachSite
        (fun (x : List Fr × List (SboxTrace Fr)) state buffers =>
          fullRoundSite plainOps t roundRc layoutRound stateRow state x.1 x.2 buffers)
        ((chunksExact t (w.sites.flatMap linear)).zip
          (chunksExact t ((w.sites.flatMap linear).map plainSbox))) w.sites w.buffers >>= fun r =>
        pure { sites := r.1, buffers := r.2, ops := () }) := by
    unfold fullRound
    simp only [plainOps_leaving]
    rfl
  rw [hlayer, hzip, hrun]
  rfl

/-- A layer of partial rounds is every site's partial round. -/
theorem partialRound_eq_ok {t round : Nat} {rc : RoundConstants t} {w : WalkState Fr Unit}
    {sites' : List (Site Fr)} (ht : t ∈ poseidon2SupportedWidths) (hw : w.Ready t)
    (hsteps : List.Forall₂ (fun s s' => StepOn (sitePartial t rc round s.state) s s')
      w.sites sites') :
    ∃ w', partialRound plainOps t round (rc.partialRc.getD round 0) rc.diag w = .ok w' ∧
      w'.sites = sites' ∧ w'.Ready t := by
  have hpos : 0 < t := Poseidon2Width.pos ⟨t, ht⟩
  let c := rc.partialRc.getD round 0
  let linear := fun site : Site Fr => plainOps.addPublic (site.state.getD 0 0) c
  have hturn : ∀ s ∈ w.sites, Turn t
      (fun (x : Fr × SboxTrace Fr) state buffers =>
        partialRoundSite plainOps t round c rc.diag state x.1 x.2 buffers)
      (sitePartial t rc round) (linear s, plainSbox (linear s)) s.state := by
    intro s hs
    exact Turn.of
      (fun b hb => partialRoundSite_writes plainOps ht rc.diag_length (hw.states s hs) hb)
      fun b hb => partialRoundSite_scratch plainOps ht rc.diag_length (hw.states s hs) hb
        (freshBuffers_fit t)
  obtain ⟨b', hb', hrun, hlen⟩ := eachSite_map_eq_ok hw.buffers hturn hsteps
  refine ⟨{ sites := sites', buffers := b', ops := () }, ?_, rfl, hb', hlen⟩
  -- No state is empty, so every site has a first element.
  have hlinear : (w.sites.mapM fun site => do
      let x ← orElse (RunError.indexOutOfRange "site.state" 0) site.state[0]?
      pure (plainOps.addPublic x c)) = .ok (w.sites.map linear) := by
    refine mapM_eq_ok fun site hs => ?_
    have h0 : 0 < site.state.length := by rw [hw.states site hs]; exact hpos
    simp only [linear, List.getD_eq_getElem?_getD, List.getElem?_eq_getElem h0, orElse_some,
      ok_bind, Option.getD_some]
    rfl
  -- The layer is one call over all sites, an s-box each.
  have hlayer : partialRound plainOps t round c rc.diag w =
      ((w.sites.mapM fun site => do
        let x ← orElse (RunError.indexOutOfRange "site.state" 0) site.state[0]?
        pure (plainOps.addPublic x c)) >>= fun linear =>
      eachSite
        (fun (x : Fr × SboxTrace Fr) state buffers =>
          partialRoundSite plainOps t round c rc.diag state x.1 x.2 buffers)
        (linear.zip (linear.map plainSbox)) w.sites w.buffers >>= fun r =>
        pure { sites := r.1, buffers := r.2, ops := () }) := by
    unfold partialRound
    simp only [plainOps_leaving]
    rfl
  have hzip : (w.sites.map linear).zip ((w.sites.map linear).map plainSbox) =
      w.sites.map fun s => (linear s, plainSbox (linear s)) := by
    rw [List.map_map, List.zip_map']; rfl
  rw [hlayer, hlinear, ok_bind, hzip, hrun]
  rfl

/-- A group of rounds is, at every site, that group of the site's own rounds. -/
theorem rounds_eq_ok {t : Nat} {f : WalkState Fr Unit → Nat → Except RunError (WalkState Fr Unit)}
    {g : Nat → List Fr → Traced Fr (List Fr)} :
    ∀ {rounds : List Nat} {w : WalkState Fr Unit} {sites' : List (Site Fr)}, w.Ready t →
      (∀ r ∈ rounds, ∀ (w : WalkState Fr Unit) (sites' : List (Site Fr)), w.Ready t →
        List.Forall₂ (fun s s' => StepOn (g r s.state) s s') w.sites sites' →
        ∃ w', f w r = .ok w' ∧ w'.sites = sites' ∧ w'.Ready t) →
      List.Forall₂ (fun s s' => StepOn (rounds.foldlM (fun state r => g r state) s.state) s s')
        w.sites sites' →
      ∃ w', rounds.foldlM f w = .ok w' ∧ w'.sites = sites' ∧ w'.Ready t
  | [], w, sites', hw, _, hsteps => by
    have hsame : w.sites = sites' := by
      refine List.forall₂_eq_eq_eq ▸ hsteps.imp ?_
      rintro ⟨state, output⟩ ⟨state', output'⟩ ⟨log, hx, hrec⟩
      cases hx
      cases hrec
      rfl
    exact ⟨w, rfl, hsame, hw⟩
  | r :: rounds, w, sites', hw, hturn, hsteps => by
    have hcut := hsteps.imp fun s s' h =>
      StepOn.of_bind (by rw [List.foldlM_cons] at h; exact h)
    obtain ⟨middle, hfirst, hrest⟩ := forall₂_of_comp hcut
    obtain ⟨w1, h1, hs1, hw1⟩ := hturn r (by simp) w middle hw hfirst
    subst hs1
    obtain ⟨w2, h2, hs2, hw2⟩ := rounds_eq_ok hw1 (fun r' hr' => hturn r' (by simp [hr'])) hrest
    exact ⟨w2, by rw [List.foldlM_cons, h1, ok_bind, h2], hs2, hw2⟩

/-- A sink whose every position is written. -/
def SiteOutput.Complete (o : SiteOutput V) : Prop := false ∉ o.written

theorem SiteOutput.Complete.finish {o : SiteOutput V} (h : o.Complete) (site : Nat) :
    o.finish site = .ok () := by
  unfold SiteOutput.finish
  rw [List.idxOf?_eq_none_iff.mpr h]

/-- What one site contributes to a batch: its sink, having seen its own walk and nothing else. -/
def SiteDone (t : Nat) (rc : RoundConstants t) (site : List Fr × SiteOutput Fr)
    (o' : SiteOutput Fr) : Prop :=
  ∃ state log, siteWalk t rc site.1 = .ok (state, log) ∧ site.2.recordAll log = .ok o' ∧ o'.Complete

theorem walkState_new_eq_ok {t : Nat} {inputs : List (List Fr)} {outputs : List (SiteOutput Fr)}
    {sites' : List (Site Fr)} (ht : t ∈ poseidon2SupportedWidths)
    (hlen : inputs.length = outputs.length) (hin : ∀ input ∈ inputs, input.length = t)
    (hsteps : List.Forall₂ (fun (p : List Fr × SiteOutput Fr) s' =>
      StepOn (Prod.fst <$> initSite plainOps t p.1 (List.replicate (mdsLength t) 0))
        { state := List.replicate t 0, output := p.2 } s') (inputs.zip outputs) sites') :
    ∃ w, WalkState.new plainOps t inputs.flatten outputs () = .ok w ∧ w.sites = sites' ∧
      w.Ready t := by
  have hpos : 0 < t := Poseidon2Width.pos ⟨t, ht⟩
  have hsum : inputs.flatten.length = outputs.length * t := by
    rw [List.length_flatten, List.map_congr_left hin, List.map_const', List.sum_replicate, hlen,
      smul_eq_mul]
  have hzip : inputs.zip (outputs.map fun output =>
      ({ state := List.replicate t plainOps.default, output } : Site Fr)) =
      (inputs.zip outputs).map fun p =>
        (p.1, ({ state := List.replicate t 0, output := p.2 } : Site Fr)) :=
    List.zip_map_right
  -- The initial layer is a layer like any other, from the freshly made buffers.
  obtain ⟨b', hb', hrun, hstates⟩ := eachSite_eq_ok (t := t)
    (b := freshBuffers t)
    (f := fun input _ buffers => do
      let (state, mdsOut) ← initSite plainOps t input buffers.mdsOut
      pure (state, { buffers with mdsOut }))
    (g := fun input _ => Prod.fst <$> initSite plainOps t input (List.replicate (mdsLength t) 0))
    inputs (outputs.map fun output => { state := List.replicate t plainOps.default, output })
    (freshBuffers_fit t) (by rw [List.length_map, hlen]) (by
      rw [hzip, List.forall₂_map_left_iff]
      refine (List.forall₂_and_left _ _).mpr ⟨fun p hp => ?_, hsteps⟩
      have hi : p.1.length = t := hin _ (List.of_mem_zip hp).1
      intro b hb
      obtain ⟨⟨state, mds⟩, log, hinit, -, hs, hm⟩ :=
        initSite_writes plainOps ht hi hb.mdsOut
      have hfresh := initSite_scratch plainOps ht hi hb.mdsOut
        (List.length_replicate (n := mdsLength t) (a := (0 : Fr)))
      refine ⟨state, { b with mdsOut := mds }, log, ?_, ?_, hs, hb.next, hb.sboxOut, hm⟩
      · show (initSite plainOps t p.1 b.mdsOut >>= fun r =>
          pure (r.1, { b with mdsOut := r.2 })) = _
        rw [bind_ok hinit]; simp only [pure, List.append_nil]; rfl
      · rw [← hfresh, map_eq_pure_bind, bind_ok hinit]; simp only [pure, List.append_nil]; rfl)
  refine ⟨{ sites := sites', buffers := b', ops := () }, ?_, rfl, hb', hstates⟩
  unfold WalkState.new
  rw [ensure_of (by rw [hsum, Nat.mul_div_cancel _ hpos]), chunksExact_flatten hpos hin]
  simp only [ok_bind]
  rw [show ({ next := List.replicate t plainOps.default
              sboxOut := List.replicate t plainOps.default
              mdsOut := List.replicate (if 4 < t then t else 0) plainOps.default } : Buffers Fr) =
    freshBuffers t from rfl, hrun]
  rfl

/-- **The lock-step walk is every site's own walk.** -/
theorem walk_eq_ok {t : Nat} {rc : RoundConstants t} {inputs : List (List Fr)}
    {outputs outputs' : List (SiteOutput Fr)} (ht : t ∈ poseidon2SupportedWidths)
    (hlen : inputs.length = outputs.length) (hin : ∀ input ∈ inputs, input.length = t)
    (hdone : List.Forall₂ (SiteDone t rc) (inputs.zip outputs) outputs') :
    walk plainOps t inputs.flatten rc outputs () = .ok (outputs', ()) := by
  -- Cut every site's walk where the lock-step walk changes layers.
  have hcut := hdone.imp fun p o' (h : SiteDone t rc p o') =>
    show ∃ s1, StepOn (Prod.fst <$> initSite plainOps t p.1 (List.replicate (mdsLength t) 0))
        { state := List.replicate t 0, output := p.2 } s1 ∧
      ∃ s2, StepOn ((List.range 4).foldlM (fun state round =>
          siteFull t (slice rc.full1 (round * t) ((round + 1) * t)) round (round + 1) state)
          s1.state) s1 s2 ∧
      ∃ s3, StepOn ((List.range (partialRounds t)).foldlM (fun state round =>
          sitePartial t rc round state) s2.state) s2 s3 ∧
      ∃ s4, StepOn ((List.range 4).foldlM (fun state round =>
          siteFull t (slice rc.full2 (round * t) ((round + 1) * t)) (4 + round)
            (5 + partialRounds t + round) state) s3.state) s3 s4 ∧
      (runOn s4.output (recordSlice 0 s4.state) = .ok ((), o') ∧ o'.Complete) by
    obtain ⟨state, log, hwalk, hrec, hcomplete⟩ := h
    have hshape : siteWalk t rc p.1 =
        (Prod.fst <$> initSite plainOps t p.1 (List.replicate (mdsLength t) 0)) >>= fun state =>
        (List.range 4).foldlM (fun state round =>
          siteFull t (slice rc.full1 (round * t) ((round + 1) * t)) round (round + 1) state)
          state >>= fun state =>
        (List.range (partialRounds t)).foldlM (fun state round =>
          sitePartial t rc round state) state >>= fun state =>
        (List.range 4).foldlM (fun state round =>
          siteFull t (slice rc.full2 (round * t) ((round + 1) * t)) (4 + round)
            (5 + partialRounds t + round) state) state >>= fun state =>
        recordSlice 0 state >>= fun _ => pure state := by
      rw [bind_map_left]; rfl
    have hrun : StepOn (siteWalk t rc p.1) { state := List.replicate t 0, output := p.2 }
        { state, output := o' } := ⟨log, hwalk, hrec⟩
    rw [hshape] at hrun
    obtain ⟨s1, h1, hrun⟩ := hrun.of_bind
    obtain ⟨s2, h2, hrun⟩ := hrun.of_bind
    obtain ⟨s3, h3, hrun⟩ := hrun.of_bind
    obtain ⟨s4, h4, hrun⟩ := hrun.of_bind
    refine ⟨s1, h1, s2, h2, s3, h3, s4, h4, ?_, hcomplete⟩
    obtain ⟨log, hlast, hrec⟩ := hrun
    cases hlast
    rw [List.append_nil] at hrec
    simp only [runOn, recordSlice]
    rw [hrec]
    rfl
  obtain ⟨sites1, h1, hcut⟩ := forall₂_of_comp hcut
  obtain ⟨sites2, h2, hcut⟩ := forall₂_of_comp hcut
  obtain ⟨sites3, h3, hcut⟩ := forall₂_of_comp hcut
  obtain ⟨sites4, h4, hlast⟩ := forall₂_of_comp hcut
  obtain ⟨w1, hw1, rfl, hr1⟩ := walkState_new_eq_ok ht hlen hin h1
  obtain ⟨w2, hw2, rfl, hr2⟩ := rounds_eq_ok
    (f := fun w round => fullRound plainOps t (slice rc.full1 (round * t) ((round + 1) * t))
      round (round + 1) w)
    (g := fun round => siteFull t (slice rc.full1 (round * t) ((round + 1) * t)) round (round + 1))
    hr1 (fun round hround w sites' hw => fullRound_eq_ok round (round + 1)
      ht (roundRc_length rc.full1_length (List.mem_range.mp hround)) hw) h2
  obtain ⟨w3, hw3, rfl, hr3⟩ := rounds_eq_ok
    (f := fun w round => partialRound plainOps t round (rc.partialRc.getD round 0) rc.diag w)
    (g := fun round => sitePartial t rc round)
    hr2 (fun round _ w sites' hw => partialRound_eq_ok ht hw) h3
  obtain ⟨w4, hw4, rfl, hr4⟩ := rounds_eq_ok
    (f := fun w round => fullRound plainOps t (slice rc.full2 (round * t) ((round + 1) * t))
      (4 + round) (5 + partialRounds t + round) w)
    (g := fun round => siteFull t (slice rc.full2 (round * t) ((round + 1) * t)) (4 + round)
      (5 + partialRounds t + round))
    hr3 (fun round hround w sites' hw => fullRound_eq_ok (4 + round)
      (5 + partialRounds t + round) ht
      (roundRc_length rc.full2_length (List.mem_range.mp hround)) hw) h4
  have hfinish : w4.finish = .ok outputs' := by
    refine zipIdx_mapM_eq_ok (hlast.imp fun s4 o' h i => ?_)
    show (runOn s4.output (recordSlice 0 s4.state) >>= fun r =>
      r.2.finish i >>= fun _ => pure r.2) = .ok o'
    rw [h.1, ok_bind, h.2.finish i, ok_bind]
    rfl
  have hshape : walk plainOps t inputs.flatten rc outputs () =
      (WalkState.new plainOps t inputs.flatten outputs () >>= fun w =>
      (List.range 4).foldlM (fun w round => fullRound plainOps t
        (slice rc.full1 (round * t) ((round + 1) * t)) round (round + 1) w) w >>= fun w =>
      (List.range (partialRounds t)).foldlM (fun w round => partialRound plainOps t round
        (rc.partialRc.getD round 0) rc.diag w) w >>= fun w =>
      (List.range 4).foldlM (fun w round => fullRound plainOps t
        (slice rc.full2 (round * t) ((round + 1) * t)) (4 + round)
        (5 + partialRounds t + round) w) w >>= fun w =>
      w.finish >>= fun outputs => pure (outputs, w.ops)) := by
    unfold walk
    simp only [plainOps_leaving]
  rw [hshape, hw1, ok_bind, hw2, ok_bind, hw3, ok_bind, hw4, ok_bind, hfinish, ok_bind]
  rfl

end Poseidon2
end CircomMpc
