import Mathlib.Logic.Function.Basic
import CircomMpc.Codegen.Reserve
import CircomMpc.Passes.Mpc.GadgetIndex

/-!
# The reserved region

Constants, gadget results and inputs have a home each: a slot in front of the cursors that no other
value has. `reserve_slots` goes over the graph several times and fills a table at a time; what it
leaves is one function from values to homes, and tables that say the same (`Reservation.Holds`).

A loop's invariant says how far the homes have grown. Each keeps the homes it found (`Extends`), which
is how the tables of the earlier loops stay true.
-/

namespace CircomMpc

open Lib CircomMpc.Graph

namespace Codegen

/-- The bank of a domain. -/
def bankOf : Domain → Bank
  | .public => .public
  | .shared => .shared
  | .local => .local

theorem lift_eq_ok {α : Type} {x : Except Panic α} {a : α} : lift x = .ok a ↔ x = .ok a := by
  cases x <;> simp [lift]

/-- A lifted step that has to return. -/
theorem lift_meets {α : Type} {P : α → Prop} {x : Except Panic α} (h : Meets (fun _ => True) P x) :
    Meets (fun _ => True) P (lift x) := by
  cases x with
  | ok a => exact h
  | error p => exact trivial

/-! ## Cursors -/

/-- The cursor of a bank: nothing is reserved in the local one. -/
def Cursors.of (next : Cursors) : Bank → Nat
  | .public => next.p
  | .shared => next.s
  | .local => 0

/-- The cursors behind `count` more slots of a bank. -/
def Cursors.advance (next : Cursors) (bank : Bank) (count : Nat) : Cursors :=
  match bank with
  | .public => { next with p := next.p + count }
  | .shared => { next with s := next.s + count }
  | .local => next

theorem Cursors.take_eq_ok {next : Cursors} {count : Nat} {bank : Bank} {r : Nat × Cursors} :
    next.take count bank = .ok r ↔ bank ≠ .local ∧ r = (next.of bank, next.advance bank count) := by
  cases bank <;> simp [Cursors.take, Cursors.of, Cursors.advance, pure, Except.pure, throw, throwThe,
    MonadExceptOf.throw, eq_comm]

theorem Cursors.advance_zero (next : Cursors) (bank : Bank) : next.advance bank 0 = next := by
  cases bank <;> rfl

theorem Cursors.advance_succ (next : Cursors) (bank : Bank) (count : Nat) :
    (next.advance bank count).advance bank 1 = next.advance bank (count + 1) := by
  cases bank <;> rfl

theorem Cursors.of_advance (next : Cursors) {bank : Bank} (h : bank ≠ .local) (count : Nat) :
    (next.advance bank count).of bank = next.of bank + count := by
  cases bank
  · rfl
  · rfl
  · exact absurd rfl h

theorem Cursors.of_le_advance (next : Cursors) (bank bank' : Bank) (count : Nat) :
    next.of bank' ≤ (next.advance bank count).of bank' := by
  cases bank <;> cases bank' <;> simp [Cursors.of, Cursors.advance]

/-! ## Homes -/

/-- Every home is in front of the cursors, and its value's own. So a slot at a cursor is nobody's
    home yet. -/
structure Homed (home : ValueId → Option Loc) (next : Cursors) : Prop where
  below : ∀ v l, home v = some l → l.index < next.of l.bank
  apart : ∀ u v l, home u = some l → home v = some l → u = v

theorem Homed.start : Homed (fun _ => none) ⟨0, 0⟩ where
  below _ _ h := nomatch h
  apart _ _ _ h := nomatch h

/-- The next slot of a bank becomes a home. -/
theorem Homed.push {home : ValueId → Option Loc} {next : Cursors} (h : Homed home next) {bank : Bank}
    (hbank : bank ≠ .local) (v : ValueId) :
    Homed (Function.update home v (some ⟨bank, next.of bank⟩)) (next.advance bank 1) := by
  have hcases : ∀ u l, Function.update home v (some ⟨bank, next.of bank⟩) u = some l →
      u = v ∧ l = ⟨bank, next.of bank⟩ ∨ u ≠ v ∧ home u = some l := by
    intro u l hu
    by_cases huv : u = v
    · subst huv
      rw [Function.update_self] at hu
      exact .inl ⟨rfl, (Option.some.inj hu).symm⟩
    · rw [Function.update_of_ne huv] at hu
      exact .inr ⟨huv, hu⟩
  constructor
  · intro u l hu
    rcases hcases u l hu with ⟨_, rfl⟩ | ⟨_, hu⟩
    · show next.of bank < _
      rw [next.of_advance hbank]
      exact Nat.lt_succ_self _
    · exact Nat.lt_of_lt_of_le (h.below u l hu) (next.of_le_advance _ _ _)
  · -- An old home is in front of the cursor, the new one at it.
    have hfresh : ∀ u, home u ≠ some ⟨bank, next.of bank⟩ := by
      intro u hu
      exact absurd (h.below u _ hu) (Nat.lt_irrefl _)
    intro u w l hu hw
    rcases hcases u l hu with ⟨rfl, rfl⟩ | ⟨_, hu'⟩
    · rcases hcases w _ hw with ⟨rfl, _⟩ | ⟨_, hw'⟩
      · rfl
      · exact absurd hw' (hfresh w)
    · rcases hcases w l hw with ⟨rfl, rfl⟩ | ⟨_, hw'⟩
      · exact absurd hu' (hfresh u)
      · exact h.apart u w l hu' hw'

/-- `home'` says what `home` says where `home` says anything. -/
def Extends (home home' : ValueId → Option Loc) : Prop := ∀ v l, home v = some l → home' v = some l

theorem Extends.refl (home : ValueId → Option Loc) : Extends home home := fun _ _ h => h

theorem Extends.trans {a b c : ValueId → Option Loc} (hab : Extends a b) (hbc : Extends b c) :
    Extends a c := fun v l h => hbc v l (hab v l h)

theorem Extends.update {home : ValueId → Option Loc} {v : ValueId} (h : home v = none)
    (l : Option Loc) : Extends home (Function.update home v l) := by
  intro u l' hu
  by_cases huv : u = v
  · subst huv
    rw [h] at hu
    cases hu
  · rw [Function.update_of_ne huv]
    exact hu

/-! ## Constants -/

/-- The homes of the constants, with the first `i` nodes done. Every constant node has one, equal
    ones too: the table is not deduplicated. -/
structure ConstantsDone (g : Graph) (i : Nat) (slot : List (Option Loc)) (constants : List Fr)
    (home : ValueId → Option Loc) : Prop where
  homed : Homed home ⟨constants.length, 0⟩
  table : slot = (List.range g.nodes.length).map home
  constants : ∀ v < i, ∀ c inputs, g.nodes[v]? = some ⟨.constant c, inputs⟩ →
    ∃ k, home v = some ⟨.public, k⟩ ∧ constants[k]? = some c
  only : ∀ v l, home v = some l → v < i ∧ ∃ c inputs, g.nodes[v]? = some ⟨.constant c, inputs⟩

theorem set_map_range {α : Type} {f : Nat → α} {n i : Nat} {x : α} :
    ((List.range n).map f).set i x = (List.range n).map (Function.update f i x) := by
  apply List.ext_getElem
  · simp
  · intro j _ _
    rw [List.getElem_set]
    simp only [List.getElem_map, List.getElem_range]
    by_cases hij : i = j
    · rw [if_pos hij, hij, Function.update_self]
    · rw [if_neg hij, Function.update_of_ne (Ne.symm hij)]

theorem reserveConstants_meets (g : Graph) :
    Meets (fun _ => True) (fun r => ∃ home, ConstantsDone g g.nodes.length r.1 r.2 home)
      (reserveConstants g) := by
  unfold reserveConstants
  refine Meets.foldlM_enum (fun i (acc : List (Option Loc) × List Fr) =>
    ∃ home, ConstantsDone g i acc.1 acc.2 home) ?_ ?_
  · refine ⟨fun _ => none, Homed.start, ?_, ?_, ?_⟩
    · rw [List.map_const', List.length_range]
    · intro v hv
      exact absurd hv (Nat.not_lt_zero v)
    · intro v l hl
      cases hl
  · rintro i ⟨op, inputs⟩ ⟨slot, constants⟩ hnode ⟨home, h⟩
    dsimp only at h ⊢
    have hother : (∀ c, op ≠ .constant c) → ConstantsDone g (i + 1) slot constants home := by
      intro hop
      refine ⟨h.homed, h.table, ?_, ?_⟩
      · intro v hv c inputs' hv'
        rcases Nat.lt_succ_iff_lt_or_eq.mp hv with hlt | rfl
        · exact h.constants v hlt c inputs' hv'
        · rw [hnode] at hv'
          cases hv'
          exact absurd rfl (hop c)
      · intro v l hl
        exact ⟨Nat.lt_succ_of_lt (h.only v l hl).1, (h.only v l hl).2⟩
    cases op
    case constant c =>
      apply Meets.bind_eq
      intro slot' hslot'
      obtain ⟨_, rfl⟩ := setIndex_eq_ok.mp hslot'
      have hnone : home i = none := by
        cases hi : home i with
        | none => rfl
        | some l => exact absurd (h.only i l hi).1 (Nat.lt_irrefl i)
      have hextends := Extends.update hnone (some ⟨.public, constants.length⟩)
      refine ⟨Function.update home i (some ⟨.public, constants.length⟩), ?_, ?_, ?_, ?_⟩
      · have hpush := @Homed.push _ _ h.homed .public (by decide) i
        rw [List.length_append]
        exact hpush
      · rw [h.table, set_map_range]
      · intro v hv c' inputs' hv'
        rcases Nat.lt_succ_iff_lt_or_eq.mp hv with hlt | rfl
        · obtain ⟨k, hk, hc⟩ := h.constants v hlt c' inputs' hv'
          exact ⟨k, hextends _ _ hk, getElem?_append_of_some hc⟩
        · rw [hnode] at hv'
          cases hv'
          exact ⟨constants.length, Function.update_self .., by simp⟩
      · intro v l hl
        by_cases hvi : v = i
        · subst hvi
          exact ⟨Nat.lt_succ_self v, c, inputs, hnode⟩
        · rw [Function.update_of_ne hvi] at hl
          exact ⟨Nat.lt_succ_of_lt (h.only v l hl).1, (h.only v l hl).2⟩
    all_goals exact ⟨home, hother (by intro c hc; cases hc)⟩

/-! ## Gadget results -/

theorem pushAt_inv {α : Type} {buckets buckets' : List (List α)} {d : Nat} {x : α}
    (h : pushAt buckets d x = .ok buckets') :
    ∃ bucket, buckets[d]? = some bucket ∧ buckets' = buckets.set d (bucket ++ [x]) := by
  unfold pushAt at h
  obtain ⟨bucket, hbucket, hset⟩ := bind_eq_ok.mp h
  exact ⟨bucket, index_eq_ok.mp hbucket, (setIndex_eq_ok.mp hset).2⟩

section Results

variable {g : Graph}

/-- A node is a result of one site at most. -/
theorem resultAt_unique {site site' slot slot' : Nat} {v : ValueId} (h : g.ResultAt site slot v)
    (h' : g.ResultAt site' slot' v) : site = site' ∧ slot = slot' := by
  obtain ⟨u, hnode, inputs, hsite⟩ := h
  obtain ⟨u', hnode', inputs', hsite'⟩ := h'
  rw [hnode] at hnode'
  cases hnode'
  rw [hsite] at hsite'
  cases hsite'
  exact ⟨rfl, rfl⟩

theorem siteDomains_meets (hg : g.Hosted) :
    Meets (fun _ => True) (fun domains => ∀ site v, g.SiteAt site v → ∀ d,
      domains[site]? = some d → d = (g.facts v).domain)
      (siteDomains g ((table (netRule g) g.nodes).map Facts.domain)) := by
  unfold siteDomains
  -- The sites in front of the current node have their node's domain.
  have hloop : Meets (fun _ : Panic => True) (fun domains => ∀ site v, v < g.nodes.length →
      g.SiteAt site v → ∀ d, domains[site]? = some d → d = (g.facts v).domain)
      (siteDomains g ((table (netRule g) g.nodes).map Facts.domain)) := by
    refine Meets.foldlM_enum (fun i (domains : List Domain) => ∀ site v, v < i →
      g.SiteAt site v → ∀ d, domains[site]? = some d → d = (g.facts v).domain) ?_ ?_
    · intro site v hv
      exact absurd hv (Nat.not_lt_zero v)
    · rintro i ⟨op, inputs⟩ before hnode hbefore
      have hother : (∀ site, op ≠ .gadget site) → ∀ site v, v < i + 1 → g.SiteAt site v → ∀ d,
          before[site]? = some d → d = (g.facts v).domain := by
        intro hop site v hv hat d hd
        rcases Nat.lt_succ_iff_lt_or_eq.mp hv with hlt | rfl
        · exact hbefore site v hlt hat d hd
        · obtain ⟨inputs', hat⟩ := hat
          rw [hnode] at hat
          cases hat
          exact absurd rfl (hop site)
      cases op
      case gadget site =>
        have hlt := (List.getElem?_eq_some_iff.mp hnode).1
        dsimp only
        rw [index_table hlt, ok_bind]
        unfold setIndex
        split
        · next hsite =>
          intro site' v hv hat d hd
          by_cases hne : site = site'
          · subst hne
            rw [List.getElem?_set_self hsite] at hd
            cases hd
            rw [hg.siteAt_unique hat ⟨inputs, hnode⟩]
            rfl
          · rw [List.getElem?_set_ne hne] at hd
            rcases Nat.lt_succ_iff_lt_or_eq.mp hv with hlt' | rfl
            · exact hbefore site' v hlt' hat d hd
            · obtain ⟨inputs', hat⟩ := hat
              rw [hnode] at hat
              cases hat
              exact absurd rfl hne
        · exact trivial
      all_goals exact hother (by intro site hsite; cases hsite)
  exact hloop.post fun domains h site v hat => h site v hat.lt hat

/-- The tables of the results that are left, with the first `i` nodes done. -/
def ResultsNoted (g : Graph) (i : Nat) (slots : List (List Nat)) (nodes : List (List ValueId)) : Prop :=
  ∀ site row vs, slots[site]? = some row → nodes[site]? = some vs →
    List.Forall₂ (fun slot v => g.ResultAt site slot v) row vs ∧
      ∀ slot v, v < i → g.ResultAt site slot v → v ∈ vs

theorem noteResult_meets (hg : g.Hosted) {i : Nat} {slots : List (List Nat)}
    {nodes : List (List ValueId)} {node : Node} (hnode : g.nodes[i]? = some node)
    (h : ResultsNoted g i slots nodes) :
    Meets (fun _ => True) (fun live => ResultsNoted g (i + 1) live.1 live.2)
      (noteResult g (slots, nodes) node i) := by
  obtain ⟨op, inputs⟩ := node
  have hother : (∀ slot, op ≠ .gadgetResult slot) → ResultsNoted g (i + 1) slots nodes := by
    intro hop site row vs hrow hvs
    refine ⟨(h site row vs hrow hvs).1, ?_⟩
    intro slot v hv hat
    rcases Nat.lt_succ_iff_lt_or_eq.mp hv with hlt | rfl
    · exact (h site row vs hrow hvs).2 slot v hlt hat
    · obtain ⟨u, hat, _⟩ := hat
      rw [hnode] at hat
      cases hat
      exact absurd rfl (hop slot)
  unfold noteResult
  cases op
  case gadgetResult slot =>
    obtain ⟨u, site, rfl, ⟨inputs, hsite⟩, hresult⟩ := hg.resultAt hnode
    simp only [index_eq (List.getElem?_cons_zero), index_eq hsite, ok_bind]
    apply Meets.bind_eq
    intro slots' hslots'
    apply Meets.bind_eq
    intro nodes' hnodes'
    obtain ⟨row, hrow, rfl⟩ := pushAt_inv hslots'
    obtain ⟨vs, hvs, rfl⟩ := pushAt_inv hnodes'
    intro site' row' vs' hrow' hvs'
    dsimp only at hrow' hvs'
    by_cases hne : site = site'
    · subst hne
      rw [List.getElem?_set_self (List.getElem?_eq_some_iff.mp hrow).1] at hrow'
      rw [List.getElem?_set_self (List.getElem?_eq_some_iff.mp hvs).1] at hvs'
      cases hrow'
      cases hvs'
      obtain ⟨hrows, hall⟩ := h site row vs hrow hvs
      refine ⟨List.rel_append hrows (.cons hresult .nil), ?_⟩
      intro slot' v hv hat
      rcases Nat.lt_succ_iff_lt_or_eq.mp hv with hlt | rfl
      · exact List.mem_append_left _ (hall slot' v hlt hat)
      · simp
    · rw [List.getElem?_set_ne hne] at hrow' hvs'
      refine ⟨(h site' row' vs' hrow' hvs').1, ?_⟩
      intro slot' v hv hat
      rcases Nat.lt_succ_iff_lt_or_eq.mp hv with hlt | rfl
      · exact (h site' row' vs' hrow' hvs').2 slot' v hlt hat
      · exact absurd (resultAt_unique hresult hat).1 hne
  all_goals exact hother (by intro slot hslot; cases hslot)

theorem liveResults_meets (hg : g.Hosted) :
    Meets (fun _ => True) (fun live => ResultsNoted g g.nodes.length live.1 live.2)
      (liveResults g) := by
  unfold liveResults
  refine Meets.foldlM_enum (fun i (live : List (List Nat) × List (List ValueId)) =>
    ResultsNoted g i live.1 live.2) ?_ ?_
  · intro site row vs hrow hvs
    have hempty : ∀ {α : Type} {xs : List α}, (List.replicate g.gadgetSites.length [])[site]? = some xs →
        xs = [] := by
      intro α xs hxs
      rw [List.getElem?_replicate] at hxs
      split at hxs
      · exact (Option.some.inj hxs).symm
      · cases hxs
    cases hempty hrow
    cases hempty hvs
    refine ⟨.nil, ?_⟩
    intro slot v hv
    exact absurd hv (Nat.not_lt_zero v)
  · rintro i node ⟨slots, nodes⟩ hnode h
    exact noteResult_meets hg hnode h

/-- The results of the first `k` sites have their homes, those of one site in a row behind its base.
    Homes from the earlier loop are kept. -/
structure SitesDone (g : Graph) (liveNodes : List (List ValueId)) (early : ValueId → Option Loc)
    (k : Nat) (w : Reserving) (home : ValueId → Option Loc) : Prop where
  homed : Homed home w.next
  extends_early : Extends early home
  length : w.siteResultBase.length = k
  bases : ∀ site v base, g.SiteAt site v → w.siteResultBase[site]? = some base →
    ∃ s, g.gadgetSites[site]? = some s ∧ gadgetResultBank s.kind (g.facts v).domain
      (s.precomputed && (g.facts v).domain == .shared) = .ok base.bank
  results : ∀ site < k, ∀ vs, liveNodes[site]? = some vs → ∀ v ∈ vs, ∃ base phys,
    w.siteResultBase[site]? = some base ∧ w.resultPhys[v]? = some (some phys) ∧
      home v = some ⟨base.bank, phys⟩
  only : ∀ v l, home v = some l → early v = some l ∨
    ∃ site < k, ∃ vs, liveNodes[site]? = some vs ∧ v ∈ vs

/-- A row of nodes gets a row of slots. -/
theorem reserveRow_meets {home : ValueId → Option Loc} {next : Cursors} (h : Homed home next)
    {bank : Bank} (hbank : bank ≠ .local) (vs : List ValueId) (phys : List (Option Nat)) :
    Meets (fun _ => True) (fun phys' => ∃ home', Homed home' (next.advance bank vs.length) ∧
        (∀ v ∉ vs, home' v = home v ∧ phys'[v]? = phys[v]?) ∧
        ∀ v ∈ vs, ∃ slot, phys'[v]? = some (some slot) ∧ home' v = some ⟨bank, slot⟩)
      (vs.zipIdx.foldlM (fun (phys : List (Option Nat)) (x : ValueId × Nat) =>
        setIndex phys x.1 (some (next.of bank + x.2))) phys) := by
  -- After `pos` nodes the first `pos` slots behind the cursor are theirs.
  have hloop : Meets (fun _ : Panic => True) (fun phys' => ∃ home',
      Homed home' (next.advance bank vs.length) ∧
        (∀ v ∉ vs.take vs.length, home' v = home v ∧ phys'[v]? = phys[v]?) ∧
        ∀ v ∈ vs.take vs.length, ∃ slot, phys'[v]? = some (some slot) ∧
          home' v = some ⟨bank, slot⟩)
      (vs.zipIdx.foldlM (fun (phys : List (Option Nat)) (x : ValueId × Nat) =>
        setIndex phys x.1 (some (next.of bank + x.2))) phys) := by
    refine Meets.foldlM_enum (fun pos (phys' : List (Option Nat)) => ∃ home',
      Homed home' (next.advance bank pos) ∧
        (∀ v ∉ vs.take pos, home' v = home v ∧ phys'[v]? = phys[v]?) ∧
        ∀ v ∈ vs.take pos, ∃ slot, phys'[v]? = some (some slot) ∧
          home' v = some ⟨bank, slot⟩) ?_ ?_
    · refine ⟨home, by rw [next.advance_zero]; exact h, fun v _ => ⟨rfl, rfl⟩, ?_⟩
      intro v hv
      rw [List.take_zero] at hv
      cases hv
    · rintro pos v before hv ⟨home', hhomed, hout, hin⟩
      unfold setIndex
      split
      next hlt =>
        refine ⟨Function.update home' v (some ⟨bank, next.of bank + pos⟩), ?_, ?_, ?_⟩
        · rw [← next.advance_succ, ← next.of_advance hbank]
          exact hhomed.push hbank v
        · intro u hu
          rw [List.take_add_one, hv] at hu
          obtain ⟨hu', hne⟩ := not_or.mp (fun hmem => hu (List.mem_append.mpr hmem))
          have huv : u ≠ v := by
            rintro rfl
            exact hne (by simp)
          rw [Function.update_of_ne huv, List.getElem?_set_ne (Ne.symm huv)]
          exact hout u hu'
        · intro u hu
          by_cases huv : u = v
          · subst huv
            exact ⟨next.of bank + pos, List.getElem?_set_self hlt, Function.update_self ..⟩
          · rw [Function.update_of_ne huv, List.getElem?_set_ne (Ne.symm huv)]
            rw [List.take_add_one, hv] at hu
            rcases List.mem_append.mp hu with hu | hu
            · exact hin u hu
            · exact absurd (by simpa using hu) huv
      next => exact trivial
  rw [List.take_length] at hloop
  exact hloop

theorem reserveSite_meets {siteDomains : List Domain} {liveNodes : List (List ValueId)}
    {early : ValueId → Option Loc}
    (hdomains : ∀ site v, g.SiteAt site v → ∀ d, siteDomains[site]? = some d →
      d = (g.facts v).domain)
    (hlive : ∀ site vs, liveNodes[site]? = some vs → ∀ v ∈ vs, ∃ slot, g.ResultAt site slot v)
    (hearly : ∀ v site slot, g.ResultAt site slot v → early v = none) {k : Nat} {w : Reserving}
    {home : ValueId → Option Loc} (h : SitesDone g liveNodes early k w home) {s : GadgetSite}
    (hs : g.gadgetSites[k]? = some s) :
    Meets (fun _ => True) (fun w' => ∃ home', SitesDone g liveNodes early (k + 1) w' home')
      (reserveSite siteDomains liveNodes w s k) := by
  unfold reserveSite
  apply Meets.bind_eq
  intro d hd
  apply Meets.bind_eq
  intro bank hbank
  apply Meets.bind_eq
  intro vs hvs
  apply Meets.bind_eq
  rintro ⟨base, next⟩ htake
  rw [lift_eq_ok, index_eq_ok] at hd hvs
  obtain ⟨hlocal, htake⟩ := Cursors.take_eq_ok.mp htake
  cases htake
  dsimp only
  apply Meets.bind (lift_meets (reserveRow_meets h.homed hlocal vs w.resultPhys))
  rintro phys ⟨home', hhomed, hout, hin⟩
  -- The results of the sites in front are not among this one's.
  have hsame : ∀ site < k, ∀ vs', liveNodes[site]? = some vs' → ∀ v ∈ vs', v ∉ vs := by
    intro site hlt vs' hvs' v hv hmem
    obtain ⟨slot, hat⟩ := hlive site vs' hvs' v hv
    obtain ⟨slot', hat'⟩ := hlive k vs hvs v hmem
    exact absurd (resultAt_unique hat hat').1 (Nat.ne_of_lt hlt)
  have hbases : ∀ (site : Nat) base', (w.siteResultBase ++ [⟨bank, w.next.of bank⟩])[site]? = some base' →
      w.siteResultBase[site]? = some base' ∨ site = k ∧ base' = ⟨bank, w.next.of bank⟩ := by
    intro site base' hbase'
    rcases Nat.lt_or_ge site w.siteResultBase.length with hlt | hge
    · rw [List.getElem?_append_left hlt] at hbase'
      exact .inl hbase'
    · rw [List.getElem?_append_right hge, List.getElem?_singleton] at hbase'
      split at hbase'
      · next hzero =>
        cases hbase'
        rw [h.length] at hge hzero
        exact .inr ⟨Nat.le_antisymm (Nat.sub_eq_zero_iff_le.mp hzero) hge, rfl⟩
      · cases hbase'
  refine ⟨home', hhomed, ?_, ?_, ?_, ?_, ?_⟩
  · intro v l hl
    have hv : v ∉ vs := by
      intro hmem
      obtain ⟨slot, hat⟩ := hlive k vs hvs v hmem
      rw [hearly v k slot hat] at hl
      cases hl
    rw [(hout v hv).1]
    exact h.extends_early v l hl
  · simp [h.length]
  · intro site v base' hat hbase'
    rcases hbases site base' hbase' with hbase' | ⟨rfl, rfl⟩
    · exact h.bases site v base' hat hbase'
    · refine ⟨s, hs, ?_⟩
      rw [← hdomains _ v hat d hd]
      exact hbank
  · intro site hsite vs' hvs' v hv
    rcases Nat.lt_succ_iff_lt_or_eq.mp hsite with hlt | rfl
    · obtain ⟨base', slot, hbase', hphys, hhome⟩ := h.results site hlt vs' hvs' v hv
      obtain ⟨hhome', hphys'⟩ := hout v (hsame site hlt vs' hvs' v hv)
      exact ⟨base', slot, getElem?_append_of_some hbase', hphys'.trans hphys, hhome'.trans hhome⟩
    · rw [hvs] at hvs'
      cases hvs'
      obtain ⟨slot, hphys, hhome⟩ := hin v hv
      refine ⟨⟨bank, w.next.of bank⟩, slot, ?_, hphys, hhome⟩
      rw [← h.length]
      simp
  · intro v l hl
    by_cases hv : v ∈ vs
    · exact .inr ⟨k, Nat.lt_succ_self k, vs, hvs, hv⟩
    · rw [(hout v hv).1] at hl
      rcases h.only v l hl with hl | ⟨site, hlt, vs', hvs', hv'⟩
      · exact .inl hl
      · exact .inr ⟨site, Nat.lt_succ_of_lt hlt, vs', hvs', hv'⟩

/-- What `reserve_gadget_results` leaves, read off its tables: the base of every site, the results
    that are left of it, and a home for each. -/
structure ResultsDone (g : Graph) (early : ValueId → Option Loc) (gadgets : GadgetResultLayout)
    (next : Cursors) (home : ValueId → Option Loc) : Prop where
  homed : Homed home next
  extends_early : Extends early home
  bases : ∀ site v (base : Loc), g.SiteAt site v → gadgets.siteResultBase[site]? = some base →
    ∃ s, g.gadgetSites[site]? = some s ∧ gadgetResultBank s.kind (g.facts v).domain
      (s.precomputed && (g.facts v).domain == .shared) = .ok base.bank
  live : ∀ site row, gadgets.liveSlots[site]? = some row → ∃ vs,
    gadgets.liveNodes[site]? = some vs ∧ List.Forall₂ (fun slot v => g.ResultAt site slot v) row vs ∧
      ∀ slot v, g.ResultAt site slot v → v ∈ vs
  results : ∀ site slot v, g.ResultAt site slot v → ∃ (base : Loc) (phys : Nat),
    gadgets.siteResultBase[site]? = some base ∧ gadgets.resultPhys[v]? = some (some phys) ∧
      home v = some ⟨base.bank, phys⟩
  only : ∀ v l, home v = some l → early v = some l ∨ ∃ site slot, g.ResultAt site slot v

theorem reserveGadgetResults_meets (hg : g.Hosted) {early : ValueId → Option Loc} {next : Cursors}
    (hhomed : Homed early next) (hearly : ∀ v site slot, g.ResultAt site slot v → early v = none) :
    Meets (fun _ => True) (fun r => ∃ home, ResultsDone g early r.1 r.2 home)
      (reserveGadgetResults g ((table (netRule g) g.nodes).map Facts.domain) next) := by
  unfold reserveGadgetResults
  apply Meets.bind (lift_meets (siteDomains_meets hg))
  intro domains hdomains
  apply Meets.bind_eq
  rintro ⟨liveSlots, liveNodes⟩ hlive
  have hnoted := (liveResults_meets hg).of_ok (lift_eq_ok.mp hlive)
  dsimp only at hnoted ⊢
  apply Meets.bind_any
  intro _
  -- Both tables have a row for every site that has one.
  have hlengths : liveSlots.length = g.gadgetSites.length ∧
      liveNodes.length = g.gadgetSites.length := by
    have hloop : Meets (fun _ : Panic => True)
        (fun live => live.1.length = g.gadgetSites.length ∧
          live.2.length = g.gadgetSites.length) (liveResults g) := by
      unfold liveResults
      refine Meets.foldlM_enum (fun _ (live : List (List Nat) × List (List ValueId)) =>
        live.1.length = g.gadgetSites.length ∧ live.2.length = g.gadgetSites.length) ?_ ?_
      · simp
      · rintro i ⟨op, inputs⟩ ⟨slots, nodes⟩ _ h
        unfold noteResult
        dsimp only at h ⊢
        split
        · apply Meets.bind_any
          intro _
          apply Meets.bind_any
          intro _
          split
          · apply Meets.bind_eq
            intro slots' hslots'
            apply Meets.bind_eq
            intro nodes' hnodes'
            obtain ⟨_, _, rfl⟩ := pushAt_inv hslots'
            obtain ⟨_, _, rfl⟩ := pushAt_inv hnodes'
            simpa [pure, Except.pure] using h
          · exact trivial
        · exact h
    exact hloop.of_ok (lift_eq_ok.mp hlive)
  have hat : ∀ site vs, liveNodes[site]? = some vs → ∀ v ∈ vs, ∃ slot, g.ResultAt site slot v := by
    intro site vs hvs v hv
    have hlt := (List.getElem?_eq_some_iff.mp hvs).1
    rw [hlengths.2, ← hlengths.1] at hlt
    obtain ⟨k, hk⟩ := List.mem_iff_getElem?.mp hv
    obtain ⟨slot, _, hresult⟩ := forall₂_getElem?
      (hnoted site _ vs (List.getElem?_eq_getElem hlt) hvs).1 hk
    exact ⟨slot, hresult⟩
  have hloop : Meets (fun _ : CodegenError => True)
      (fun w => ∃ home, SitesDone g liveNodes early g.gadgetSites.length w home)
      (g.gadgetSites.zipIdx.foldlM (fun w (x : GadgetSite × Nat) =>
        reserveSite domains liveNodes w x.1 x.2)
        ⟨List.replicate g.nodes.length none, [], next⟩) := by
    refine Meets.foldlM_enum (fun k (w : Reserving) => ∃ home, SitesDone g liveNodes early k w home)
      ?_ ?_
    · refine ⟨early, hhomed, Extends.refl early, rfl, ?_, ?_, fun v l hl => .inl hl⟩
      · intro site v base _ hbase
        cases hbase
      · intro site hsite
        exact absurd hsite (Nat.not_lt_zero site)
    · rintro k s w hs ⟨home, h⟩
      exact reserveSite_meets hdomains hat hearly h hs
  apply Meets.bind hloop
  rintro w ⟨home, h⟩
  refine ⟨home, h.homed, h.extends_early, h.bases, ?_, ?_, ?_⟩
  · intro site row hrow
    have hlt := (List.getElem?_eq_some_iff.mp hrow).1
    rw [hlengths.1, ← hlengths.2] at hlt
    have hvs := List.getElem?_eq_getElem hlt
    obtain ⟨hrows, hall⟩ := hnoted site row _ hrow hvs
    exact ⟨_, hvs, hrows, fun slot v hv => hall slot v hv.lt hv⟩
  · intro site slot v hv
    obtain ⟨u, _, hsite⟩ := id hv
    have hlt := hg.siteAt_lt hsite
    have hrow := List.getElem?_eq_getElem (hlengths.1.symm ▸ hlt)
    have hvs := List.getElem?_eq_getElem (hlengths.2.symm ▸ hlt)
    exact h.results site hlt _ hvs v ((hnoted site _ _ hrow hvs).2 slot v hv.lt hv)
  · intro v l hl
    rcases h.only v l hl with hl | ⟨site, _, vs, hvs, hv⟩
    · exact .inl hl
    · exact .inr ⟨site, hat site vs hvs v hv⟩

end Results

end Codegen
end CircomMpc
