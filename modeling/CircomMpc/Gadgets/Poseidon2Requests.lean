import CircomMpc.Gadgets.Poseidon2Walk

/-!
# A sparse trace is the full trace, filtered

`plainTraceRequested` never builds a full trace: it routes every record call through a per-row table
of requested positions and writes what survives. `plainTraceRequested_eq_ok` says what comes out:
for a well-formed compressed-row table, the concatenation over the sites of the requested slots of
that site's own full trace (`fullTrace`), however the sites were cut into chunks.

A sink in the middle of its walk is described by the log of records made so far (`filled`): each
requested position holds the log's value of its slot, or is still unwritten. A log that covers the
row ends the walk, and the checks that the plan makes on a row (`RowOk`) are what lets it.
-/

namespace CircomMpc
namespace Poseidon2

open Lib

variable {V : Type}

/-! ## Sinks -/

/-- The value a log leaves at a slot. -/
def valueAt (zero : V) (log : Log V) (k : Nat) : V := (log.lookup k).getD zero

/-- A sink routes exactly the slots of `row`, each to its position in the row, and drops every other
    slot of the trace. -/
structure Routes (capacity : Nat) (row : List Nat) (positions : Option (List (Option Nat))) :
    Prop where
  hit : ∀ p k, row[p]? = some k → (SiteOutput.new positions ([] : List V)).destination k = .ok (some p)
  miss : ∀ k, k < capacity → k ∉ row →
    (SiteOutput.new positions ([] : List V)).destination k = .ok none

/-- A sink part-way through its log: exactly the slots of `log` are in. -/
def filled (zero : V) (positions : Option (List (Option Nat))) (row : List Nat) (log : Log V) :
    SiteOutput V where
  positions := positions
  head := []
  values := row.map (valueAt zero log)
  written := row.map fun k => decide (k ∈ log.map (·.1))

theorem valueAt_append {zero : V} {log : Log V} {k j : Nat} {v : V}
    (h : k ∉ log.map (·.1)) :
    valueAt zero (log ++ [(k, v)]) j = if j = k then v else valueAt zero log j := by
  unfold valueAt
  rw [List.lookup_append]
  by_cases hj : j = k
  · subst hj
    have hnone : log.lookup j = none := by
      rw [List.lookup_eq_none_iff]
      intro e he
      have : j ≠ e.1 := fun heq => h (List.mem_map.mpr ⟨e, he, heq.symm⟩)
      simpa using this
    simp [hnone]
  · have hbeq : (j == k) = false := by simpa using hj
    simp [List.lookup_cons, hbeq, hj]

theorem write_eq_ok {o : SiteOutput V} {p : Nat} {v : V} (hhead : o.head = [])
    (hw : o.written[p]? = some false) :
    o.write p v = .ok { o with written := o.written.set p true, values := o.values.set p v } := by
  unfold SiteOutput.write
  rw [hw, orElse_some, ok_bind, ensure_of rfl, ok_bind]
  simp only [hhead, List.length_nil, Nat.not_lt_zero, if_false, Nat.sub_zero]
  rfl

/-- One record call. -/
theorem record_filled {zero : V} {capacity : Nat} {positions : Option (List (Option Nat))}
    {row : List Nat} {log : Log V} {k : Nat} {v : V}
    (hroute : Routes (V := V) capacity row positions) (hnodup : row.Nodup) (hk : k < capacity)
    (hfresh : k ∉ log.map (·.1)) :
    (filled zero positions row log).record (k, v) =
      .ok (filled zero positions row (log ++ [(k, v)])) := by
  by_cases hmem : k ∈ row
  · -- A requested slot is written at its position, which no other slot of the row shares.
    obtain ⟨p, hp, hrow⟩ := List.mem_iff_getElem.mp hmem
    have hdest : (filled zero positions row log).destination k = .ok (some p) :=
      hroute.hit p k (by rw [List.getElem?_eq_getElem hp, hrow])
    have hother : ∀ i (hi : i < row.length), row[i] = k ↔ i = p := fun i hi => by
      rw [← hrow]; exact hnodup.getElem_inj_iff
    have hwrite : (filled zero positions row log).record (k, v) = .ok
        { filled zero positions row log with
          written := (filled zero positions row log).written.set p true
          values := (filled zero positions row log).values.set p v } := by
      unfold SiteOutput.record
      rw [hdest, ok_bind]
      refine write_eq_ok rfl ?_
      simp only [filled, List.getElem?_map, List.getElem?_eq_getElem hp, hrow, Option.map_some,
        decide_eq_false hfresh]
    have hvalues : (row.map (valueAt zero log)).set p v =
        row.map (valueAt zero (log ++ [(k, v)])) := by
      refine List.ext_getElem (by simp) fun i h1 h2 => ?_
      rw [List.length_map] at h2
      rw [List.getElem_set, List.getElem_map, List.getElem_map, valueAt_append hfresh]
      by_cases hip : p = i
      · rw [if_pos hip, if_pos ((hother i h2).mpr hip.symm)]
      · rw [if_neg hip, if_neg fun h => hip ((hother i h2).mp h).symm]
    have hwritten : (row.map fun k => decide (k ∈ log.map (·.1))).set p true =
        row.map fun j => decide (j ∈ (log ++ [(k, v)]).map (·.1)) := by
      refine List.ext_getElem (by simp) fun i h1 h2 => ?_
      rw [List.length_map] at h2
      rw [List.getElem_set, List.getElem_map, List.getElem_map]
      have hkeys : row[i] ∈ (log ++ [(k, v)]).map (·.1) ↔ row[i] ∈ log.map (·.1) ∨ row[i] = k := by
        simp
      by_cases hip : p = i
      · rw [if_pos hip, decide_eq_true (hkeys.mpr (.inr ((hother i h2).mpr hip.symm)))]
      · rw [if_neg hip]
        refine decide_eq_decide.mpr (hkeys.trans (or_iff_left ?_)).symm
        exact fun h => hip ((hother i h2).mp h).symm
    rw [hwrite]
    simp only [filled, hvalues, hwritten]
  · -- An unrequested one is dropped, and changes the value of no position.
    have hdest : (filled zero positions row log).destination k = .ok none :=
      hroute.miss k hk hmem
    have hskip : (filled zero positions row log).record (k, v) =
        .ok (filled zero positions row log) := by
      unfold SiteOutput.record
      rw [hdest, ok_bind]
      rfl
    have hvalues : row.map (valueAt zero log) = row.map (valueAt zero (log ++ [(k, v)])) :=
      List.map_congr_left fun j hj => by
        have hne : j ≠ k := fun h => hmem (h ▸ hj)
        rw [valueAt_append hfresh, if_neg hne]
    have hwritten : (row.map fun j => decide (j ∈ log.map (·.1))) =
        row.map fun j => decide (j ∈ (log ++ [(k, v)]).map (·.1)) :=
      List.map_congr_left fun j hj => decide_eq_decide.mpr (by
        have hne : j ≠ k := fun h => hmem (h ▸ hj)
        simp [hne])
    rw [hskip]
    simp only [filled, hvalues, hwritten]

/-- **A sink whose row the log covers ends complete, holding the row's slots of the log.** -/
theorem recordAll_filled (zero : V) {capacity : Nat} {positions : Option (List (Option Nat))}
    {row : List Nat} (hroute : Routes (V := V) capacity row positions) (hnodup : row.Nodup) :
    ∀ (rest log : Log V), ((log ++ rest).map (·.1)).Nodup → (∀ e ∈ rest, e.1 < capacity) →
      (filled zero positions row log).recordAll rest =
        .ok (filled zero positions row (log ++ rest))
  | [], log, _, _ => by rw [List.append_nil]; rfl
  | (k, v) :: rest, log, hnd, hcap => by
    have hfresh : k ∉ log.map (·.1) := by
      rw [List.map_append, List.nodup_append'] at hnd
      intro hmem
      exact List.disjoint_left.mp hnd.2.2 hmem (List.mem_cons_self ..)
    have ih := recordAll_filled zero hroute hnodup rest (log ++ [(k, v)])
      (by rw [List.append_assoc]; exact hnd) (fun e he => hcap e (by simp [he]))
    unfold SiteOutput.recordAll at ih ⊢
    rw [List.foldlM_cons, record_filled hroute hnodup (hcap (k, v) (by simp)) hfresh, ok_bind, ih,
      List.append_assoc]
    rfl

/-- A fresh sink has seen the empty log. -/
theorem filled_nil (zero : V) (positions : Option (List (Option Nat))) (row : List Nat) :
    SiteOutput.new positions (List.replicate row.length zero) = filled zero positions row [] := by
  unfold SiteOutput.new SiteOutput.split filled
  congr 1
  · exact List.map_const'.symm
  · rw [List.length_replicate, List.length_nil, Nat.zero_add]
    simp

/-- A log that covers the row leaves no position unwritten. -/
theorem filled_complete {zero : V} {positions : Option (List (Option Nat))} {row : List Nat}
    {log : Log V} (h : ∀ k ∈ row, k ∈ log.map (·.1)) :
    (filled zero positions row log).Complete := by
  intro hmem
  obtain ⟨k, hk, hfalse⟩ := List.mem_map.mp hmem
  exact of_decide_eq_false hfalse (h k hk)

/-! ## Full traces -/

/-- Every record call of one site's permutation. -/
def siteLog (t : Nat) (rc : RoundConstants t) (input : List Fr) : Log Fr :=
  match siteWalk t rc input with
  | .ok (_, log) => log
  | .error _ => []

/-- One site's full trace: the value at each slot of its layout. -/
def fullTrace (t : Nat) (rc : RoundConstants t) (input : List Fr) (slot : Nat) : Fr :=
  valueAt 0 (siteLog t rc input) slot

/-- A sink with a row of its own, over a site: what the site's walk leaves in it. -/
theorem siteDone_filled {t : Nat} {rc : RoundConstants t} {input : List Fr} {row : List Nat}
    {positions : Option (List (Option Nat))} (ht : t ∈ poseidon2SupportedWidths)
    (hi : input.length = t) (hroute : Routes (V := Fr) (resultSlots t) row positions)
    (hnodup : row.Nodup) (hcap : ∀ k ∈ row, k < resultSlots t) :
    SiteDone t rc (input, SiteOutput.new positions (List.replicate row.length 0))
      (filled 0 positions row (siteLog t rc input)) := by
  obtain ⟨state, log, hwalk, hkeys, -⟩ := siteWalk_writes rc ht hi
  have hlog : siteLog t rc input = log := by unfold siteLog; rw [hwalk]
  refine ⟨state, log, hwalk, ?_, filled_complete fun k hk => ?_⟩
  · rw [filled_nil, hlog]
    exact recordAll_filled 0 hroute hnodup log []
      (hkeys.nodup_iff.mpr List.nodup_range) fun e he =>
        List.mem_range.mp (hkeys.mem_iff.mp (List.mem_map_of_mem he))
  · rw [hlog, hkeys.mem_iff]
    exact List.mem_range.mpr (hcap k hk)

/-! ## The request table -/

/-- A site's row of requested slots. -/
def rowOf (requests offsets : List Nat) (site : Nat) : List Nat :=
  slice requests (offsets.getD site 0) (offsets.getD (site + 1) 0)

/-- The compressed-row table is well formed: `sites + 1` row pointers from zero to the end, every
    row in range, strictly ascending and below the capacity. -/
structure RowsOk (sites capacity : Nat) (requests offsets : List Nat) : Prop where
  length : offsets.length = sites + 1
  first : offsets.getD 0 0 = 0
  last : offsets.getD sites 0 = requests.length
  range : ∀ site < sites, offsets.getD site 0 ≤ offsets.getD (site + 1) 0 ∧
    offsets.getD (site + 1) 0 ≤ requests.length
  ascending : ∀ site < sites, (rowOf requests offsets site).IsChain (· < ·)
  capacity : ∀ site < sites, ∀ k ∈ rowOf requests offsets site, k < capacity

theorem isChain_nodup {xs : List Nat} (h : xs.IsChain (· < ·)) : xs.Nodup :=
  (List.isChain_iff_pairwise.mp h).imp Nat.ne_of_lt

/-- In an ascending row the last slot bounds the rest. -/
theorem lt_of_getLast {xs : List Nat} (h : xs.IsChain (· < ·)) {c : Nat} :
    (∀ last ∈ xs.getLast?, last < c) ↔ ∀ k ∈ xs, k < c := by
  constructor
  · intro hlast k hk
    have hne : xs ≠ [] := List.ne_nil_of_mem hk
    have hle : k ≤ xs.getLast hne :=
      ((List.isChain_iff_pairwise.mp h).imp Nat.le_of_lt).rel_getLast hk
    have hlt := hlast (xs.getLast hne) (by rw [List.getLast?_eq_some_getLast hne]; rfl)
    omega
  · intro hall last hlast
    exact hall last (List.mem_of_getLast? hlast)

/-- A row's table, entry by entry: each requested slot's position, nothing elsewhere. -/
theorem foldl_set_getElem? {capacity : Nat} :
    ∀ (row : List Nat) (table : List (Option Nat)) (j : Nat), row.Nodup →
      (∀ k ∈ row, k < capacity) → table.length = capacity →
      (∀ k, k ∉ row → ((row.zipIdx j).foldl (fun table x => table.set x.1 (some x.2)) table)[k]? =
        table[k]?) ∧
      ∀ p k, row[p]? = some k →
        ((row.zipIdx j).foldl (fun table x => table.set x.1 (some x.2)) table)[k]? =
          some (some (j + p))
  | [], table, j, _, _, _ => by simp
  | x :: row, table, j, hnd, hcap, hlen => by
    rw [List.nodup_cons] at hnd
    obtain ⟨hmiss, hhit⟩ := foldl_set_getElem? row (table.set x (some j))
      (j + 1) hnd.2 (fun k hk => hcap k (by simp [hk])) (by rw [List.length_set, hlen])
    rw [List.zipIdx_cons, List.foldl_cons]
    -- A later entry of the row does not overwrite this one, since the row repeats nothing.
    refine ⟨fun k hk => ?_, fun p k hp => ?_⟩
    · rw [List.mem_cons, not_or] at hk
      rw [hmiss k hk.2, List.getElem?_set_ne (Ne.symm hk.1)]
    · cases p with
      | zero =>
        obtain rfl : x = k := by simpa using hp
        rw [hmiss x hnd.1, List.getElem?_set_self (by rw [hlen]; exact hcap x (by simp))]
        rfl
      | succ p =>
        rw [hhit p k (by simpa using hp)]
        congr 2
        omega

/-- A full row routes every slot to itself. -/
theorem routes_full {capacity : Nat} : Routes (V := V) capacity (List.range capacity) none := by
  refine ⟨fun p k h => ?_, fun k hk hmiss => absurd (List.mem_range.mpr hk) hmiss⟩
  obtain ⟨hp, rfl⟩ := List.getElem?_eq_some_iff.mp h
  rw [List.getElem_range]
  rfl

/-- A sparse row's table routes exactly its slots. -/
theorem routes_rowTable {capacity : Nat} {row : List Nat} (hnodup : row.Nodup)
    (hcap : ∀ k ∈ row, k < capacity) :
    Routes (V := V) capacity row (some (rowTable capacity row)) := by
  obtain ⟨hmiss, hhit⟩ := foldl_set_getElem? row (List.replicate capacity none) 0
    hnodup hcap List.length_replicate
  refine ⟨fun p k h => ?_, fun k hk hout => ?_⟩
  · have := hhit p k h
    rw [Nat.zero_add] at this
    show orElse _ (rowTable capacity row)[k]? = _
    unfold rowTable
    rw [this, orElse_some]
  · have := hmiss k hout
    show orElse _ (rowTable capacity row)[k]? = _
    unfold rowTable
    rw [this, List.getElem?_replicate, if_pos hk, orElse_some]

/-- An ascending row below the capacity, as long as the capacity, is every slot. -/
theorem eq_range_of_isChain {xs : List Nat} (h : xs.IsChain (· < ·))
    (hcap : ∀ k ∈ xs, k < xs.length) : xs = List.range xs.length := by
  have hperm : xs.Perm (List.range xs.length) :=
    (List.subperm_of_subset (isChain_nodup h) fun k hk =>
      List.mem_range.mpr (hcap k hk)).perm_of_length_le (by rw [List.length_range])
  exact hperm.eq_of_pairwise (fun a b _ _ hab hba => (Nat.lt_asymm hab hba).elim)
    (List.isChain_iff_pairwise.mp h) List.pairwise_lt_range

/-! ## The plan -/

/-- A site's entry in the plan stands for its row. -/
def Placed (capacity : Nat) (tables : List (List (Option Nat))) (entry : Option Nat)
    (row : List Nat) : Prop :=
  match entry with
  | none => row.length = capacity
  | some index => tables[index]? = some (rowTable capacity row)

/-- A plan under construction: every row seen has its table, and every site so far its entry. So a
    site whose row was seen before can take the table that is there. -/
structure PlanOk (capacity : Nat) (rows : List (List Nat)) (plan : PlanState) : Prop where
  shared : ∀ row index, plan.tableByRow.lookup row = some index →
    plan.tables[index]? = some (rowTable capacity row)
  placed : List.Forall₂ (Placed capacity plan.tables) plan.siteTables rows

/-- The three checks of one row. -/
def RowOk (capacity : Nat) (requests offsets : List Nat) (site : Nat) : Prop :=
  (offsets.getD site 0 ≤ offsets.getD (site + 1) 0 ∧
    offsets.getD (site + 1) 0 ≤ requests.length) ∧
  (rowOf requests offsets site).IsChain (· < ·) ∧
  ∀ k ∈ rowOf requests offsets site, k < capacity

theorem Placed.append {capacity : Nat} {tables : List (List (Option Nat))} {entry : Option Nat}
    {row : List Nat} (h : Placed capacity tables entry row) (more : List (List (Option Nat))) :
    Placed capacity (tables ++ more) entry row := by
  cases entry with
  | none => exact h
  | some index =>
    show (tables ++ more)[index]? = _
    rw [List.getElem?_append_left]
    · exact h
    · exact (List.getElem?_eq_some_iff.mp h).1

/-- One site joins the plan exactly when its row passes the checks. -/
theorem addSite_eq_ok {capacity : Nat} {requests offsets : List Nat} {rows : List (List Nat)}
    {plan : PlanState} {site : Nat} (hplan : PlanOk capacity rows plan)
    (hrow : RowOk capacity requests offsets site) :
    ∃ plan', RequestPlan.addSite capacity requests offsets plan site = .ok plan' ∧
      PlanOk capacity (rows ++ [rowOf requests offsets site]) plan' := by
  obtain ⟨hrange, hasc, hcap⟩ := hrow
  have hchecks : RequestPlan.addSite capacity requests offsets plan site =
      if (rowOf requests offsets site).length = capacity then
        .ok { plan with siteTables := plan.siteTables ++ [none] }
      else
        (plan.tableByRow.lookup (rowOf requests offsets site)).elim
          (.ok { tables := plan.tables ++ [rowTable capacity (rowOf requests offsets site)]
                 tableByRow := (rowOf requests offsets site, plan.tables.length) :: plan.tableByRow
                 siteTables := plan.siteTables ++ [some plan.tables.length] })
          fun index => .ok { plan with siteTables := plan.siteTables ++ [some index] } := by
    show (ensure (offsets.getD site 0 ≤ offsets.getD (site + 1) 0 ∧
        offsets.getD (site + 1) 0 ≤ requests.length) _ >>= fun _ =>
      ensure (((windows (rowOf requests offsets site)).all fun w => decide (w.1 < w.2)) = true) _
        >>= fun _ =>
      ensure (∀ last ∈ (rowOf requests offsets site).getLast?, last < capacity) _ >>= fun _ => _) = _
    rw [ensure_of hrange, ok_bind,
      ensure_of ((windows_all (r := fun a b : Nat => a < b) _).mpr hasc), ok_bind,
      ensure_of ((lt_of_getLast hasc).mpr hcap), ok_bind]
    unfold rowOf
    cases plan.tableByRow.lookup (slice requests (offsets.getD site 0) (offsets.getD (site + 1) 0))
      <;> rfl
  rw [hchecks]
  split
  · -- A full row needs no table.
    next hfull =>
    refine ⟨_, rfl, hplan.shared, ?_⟩
    exact List.rel_append hplan.placed (.cons hfull .nil)
  · cases hlook : plan.tableByRow.lookup (rowOf requests offsets site) with
    | some index =>
      refine ⟨_, rfl, hplan.shared, ?_⟩
      exact List.rel_append hplan.placed (.cons (hplan.shared _ _ hlook) .nil)
    | none =>
      have hnew : (plan.tables ++ [rowTable capacity (rowOf requests offsets site)])[
          plan.tables.length]? = some (rowTable capacity (rowOf requests offsets site)) := by
        rw [List.getElem?_append_right (Nat.le_refl _), Nat.sub_self]
        rfl
      refine ⟨_, rfl, fun row index h => ?_, ?_⟩
      · simp only [List.lookup_cons] at h
        split at h
        · next heq =>
          cases h
          rw [beq_iff_eq] at heq
          rw [heq]
          exact hnew
        · rw [List.getElem?_append_left (List.getElem?_eq_some_iff.mp (hplan.shared _ _ h)).1]
          exact hplan.shared _ _ h
      · exact List.rel_append (hplan.placed.imp fun _ _ h => h.append _) (.cons hnew .nil)

theorem addSite_error {capacity : Nat} {requests offsets : List Nat} {plan plan' : PlanState}
    {site : Nat} (h : RequestPlan.addSite capacity requests offsets plan site = .ok plan') :
    RowOk capacity requests offsets site := by
  unfold RequestPlan.addSite at h
  obtain ⟨h1, h⟩ := seq_eq_ok.mp h
  obtain ⟨h2, h⟩ := seq_eq_ok.mp h
  obtain ⟨h3, -⟩ := seq_eq_ok.mp h
  rw [ensure_eq_ok] at h1 h2 h3
  have hasc := (windows_all (r := fun a b : Nat => a < b) _).mp h2
  exact ⟨h1, hasc, (lt_of_getLast hasc).mp h3⟩

theorem addSites_eq_ok {capacity : Nat} {requests offsets : List Nat} :
    ∀ (sites : List Nat) {rows : List (List Nat)} {plan : PlanState}, PlanOk capacity rows plan →
      (∀ site ∈ sites, RowOk capacity requests offsets site) →
      ∃ plan', sites.foldlM (RequestPlan.addSite capacity requests offsets) plan = .ok plan' ∧
        PlanOk capacity (rows ++ sites.map (rowOf requests offsets)) plan'
  | [], rows, plan, hplan, _ => ⟨plan, rfl, by rw [List.map_nil, List.append_nil]; exact hplan⟩
  | site :: sites, rows, plan, hplan, hrows => by
    obtain ⟨plan1, h1, hplan1⟩ := addSite_eq_ok hplan (hrows site (by simp))
    obtain ⟨plan2, h2, hplan2⟩ := addSites_eq_ok sites hplan1
      fun s hs => hrows s (by simp [hs])
    refine ⟨plan2, by rw [List.foldlM_cons, h1, ok_bind, h2], ?_⟩
    rw [List.append_assoc] at hplan2
    exact hplan2

theorem addSites_rowOk {capacity : Nat} {requests offsets : List Nat} :
    ∀ {sites : List Nat} {plan plan' : PlanState},
      sites.foldlM (RequestPlan.addSite capacity requests offsets) plan = .ok plan' →
      ∀ site ∈ sites, RowOk capacity requests offsets site
  | [], _, _, _ => by simp
  | site :: sites, plan, plan', h => by
    rw [List.foldlM_cons, bind_eq_ok] at h
    obtain ⟨plan1, h1, h⟩ := h
    simpa using ⟨addSite_error h1, addSites_rowOk h⟩

/-- The plan is built exactly for the well-formed tables. -/
theorem requestPlan_new_eq_ok {sites capacity : Nat} {requests offsets : List Nat}
    (h : RowsOk sites capacity requests offsets) :
    ∃ plan, RequestPlan.new sites capacity requests offsets = .ok plan ∧ plan.offsets = offsets ∧
      List.Forall₂ (Placed capacity plan.tables) plan.siteTables
        ((List.range sites).map (rowOf requests offsets)) := by
  have hempty : PlanOk capacity [] { tables := [], tableByRow := [], siteTables := [] } :=
    ⟨fun _ _ h => by simp at h, .nil⟩
  obtain ⟨plan, hfold, hplan⟩ := addSites_eq_ok (List.range sites) hempty fun site hs => by
      rw [List.mem_range] at hs
      exact ⟨h.range site hs, h.ascending site hs, h.capacity site hs⟩
  refine ⟨⟨offsets, plan.tables, plan.siteTables⟩, ?_, rfl, hplan.placed⟩
  unfold RequestPlan.new
  rw [ensure_of h.length, ok_bind, ensure_of h.first, ok_bind, ensure_of h.last, ok_bind, hfold]
  rfl

theorem requestPlan_new_rowsOk {sites capacity : Nat} {requests offsets : List Nat}
    {plan : RequestPlan} (h : RequestPlan.new sites capacity requests offsets = .ok plan) :
    RowsOk sites capacity requests offsets := by
  unfold RequestPlan.new at h
  obtain ⟨h1, h⟩ := seq_eq_ok.mp h
  obtain ⟨h2, h⟩ := seq_eq_ok.mp h
  obtain ⟨h3, h⟩ := seq_eq_ok.mp h
  obtain ⟨plan', h4, -⟩ := bind_eq_ok.mp h
  rw [ensure_eq_ok] at h1 h2 h3
  have hrows := addSites_rowOk h4
  simp only [List.mem_range] at hrows
  exact ⟨h1, h2, h3, fun s hs => (hrows s hs).1, fun s hs => (hrows s hs).2.1,
    fun s hs => (hrows s hs).2.2⟩

/-- The plan's sinks, site by site: fresh, and routing the site's row. -/
theorem outputs_routed {sites capacity : Nat} {requests offsets : List Nat} {plan : RequestPlan}
    (zero : V) (h : RowsOk sites capacity requests offsets) (hoff : plan.offsets = offsets)
    (hplaced : List.Forall₂ (Placed capacity plan.tables) plan.siteTables
      ((List.range sites).map (rowOf requests offsets))) :
    List.Forall₂ (fun row o => ∃ positions, Routes (V := V) capacity row positions ∧
        o = SiteOutput.new positions (List.replicate row.length zero))
      ((List.range sites).map (rowOf requests offsets)) (plan.outputs zero) := by
  have hlen : plan.siteTables.length = sites := by
    rw [hplaced.length_eq, List.length_map, List.length_range]
  have hwin : (windows offsets).length = sites := by
    rw [windows_length, h.length, Nat.add_sub_cancel]
  rw [List.forall₂_iff_get] at hplaced ⊢
  refine ⟨by simp [RequestPlan.outputs, hoff, hlen, hwin], fun i hi hi' => ?_⟩
  have his : i < sites := by simpa using hi
  have hrow : ((List.range sites).map (rowOf requests offsets))[i] =
      rowOf requests offsets i := by simp
  have hentry := hplaced.2 i (by omega) hi
  simp only [List.get_eq_getElem, hrow] at hentry ⊢
  have hrowlen : (rowOf requests offsets i).length =
      offsets.getD (i + 1) 0 - offsets.getD i 0 := slice_length (h.range i his).2
  have hout : (plan.outputs zero)[i] =
      SiteOutput.new (plan.siteTables[i].map fun i => plan.tables.getD i [])
        (List.replicate (rowOf requests offsets i).length zero) := by
    have hwi := windows_getElem (d := 0) (i := i) (by rw [hwin]; exact his)
    simp only [RequestPlan.outputs, List.getElem_map, List.getElem_zip, hoff, hwi, hrowlen]
  refine ⟨_, ?_, hout⟩
  -- An ascending row repeats nothing, and without a table it is all of the trace.
  have hnodup := isChain_nodup (h.ascending i his)
  cases hcase : plan.siteTables[i] with
  | none =>
    rw [hcase] at hentry
    have hfull := eq_range_of_isChain (h.ascending i his) fun k hk => by
      rw [show (rowOf requests offsets i).length = capacity from hentry]
      exact h.capacity i his k hk
    rw [hfull, show (rowOf requests offsets i).length = capacity from hentry]
    exact routes_full
  | some index =>
    rw [hcase] at hentry
    have htable : plan.tables.getD index [] = rowTable capacity (rowOf requests offsets i) := by
      rw [List.getD_eq_getElem?_getD, show plan.tables[index]? = _ from hentry]
      rfl
    rw [Option.map_some, htable]
    exact routes_rowTable hnodup (h.capacity i his)

/-! ## Chunks -/

theorem chunkSize_pos (host : Host) {sites : Nat} (h : 0 < sites) : 0 < chunkSize host sites := by
  unfold chunkSize
  simp only []
  split
  · exact h
  · next hn =>
    have hle : min (max (sites / 4) 1) host.threads ≤ sites := by omega
    exact Nat.div_pos (by omega) (by omega)

theorem flatten_take {α : Type} {t : Nat} :
    ∀ (xss : List (List α)), (∀ xs ∈ xss, xs.length = t) → ∀ n,
      xss.flatten.take (n * t) = (xss.take n).flatten ∧
        xss.flatten.drop (n * t) = (xss.drop n).flatten
  | [], _, n => by simp
  | xs :: xss, h, 0 => by simp
  | xs :: xss, h, n + 1 => by
    have hx : xs.length = t := h xs (by simp)
    obtain ⟨h1, h2⟩ := flatten_take xss (fun ys hys => h ys (by simp [hys])) n
    have hcut : (n + 1) * t = xs.length + n * t := by rw [Nat.succ_mul, hx, Nat.add_comm]
    rw [List.flatten_cons, hcut, List.take_append, List.drop_append]
    simp [h1, h2]

/-- Any cut of a batch into chunks of whole permutations walks every site alone. -/
theorem walkChunks_eq_ok {t size : Nat} {rc : RoundConstants t} (ht : t ∈ poseidon2SupportedWidths)
    (hsize : 0 < size) :
    ∀ {fuel : Nat} {inputs : List (List Fr)} {outputs outputs' : List (SiteOutput Fr)},
      outputs.length ≤ fuel → inputs.length = outputs.length →
      (∀ input ∈ inputs, input.length = t) →
      List.Forall₂ (SiteDone t rc) (inputs.zip outputs) outputs' →
      walkChunks t rc size fuel inputs.flatten outputs = .ok outputs'
  | 0, inputs, outputs, outputs', hfuel, _, _, hdone => by
    have hnil : outputs = [] := List.length_eq_zero_iff.mp (by omega)
    subst hnil
    rw [List.zip_nil_right, List.forall₂_nil_left_iff] at hdone
    rw [hdone]
    rfl
  | fuel + 1, inputs, outputs, outputs', hfuel, hlen, hin, hdone => by
    unfold walkChunks
    split
    · next hnil =>
      subst hnil
      rw [List.zip_nil_right, List.forall₂_nil_left_iff] at hdone
      rw [hdone]
    · next hne =>
      have hpos : 0 < outputs.length := List.length_pos_of_ne_nil hne
      -- The chunk's sites are walked together and the rest by induction; a site sees neither.
      have hfirst : List.Forall₂ (SiteDone t rc) ((inputs.take size).zip (outputs.take size))
          (outputs'.take size) := by
        rw [List.zip, ← List.take_zipWith]
        exact List.forall₂_take size hdone
      have hrest : List.Forall₂ (SiteDone t rc) ((inputs.drop size).zip (outputs.drop size))
          (outputs'.drop size) := by
        rw [List.zip, ← List.drop_zipWith]
        exact List.forall₂_drop size hdone
      obtain ⟨htake, hdrop⟩ := flatten_take _ hin size
      rw [htake, hdrop, walk_eq_ok ht (by rw [List.length_take, List.length_take, hlen])
        (fun input h => hin input (List.mem_of_mem_take h)) hfirst]
      simp only [ok_bind]
      rw [walkChunks_eq_ok ht hsize (by rw [List.length_drop]; omega)
        (by rw [List.length_drop, List.length_drop, hlen])
        (fun input h => hin input (List.mem_of_mem_drop h)) hrest, ok_bind]
      show Except.ok (outputs'.take size ++ outputs'.drop size) = _
      rw [List.take_append_drop]

/-! ## The requested trace -/

/-- What a batch's requested trace is meant to be: site by site, the row's slots of the site's own
    full trace. -/
def requestedTrace (t : Nat) (rc : RoundConstants t) (inputs : List (List Fr))
    (requests offsets : List Nat) : List Fr :=
  (inputs.zipIdx.map fun (input, site) =>
    (rowOf requests offsets site).map (fullTrace t rc input)).flatten

/-- Every site of a batch of routed sinks is done by its own walk, and what the sinks then hold is
    the filtered traces. -/
theorem sitesDone {t : Nat} (rc : RoundConstants t) (ht : t ∈ poseidon2SupportedWidths) :
    ∀ (inputs : List (List Fr)) {rows : List (List Nat)} {outputs : List (SiteOutput Fr)},
      inputs.length = rows.length → (∀ input ∈ inputs, input.length = t) →
      (∀ row ∈ rows, row.Nodup ∧ ∀ k ∈ row, k < resultSlots t) →
      List.Forall₂ (fun row o => ∃ positions, Routes (V := Fr) (resultSlots t) row positions ∧
        o = SiteOutput.new positions (List.replicate row.length 0)) rows outputs →
      ∃ outputs', List.Forall₂ (SiteDone t rc) (inputs.zip outputs) outputs' ∧
        outputs'.map (·.values) =
          (inputs.zip rows).map fun (input, row) => row.map (fullTrace t rc input)
  | [], [], _, _, _, _, .nil => ⟨[], .nil, rfl⟩
  | input :: inputs, row :: rows, _ :: outputs, hlen, hin, hrows, .cons ⟨positions, hroute, ho⟩ hrest => by
    obtain ⟨outputs', hdone, hvalues⟩ := sitesDone rc ht inputs (by simpa using hlen)
      (fun i hi => hin i (by simp [hi])) (fun r hr => hrows r (by simp [hr])) hrest
    obtain ⟨hnodup, hcap⟩ := hrows row (by simp)
    subst ho
    exact ⟨filled 0 positions row (siteLog t rc input) :: outputs',
      .cons (siteDone_filled ht (hin input (by simp)) hroute hnodup hcap) hdone,
      by rw [List.map_cons, hvalues]; rfl⟩

theorem zipIdx_eq_zip_range {α : Type} (xs : List α) :
    xs.zipIdx = xs.zip (List.range xs.length) := by
  rw [List.zipIdx_eq_zip_range', List.range_eq_range']

theorem Host.load_eq_ok (host : Host) (w : Poseidon2Width) :
    host.load w.get = .ok ⟨w, host.constants w⟩ := by
  unfold Host.load
  rw [Poseidon2Width.new?_get]

/-- The plan's sinks are fresh, one a site; and filled each by its own site's walk they hold the
    requested trace. -/
theorem planned_sitesDone {t : Nat} (rc : RoundConstants t) (ht : t ∈ poseidon2SupportedWidths)
    {inputs : List (List Fr)} {requests offsets : List Nat} {plan : RequestPlan}
    (hin : ∀ input ∈ inputs, input.length = t)
    (hplan : RequestPlan.new inputs.length (resultSlots t) requests offsets = .ok plan) :
    (plan.outputs (0 : Fr)).length = inputs.length ∧ ∃ outputs',
      List.Forall₂ (SiteDone t rc) (inputs.zip (plan.outputs 0)) outputs' ∧
        outputs'.flatMap (·.values) = requestedTrace t rc inputs requests offsets := by
  have h := requestPlan_new_rowsOk hplan
  obtain ⟨plan', hplan', hoff, hplaced⟩ := requestPlan_new_eq_ok h
  obtain rfl : plan = plan' := Except.ok.inj (hplan.symm.trans hplan')
  have hrouted := outputs_routed (0 : Fr) h hoff hplaced
  obtain ⟨outputs', hdone, hvalues⟩ := sitesDone rc ht
    inputs (by rw [List.length_map, List.length_range]) hin (by
      intro row hrow
      obtain ⟨site, hs, rfl⟩ := List.mem_map.mp hrow
      rw [List.mem_range] at hs
      exact ⟨isChain_nodup (h.ascending site hs), h.capacity site hs⟩) hrouted
  refine ⟨by rw [← hrouted.length_eq, List.length_map, List.length_range], outputs', hdone, ?_⟩
  rw [List.flatMap_def, hvalues]
  unfold requestedTrace
  rw [zipIdx_eq_zip_range, List.zip_map_right, List.map_map]
  rfl

/-- **A sparse trace is the full trace, filtered**, for every table the plan accepts. -/
theorem plainTraceRequested_eq_ok (host : Host) (w : Poseidon2Width) {inputs : List (List Fr)}
    {requests offsets : List Nat} (hne : inputs ≠ []) (hin : ∀ input ∈ inputs, input.length = w.get)
    (h : RowsOk inputs.length (resultSlots w.get) requests offsets) :
    plainTraceRequested host w.get inputs.flatten requests offsets =
      .ok (requestedTrace w.get (host.constants w) inputs requests offsets) := by
  have hpos := w.pos
  have hsum : inputs.flatten.length = inputs.length * w.get := by
    rw [List.length_flatten, List.map_congr_left hin, List.map_const', List.sum_replicate,
      smul_eq_mul]
  have hinputs : 0 < inputs.length := List.length_pos_of_ne_nil hne
  have hwidth : checkWidth w.get inputs.flatten.length = .ok inputs.length := by
    unfold checkWidth
    rw [ensure_of w.supported, ok_bind, hsum, ensure_of ⟨Nat.mul_ne_zero (by omega) (by omega),
      Nat.mul_mod_left _ _⟩, ok_bind, Nat.mul_div_cancel _ hpos]
    rfl
  obtain ⟨plan, hplan, _, _⟩ := requestPlan_new_eq_ok h
  obtain ⟨hlen, outputs', hdone, hvalues⟩ :=
    planned_sitesDone (host.constants w) w.supported hin hplan
  have hwalk : plainWalk host w.get inputs.flatten (plan.outputs 0) = .ok outputs' := by
    unfold plainWalk
    rw [host.load_eq_ok, ok_bind]
    exact walkChunks_eq_ok w.supported (chunkSize_pos host (by rw [hlen]; exact hinputs))
      (Nat.le_refl _) hlen.symm hin hdone
  unfold plainTraceRequested
  rw [hwidth, ok_bind, hplan, ok_bind, hwalk, ok_bind, hvalues]
  rfl

end Poseidon2
end CircomMpc
