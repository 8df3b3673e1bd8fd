import CircomMpc.Codegen.Walk

/-!
# The batches' tables

A batch's flat tables are put together a site at a time, so they are a list of rows laid end to end.
Read back that way, what a batch does is one write for every result that is left of every site: the
value of the result, into its home.
-/

namespace CircomMpc

open Lib CircomMpc.Graph

namespace Codegen

open GadgetSchedule

/-! ## Rows -/

/-- One site's inputs, and its requests with their destinations. -/
abbrev Row := List SiteInput × List (ResultSlot × ResultTarget)

/-- The batch's tables are these rows laid end to end, a row a site, with the offsets of the rows'
    results. -/
structure HasRows (batch : GadgetBatch) (rows : List Row) : Prop where
  sites : batch.sites = rows.length
  inputs : batch.inputSlots = rows.flatMap Prod.fst
  requests : batch.resultRequests = (rows.flatMap Prod.snd).map Prod.fst
  targets : batch.resultTargets = (rows.flatMap Prod.snd).map Prod.snd
  offsets : batch.resultOffsets =
    (List.range (rows.length + 1)).map fun k => ((rows.take k).flatMap Prod.snd).length

/-- The tables pushed so far are these rows. -/
structure Rows.Are (w : Rows) (rows : List Row) : Prop where
  inputs : w.inputSlots = rows.flatMap Prod.fst
  requests : w.requests = (rows.flatMap Prod.snd).map Prod.fst
  targets : w.targets = (rows.flatMap Prod.snd).map Prod.snd
  offsets : w.offsets =
    (List.range (rows.length + 1)).map fun k => ((rows.take k).flatMap Prod.snd).length

theorem Rows.are_start : Rows.start.Are [] := ⟨rfl, rfl, rfl, rfl⟩

theorem Rows.Are.push {w : Rows} {rows : List Row} (h : w.Are rows) (inputs : List SiteInput)
    (row : List (ResultSlot × ResultTarget)) : (w.push inputs row).Are (rows ++ [(inputs, row)]) := by
  refine ⟨?_, ?_, ?_, ?_⟩
  · show w.inputSlots ++ inputs = _
    rw [h.inputs, List.flatMap_append]
    simp
  · show w.requests ++ row.map Prod.fst = _
    rw [h.requests, List.flatMap_append, List.map_append]
    simp
  · show w.targets ++ row.map Prod.snd = _
    rw [h.targets, List.flatMap_append, List.map_append]
    simp
  · show w.offsets ++ [w.requests.length + row.length] = _
    rw [h.offsets, h.requests, List.length_append, List.length_singleton,
      List.range_succ (n := rows.length + 1), List.map_append]
    congr 1
    · apply List.map_congr_left
      intro k hk
      rw [List.mem_range] at hk
      rw [List.take_append_of_le_length (Nat.le_of_lt_succ hk)]
    · simp

namespace HasRows

variable {p : ProgramParts} {batch : GadgetBatch} {rows : List Row}

theorem offset (h : HasRows batch rows) {k : Nat} (hk : k ≤ rows.length) :
    batch.resultOffsets.getD k 0 = ((rows.take k).flatMap Prod.snd).length := by
  have hlt : k < rows.length + 1 := Nat.lt_succ_of_le hk
  rw [h.offsets, List.getD_eq_getElem?_getD, List.getElem?_map, List.getElem?_range hlt]
  rfl

theorem row (h : HasRows batch rows) {k : Nat} {row : Row} (hk : rows[k]? = some row) :
    batch.requestsOf k = row.2.map Prod.fst ∧ batch.targetsOf k = row.2.map Prod.snd := by
  have hlt := (List.getElem?_eq_some_iff.mp hk).1
  have hslice : slice (rows.flatMap Prod.snd) (batch.row k).1 (batch.row k).2 = row.2 := by
    show slice _ (batch.resultOffsets.getD k 0) (batch.resultOffsets.getD (k + 1) 0) = _
    rw [h.offset (Nat.le_of_lt hlt), h.offset hlt]
    exact slice_flatMap hk
  unfold GadgetBatch.requestsOf GadgetBatch.targetsOf
  rw [h.requests, h.targets, slice_map, slice_map, hslice]
  exact ⟨rfl, rfl⟩

/-- A site's inputs are its row's, where every row has as many as the kind reads. -/
theorem siteInputs (h : HasRows batch rows)
    (hwidth : ∀ row ∈ rows, row.1.length = batch.kind.inputsPerSite) (vm : VmState Unit Fr) {k : Nat}
    {row : Row} (hk : rows[k]? = some row) :
    Effect.siteInputs batch (Effect.batchInputs vm batch) k =
      row.1.map fun input => vm.read input.bank input.slot := by
  obtain ⟨hlt, hget⟩ := List.getElem?_eq_some_iff.mp hk
  have hpieces : ∀ piece ∈ rows.map Prod.fst, piece.length = batch.kind.inputsPerSite := by
    intro piece hpiece
    obtain ⟨row, hrow, rfl⟩ := List.mem_map.mp hpiece
    exact hwidth row hrow
  have hslice := slice_flatten [] hpieces (k := k) (by rw [List.length_map]; exact hlt)
  rw [List.append_nil, List.getElem_map, hget] at hslice
  unfold Effect.siteInputs Effect.batchInputs
  rw [slice_map, h.inputs, List.flatMap_def, Nat.mul_comm k, Nat.mul_comm (k + 1), hslice]

/-- What one row writes. -/
def writes (host : Poseidon2.Host) (kind : BatchKind) (vm : VmState Unit Fr) (row : Row) :
    List (ResultTarget × Fr) :=
  row.2.map fun r =>
    (r.2, (kind.plainTrace host (row.1.map fun input => vm.read input.bank input.slot)).getD r.1.index 0)

/-- **A batch writes its rows**, site after site. -/
theorem effect (h : HasRows batch rows) (hb : p.BatchOk batch)
    (hwidth : ∀ row ∈ rows, row.1.length = batch.kind.inputsPerSite)
    (hkind : batch.kind.isPrecomputed = false) (host : Poseidon2.Host) (vm : VmState Unit Fr) :
    Effect.batch host vm batch = vm.writeAll (rows.flatMap (writes host batch.kind vm)) := by
  have heffect : Effect.batch host vm batch = vm.writeAll (batch.resultTargets.zip
      (Effect.batchValues host batch (Effect.batchInputs vm batch))) := by
    unfold Effect.batch
    cases hk : batch.kind with
    | precomputedPoseidon2 t =>
      rw [hk] at hkind
      cases hkind
    | gadget kind => rfl
    | isZeroReveal => rfl
  rw [heffect]
  unfold Effect.batchValues
  rw [zip_rows hb, h.sites, ← range_flatMap rows]
  congr 1
  apply List.flatMap_congr
  intro k hk
  rw [List.mem_range] at hk
  have hrow : rows[k]? = some rows[k] := List.getElem?_eq_getElem hk
  obtain ⟨hrequests, htargets⟩ := h.row hrow
  rw [hrow, hrequests, htargets, Option.map_some, Option.getD_some, List.map_map]
  unfold writes Effect.siteValue
  rw [h.siteInputs hwidth vm hrow, List.zip_map', Function.comp_def]

/-- Every write goes to a slot there is. -/
theorem target (h : HasRows batch rows) (hb : p.BatchOk batch) {host : Poseidon2.Host}
    {kind : BatchKind} {vm : VmState Unit Fr} {w : ResultTarget × Fr}
    (hw : w ∈ rows.flatMap (writes host kind vm)) : w.1.bank ≠ .local ∧ p.SlotOk w.1.bank w.1.slot := by
  obtain ⟨row, hrow, hw⟩ := List.mem_flatMap.mp hw
  obtain ⟨r, hr, rfl⟩ := List.mem_map.mp hw
  have htarget : r.2 ∈ batch.resultTargets := by
    rw [h.targets]
    exact List.mem_map_of_mem (List.mem_flatMap.mpr ⟨row, hrow, hr⟩)
  obtain ⟨_, hrequest⟩ := hb.target_ok htarget
  exact ⟨hrequest.banked, hrequest.slot⟩

end HasRows

end Codegen
end CircomMpc
