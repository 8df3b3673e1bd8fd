import CircomMpc.Program.WellEncoded

/-!
# The compressed-row tables of an accepted batch

`BatchOk` gives a batch's row pointers their shape. Here it is put to use: the rows are a partition
of the request list and of the destination list, request by request.

A row of a compressed-row table is the slice between two neighbouring offsets. Offsets that start at
zero, never fall and end at the table's length cut it into rows, so what is said row by row (one
row's requests ascend and are within the kind's results) is said of the whole table, and a result has
the destination that stands at its request's place.
-/

namespace CircomMpc

open Lib

variable {α : Type}

/-- The rows of a compressed-row table, joined, are the table. -/
theorem rows_flatten {xs : List α} {offsets : List Nat} {n : Nat} (hfirst : offsets.getD 0 0 = 0)
    (hlast : offsets.getD n 0 = xs.length)
    (hrange : ∀ i < n, offsets.getD i 0 ≤ offsets.getD (i + 1) 0) :
    ((List.range n).map fun i => slice xs (offsets.getD i 0) (offsets.getD (i + 1) 0)).flatten =
      xs := by
  have hjoin : ∀ k ≤ n, ((List.range k).map fun i =>
      slice xs (offsets.getD i 0) (offsets.getD (i + 1) 0)).flatten =
        slice xs 0 (offsets.getD k 0) := by
    intro k
    induction k with
    | zero => intro _; rw [hfirst]; simp [slice]
    | succ k ih =>
      intro hk
      rw [List.range_succ, List.map_append, List.flatten_append, ih (by omega)]
      simp only [List.map_cons, List.map_nil, List.flatten_cons, List.flatten_nil, List.append_nil]
      exact slice_append_slice (Nat.zero_le _) (hrange k (by omega))
  rw [hjoin n (Nat.le_refl n), hlast, slice_full]

/-- A chain of row pointers never decreases. -/
theorem isChain_getD {offsets : List Nat} (h : offsets.IsChain (· ≤ ·)) {i : Nat}
    (hi : i + 1 < offsets.length) : offsets.getD i 0 ≤ offsets.getD (i + 1) 0 := by
  rw [List.getD_eq_getElem?_getD, List.getD_eq_getElem?_getD, List.getElem?_eq_getElem hi,
    List.getElem?_eq_getElem (Nat.lt_of_succ_lt hi)]
  exact List.isChain_iff_getElem.mp h i hi

namespace ProgramParts

variable {p : ProgramParts} {batch : GadgetBatch}

theorem RoundOk.operands_length {round : RoundEntry} (h : p.RoundOk round) :
    (p.roundOperandsOf round).length = round.len := by
  rw [roundOperandsOf, slice_length h.operandRange, Nat.add_sub_cancel_left]

namespace BatchOk

theorem offset_first (h : p.BatchOk batch) : batch.resultOffsets.getD 0 0 = 0 := by
  have := h.offsets.first
  rw [List.head?_eq_getElem?] at this
  rw [List.getD_eq_getElem?_getD, this, Option.getD_some]

theorem offset_last (h : p.BatchOk batch) :
    batch.resultOffsets.getD batch.sites 0 = batch.resultRequests.length := by
  have hl := h.offsets.last
  rw [List.getLast?_eq_getElem?, h.offsets.length, Nat.add_sub_cancel] at hl
  rw [List.getD_eq_getElem?_getD, hl, Option.getD_some]

theorem row_le (h : p.BatchOk batch) {site : Nat} (hs : site < batch.sites) :
    (batch.row site).1 ≤ (batch.row site).2 :=
  isChain_getD h.offsets.ascending (by rw [h.offsets.length]; omega)

theorem row_targets (h : p.BatchOk batch) {site : Nat} (hs : site < batch.sites) :
    (batch.row site).2 ≤ batch.resultTargets.length := by
  rw [← h.targets]; exact h.rowRange site hs

theorem requests_flatten (h : p.BatchOk batch) :
    ((List.range batch.sites).map batch.requestsOf).flatten = batch.resultRequests :=
  rows_flatten h.offset_first h.offset_last fun _ hi => h.row_le hi

theorem targets_flatten (h : p.BatchOk batch) :
    ((List.range batch.sites).map batch.targetsOf).flatten = batch.resultTargets :=
  rows_flatten h.offset_first (h.offset_last.trans h.targets) fun _ hi => h.row_le hi

theorem row_lengths (h : p.BatchOk batch) {site : Nat} (hs : site < batch.sites) :
    (batch.requestsOf site).length = (batch.targetsOf site).length := by
  rw [GadgetBatch.requestsOf, GadgetBatch.targetsOf, slice_length (h.rowRange site hs),
    slice_length (h.row_targets hs)]

/-- Every request of a row is below the batch's capacity. -/
theorem request_lt (h : p.BatchOk batch) {site : Nat} (hs : site < batch.sites)
    {request : ResultSlot} (hr : request ∈ batch.requestsOf site) :
    request.index < batch.kind.capacity := by
  obtain ⟨i, hi, rfl⟩ := List.mem_iff_getElem.mp hr
  have hi' : i < (batch.targetsOf site).length := by rw [← h.row_lengths hs]; exact hi
  refine (h.requests site hs ((batch.requestsOf site)[i], (batch.targetsOf site)[i]) ?_).capacity
  rw [← List.getElem_zip (h := by simp [List.length_zip]; omega)]
  exact List.getElem_mem _

/-- Every destination is some row's, checked together with its request. -/
theorem target_ok (h : p.BatchOk batch) {target : ResultTarget}
    (ht : target ∈ batch.resultTargets) : ∃ request, p.RequestOk batch request target := by
  rw [← h.targets_flatten, List.mem_flatten] at ht
  obtain ⟨row, hrow, ht⟩ := ht
  obtain ⟨site, hs, rfl⟩ := List.mem_map.mp hrow
  rw [List.mem_range] at hs
  obtain ⟨i, hi, rfl⟩ := List.mem_iff_getElem.mp ht
  have hi' : i < (batch.requestsOf site).length := by rw [h.row_lengths hs]; exact hi
  refine ⟨(batch.requestsOf site)[i],
    h.requests site hs ((batch.requestsOf site)[i], (batch.targetsOf site)[i]) ?_⟩
  rw [← List.getElem_zip (h := by simp [List.length_zip]; omega)]
  exact List.getElem_mem _

end BatchOk

end ProgramParts

end CircomMpc
