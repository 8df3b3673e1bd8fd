import CircomMpc.Vm.Machine
import CircomMpc.Program.Rows
import CircomMpc.Gadgets.Poseidon2Requests

/-!
# Reading the rows of an accepted batch

Every row of an accepted batch is readable, so `selectRequests` returns one value per request — the
requested slots of each site's part of a flat trace.

The drivers hand over the traces of all sites in one list, `expected_results` slots a site. A row's
requests are below that number, so the slot of site `s` that a request names is at `s` times it plus
the request, and the destinations of the table are in the same order.
-/

namespace CircomMpc

open Lib

variable {α : Type}

/-! ## Indexing that cannot miss -/

theorem readAt_eq_ok {what : String} {xs : List α} {i : Nat} (h : i < xs.length) :
    readAt what xs i = .ok xs[i] := by
  unfold readAt
  rw [List.getElem?_eq_getElem h, orElse_some]

theorem readAt_getD {what : String} {xs : List α} {i : Nat} (d : α) (h : i < xs.length) :
    readAt what xs i = .ok (xs.getD i d) := by
  rw [readAt_eq_ok h, List.getD_eq_getElem?_getD, List.getElem?_eq_getElem h, Option.getD_some]

theorem writeSlot_eq_ok {bank : List α} {slot : Slot} {value : α}
    (h : slot.index < bank.length) :
    writeSlot bank slot value = .ok (bank.set slot.index value) :=
  if_pos h

theorem rangeOf_eq_ok {what : String} {xs : List α} {lo hi : Nat} (h : lo ≤ hi)
    (h' : hi ≤ xs.length) : rangeOf what xs lo hi = .ok (slice xs lo hi) :=
  if_pos ⟨h, h'⟩

/-! ## Rows -/

namespace ProgramParts

variable {p : ProgramParts} {batch : GadgetBatch}

theorem RoundOk.rangeOf_operands {round : RoundEntry} (h : p.RoundOk round) {what : String} :
    rangeOf what p.roundOperands round.operandStart (round.operandStart + round.len) =
      .ok (p.roundOperandsOf round) :=
  rangeOf_eq_ok (Nat.le_add_right _ _) h.operandRange

namespace BatchOk

theorem readOffset (h : p.BatchOk batch) {what : String} {site : Nat} (hs : site ≤ batch.sites) :
    readAt what batch.resultOffsets site = .ok (batch.resultOffsets.getD site 0) :=
  readAt_getD 0 (by rw [h.offsets.length]; omega)

theorem rangeOf_requests (h : p.BatchOk batch) {what : String} {site : Nat}
    (hs : site < batch.sites) :
    rangeOf what batch.resultRequests (batch.resultOffsets.getD site 0)
      (batch.resultOffsets.getD (site + 1) 0) = .ok (batch.requestsOf site) :=
  rangeOf_eq_ok (h.row_le hs) (h.rowRange site hs)

theorem rangeOf_targets (h : p.BatchOk batch) {what : String} {site : Nat}
    (hs : site < batch.sites) :
    rangeOf what batch.resultTargets (batch.resultOffsets.getD site 0)
      (batch.resultOffsets.getD (site + 1) 0) = .ok (batch.targetsOf site) :=
  rangeOf_eq_ok (h.row_le hs) (h.row_targets hs)

/-- The request table, as the Poseidon2 walk reads it, is well formed. -/
theorem rowsOk (h : p.BatchOk batch) :
    Poseidon2.RowsOk batch.sites batch.kind.capacity (batch.resultRequests.map (·.index))
      batch.resultOffsets where
  length := h.offsets.length
  first := h.offset_first
  last := by rw [List.length_map]; exact h.offset_last
  range site hs := ⟨h.row_le hs, by rw [List.length_map]; exact h.rowRange site hs⟩
  ascending site hs := by
    rw [Poseidon2.rowOf, slice_map]
    exact (List.isChain_map _).mpr (h.rowOrder site hs)
  capacity site hs k hk := by
    rw [Poseidon2.rowOf, slice_map] at hk
    obtain ⟨request, hr, rfl⟩ := List.mem_map.mp hk
    exact h.request_lt hs hr

end BatchOk

end ProgramParts

/-! ## Selecting requests -/

/-- What `selectRequests` picks: every row's slots of the site's own `capacity` values. -/
def selected (d : α) (full : List α) (batch : GadgetBatch) (capacity : Nat) : List α :=
  ((List.range batch.sites).map fun site =>
    (batch.requestsOf site).map fun r => full.getD (site * capacity + r.index) d).flatten

theorem selectSite_eq_ok (d : α) {full : List α} {p : ProgramParts} {batch : GadgetBatch}
    {site : Nat} (h : p.BatchOk batch) (hs : site < batch.sites)
    (hlen : full.length = batch.sites * batch.kind.capacity) :
    Vm.selectSite full batch batch.kind.capacity site =
      .ok ((batch.requestsOf site).map fun r =>
        full.getD (site * batch.kind.capacity + r.index) d) := by
  have hle : (site + 1) * batch.kind.capacity ≤ full.length := by
    rw [hlen]; exact Nat.mul_le_mul_right _ hs
  have hstep : site * batch.kind.capacity ≤ (site + 1) * batch.kind.capacity :=
    Nat.mul_le_mul_right _ (Nat.le_succ _)
  unfold Vm.selectSite
  rw [rangeOf_eq_ok hstep hle, ok_bind,
    h.readOffset (Nat.le_of_lt hs), ok_bind, h.readOffset hs, ok_bind, h.rangeOf_requests hs,
    ok_bind]
  refine mapM_eq_ok fun r hr => ?_
  have hcap := h.request_lt hs hr
  have hsite : (slice full (site * batch.kind.capacity)
      ((site + 1) * batch.kind.capacity)).length = batch.kind.capacity := by
    rw [slice_length hle, Nat.succ_mul, Nat.add_sub_cancel_left]
  rw [ensure_of hcap, ok_bind, readAt_getD d (by rw [hsite]; exact hcap)]
  congr 1
  simp only [slice, List.getD_eq_getElem?_getD]
  rw [List.getElem?_take_of_lt (by rw [Nat.succ_mul, Nat.add_sub_cancel_left]; exact hcap),
    List.getElem?_drop]

/-- A flat trace of the right length always has every requested slot. -/
theorem selectRequests_eq_ok (d : α) {full : List α} {p : ProgramParts} {batch : GadgetBatch}
    (h : p.BatchOk batch) (hlen : full.length = batch.sites * batch.kind.capacity) :
    Vm.selectRequests full batch = .ok (selected d full batch batch.kind.capacity) := by
  have hdiv : full.length / batch.sites = batch.kind.capacity := by
    rw [hlen, Nat.mul_div_cancel_left _ h.sites]
  unfold Vm.selectRequests
  rw [ensure_of h.sites, ok_bind, ensure_of (by rw [hlen, Nat.mul_mod_right]), ok_bind]
  simp only [hdiv]
  rw [mapM_eq_ok fun site hs => selectSite_eq_ok d h (List.mem_range.mp hs) hlen, ok_bind]
  rfl

end CircomMpc
