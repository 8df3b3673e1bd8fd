import CircomMpc.Gadgets.Poseidon2Requests
import CircomMpc.Gadgets.Traces
import CircomMpc.Program.Inputs

/-!
# The host's entry point, and what both entry points compute

`plain_trace` is what a host calls to precompute the traces of a batch outside a run: every slot of
every site, split into outputs and intermediates, each written in place by a sink with two buffers.
Joining the two buffers gives the sink of a full row, so the walk fills both the same way.

`plainTraceRequested_filters` closes the account of the sparse entry point against it: a requested
trace is defined exactly for a well-formed compressed-row table, and is then the requested slots of
each site's own trace, as this entry point computes it for that site alone.
-/

namespace CircomMpc
namespace Poseidon2

open Lib

variable {V : Type}

/-! ## The entry point -/

/-- `empty_site_traces`. -/
def emptySiteTraces (zero : V) (t sites : Nat) : List (SiteTrace V) :=
  (List.range sites).map fun _ =>
    { output := List.replicate t zero, intermediate := List.replicate (resultSlots t - t) zero }

/-- `full_outputs`: a full-row sink per trace, over its two buffers. -/
def fullOutputs (traces : List (SiteTrace V)) : List (SiteOutput V) :=
  traces.map fun trace => SiteOutput.split none trace.output trace.intermediate

/-- An input's value, whatever its domain. -/
def inputValue : InputValue Fr → Fr
  | .public v => v
  | .secret v => v

/-- `plain_trace`. The sinks are the traces' own buffers, so what they hold at the end is the
    result. -/
def plainTrace (host : Host) (t : Nat) (states : List (InputValue Fr)) :
    Except RunError (List (SiteTrace Fr)) := do
  let states := states.map inputValue
  let sites ← checkWidth t states.length
  let outputs ← plainWalk host t states (fullOutputs (emptySiteTraces 0 t sites))
  pure (outputs.map fun o => { output := o.head, intermediate := o.values })

/-! ## Two buffers are one -/

namespace SiteOutput

/-- The sink over one buffer that holds both. -/
def join (o : SiteOutput V) : SiteOutput V :=
  { o with head := [], values := o.head ++ o.values }

/-- A write through two buffers is the write through the joined one, and moves no boundary. -/
theorem write_join {o joined : SiteOutput V} {d : Nat} {v : V} (h : o.join.write d v = .ok joined) :
    ∃ o', o.write d v = .ok o' ∧ o'.join = joined ∧ o'.head.length = o.head.length := by
  unfold write at h ⊢
  cases hw : o.written[d]? with
  | none =>
    rw [show o.join.written[d]? = none from hw] at h
    cases h
  | some w =>
    rw [show o.join.written[d]? = some w from hw, orElse_some, ok_bind] at h
    rw [orElse_some, ok_bind]
    cases w with
    | true => cases h
    | false =>
      rw [ensure_of rfl, ok_bind] at h ⊢
      by_cases hd : d < o.head.length
      · refine ⟨_, if_pos hd, ?_, List.length_set⟩
        cases h
        simp [join, List.set_append_left, hd]
      · refine ⟨_, if_neg hd, ?_, rfl⟩
        cases h
        simp [join, List.set_append_right, Nat.le_of_not_lt hd]

theorem record_join {o joined : SiteOutput V} {entry : Nat × V}
    (h : o.join.record entry = .ok joined) :
    ∃ o', o.record entry = .ok o' ∧ o'.join = joined ∧ o'.head.length = o.head.length := by
  unfold record at h ⊢
  obtain ⟨destination, hdestination, h⟩ := bind_eq_ok.mp h
  rw [show o.destination entry.1 = .ok destination from hdestination, ok_bind]
  cases destination with
  | none =>
    cases h
    exact ⟨o, rfl, rfl, rfl⟩
  | some d => exact write_join h

/-- Replaying a log through two buffers. -/
theorem recordAll_join : ∀ {log : Log V} {o joined : SiteOutput V},
    o.join.recordAll log = .ok joined →
      ∃ o', o.recordAll log = .ok o' ∧ o'.join = joined ∧ o'.head.length = o.head.length
  | [], o, joined, h => by
    cases h
    exact ⟨o, rfl, rfl, rfl⟩
  | entry :: log, o, joined, h => by
    unfold recordAll at h ⊢
    rw [List.foldlM_cons] at h
    obtain ⟨middle, hentry, hrest⟩ := bind_eq_ok.mp h
    obtain ⟨o1, h1, rfl, hlen1⟩ := record_join hentry
    obtain ⟨o2, h2, hjoin, hlen2⟩ := recordAll_join hrest
    refine ⟨o2, ?_, hjoin, hlen2.trans hlen1⟩
    rw [List.foldlM_cons, h1, ok_bind]
    exact h2

end SiteOutput

/-- What one site's two buffers end with: its full trace, cut at the width. -/
def siteTrace (t : Nat) (rc : RoundConstants t) (input : List Fr) : SiteTrace Fr where
  output := ((List.range (resultSlots t)).map (fullTrace t rc input)).take t
  intermediate := ((List.range (resultSlots t)).map (fullTrace t rc input)).drop t

/-- A site's trace has every slot of its layout. -/
theorem siteTrace_slots (t : Nat) (rc : RoundConstants t) (input : List Fr) :
    (siteTrace t rc input).slots = (List.range (resultSlots t)).map (fullTrace t rc input) :=
  List.take_append_drop _ _

theorem le_resultSlots {t : Nat} : t ≤ resultSlots t := by
  unfold resultSlots totalSignals
  simp only []
  omega

/-- A site's walk fills a trace's two buffers. -/
theorem siteDone_split {t : Nat} (rc : RoundConstants t) {input : List Fr}
    (ht : t ∈ poseidon2SupportedWidths) (hi : input.length = t) :
    ∃ o, SiteDone t rc (input, SiteOutput.split none (List.replicate t 0)
        (List.replicate (resultSlots t - t) 0)) o ∧
      o.head = (siteTrace t rc input).output ∧ o.values = (siteTrace t rc input).intermediate := by
  -- The joined sink is a full row's, which the site's walk is known to fill.
  have hfull : SiteDone t rc
      (input, SiteOutput.new none (List.replicate (List.range (resultSlots t)).length 0))
      (filled 0 none (List.range (resultSlots t)) (siteLog t rc input)) :=
    siteDone_filled ht hi routes_full List.nodup_range fun k hk => List.mem_range.mp hk
  obtain ⟨state, log, hwalk, hrecord, hcomplete⟩ := hfull
  have hbuffer : (SiteOutput.split none (List.replicate t (0 : Fr))
      (List.replicate (resultSlots t - t) 0)).join =
      SiteOutput.new none (List.replicate (List.range (resultSlots t)).length 0) := by
    unfold SiteOutput.join SiteOutput.new SiteOutput.split
    simp [Nat.add_sub_cancel' le_resultSlots]
  rw [← hbuffer] at hrecord
  -- Cut at the boundary again, each half has the slots of its own part.
  obtain ⟨o, ho, hjoin, hlen⟩ := SiteOutput.recordAll_join hrecord
  have hwritten : o.written = o.join.written := rfl
  have hvalues : o.head ++ o.values = (List.range (resultSlots t)).map (fullTrace t rc input) :=
    congrArg SiteOutput.values hjoin
  have hhead : o.head.length = t := hlen.trans List.length_replicate
  refine ⟨o, ⟨state, log, hwalk, ho, ?_⟩, ?_, ?_⟩
  · unfold SiteOutput.Complete
    rw [hwritten, hjoin]
    exact hcomplete
  · rw [siteTrace, ← hvalues, ← hhead, List.take_left]
  · rw [siteTrace, ← hvalues, ← hhead, List.drop_left]

/-- Every site of a batch of full sinks is done by its own walk. -/
theorem sitesDone_split {t : Nat} (rc : RoundConstants t) (ht : t ∈ poseidon2SupportedWidths) :
    ∀ (inputs : List (List Fr)), (∀ input ∈ inputs, input.length = t) →
      ∃ outputs', List.Forall₂ (SiteDone t rc)
          (inputs.zip (inputs.map fun _ => SiteOutput.split none (List.replicate t 0)
            (List.replicate (resultSlots t - t) 0))) outputs' ∧
        (outputs'.map fun o => ({ output := o.head, intermediate := o.values } : SiteTrace Fr)) =
          inputs.map (siteTrace t rc)
  | [], _ => ⟨[], .nil, rfl⟩
  | input :: inputs, hin => by
    obtain ⟨o, hdone, hhead, hvalues⟩ := siteDone_split rc ht (hin input (by simp))
    obtain ⟨outputs', hrest, htraces⟩ :=
      sitesDone_split rc ht inputs fun i hi => hin i (by simp [hi])
    refine ⟨o :: outputs', .cons hdone hrest, ?_⟩
    rw [List.map_cons, htraces, hhead, hvalues]
    rfl

/-- The number of elements of a batch of whole permutations. -/
theorem checkWidth_eq_ok (w : Poseidon2Width) {sites : Nat} (hsites : 0 < sites) {states : Nat}
    (hstates : states = sites * w.get) : checkWidth w.get states = .ok sites := by
  have hpos := w.pos
  unfold checkWidth
  rw [ensure_of w.supported, ok_bind, hstates, ensure_of ⟨Nat.mul_ne_zero (by omega) (by omega),
    Nat.mul_mod_left _ _⟩, ok_bind, Nat.mul_div_cancel _ hpos]
  rfl

/-- The sinks of fresh traces, one a site. -/
theorem fullOutputs_fresh {α : Type} (zero : V) (t : Nat) (inputs : List α) :
    fullOutputs (emptySiteTraces zero t inputs.length) = inputs.map fun _ =>
      SiteOutput.split none (List.replicate t zero) (List.replicate (resultSlots t - t) zero) := by
  unfold fullOutputs emptySiteTraces
  simp [List.map_const']

/-- **The host's traces are every site's own full trace.** -/
theorem plainTrace_eq_ok (host : Host) (w : Poseidon2Width) {states : List (InputValue Fr)}
    {sites : Nat} (hsites : 0 < sites) (hlen : states.length = sites * w.get) :
    plainTrace host w.get states =
      .ok ((chunksExact w.get (states.map inputValue)).map
        (siteTrace w.get (host.constants w))) := by
  have hlen' : (states.map inputValue).length = sites * w.get := by rw [List.length_map, hlen]
  obtain ⟨hflat, hwidth, hcount⟩ := flatten_chunksExact w.pos hlen'
  obtain ⟨outputs', hdone, htraces⟩ :=
    sitesDone_split (host.constants w) w.supported (chunksExact w.get (states.map inputValue)) hwidth
  have houtputs := fullOutputs_fresh (0 : Fr) w.get (chunksExact w.get (states.map inputValue))
  rw [hcount] at houtputs
  unfold plainTrace
  simp only []
  rw [checkWidth_eq_ok w hsites hlen', ok_bind, houtputs]
  unfold plainWalk
  rw [host.load_eq_ok, ok_bind]
  simp only []
  rw [List.length_map, hcount]
  have hwalk := walkChunks_eq_ok w.supported (chunkSize_pos host hsites) (Nat.le_refl _)
    (List.length_map _).symm hwidth hdone
  rw [hflat, List.length_map, hcount] at hwalk
  rw [hwalk, ok_bind, htraces]
  rfl

/-! ## What both entry points compute -/

/-- The requested slots of a batch of traces, site by site, in row order. -/
def filterRequests (requests offsets : List Nat) (traces : List (SiteTrace Fr)) : List Fr :=
  traces.zipIdx.flatMap fun p => (rowOf requests offsets p.2).map fun k => p.1.slots.getD k 0

/-- The requested trace of a batch is its sites' traces, filtered. -/
theorem requestedTrace_eq {t : Nat} {rc : RoundConstants t} {requests offsets : List Nat}
    {inputs : List (List Fr)} (h : RowsOk inputs.length (resultSlots t) requests offsets) :
    requestedTrace t rc inputs requests offsets =
      filterRequests requests offsets (inputs.map (siteTrace t rc)) := by
  unfold requestedTrace filterRequests
  rw [← List.flatMap_def, List.zipIdx_map, List.flatMap_map]
  apply List.flatMap_congr
  intro p hp
  obtain ⟨input, site⟩ := p
  have hsite : site < inputs.length :=
    (List.getElem?_eq_some_iff.mp (List.mem_zipIdx_iff_getElem?.mp hp)).1
  apply List.map_congr_left
  intro k hk
  have hk' : k < resultSlots t := h.capacity site hsite k hk
  show _ = (siteTrace t rc input).slots.getD k 0
  rw [siteTrace_slots, List.getD_eq_getElem?_getD, List.getElem?_map, List.getElem?_range hk']
  rfl

/-- A site alone: one chunk, one trace. -/
theorem plainTrace_single (host : Host) (w : Poseidon2Width) {input : List Fr}
    (hi : input.length = w.get) :
    plainTrace host w.get (input.map InputValue.public) =
      .ok [siteTrace w.get (host.constants w) input] := by
  have hvalues : (input.map InputValue.public).map inputValue = input := by
    rw [List.map_map]
    exact List.map_id input
  have hchunk : chunksExact w.get input = [input] := by
    have h : chunksExact w.get [input].flatten = [input] := by
      apply chunksExact_flatten w.pos
      intro xs hxs
      rw [List.mem_singleton.mp hxs]
      exact hi
    rwa [List.flatten_singleton] at h
  rw [plainTrace_eq_ok host w Nat.one_pos (by rw [List.length_map, hi, Nat.one_mul]), hvalues,
    hchunk]
  rfl

/-- A requested trace only ever comes out of a well-formed table. -/
theorem plainTraceRequested_rowsOk {host : Host} {w : Poseidon2Width} {states values : List Fr}
    {sites : Nat} {requests offsets : List Nat} (hsites : 0 < sites)
    (hlen : states.length = sites * w.get)
    (h : plainTraceRequested host w.get states requests offsets = .ok values) :
    RowsOk sites (resultSlots w.get) requests offsets := by
  unfold plainTraceRequested at h
  rw [checkWidth_eq_ok w hsites hlen, ok_bind] at h
  obtain ⟨plan, hplan, _⟩ := bind_eq_ok.mp h
  exact requestPlan_new_rowsOk hplan

/-- **A sparse trace is the sites' own full traces, filtered; and there is one exactly for the
    well-formed tables.** The traces are what `plain_trace` computes for each site alone, whatever
    the number of threads. -/
theorem plainTraceRequested_filters (host : Host) (w : Poseidon2Width) (sites : Nat)
    (states : List Fr) (hsites : 1 ≤ sites)
    (hstates : states.length = sites * w.get) :
    ∃ traces : List (SiteTrace Fr),
      List.Forall₂ (fun input trace => trace.slots.length = resultSlots w.get ∧
          ∀ threads, plainTrace { host with threads } w.get (input.map InputValue.public) =
            .ok [trace])
        (chunksExact w.get states) traces ∧
      ∀ (threads : Nat) (requests offsets : List Nat),
        ((∃ values, plainTraceRequested { host with threads } w.get states requests offsets =
            .ok values) ↔ RowsOk sites (resultSlots w.get) requests offsets) ∧
        (RowsOk sites (resultSlots w.get) requests offsets →
          plainTraceRequested { host with threads } w.get states requests offsets =
            .ok (filterRequests requests offsets traces)) := by
  obtain ⟨hflat, hwidth, hcount⟩ := flatten_chunksExact w.pos hstates
  have hne : chunksExact w.get states ≠ [] := by
    apply List.ne_nil_of_length_pos
    rw [hcount]
    exact hsites
  refine ⟨(chunksExact w.get states).map (siteTrace w.get (host.constants w)), ?_, ?_⟩
  · rw [List.forall₂_map_right_iff, List.forall₂_same]
    intro input hinput
    refine ⟨?_, fun threads => plainTrace_single _ w (hwidth input hinput)⟩
    rw [siteTrace_slots, List.length_map, List.length_range]
  · intro threads requests offsets
    have hfilter : RowsOk sites (resultSlots w.get) requests offsets →
        plainTraceRequested { host with threads } w.get states requests offsets =
          .ok (filterRequests requests offsets
            ((chunksExact w.get states).map (siteTrace w.get (host.constants w)))) := by
      intro hrows
      rw [← hcount] at hrows
      rw [← requestedTrace_eq hrows]
      have h := plainTraceRequested_eq_ok { host with threads } w hne hwidth hrows
      rw [hflat] at h
      exact h
    refine ⟨⟨?_, fun hrows => ⟨_, hfilter hrows⟩⟩, hfilter⟩
    intro hvalues
    obtain ⟨values, hvalues⟩ := hvalues
    exact plainTraceRequested_rowsOk hsites hstates hvalues

/-- Two sites of width two with rows of their own: slots `0` and `1` of the first, `5` of the
    second. -/
theorem plainTraceRequested_filters_pair : ∃ values,
    plainTraceRequested { (default : Host) with threads := 3 } 2 [1, 2, 3, 4] [0, 1, 5] [0, 2, 3] =
      .ok values := by
  obtain ⟨traces, _, hfilters⟩ := plainTraceRequested_filters default
    ⟨2, by decide⟩ 2 [1, 2, 3, 4] (by decide) rfl
  have hrows : RowsOk 2 (resultSlots 2) [0, 1, 5] [0, 2, 3] :=
    ⟨rfl, rfl, rfl, by decide, by decide, by decide⟩
  exact ⟨_, (hfilters 3 [0, 1, 5] [0, 2, 3]).2 hrows⟩

end Poseidon2
end CircomMpc
