import CircomMpc.Passes.Classical

/-!
# Dead code

`dead_code`: drops every output binding that cannot reach the witness, then collects. Signals count
from one in `signal_to_witness`, whose entry zero is the constant `1`, so the mask is read one
position further on. A graph without a witness projection keeps its outputs.

The collection behind it is the graph's own `gc`, and what is said of it here is only that it is a
simplification; that it removes everything dead is `run_prunes`.
-/

namespace CircomMpc

open Lib CircomMpc.Graph

namespace DeadCode

/-- The witness mask: which signals the projection names. An index past the last signal is
    skipped. -/
def witnessMask (g : Graph) : List Bool :=
  g.signalToWitness.foldl (fun mask idx => mask.set idx true) (List.replicate g.numSignals false)

/-- The output pruning: a binding stays if its signal is in the mask. Without a projection there is
    no mask and nothing is pruned. -/
def prune (g : Graph) : Graph × Bool :=
  if g.signalToWitness.isEmpty then (g, false)
  else
    let mask := witnessMask g
    g.retainOutputs fun signal _ => mask.getD (signal + 1) false

/-- `dead_code::run`. -/
def run (g : Graph) : Except Panic (Graph × Bool) := do
  let (g, changed) := prune g
  let before := g.len
  let (g, _) ← g.gc
  pure (g, changed || g.len != before)

/-! ## What pruning keeps -/

theorem witnessMask_getD {g : Graph} {signal : Nat} (hmem : signal ∈ g.signalToWitness)
    (hlt : signal < g.numSignals) : (witnessMask g).getD signal false = true := by
  have hmask : ∀ (idxs : List Nat) (mask : List Bool), signal < mask.length →
      (signal ∈ idxs ∨ mask[signal]? = some true) →
      (idxs.foldl (fun mask idx => mask.set idx true) mask)[signal]? = some true := by
    intro idxs
    induction idxs with
    | nil =>
      intro mask _ h
      rcases h with h | h
      · cases h
      · exact h
    | cons idx idxs ih =>
      intro mask hlen h
      rw [List.foldl_cons]
      apply ih
      · rw [List.length_set]
        exact hlen
      · by_cases hidx : idx = signal
        · subst hidx
          exact .inr (List.getElem?_set_self hlen)
        · rw [List.getElem?_set_ne hidx]
          rcases h with h | h
          · rcases List.mem_cons.mp h with h | h
            · exact absurd h.symm hidx
            · exact .inl h
          · exact .inr h
  rw [List.getD_eq_getElem?_getD, witnessMask, hmask _ _ (by simpa using hlt) (.inl hmem)]
  rfl

/-- Pruning leaves the bindings of every signal the witness addresses, and of those it names no
    other than the circuit's. -/
theorem prune_refines {g : Graph} (hg : g.Frontend) : Refines g (prune g).1 := by
  unfold prune
  split
  · exact .refl hg
  · refine ⟨⟨hg.ordered, hg.frontend, hg.arity, hg.results, hg.unread, hg.sites, ?_, ?_⟩, rfl,
      fun _ => rfl,
      ?_⟩
    · intro o ho
      exact hg.outputs o (List.mem_filter.mp ho).1
    · intro o ho
      exact hg.signals o (List.mem_filter.mp ho).1
    · -- A binding that was dropped binds a signal the mask leaves out.
      intro I signal hsignal
      have hsame : (List.filter (fun o : SignalIdx × ValueId =>
            (witnessMask g).getD (o.1 + 1) false) g.outputs).filter (fun o => o.1 + 1 == signal) =
          g.outputs.filter fun o => o.1 + 1 == signal := by
        rw [List.filter_filter]
        apply List.filter_congr
        intro o ho
        by_cases hname : o.1 + 1 = signal
        · have hlt : o.1 + 1 < g.numSignals := hg.signals o ho
          have hmask := witnessMask_getD (g := g) (hname ▸ hsignal) hlt
          rw [hmask, Bool.and_true]
        · simp [hname]
      show Option.map _ (List.getLast? (List.filter _ (List.filter _ g.outputs))) = _
      rw [hsame]
      rfl

/-! ## The collection refines -/

theorem gc_refines {g : Graph} (hg : g.Frontend) : Returns (fun r => Refines g r.1) g.gc := by
  apply (gc_returns hg.ordered hg.outputs).post
  rintro ⟨g', remap⟩ hr
  have hgraph : g' = { g with nodes := g'.nodes, outputs := g'.outputs } := hr.graph
  have hplaced : ∀ I, Placed (evalRule I) g.nodes remap g'.nodes :=
    fun I => Placed.of_moved hg.ordered hr.ordered hr.entry
  have hnode : ∀ node' ∈ g'.nodes, ∃ node ∈ g.nodes, node'.op = node.op ∧
      Renamed remap node.inputs node'.inputs := by
    intro node' hmem
    obtain ⟨t, ht, hget⟩ := List.getElem_of_mem hmem
    obtain ⟨j, hj⟩ := hr.source t ht
    obtain ⟨node, inputs, hold, hnew, hren⟩ := hr.entry j t hj
    have heq : node' = ⟨node.op, inputs⟩ := by
      rw [List.getElem?_eq_getElem ht, hget] at hnew
      exact Option.some.inj hnew
    subst heq
    exact ⟨node, List.mem_of_getElem? hold, rfl, hren⟩
  refine ⟨⟨hr.ordered, ?_, ?_, ?_, ?_, ?_, ?_, ?_⟩, hgraph,
    fun I => calls_of_placed (hplaced I) hr.calls,
    fun I signal _ => binding_of_placed (hplaced I) hr.outputs signal⟩
  · intro node' hmem
    obtain ⟨node, hold, hop, _⟩ := hnode node' hmem
    rw [hop]
    exact hg.frontend node hold
  · intro node' hmem arity harity
    obtain ⟨node, hold, hop, hren⟩ := hnode node' hmem
    rw [hop] at harity
    rw [hren.length]
    exact hg.arity node hold arity harity
  · intro node' hmem slot hslot u hu
    obtain ⟨node, hold, hop, hren⟩ := hnode node' hmem
    obtain ⟨v, hv, hvu⟩ := hren.source hu
    obtain ⟨site, args, hgadget⟩ := hg.results node hold slot (hop ▸ hslot) v hv
    obtain ⟨node'', inputs, hget, hnew, _⟩ := hr.entry v u hvu
    rw [hgadget] at hget
    cases hget
    exact ⟨site, inputs, hnew⟩
  · intro node' hmem hplain u hu source hsource
    obtain ⟨node, hold, hop, hren⟩ := hnode node' hmem
    obtain ⟨v, hv, hvu⟩ := hren.source hu
    obtain ⟨origin, inputs, hget, hnew, _⟩ := hr.entry v u hvu
    rw [hsource] at hnew
    cases hnew
    have hscalar := hg.unread node hold (by rw [← hop]; exact hplain) v hv origin hget
    exact (invokes_moved origin inputs).trans hscalar
  · rw [sites_of_reinvoked hr.calls, show g'.gadgetSites = g.gadgetSites by rw [hgraph]]
    exact hg.sites
  · intro o ho
    obtain ⟨o', _, _, hren⟩ := rebound_source hr.outputs ho
    exact ((hplaced default).valid o'.2 o.2 hren).1
  · intro o ho
    obtain ⟨o', ho', hsignal, _⟩ := rebound_source hr.outputs ho
    rw [hsignal, show g'.numSignals = g.numSignals by rw [hgraph]]
    exact hg.signals o' ho'

/-- **Dead code elimination simplifies.** -/
theorem run_returns {g : Graph} (hg : g.Frontend) : Returns (fun r => Refines g r.1) (run g) := by
  have hpruned := prune_refines hg
  unfold run
  show Returns _ ((prune g).1.gc >>= fun r => pure (r.1, (prune g).2 || r.1.len != (prune g).1.len))
  apply Meets.bind (gc_refines hpruned.frontend)
  intro r hr
  exact hpruned.trans hr

end DeadCode
end CircomMpc
