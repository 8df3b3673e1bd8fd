import CircomMpc.Frontend.Flat

/-!
# Inlining computes what the tree means

`Adds base flat signals gadgets`: from `base` on, inlining has bound exactly `signals`, with the values
the tree gives them, and cut exactly `gadgets` into sites, in some order. It composes, and every step
of inlining is one. An instance's place in the flat graph and the moment it is inlined are in the
inliner only; `Means` says that neither matters.

The signals are a list up to order, not a function of the address: where two assignments name one
signal both are there, and it is for a later file to say that under `AssignsOnce` none do. The
gadget instance, the leaf of the tree, is done here; the two kinds of template node that run an inner
instance are in `Frontend.Simulation`.
-/

namespace CircomMpc
namespace Frontend

open Lib CircomMpc.Graph

variable (host : Poseidon2.Host) (input : SignalIdx → Fr)

/-- Every port holds the value stored into it. -/
def PortsHold (flat : Flat) (ports : Ports) (values : Nat → Option Fr) : Prop :=
  ∀ s, Option.Rel (flat.Holds host input) (ports s) (values s)

/-- What inlining has added to `base`: the bindings of `signals`, by address and value and in some
    order, and the sites of `gadgets`. -/
structure Adds (base flat : Flat) (signals : List (SignalIdx × Fr)) (gadgets : List GadgetInstance) :
    Prop where
  sound : flat.Sound
  grows : base.Extends flat
  outputs : ∃ new, flat.outputs = base.outputs ++ new ∧
    (new.map fun o => (o.1, flat.eval host input o.2)).Perm signals
  sites : ∃ new, flat.gadgetSites = base.gadgetSites ++ new ∧ new.Perm (gadgets.map (·.site))

/-- An inliner does what an instance does, wherever and whenever it is inlined. -/
def Means (inline : Inliner) (inst : Behaviour) (gadgets : List GadgetInstance) : Prop :=
  ∀ (flat : Flat) (offset : Nat) (ports : Ports) (inputs : Nat → Option Fr) (ext : Extension),
    flat.Sound → PortsHold host input flat ports inputs → inst inputs = some ext →
      Returns (fun r => Adds host input flat r.2 (addressed offset ext.signals) gadgets ∧
        PortsHold host input r.2 r.1 ext.ports) (inline flat offset ports)

variable {host : Poseidon2.Host} {input : SignalIdx → Fr}

section Steps

variable {base flat flat' : Flat} {v : ValueId} {x : Fr}

theorem PortsHold.mono {ports : Ports} {values : Nat → Option Fr} (hsound : flat.Sound)
    (he : flat.Extends flat') (h : PortsHold host input flat ports values) :
    PortsHold host input flat' ports values := by
  intro s
  have hs := h s
  generalize ports s = port at hs
  generalize values s = value at hs
  cases hs with
  | some hv => exact .some (hv.mono hsound he)
  | none => exact .none

theorem PortsHold.empty : PortsHold host input flat (fun _ => none) fun _ => none :=
  fun _ => .none

theorem PortsHold.insert {ports : Ports} {values : Nat → Option Fr}
    (h : PortsHold host input flat ports values) (hv : flat.Holds host input v x) (s : Nat) :
    PortsHold host input flat (Function.update ports s (some v))
      (Function.update values s (some x)) := by
  intro t
  by_cases ht : t = s
  · subst ht
    rw [Function.update_self, Function.update_self]
    exact .some hv
  · rw [Function.update_of_ne ht, Function.update_of_ne ht]
    exact h t

theorem PortsHold.get {ports : Ports} {values : Nat → Option Fr} {s : Nat}
    (h : PortsHold host input flat ports values) (hs : values s = some x) :
    ∃ v, ports s = some v ∧ flat.Holds host input v x := by
  have hrel := h s
  rw [hs] at hrel
  cases hport : ports s with
  | none =>
    rw [hport] at hrel
    cases hrel
  | some v =>
    rw [hport] at hrel
    cases hrel with
    | some hv => exact ⟨v, rfl, hv⟩

theorem Adds.refl (h : flat.Sound) : Adds host input flat flat [] [] :=
  ⟨h, .refl flat, ⟨[], (List.append_nil _).symm, .nil⟩, ⟨[], (List.append_nil _).symm, .nil⟩⟩

/-- **What is added adds up.** -/
theorem Adds.trans {s s' : List (SignalIdx × Fr)} {g g' : List GadgetInstance}
    (h : Adds host input base flat s g) (h' : Adds host input flat flat' s' g') :
    Adds host input base flat' (s ++ s') (g ++ g') := by
  refine ⟨h'.sound, h.grows.trans h'.grows, ?_, ?_⟩
  · obtain ⟨new, hnew, hperm⟩ := h.outputs
    obtain ⟨new', hnew', hperm'⟩ := h'.outputs
    refine ⟨new ++ new', by rw [hnew', hnew, List.append_assoc], ?_⟩
    rw [List.map_append]
    refine List.Perm.append ?_ hperm'
    -- The earlier bindings keep their values, because the graph only grew.
    have hsame : (new.map fun o => (o.1, flat'.eval host input o.2)) =
        new.map fun o => (o.1, flat.eval host input o.2) := by
      apply List.map_congr_left
      intro o ho
      rw [h.sound.eval_mono h'.grows (h.sound.outputs o (by rw [hnew]; simp [ho]))]
    rw [hsame]
    exact hperm
  · obtain ⟨new, hnew, hperm⟩ := h.sites
    obtain ⟨new', hnew', hperm'⟩ := h'.sites
    refine ⟨new ++ new', by rw [hnew', hnew, List.append_assoc], ?_⟩
    rw [List.map_append]
    exact hperm.append hperm'

theorem Adds.perm {s s' : List (SignalIdx × Fr)} {g g' : List GadgetInstance}
    (h : Adds host input base flat s g) (hs : s.Perm s') (hg : g.Perm g') :
    Adds host input base flat s' g' := by
  obtain ⟨new, hnew, hperm⟩ := h.outputs
  obtain ⟨new', hnew', hperm'⟩ := h.sites
  exact ⟨h.sound, h.grows, ⟨new, hnew, hperm.trans hs⟩, ⟨new', hnew', hperm'.trans (hg.map _)⟩⟩

/-- A binding. -/
theorem Adds.bind (h : flat.Sound) (hv : flat.Holds host input v x) (signal : SignalIdx) :
    Adds host input flat (flat.bind signal v) [(signal, x)] [] := by
  refine ⟨h.bind hv.plain.lt, .bind flat signal v, ⟨[(signal, v)], rfl, ?_⟩,
    ⟨[], (List.append_nil _).symm, .nil⟩⟩
  show [(signal, flat.eval host input v)].Perm [(signal, x)]
  rw [hv.value]

/-- A node that brings no site. -/
theorem Adds.push {node : Node} (h : flat.Sound) (hadmits : flat.Admits node []) :
    Adds host input flat { flat with nodes := flat.nodes ++ [node] } [] [] := by
  have hsound : Flat.Sound ⟨_, flat.outputs ++ [], _⟩ := h.grow hadmits (fun _ ho => nomatch ho)
  rw [List.append_nil, List.append_nil] at hsound
  exact ⟨hsound, ⟨List.prefix_append _ _, List.prefix_refl _⟩, ⟨[], (List.append_nil _).symm, .nil⟩,
    ⟨[], (List.append_nil _).symm, .nil⟩⟩

theorem Flat.push_eq_ok {op : Op} {inputs : List ValueId}
    (harity : ∀ arity ∈ op.fixedArity, inputs.length = arity) (flat : Flat) :
    flat.push op inputs =
      .ok (flat.nodes.length, { flat with nodes := flat.nodes ++ [⟨op, inputs⟩] }) := by
  unfold Flat.push Node.new
  rw [ensure_of harity]
  rfl

end Steps

/-! ## Gadgets -/

section Gadget

variable {site : GadgetInstance} {offset : Nat} {flat : Flat}

/-- The inputs of a site are bound in port order, behind its outputs. -/
theorem gadgetInputs_eq_ok {ports : Ports} {vals : Nat → ValueId} (n : Nat)
    (hports : ∀ k < n, ports (site.numOutputs + k) = some (vals k)) :
    (List.range n).foldlM (gadgetInput site offset ports) ([], flat) =
      .ok ((List.range n).map vals, ⟨flat.nodes, flat.outputs ++
        (List.range n).map (fun k => (offset + (site.numOutputs + k), vals k)),
        flat.gadgetSites⟩) := by
  have hstep : ∀ (k : Nat) (acc : List ValueId × Flat), k < n →
      gadgetInput site offset ports acc k =
        .ok (acc.1 ++ [vals k], acc.2.bind (offset + (site.numOutputs + k)) (vals k)) := by
    intro k acc hk
    simp only [gadgetInput, hports k hk, orElse_some, ok_bind]
    rfl
  have hloop : ∀ m ≤ n, (List.range m).foldlM (gadgetInput site offset ports) ([], flat) =
      .ok ((List.range m).map vals, ⟨flat.nodes, flat.outputs ++
        (List.range m).map (fun k => (offset + (site.numOutputs + k), vals k)),
        flat.gadgetSites⟩) := by
    intro m
    induction m with
    | zero =>
      intro _
      show Except.ok _ = Except.ok _
      simp
    | succ m ih =>
      intro hm
      rw [List.range_succ, List.foldlM_append, ih (Nat.le_of_succ_le hm), ok_bind, List.foldlM_cons,
        hstep m _ hm, ok_bind]
      show Except.ok _ = Except.ok _
      simp [Flat.bind]
  exact hloop n (Nat.le_refl n)

/-- A gadget node, and what it computes: slot by slot it has the values of `trace`, and beyond them
    zero. -/
structure Serves (host : Poseidon2.Host) (input : SignalIdx → Fr) (flat : Flat) (gadgetId : ValueId)
    (trace : List Fr) : Prop where
  node : ∃ id inputs, flat.nodes[gadgetId]? = some ⟨.gadget id, inputs⟩
  value : ∀ slot, value (evalRule (flat.interp host input)) flat.nodes gadgetId slot =
    trace.getD slot 0

theorem Serves.mono {flat' : Flat} {gadgetId : ValueId} {trace : List Fr} (hsound : flat.Sound)
    (he : flat.Extends flat') (h : Serves host input flat gadgetId trace) :
    Serves host input flat' gadgetId trace := by
  obtain ⟨id, inputs, hnode⟩ := h.node
  refine ⟨⟨id, inputs, Flat.getElem?_of_prefix he.nodes hnode⟩, fun slot => ?_⟩
  rw [hsound.value_mono he (List.getElem?_eq_some_iff.mp hnode).1, h.value slot]

/-- The signal of a result slot: an output, or an intermediate behind the inputs. -/
def GadgetInstance.slotSignal (site : GadgetInstance) (slot : Nat) : Nat :=
  if slot < site.numOutputs then slot
  else site.numOutputs + site.numInputs + (slot - site.numOutputs)

theorem gadgetResult_eq {gadgetId : ValueId} (acc : Ports × Flat) (slot : Nat) :
    gadgetResult site offset gadgetId acc slot = acc.2.push (.gadgetResult slot) [gadgetId] >>=
      fun r => pure (if slot < site.numOutputs then Function.update acc.1 slot (some r.1) else acc.1,
        r.2.bind (offset + site.slotSignal slot) r.1) := by
  unfold gadgetResult GadgetInstance.slotSignal
  congr 1
  funext r
  obtain ⟨resultId, flat⟩ := r
  dsimp only
  split
  · rfl
  · rw [Nat.add_assoc offset, Nat.add_assoc offset]

/-- The result loop behind `k` slots: they are bound, those of them that are outputs are ports, and no
    other slot of the gadget has a result yet. -/
structure Results (host : Poseidon2.Host) (input : SignalIdx → Fr) (site : GadgetInstance)
    (offset : Nat) (gadgetId : ValueId) (trace : List Fr) (base : Flat) (k : Nat)
    (acc : Ports × Flat) : Prop where
  adds : Adds host input base acc.2
    ((List.range k).map fun slot => (offset + site.slotSignal slot, trace.getD slot 0)) []
  ports : PortsHold host input acc.2 acc.1
    fun slot => if slot < site.numOutputs ∧ slot < k then some (trace.getD slot 0) else none
  fresh : ∀ (u slot : Nat), acc.2.nodes[u]? = some ⟨.gadgetResult slot, [gadgetId]⟩ → slot < k

/-- One more output port. -/
theorem PortsHold.slot {ports : Ports} {values : Nat → Fr} {m k : Nat} {v : ValueId}
    (h : PortsHold host input flat ports fun slot => if slot < m ∧ slot < k then some (values slot)
      else none) (hv : flat.Holds host input v (values k)) :
    PortsHold host input flat (if k < m then Function.update ports k (some v) else ports)
      fun slot => if slot < m ∧ slot < k + 1 then some (values slot) else none := by
  intro s
  have hs := h s
  dsimp only at hs ⊢
  by_cases heq : s = k
  · subst heq
    by_cases hslot : s < m
    · rw [if_pos hslot, Function.update_self, if_pos ⟨hslot, Nat.lt_succ_self s⟩]
      exact .some hv
    · rw [if_neg (fun h => hslot h.1)] at hs
      rw [if_neg hslot, if_neg (fun h => hslot h.1)]
      exact hs
  · have hiff : s < k + 1 ↔ s < k := by omega
    simp only [hiff]
    split
    · rw [Function.update_of_ne heq]
      exact hs
    · exact hs

theorem gadgetResult_returns {gadgetId : ValueId} {trace : List Fr} {base : Flat} {k : Nat}
    {acc : Ports × Flat} (hbase : base.Sound) (hserves : Serves host input base gadgetId trace)
    (h : Results host input site offset gadgetId trace base k acc) :
    Returns (Results host input site offset gadgetId trace base (k + 1))
      (gadgetResult site offset gadgetId acc k) := by
  obtain ⟨ports, flat⟩ := acc
  have hsound := h.adds.sound
  have hhere := hserves.mono hbase h.adds.grows
  obtain ⟨id, inputs, hnode⟩ := hhere.node
  -- The slot's result is admitted because the loop has not been at this slot before.
  have hadmits : flat.Admits ⟨.gadgetResult k, [gadgetId]⟩ [] :=
    .result hnode fun u hu => absurd (h.fresh u k hu) (Nat.lt_irrefl k)
  have hpush : Adds host input flat _ [] [] := Adds.push hsound hadmits
  rw [gadgetResult_eq, Flat.push_eq_ok (by intro arity hmem; cases hmem; rfl), ok_bind]
  generalize hnext : ({ flat with nodes := flat.nodes ++ [⟨.gadgetResult k, [gadgetId]⟩] } : Flat) =
    next at hpush
  -- The new node reads the gadget, whose value is the trace.
  have hholds : next.Holds host input flat.nodes.length (trace.getD k 0) := by
    subst hnext
    refine ⟨⟨⟨.gadgetResult k, [gadgetId]⟩, by simp, rfl⟩, ?_⟩
    show value (evalRule (flat.interp host input)) (flat.nodes ++ _) flat.nodes.length 0 = _
    rw [value_push]
    exact hhere.value k
  have hbind := Adds.bind hpush.sound hholds (offset + site.slotSignal k)
  refine ⟨?_, ?_, ?_⟩
  · rw [List.range_succ, List.map_append]
    have hadds := (h.adds.trans hpush).trans hbind
    rw [List.append_nil] at hadds
    exact hadds
  · exact ((h.ports.mono hsound hpush.grows).mono hpush.sound hbind.grows).slot
      (hholds.mono hpush.sound hbind.grows)
  · intro u slot hu
    have hmem : (⟨.gadgetResult slot, [gadgetId]⟩ : Node) ∈ next.nodes := List.mem_of_getElem? hu
    rw [← hnext] at hmem
    rcases List.mem_append.mp hmem with hold | hnew
    · obtain ⟨u', hu'⟩ := List.mem_iff_getElem?.mp hold
      exact Nat.lt_succ_of_lt (h.fresh u' slot hu')
    · cases List.mem_singleton.mp hnew
      exact Nat.lt_succ_self k

/-- The graph behind the node of a site that reads `vals`: the site's node, a binding of every input
    signal, and the site itself. -/
def GadgetInstance.cut (site : GadgetInstance) (offset : Nat) (vals : Nat → ValueId) (flat : Flat) :
    Flat where
  nodes := flat.nodes ++ [⟨.gadget flat.gadgetSites.length, (List.range site.numInputs).map vals⟩]
  outputs := flat.outputs ++
    (List.range site.numInputs).map fun k => (offset + (site.numOutputs + k), vals k)
  gadgetSites := flat.gadgetSites ++ [site.site]

section Cut

variable {vals : Nat → ValueId} {args : List Fr}

theorem cut_adds (hsite : site.Canonical) (hsound : flat.Sound)
    (hvals : ∀ k < site.numInputs, flat.Holds host input (vals k) (args.getD k 0)) :
    Adds host input flat (site.cut offset vals flat) ((List.range site.numInputs).map fun k =>
      (offset + (site.numOutputs + k), args.getD k 0)) [site] := by
  have hgrows : flat.Extends (site.cut offset vals flat) :=
    ⟨List.prefix_append _ _, List.prefix_append _ _⟩
  refine ⟨?_, hgrows, ⟨_, rfl, ?_⟩, ⟨[site.site], rfl, .refl _⟩⟩
  · refine hsound.grow (.gadget ?_ hsite.host ?_) ?_
    · rw [List.length_map, List.length_range]
      exact hsite.numInputs
    · intro v hv
      obtain ⟨k, hk, rfl⟩ := List.mem_map.mp hv
      exact (hvals k (List.mem_range.mp hk)).plain
    · intro o ho
      obtain ⟨k, hk, rfl⟩ := List.mem_map.mp ho
      exact Nat.le_of_lt (hvals k (List.mem_range.mp hk)).plain.lt
  · rw [List.map_map]
    apply List.Perm.of_eq
    apply List.map_congr_left
    intro k hk
    have hholds := (hvals k (List.mem_range.mp hk)).mono hsound hgrows
    show (_, (site.cut offset vals flat).eval host input (vals k)) = _
    rw [hholds.value]

theorem cut_serves (hsound : flat.Sound) (hlen : args.length = site.numInputs)
    (hvals : ∀ k < site.numInputs, flat.Holds host input (vals k) (args.getD k 0)) :
    Serves host input (site.cut offset vals flat) flat.nodes.length
      (site.kind.plainTrace host args) := by
  have hgrows : flat.Extends (site.cut offset vals flat) :=
    ⟨List.prefix_append _ _, List.prefix_append _ _⟩
  -- What the node reads is what the ports held before it was pushed.
  have hread : ((List.range site.numInputs).map vals).map (fun v =>
      value (evalRule ((site.cut offset vals flat).interp host input)) flat.nodes v 0) = args := by
    rw [List.map_map]
    apply List.ext_getElem (by rw [List.length_map, List.length_range, hlen])
    intro k hk hk'
    have hholds := hvals k (by rw [← hlen]; exact hk')
    have hvalue := (hholds.mono hsound hgrows).value
    unfold Flat.eval at hvalue
    rw [GadgetInstance.cut, value_append _ hholds.plain.lt, List.getD_eq_getElem _ _ hk'] at hvalue
    rw [List.getElem_map, List.getElem_range]
    exact hvalue
  refine ⟨⟨flat.gadgetSites.length, (List.range site.numInputs).map vals, ?_⟩, fun slot => ?_⟩
  · rw [GadgetInstance.cut, List.getElem?_append_right (Nat.le_refl _), Nat.sub_self]
    rfl
  · have hsite : (site.cut offset vals flat).gadgetSites[flat.gadgetSites.length]? =
        some site.site := by
      rw [GadgetInstance.cut, List.getElem?_append_right (Nat.le_refl _), Nat.sub_self]
      rfl
    show value (evalRule _) (flat.nodes ++ _) flat.nodes.length slot = _
    rw [value_push]
    have hargs : (((List.range site.numInputs).map vals).map (value (evalRule
        ((site.cut offset vals flat).interp host input)) flat.nodes)).map (· 0) = args := by
      rw [List.map_map]
      exact hread
    show Interp.trace _ _ (List.map _ (List.map _ _)) _ = _
    rw [hargs]
    unfold Flat.interp
    simp only [hsite]
    rfl

/-- Nobody reads a site before it is there. -/
theorem cut_fresh (hsound : flat.Sound) (u slot : Nat) :
    (site.cut offset vals flat).nodes[u]? ≠ some ⟨.gadgetResult slot, [flat.nodes.length]⟩ := by
  intro hu
  rcases List.mem_append.mp (List.mem_of_getElem? hu) with hold | hnew
  · obtain ⟨u', hu'⟩ := List.mem_iff_getElem?.mp hold
    have hback := hsound.ordered u' _ hu' flat.nodes.length (by simp)
    exact absurd (List.getElem?_eq_some_iff.mp hu').1 (Nat.lt_asymm hback)
  · cases List.mem_singleton.mp hnew

end Cut

/-- **A gadget instance is its site.** -/
theorem inlineGadget_means (hsite : site.Canonical) : Means host input (inlineGadget site)
    (fun inputs => (site.behaviour host inputs).map (·.below site.signalOffset)) [site] := by
  intro flat offset ports inputs ext hsound hports hext
  obtain ⟨ext', hbehaviour, rfl⟩ := Option.map_eq_some_iff.mp hext
  obtain ⟨hresults, args, hlen, hargs, rfl⟩ := GadgetInstance.behaviour_eq_some hbehaviour
  -- `GadgetInstance.behaviour` is defined, so every input port has a node; `vals` names them.
  let vals := fun k => (ports (site.numOutputs + k)).getD 0
  have hvals : ∀ k < site.numInputs, ports (site.numOutputs + k) = some (vals k) ∧
      flat.Holds host input (vals k) (args.getD k 0) := by
    intro k hk
    obtain ⟨v, hv, hholds⟩ := hports.get (hargs k hk)
    have hsame : vals k = v := by
      show (ports (site.numOutputs + k)).getD 0 = v
      rw [hv]
      rfl
    rw [hsame]
    exact ⟨hv, hholds⟩
  have hholds := fun k hk => (hvals k hk).2
  have hadds : Adds host input flat (site.cut (offset + site.signalOffset) vals flat) _ [site] :=
    cut_adds hsite hsound hholds
  have hserves : Serves host input (site.cut (offset + site.signalOffset) vals flat) _ _ :=
    cut_serves hsound hlen hholds
  -- `inline_gadget` is the cut, and behind it the loop over the result slots.
  have hrun : inlineGadget site flat offset ports =
      (List.range (site.numOutputs + site.numIntermediates)).foldlM
        (gadgetResult site (offset + site.signalOffset) flat.nodes.length)
        (fun _ => none, site.cut (offset + site.signalOffset) vals flat) := by
    unfold inlineGadget
    dsimp only
    rw [ensure_of hresults, ok_bind, gadgetInputs_eq_ok _ fun k hk => (hvals k hk).1, ok_bind]
    dsimp only
    rw [Flat.push_eq_ok (by intro arity hmem; cases hmem), ok_bind]
    rfl
  rw [hrun]
  -- Before the first slot nothing is bound and no result is there.
  have hstart : Results host input site (offset + site.signalOffset) flat.nodes.length
      (site.kind.plainTrace host args) (site.cut (offset + site.signalOffset) vals flat) 0
      (fun _ => none, site.cut (offset + site.signalOffset) vals flat) := by
    refine ⟨Adds.refl hadds.sound, fun s => ?_, fun u slot hu => absurd hu (cut_fresh hsound u slot)⟩
    dsimp only
    rw [if_neg (fun h => Nat.not_lt_zero s h.2)]
    exact .none
  -- `Results` is the loop's invariant; `gadgetResult_returns` is one turn of it.
  have hloop := Meets.foldlM_range (Results host input site (offset + site.signalOffset)
    flat.nodes.length (site.kind.plainTrace host args) (site.cut (offset + site.signalOffset) vals flat))
    (n := site.numOutputs + site.numIntermediates) hstart
    fun k _ acc hacc => gadgetResult_returns hadds.sound hserves hacc
  apply hloop.post
  intro r hr
  refine ⟨(hadds.trans hr.adds).perm (List.Perm.of_eq ?_) (.refl _), ?_⟩
  · -- The addresses: the instance's own offset added to the enclosing one, in either order.
    have hshift : ∀ s : Nat, offset + site.signalOffset + s = s + (offset + site.signalOffset) := by
      intro s
      omega
    rw [addressed_below, addressed_own]
    unfold shifted GadgetInstance.signals
    rw [List.map_append, List.map_map, List.map_map]
    congr 1
    · apply List.map_congr_left
      intro k _
      exact Prod.ext (hshift _) rfl
    · apply List.map_congr_left
      intro slot _
      exact Prod.ext (hshift _) rfl
  · -- Behind the last slot the ports are the outputs, whatever the loop's bound.
    have hsame : (fun slot => if slot < site.numOutputs ∧ slot < site.numOutputs +
        site.numIntermediates then some ((site.kind.plainTrace host args).getD slot 0) else none) =
          fun slot => if slot < site.numOutputs then
            some ((site.kind.plainTrace host args).getD slot 0) else none := by
      funext slot
      have hiff : (slot < site.numOutputs ∧ slot < site.numOutputs + site.numIntermediates) ↔
          slot < site.numOutputs := by omega
      simp only [hiff]
    have hports' := hr.ports
    rw [hsame] at hports'
    exact hports'

end Gadget

end Frontend
end CircomMpc
