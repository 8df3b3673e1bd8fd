import CircomMpc.Frontend.Inlined
import CircomMpc.Lib.Refines

/-!
# Inlining a template simulates executing it

The inliner and the execution of a template walk its nodes together. What differs is when an instance
is taken: the execution asks it for its outputs whenever they are read and for its signals at the end,
the inliner places it at the first read, or behind the body. `Simulates` keeps the two in step, an
instance whose outputs have been read being the one that is placed.

The execution refuses a store into an instance that has been read, and this is the only place where
that matters: the inputs an instance is placed with are those it has at the end. The instances are
abstract here, a `Part` being an inliner with a behaviour it means; `Frontend.Flatten` ties the knot.
-/

namespace CircomMpc
namespace Frontend

open Lib CircomMpc.Graph

/-- An instance of the template at hand: how it is inlined, what it does, and the gadgets in it. -/
structure Part where
  inline : Inliner
  behaviour : Behaviour
  gadgets : List GadgetInstance

namespace Part

variable (parts : List Part) (stores : List (Nat → Option Fr)) (offset : Nat)

/-- What an instance comes to, on what has been stored into it. -/
def extension (k : Nat) : Option Extension := do
  (← parts[k]?).behaviour (← stores[k]?)

def signalsOf (k : Nat) : List (SignalIdx × Fr) :=
  ((extension parts stores k).map fun ext => addressed offset ext.signals).getD []

def gadgetsOf (k : Nat) : List GadgetInstance :=
  (parts[k]?.map (·.gadgets)).getD []

variable {parts stores}

theorem extension_eq {k : Nat} {p : Part} {values : Nat → Option Fr} (hp : parts[k]? = some p)
    (hvalues : stores[k]? = some values) : extension parts stores k = p.behaviour values := by
  unfold extension
  rw [hp, hvalues]
  rfl

theorem signalsOf_eq {k : Nat} {ext : Extension} (h : extension parts stores k = some ext) :
    signalsOf parts stores offset k = addressed offset ext.signals := by
  unfold signalsOf
  rw [h]
  rfl

theorem gadgetsOf_eq {k : Nat} {p : Part} (h : parts[k]? = some p) : gadgetsOf parts k = p.gadgets := by
  unfold gadgetsOf
  rw [h]
  rfl

/-- A store into one instance leaves the others as they are. -/
theorem extension_set {k j : Nat} {values : Nat → Option Fr} (h : k ≠ j) :
    extension parts (stores.set k values) j = extension parts stores j := by
  unfold extension
  rw [List.getElem?_set_ne h]

end Part

variable (host : Poseidon2.Host) (input : SignalIdx → Fr)

/-- What a template reads where it has written nothing: its ports, or for main the circuit's inputs. -/
def Reads (flat : Flat) (isRoot : Bool) (inputMapping : Ports) (reads : Nat → Option Fr) : Prop :=
  match isRoot with
  | true => reads = fun signal => some (input signal)
  | false => PortsHold host input flat inputMapping reads

/-- The nodes the template's own values went to. -/
def Known (flat : Flat) (remap : List (Option ValueId)) (values : List (Option Fr)) : Prop :=
  ∀ (v : ValueId) (x : Fr), values[v]? = some (some x) →
    ∃ u, remap[v]? = some (some u) ∧ flat.Holds host input u x

/-- The inliner, and the execution it is a picture of: what has been added to the graph is what the
    body has bound itself and the signals of the instances read so far. -/
structure Simulates (parts : List Part) (base : Flat) (offset : Nat) (isRoot : Bool) (w : Inlining)
    (e : Execution) : Prop where
  adds : Adds host input base w.flat
    (shifted offset e.signals ++ e.read.flatMap (Part.signalsOf parts e.stores offset))
    (e.read.flatMap (Part.gadgetsOf parts))
  known : Known host input w.flat w.localRemap e.values
  writes : PortsHold host input w.flat w.localWrites e.writes
  ports : isRoot = false → w.portOutputs = w.localWrites
  stores : List.Forall₂ (PortsHold host input w.flat) w.subCmpInputs e.stores
  length_stores : e.stores.length = parts.length
  length_subGraphs : w.subGraphs.length = parts.length
  distinct : e.read.Nodup
  /-- An instance that has been read has been placed. -/
  placed : ∀ k ∈ e.read, ∃ ext outs, Part.extension parts e.stores k = some ext ∧
    w.subGraphs[k]? = some none ∧ w.alreadyInlined k = some outs ∧
      PortsHold host input w.flat outs ext.ports
  /-- The others are still to be inlined. -/
  waiting : ∀ (k : Nat) (p : Part), k ∉ e.read → parts[k]? = some p →
    w.subGraphs[k]? = some (some p.inline) ∧ w.alreadyInlined k = none

variable {host : Poseidon2.Host} {input : SignalIdx → Fr}

section Known

variable {flat flat' : Flat} {remap : List (Option ValueId)} {values : List (Option Fr)}
  {u : ValueId} {x : Fr}

theorem Known.mono (hsound : flat.Sound) (he : flat.Extends flat')
    (h : Known host input flat remap values) : Known host input flat' remap values := by
  intro v x hv
  obtain ⟨u, hu, hholds⟩ := h v x hv
  exact ⟨u, hu, hholds.mono hsound he⟩

theorem Known.resolve (h : Known host input flat remap values) (hlt : values.length < remap.length)
    (hu : flat.Holds host input u x) :
    Known host input flat (remap.set values.length (some u)) (values ++ [some x]) := by
  intro v y hv
  rcases Nat.lt_trichotomy v values.length with hvlt | rfl | hgt
  · rw [List.getElem?_append_left hvlt] at hv
    rw [List.getElem?_set_ne (Nat.ne_of_gt hvlt)]
    exact h v y hv
  · rw [List.getElem?_append_right (Nat.le_refl _), Nat.sub_self] at hv
    cases hv
    rw [List.getElem?_set_self hlt]
    exact ⟨u, rfl, hu⟩
  · rw [List.getElem?_eq_none (by rw [List.length_append]; exact hgt)] at hv
    cases hv

/-- A node that is no value. -/
theorem Known.sink (h : Known host input flat remap values) :
    Known host input flat remap (values ++ [none]) := by
  intro v y hv
  rcases Nat.lt_or_ge v values.length with hlt | hge
  · rw [List.getElem?_append_left hlt] at hv
    exact h v y hv
  · rw [List.getElem?_append_right hge, List.getElem?_singleton] at hv
    split at hv <;> cases hv

end Known

theorem stores_mono {flat flat' : Flat} {ports : List Ports} {values : List (Nat → Option Fr)}
    (hsound : flat.Sound) (he : flat.Extends flat')
    (h : List.Forall₂ (PortsHold host input flat) ports values) :
    List.Forall₂ (PortsHold host input flat') ports values :=
  h.imp fun _ _ hports => hports.mono hsound he

section Steps

variable {parts : List Part} {base : Flat} {offset : Nat} {isRoot : Bool} {w : Inlining}
  {e : Execution} {u : ValueId} {x : Fr}

namespace Simulates

theorem sound (h : Simulates host input parts base offset isRoot w e) : w.flat.Sound := h.adds.sound

theorem read_lt (h : Simulates host input parts base offset isRoot w e) :
    ∀ k ∈ e.read, k < parts.length := by
  intro k hk
  obtain ⟨_, _, _, hnone, _⟩ := h.placed k hk
  rw [← h.length_subGraphs]
  exact (List.getElem?_eq_some_iff.mp hnone).1

/-- Bindings, and nodes without a site. -/
theorem grow {flat : Flat} (h : Simulates host input parts base offset isRoot w e)
    (new : List (SignalIdx × Fr)) (hadds : Adds host input w.flat flat (shifted offset new) []) :
    Simulates host input parts base offset isRoot { w with flat }
      { e with signals := e.signals ++ new } := by
  have hsound := h.sound
  have hgrows := hadds.grows
  refine { h with
    adds := (h.adds.trans hadds).perm ?_ (by rw [List.append_nil])
    known := h.known.mono hsound hgrows
    writes := h.writes.mono hsound hgrows
    stores := stores_mono hsound hgrows h.stores
    placed := ?_ }
  · show ((shifted offset e.signals ++ _) ++ shifted offset new).Perm
      (shifted offset (e.signals ++ new) ++ _)
    have hsplit : shifted offset (e.signals ++ new) =
        shifted offset e.signals ++ shifted offset new := List.map_append
    rw [hsplit, List.append_assoc, List.append_assoc]
    exact List.Perm.append_left _ List.perm_append_comm
  · intro k hk
    obtain ⟨ext, outs, hext, hnone, houts, hports⟩ := h.placed k hk
    exact ⟨ext, outs, hext, hnone, houts, hports.mono hsound hgrows⟩

/-- A node that stands for one of the graph. -/
theorem resolve (h : Simulates host input parts base offset isRoot w e)
    (hlt : e.values.length < w.localRemap.length) (hu : w.flat.Holds host input u x) :
    Simulates host input parts base offset isRoot (w.resolve e.values.length u)
      (e.produce (some x)) :=
  { h with known := h.known.resolve hlt hu }

theorem sink (h : Simulates host input parts base offset isRoot w e) :
    Simulates host input parts base offset isRoot w (e.produce none) :=
  { h with known := h.known.sink }

theorem write (h : Simulates host input parts base offset isRoot w e)
    (hu : w.flat.Holds host input u x) (signal : Nat) :
    Simulates host input parts base offset isRoot
      { w with
        localWrites := Function.update w.localWrites signal (some u)
        portOutputs := if isRoot then w.portOutputs
          else Function.update w.portOutputs signal (some u) }
      { e with writes := Function.update e.writes signal (some x) } :=
  { h with
    writes := h.writes.insert hu signal
    ports := by
      rintro rfl
      show Function.update w.portOutputs signal (some u) = _
      rw [h.ports rfl] }

/-- A store, into an instance nobody has read. -/
theorem store {k : Nat} {ports : Ports} {values : Nat → Option Fr}
    (h : Simulates host input parts base offset isRoot w e) (hk : k ∉ e.read)
    (hports : PortsHold host input w.flat ports values) :
    Simulates host input parts base offset isRoot
      { w with subCmpInputs := w.subCmpInputs.set k ports }
      { e with stores := e.stores.set k values } := by
  have hne : ∀ j ∈ e.read, k ≠ j := by
    rintro j hj rfl
    exact hk hj
  refine { h with
    adds := ?_
    stores := forall₂_set h.stores hports k
    length_stores := by rw [List.length_set]; exact h.length_stores
    placed := ?_ }
  · have hsame : e.read.flatMap (Part.signalsOf parts (e.stores.set k values) offset) =
        e.read.flatMap (Part.signalsOf parts e.stores offset) := by
      apply List.flatMap_congr
      intro j hj
      unfold Part.signalsOf
      rw [Part.extension_set (hne j hj)]
    show Adds host input base w.flat (_ ++ e.read.flatMap (Part.signalsOf parts (e.stores.set k values)
      offset)) _
    rw [hsame]
    exact h.adds
  · intro j hj
    rw [Part.extension_set (hne j hj)]
    exact h.placed j hj

end Simulates

/-- What an instance's outputs are read from: it is placed now, or has been. -/
theorem outputsOf_returns {k : Nat} {p : Part} {values : Nat → Option Fr} {ext : Extension}
    (hmeans : Means host input p.inline p.behaviour p.gadgets)
    (h : Simulates host input parts base offset isRoot w e) (hp : parts[k]? = some p)
    (hvalues : e.stores[k]? = some values) (hext : p.behaviour values = some ext) :
    Returns (fun r => Simulates host input parts base offset isRoot r.2
        { e with read := if k ∈ e.read then e.read else e.read ++ [k] } ∧
      PortsHold host input r.2.flat r.1 ext.ports ∧ r.2.localRemap = w.localRemap)
      (w.outputsOf offset k) := by
  have hextension := (Part.extension_eq hp hvalues).trans hext
  unfold Inlining.outputsOf
  by_cases hk : k ∈ e.read
  · -- Read before: the ports kept from then are those of the same extension, since nothing was
    -- stored in between.
    obtain ⟨ext', outs, hext', _, houts, hports⟩ := h.placed k hk
    rw [hextension] at hext'
    cases hext'
    rw [houts, if_pos hk]
    exact ⟨h, hports, rfl⟩
  · -- The first read: the instance is inlined here, on what has been stored so far.
    obtain ⟨hsub, hnone⟩ := h.waiting k p hk hp
    obtain ⟨ports, hports, hholds⟩ := forall₂_getElem? h.stores hvalues
    rw [hnone, if_neg hk]
    dsimp only
    rw [index_eq_ok.mpr hsub, ok_bind, orElse_some, ok_bind, index_eq_ok.mpr hports, ok_bind]
    apply Meets.bind (hmeans w.flat offset ports values ext h.sound hholds hext)
    rintro ⟨outs, flat⟩ ⟨hadds, houts⟩
    have hlt : k < w.subGraphs.length := (List.getElem?_eq_some_iff.mp hsub).1
    refine ⟨{ h with
      adds := (h.adds.trans hadds).perm ?_ ?_
      known := h.known.mono h.sound hadds.grows
      writes := h.writes.mono h.sound hadds.grows
      stores := stores_mono h.sound hadds.grows h.stores
      length_subGraphs := by rw [List.length_set]; exact h.length_subGraphs
      distinct := ?_
      placed := ?_
      waiting := ?_ }, houts, rfl⟩
    · rw [List.flatMap_append, List.flatMap_singleton, Part.signalsOf_eq offset hextension,
        List.append_assoc]
    · rw [List.flatMap_append, List.flatMap_singleton, Part.gadgetsOf_eq hp]
    · exact List.nodup_append.mpr ⟨h.distinct, List.nodup_singleton k, by
        rintro j hj _ hmem rfl
        cases List.mem_singleton.mp hmem
        exact hk hj⟩
    · -- It is the last of those placed; the others stay where they are.
      intro j hj
      by_cases heq : j = k
      · subst heq
        exact ⟨ext, outs, hextension, List.getElem?_set_self hlt, Function.update_self .., houts⟩
      · obtain ⟨ext', outs', hext', hnone', houts', hports'⟩ := h.placed j
          ((List.mem_append.mp hj).resolve_right fun hmem => heq (List.mem_singleton.mp hmem))
        exact ⟨ext', outs', hext', (List.getElem?_set_ne (Ne.symm heq)).trans hnone',
          (Function.update_of_ne heq _ _).trans houts', hports'.mono h.sound hadds.grows⟩
    · intro j q hj hq
      have hjk : j ≠ k := by
        rintro rfl
        exact hj (by simp)
      obtain ⟨hsub', hnone'⟩ := h.waiting j q (fun hmem => hj (by simp [hmem])) hq
      exact ⟨(List.getElem?_set_ne (Ne.symm hjk)).trans hsub',
        (Function.update_of_ne hjk _ _).trans hnone'⟩

/-! ## One node -/

theorem resolved_eq_ok (h : Known host input w.flat w.localRemap e.values) {v : ValueId}
    (hv : e.valueOf v = some x) : ∃ u, w.resolved v = .ok u ∧ w.flat.Holds host input u x := by
  obtain ⟨u, hu, hholds⟩ := h v x (Option.join_eq_some_iff.mp hv)
  exact ⟨u, remapped_eq_ok.mpr hu, hholds⟩

theorem mapM_resolved_eq_ok (h : Known host input w.flat w.localRemap e.values) {vs : List ValueId}
    {xs : List Fr} (hvs : List.Forall₂ (fun v x => e.valueOf v = some x) vs xs) :
    ∃ us, vs.mapM w.resolved = .ok us ∧ List.Forall₂ (w.flat.Holds host input) us xs := by
  induction hvs with
  | nil => exact ⟨[], rfl, .nil⟩
  | cons hv _ ih =>
    obtain ⟨u, hu, hholds⟩ := resolved_eq_ok h hv
    obtain ⟨us, hus, hall⟩ := ih
    refine ⟨u :: us, ?_, .cons hholds hall⟩
    rw [List.mapM_cons, hu, ok_bind, hus, ok_bind]
    rfl

/-- A template's arithmetic is the graph's. -/
theorem arithmetic_eq_some {op : Op} {args : List Fr} (h : arithmetic input op args = some x) :
    op.isPure = true ∧ (∀ arity ∈ op.fixedArity, args.length = arity) ∧
      ∀ (I : Interp) (vals : List Value), I.input = input → vals.map (· 0) = args →
        evalRule I op vals 0 = x := by
  unfold arithmetic at h
  split at h
  case h_6 => cases h
  · cases h
    refine ⟨rfl, fun arity hmem => by cases hmem; rfl, ?_⟩
    rintro I vals rfl _
    rfl
  · cases h
    exact ⟨rfl, fun arity hmem => by cases hmem; rfl, fun _ _ _ _ => rfl⟩
  all_goals
    cases h
    refine ⟨rfl, fun arity hmem => by cases hmem; rfl, ?_⟩
    rintro I vals - hvals
    match vals, hvals with
    | [_, _], rfl => rfl

theorem push_returns {flat : Flat} {op : Op} {us : List ValueId} {args : List Fr}
    (hsound : flat.Sound) (hop : arithmetic input op args = some x)
    (hus : List.Forall₂ (flat.Holds host input) us args) :
    Returns (fun r => Adds host input flat r.2 [] [] ∧ r.2.Holds host input r.1 x)
      (flat.push op us) := by
  obtain ⟨hpure, harity, heval⟩ := arithmetic_eq_some hop
  have harity' : ∀ arity ∈ op.fixedArity, us.length = arity := by
    intro arity hmem
    rw [hus.length_eq]
    exact harity arity hmem
  have hplain : ∀ v ∈ us, flat.Plain v := by
    intro v hv
    obtain ⟨i, hi⟩ := List.mem_iff_getElem?.mp hv
    obtain ⟨x, _, hholds⟩ := forall₂_getElem? hus.flip hi
    exact hholds.plain
  rw [Flat.push_eq_ok harity']
  refine ⟨Adds.push hsound (.pure hpure harity' hplain), ⟨⟨⟨op, us⟩, by simp, ?_⟩, ?_⟩⟩
  · cases op <;> first | rfl | cases hpure
  · show value (evalRule (flat.interp host input)) (flat.nodes ++ _) flat.nodes.length 0 = x
    rw [value_push]
    apply heval _ _ rfl
    rw [List.map_map]
    clear heval harity hop harity' hplain
    induction hus with
    | nil => rfl
    | cons hv _ ih =>
      rw [List.map_cons, ih]
      congr 1
      exact hv.value

theorem readSignal_returns {inputMapping : Ports} {reads : Nat → Option Fr} {signal : Nat}
    (hreads : Reads host input w.flat isRoot inputMapping reads)
    (h : Simulates host input parts base offset isRoot w e)
    (hx : (e.writes signal).or (reads signal) = some x) :
    Returns (fun r => ∃ flat, r.2 = { w with flat } ∧ Adds host input w.flat flat [] [] ∧
      flat.Holds host input r.1 x) (w.readSignal isRoot inputMapping signal) := by
  unfold Inlining.readSignal
  have hrel := h.writes signal
  cases hwrite : w.localWrites signal with
  -- Written in the body: the node written.
  | some v =>
    rw [hwrite] at hrel
    cases hvalue : e.writes signal with
    | none =>
      rw [hvalue] at hrel
      cases hrel
    | some y =>
      rw [hvalue] at hrel hx
      cases hrel with
      | some hholds =>
        cases hx
        exact ⟨w.flat, rfl, .refl h.sound, hholds⟩
  | none =>
    rw [hwrite] at hrel
    cases hvalue : e.writes signal with
    | some y =>
      rw [hvalue] at hrel
      cases hrel
    | none =>
      rw [hvalue, Option.none_or] at hx
      cases isRoot with
      -- Main reads an input of the circuit, and a node is made of it.
      | true =>
        cases hreads
        have harith : arithmetic input (.input signal) [] = some x := hx
        apply Meets.bind (push_returns h.sound harith .nil)
        rintro ⟨v, flat⟩ ⟨hadds, hholds⟩
        exact ⟨flat, rfl, hadds, hholds⟩
      | false =>
        obtain ⟨v, hv, hholds⟩ := PortsHold.get hreads hx
        show Returns _ (orElse _ (inputMapping signal) >>= _)
        rw [hv]
        exact ⟨w.flat, rfl, .refl h.sound, hholds⟩

theorem step_length {instances : List Behaviour} {recorded : Bool} {reads : Nat → Option Fr}
    {node : TemplateNode} {e' : Execution}
    (h : e.step input instances recorded reads node = some e') :
    e'.values.length = e.values.length + 1 := by
  unfold Execution.step at h
  split at h
  · obtain ⟨_, _, h⟩ := Option.bind_eq_some_iff.mp h
    obtain ⟨_, _, h⟩ := Option.bind_eq_some_iff.mp h
    cases h
    exact List.length_append
  · obtain ⟨_, _, h⟩ := Option.bind_eq_some_iff.mp h
    cases h
    exact List.length_append
  · obtain ⟨_, _, h⟩ := Option.bind_eq_some_iff.mp h
    obtain ⟨_, _, h⟩ := Option.bind_eq_some_iff.mp h
    cases h
    exact List.length_append
  · obtain ⟨_, _, h⟩ := Option.bind_eq_some_iff.mp h
    obtain ⟨_, _, h⟩ := Option.bind_eq_some_iff.mp h
    obtain ⟨_, _, h⟩ := Option.bind_eq_some_iff.mp h
    obtain ⟨_, _, h⟩ := Option.bind_eq_some_iff.mp h
    cases h
    exact List.length_append
  · obtain ⟨_, _, h⟩ := Option.bind_eq_some_iff.mp h
    obtain ⟨_, _, h⟩ := Option.bind_eq_some_iff.mp h
    obtain ⟨_, _, h⟩ := Option.bind_eq_some_iff.mp h
    obtain ⟨_, _, h⟩ := Option.bind_eq_some_iff.mp h
    cases h
    exact List.length_append

/-- **One node of the template, inlined and executed.** -/
theorem visit_returns {inputMapping : Ports} {reads : Nat → Option Fr} {node : TemplateNode}
    {e' : Execution} (hmeans : ∀ p ∈ parts, Means host input p.inline p.behaviour p.gadgets)
    (hreads : Reads host input w.flat isRoot inputMapping reads)
    (h : Simulates host input parts base offset isRoot w e)
    (hlt : e.values.length < w.localRemap.length)
    (hstep : e.step input (parts.map (·.behaviour)) (!isRoot) reads node = some e') :
    Returns (fun w' => Simulates host input parts base offset isRoot w' e' ∧
        w'.localRemap.length = w.localRemap.length)
      (w.visit offset isRoot inputMapping node e.values.length) := by
  obtain ⟨op, inputs⟩ := node
  cases op with
  | real op =>
    obtain ⟨args, hargs, hstep⟩ := Option.bind_eq_some_iff.mp hstep
    obtain ⟨x, hx, hstep⟩ := Option.bind_eq_some_iff.mp hstep
    cases hstep
    obtain ⟨us, hus, hholds⟩ := mapM_resolved_eq_ok h.known (mapM_eq_some hargs)
    show Returns _ (inputs.mapM w.resolved >>= _)
    rw [hus, ok_bind]
    apply Meets.bind (push_returns h.sound hx hholds)
    rintro ⟨v, flat⟩ ⟨hadds, hv⟩
    have hgrown := h.grow [] hadds
    rw [List.append_nil] at hgrown
    exact ⟨hgrown.resolve hlt hv, List.length_set⟩
  | localSignal signal =>
    obtain ⟨x, hx, hstep⟩ := Option.bind_eq_some_iff.mp hstep
    cases hstep
    apply Meets.bind (readSignal_returns hreads h hx)
    rintro ⟨v, w'⟩ ⟨flat, hw', hadds, hv⟩
    cases hw'
    cases isRoot with
    | true =>
      have hgrown := h.grow [] hadds
      rw [List.append_nil] at hgrown
      exact ⟨hgrown.resolve hlt hv, List.length_set⟩
    | false =>
      -- a nested template's own signal is bound wherever it is read
      have hbind := Adds.bind hadds.sound hv (signal + offset)
      have hgrown := h.grow [(signal, x)] (hadds.trans hbind)
      exact ⟨hgrown.resolve hlt (hv.mono hadds.sound hbind.grows), List.length_set⟩
  | localSignalWrite signal =>
    obtain ⟨v, hv, hstep⟩ := Option.bind_eq_some_iff.mp hstep
    obtain ⟨x, hx, hstep⟩ := Option.bind_eq_some_iff.mp hstep
    cases hstep
    obtain ⟨u, hu, hholds⟩ := resolved_eq_ok h.known hx
    show Returns _ (index inputs 0 >>= fun v => w.resolved v >>= _)
    rw [index_eq_ok.mpr hv, ok_bind, hu, ok_bind]
    have hbind := Adds.bind h.sound hholds (signal + offset)
    have hgrown := h.grow [(signal, x)] hbind
    exact ⟨(hgrown.write (hholds.mono h.sound hbind.grows) signal).sink, rfl⟩
  | subCmpInput subCmp port =>
    obtain ⟨v, hv, hstep⟩ := Option.bind_eq_some_iff.mp hstep
    obtain ⟨x, hx, hstep⟩ := Option.bind_eq_some_iff.mp hstep
    obtain ⟨values, hvalues, hstep⟩ := Option.bind_eq_some_iff.mp hstep
    obtain ⟨_, hguard, hstep⟩ := Option.bind_eq_some_iff.mp hstep
    cases hstep
    obtain ⟨u, hu, hholds⟩ := resolved_eq_ok h.known hx
    obtain ⟨ports, hports, hrel⟩ := forall₂_getElem? h.stores hvalues
    show Returns _ (index inputs 0 >>= fun v => w.resolved v >>= fun value =>
      index w.subCmpInputs subCmp >>= _)
    rw [index_eq_ok.mpr hv, ok_bind, hu, ok_bind, index_eq_ok.mpr hports, ok_bind]
    -- The execution's guard: nobody has read the instance, so it is not placed.
    have hunread : subCmp ∉ e.read := by simpa using hguard
    exact ⟨(h.store hunread (hrel.insert hholds port)).sink, rfl⟩
  | subCmpOutput subCmp port =>
    obtain ⟨inst, hinst, hstep⟩ := Option.bind_eq_some_iff.mp hstep
    obtain ⟨values, hvalues, hstep⟩ := Option.bind_eq_some_iff.mp hstep
    obtain ⟨ext, hext, hstep⟩ := Option.bind_eq_some_iff.mp hstep
    obtain ⟨x, hx, hstep⟩ := Option.bind_eq_some_iff.mp hstep
    cases hstep
    rw [List.getElem?_map] at hinst
    obtain ⟨p, hp, rfl⟩ := Option.map_eq_some_iff.mp hinst
    apply Meets.bind (outputsOf_returns (hmeans p (List.mem_of_getElem? hp)) h hp hvalues hext)
    rintro ⟨outs, w'⟩ ⟨hsim, houts, hremap⟩
    obtain ⟨v, hv, hholds⟩ := houts.get hx
    dsimp only at hremap hv ⊢
    rw [hv, orElse_some, ok_bind, ← hremap]
    refine ⟨hsim.resolve ?_ hholds, List.length_set⟩
    rw [hremap]
    exact hlt

theorem Reads.mono {flat flat' : Flat} {inputMapping : Ports} {reads : Nat → Option Fr}
    (hsound : flat.Sound) (he : flat.Extends flat')
    (h : Reads host input flat isRoot inputMapping reads) :
    Reads host input flat' isRoot inputMapping reads := by
  cases isRoot with
  | true => exact h
  | false => exact PortsHold.mono hsound he h

/-- **The body, node by node.** -/
theorem nodes_returns {inputMapping : Ports} {reads : Nat → Option Fr} {nodes : List TemplateNode}
    {last : Execution} (hmeans : ∀ p ∈ parts, Means host input p.inline p.behaviour p.gadgets)
    (hbase : base.Sound) (hreads : Reads host input base isRoot inputMapping reads)
    (h : Simulates host input parts base offset isRoot w e)
    (hlength : e.values.length + nodes.length ≤ w.localRemap.length)
    (hrun : nodes.foldlM (Execution.step input (parts.map (·.behaviour)) (!isRoot) reads) e =
      some last) :
    Returns (fun w' => Simulates host input parts base offset isRoot w' last)
      ((nodes.zipIdx e.values.length).foldlM
        (fun w entry => w.visit offset isRoot inputMapping entry.1 entry.2) w) := by
  induction nodes generalizing w e with
  | nil =>
    cases hrun
    exact h
  | cons node nodes ih =>
    rw [List.foldlM_cons] at hrun
    obtain ⟨e', hstep, hrun⟩ := Option.bind_eq_some_iff.mp hrun
    rw [List.length_cons] at hlength
    have hlt : e.values.length < w.localRemap.length := by omega
    rw [List.zipIdx_cons, List.foldlM_cons]
    apply Meets.bind (visit_returns hmeans (hreads.mono hbase h.adds.grows) h hlt hstep)
    rintro w' ⟨hsim, hremap⟩
    -- Both walks count the nodes, the inliner by `zipIdx`, the execution by its values.
    rw [← step_length hstep]
    exact ih hsim (by rw [step_length hstep, hremap]; omega) hrun

end Steps

/-! ## The instances nobody has read -/

/-- What is left to do about an instance: nothing, or its signals and its gadgets. An instance is
    pending from its creation until one of its outputs is read, or else until the end. -/
inductive Residue (host : Poseidon2.Host) (input : SignalIdx → Fr) (offset : Nat) (flat : Flat) :
    Option Inliner × Ports → List (SignalIdx × Fr) × List GadgetInstance → Prop
  | done (ports : Ports) : Residue host input offset flat (none, ports) ([], [])
  | pending {p : Part} {ports : Ports} {values : Nat → Option Fr} {ext : Extension}
      (hmeans : Means host input p.inline p.behaviour p.gadgets)
      (hports : PortsHold host input flat ports values) (hext : p.behaviour values = some ext) :
      Residue host input offset flat (some p.inline, ports) (addressed offset ext.signals, p.gadgets)

theorem Residue.mono {offset : Nat} {flat flat' : Flat} {entry : Option Inliner × Ports}
    {rest : List (SignalIdx × Fr) × List GadgetInstance} (hsound : flat.Sound)
    (he : flat.Extends flat') (h : Residue host input offset flat entry rest) :
    Residue host input offset flat' entry rest := by
  cases h with
  | done ports => exact .done ports
  | pending hmeans hports hext => exact .pending hmeans (hports.mono hsound he) hext

theorem unread_returns {offset : Nat} {flat : Flat} {entries : List (Option Inliner × Ports)}
    {rests : List (List (SignalIdx × Fr) × List GadgetInstance)} (hsound : flat.Sound)
    (h : List.Forall₂ (Residue host input offset flat) entries rests) :
    Returns (fun flat' => Adds host input flat flat' (rests.flatMap Prod.fst)
      (rests.flatMap Prod.snd)) (entries.foldlM (inlineUnread offset) flat) := by
  induction entries generalizing flat rests with
  | nil =>
    cases h
    exact Adds.refl hsound
  | cons entry entries ih =>
    cases h with
    | @cons _ rest _ rests hentry hrests =>
      rw [List.foldlM_cons, List.flatMap_cons, List.flatMap_cons]
      have hone : Returns (fun flat' => Adds host input flat flat' rest.1 rest.2)
          (inlineUnread offset flat entry) := by
        cases hentry with
        | done => exact Adds.refl hsound
        | pending hmeans hports hext =>
          apply Meets.bind (hmeans flat offset _ _ _ hsound hports hext)
          rintro ⟨outs, flat'⟩ ⟨hadds, _⟩
          exact hadds
      apply Meets.bind hone
      intro flat' hadds
      apply (ih hadds.sound (hrests.imp fun _ _ hrest => hrest.mono hsound hadds.grows)).post
      intro flat'' hadds'
      exact hadds.trans hadds'

/-- Some of the first `n` now, the others later. -/
theorem flatMap_read_perm {α : Type} {read : List Nat} {n : Nat} (f : Nat → List α)
    (hdistinct : read.Nodup) (hlt : ∀ k ∈ read, k < n) :
    (read.flatMap f ++ (List.range n).flatMap fun k => if k ∈ read then [] else f k).Perm
      ((List.range n).flatMap f) := by
  have hrest : ((List.range n).flatMap fun k => if k ∈ read then [] else f k) =
      ((List.range n).filter fun k => k ∉ read).flatMap f := by
    induction List.range n with
    | nil => rfl
    | cons k ks ih =>
      rw [List.flatMap_cons, List.filter_cons, ih]
      by_cases hk : k ∈ read
      · simp [hk]
      · simp [hk]
  have hperm : (read ++ (List.range n).filter fun k => k ∉ read).Perm (List.range n) := by
    refine (List.perm_ext_iff_of_nodup ?_ List.nodup_range).mpr fun k => ?_
    · refine List.nodup_append.mpr ⟨hdistinct, List.nodup_range.filter _, ?_⟩
      rintro k hk _ hmem rfl
      simp [hk] at hmem
    · rw [List.mem_append, List.mem_filter, List.mem_range]
      constructor
      · rintro (hk | hk)
        · exact hlt k hk
        · exact hk.1
      · intro hk
        by_cases hread : k ∈ read
        · exact .inl hread
        · exact .inr ⟨hk, by simpa using hread⟩
  -- Those read and those left are all there are, and nothing is in both.
  rw [hrest, ← List.flatMap_append]
  exact hperm.flatMap_right f

end Frontend
end CircomMpc
