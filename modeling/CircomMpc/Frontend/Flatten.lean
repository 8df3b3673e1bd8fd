import CircomMpc.Frontend.Create
import CircomMpc.Frontend.Frames
import CircomMpc.Frontend.Simulation

/-!
# Flattening a template tree keeps its meaning

From one template's body to the whole tree: by induction on the tree every instance's inliner means
the instance, and so main's flat graph binds every signal of the tree, at its place in main's
numbering, to the value the tree gives it.

The tree is a nested inductive, so its theorems come in threes (a template, an instance, a list of
instances), as the inliner's own functions do. What is left behind a body is a list over the
instances, nothing for those that were read and the whole instance for the others; the two together
are every instance once (`flatMap_read_perm`).
-/

namespace CircomMpc
namespace Frontend

open Lib CircomMpc.Graph

variable {host : Poseidon2.Host} {input : SignalIdx → Fr}

/-- Lists that pair up contribute the same. -/
theorem flatMap_eq_of_forall₂ {α β γ : Type} {f : α → List γ} {g : β → List γ} {xs : List α}
    {ys : List β} (h : List.Forall₂ (fun x y => f x = g y) xs ys) : xs.flatMap f = ys.flatMap g := by
  induction h with
  | nil => rfl
  | cons hxy _ ih => rw [List.flatMap_cons, List.flatMap_cons, hxy, ih]

section Body

variable {parts : List Part} {base : Flat} {offset : Nat} {isRoot : Bool} {w : Inlining}
  {e : Execution}

theorem simulates_start (offset : Nat) (nodes : List TemplateNode) (hsound : base.Sound) :
    Simulates host input parts base offset isRoot (.start base nodes (parts.map (·.inline)))
      (.start (parts.map (·.behaviour))) where
  adds := .refl hsound
  known v x hv := nomatch hv
  writes := .empty
  ports _ := rfl
  stores := by
    show List.Forall₂ _ ((parts.map (·.inline)).map _) ((parts.map (·.behaviour)).map _)
    rw [List.map_map, List.map_map]
    induction parts with
    | nil => exact .nil
    | cons p parts ih => exact .cons .empty ih
  length_stores := by
    show ((parts.map (·.behaviour)).map _).length = _
    rw [List.length_map, List.length_map]
  length_subGraphs := by
    show ((parts.map (·.inline)).map _).length = _
    rw [List.length_map, List.length_map]
  distinct := .nil
  placed k hk := nomatch hk
  waiting k p _ hp := by
    refine ⟨?_, rfl⟩
    show ((parts.map (·.inline)).map some)[k]? = _
    rw [List.getElem?_map, List.getElem?_map, hp]
    rfl

/-- Every instance has an extension in the end. -/
theorem extensions {exts : List Extension} (hlength : e.stores.length = parts.length)
    (h : ((parts.map (·.behaviour)).zip e.stores).mapM (fun entry => entry.1 entry.2) = some exts) :
    exts.length = parts.length ∧
      ∀ (k : Nat) (ext : Extension), exts[k]? = some ext →
        ∃ p values, parts[k]? = some p ∧ e.stores[k]? = some values ∧
          p.behaviour values = some ext := by
  have hall := mapM_eq_some h
  refine ⟨?_, fun k ext hk => ?_⟩
  · rw [← hall.length_eq, List.length_zip, List.length_map, hlength, Nat.min_self]
  · obtain ⟨entry, hentry, hext⟩ := forall₂_getElem? hall hk
    obtain ⟨hinst, hvalues⟩ := List.getElem?_zip_eq_some.mp hentry
    rw [List.getElem?_map] at hinst
    obtain ⟨p, hp, heq⟩ := Option.map_eq_some_iff.mp hinst
    rw [← heq] at hext
    exact ⟨p, entry.2, hp, hvalues, hext⟩

/-- What is left to do behind the body about instance `k`: nothing if it has been read, else its
    signals and its gadgets. -/
def rest (parts : List Part) (offset : Nat) (e : Execution) (k : Nat) :
    List (SignalIdx × Fr) × List GadgetInstance :=
  if k ∈ e.read then ([], [])
  else (Part.signalsOf parts e.stores offset k, Part.gadgetsOf parts k)

theorem residues {exts : List Extension}
    (hmeans : ∀ p ∈ parts, Means host input p.inline p.behaviour p.gadgets)
    (h : Simulates host input parts base offset isRoot w e)
    (hexts : ((parts.map (·.behaviour)).zip e.stores).mapM (fun entry => entry.1 entry.2) =
      some exts) :
    List.Forall₂ (Residue host input offset w.flat) (w.subGraphs.zip w.subCmpInputs)
      ((List.range parts.length).map (rest parts offset e)) := by
  obtain ⟨hlength, hget⟩ := extensions h.length_stores hexts
  have hports : w.subCmpInputs.length = parts.length :=
    h.stores.length_eq.trans h.length_stores
  rw [List.forall₂_iff_get]
  refine ⟨?_, fun k hk _ => ?_⟩
  · rw [List.length_zip, h.length_subGraphs, hports, Nat.min_self, List.length_map,
      List.length_range]
  · have hk' : k < parts.length := by
      rw [List.length_zip, h.length_subGraphs, hports, Nat.min_self] at hk
      exact hk
    obtain ⟨p, values, hp, hvalues, hext⟩ :=
      hget k _ (List.getElem?_eq_getElem (by rw [hlength]; exact hk'))
    simp only [List.get_eq_getElem, List.getElem_zip, List.getElem_map, List.getElem_range]
    unfold rest
    -- Placed and gone from the table, or still there and to be inlined on what was stored.
    by_cases hread : k ∈ e.read
    · obtain ⟨_, _, _, hnone, _⟩ := h.placed k hread
      rw [if_pos hread, (List.getElem?_eq_some_iff.mp hnone).2]
      exact .done _
    · obtain ⟨hsub, _⟩ := h.waiting k p hread hp
      obtain ⟨ports, hat, hholds⟩ := forall₂_getElem? h.stores hvalues
      rw [if_neg hread, (List.getElem?_eq_some_iff.mp hsub).2, (List.getElem?_eq_some_iff.mp hat).2,
        Part.gadgetsOf_eq hp, Part.signalsOf_eq offset ((Part.extension_eq hp hvalues).trans hext)]
      exact .pending (hmeans p (List.mem_of_getElem? hp)) hholds hext

/-- **A template's body is inlined as it is executed.** -/
theorem inlineBody_returns {nodes : List TemplateNode} {inputMapping : Ports}
    {reads : Nat → Option Fr} {ext : Extension}
    (hmeans : ∀ p ∈ parts, Means host input p.inline p.behaviour p.gadgets) (hsound : base.Sound)
    (hreads : Reads host input base isRoot inputMapping reads)
    (hext : bodyBehaviour input nodes (parts.map (·.behaviour)) (!isRoot) reads = some ext) :
    Returns (fun r => Adds host input base r.2 (addressed offset ext.signals)
        (parts.flatMap (·.gadgets)) ∧ (isRoot = false → PortsHold host input r.2 r.1 ext.ports))
      (inlineBody nodes (parts.map (·.inline)) base offset isRoot inputMapping) := by
  unfold bodyBehaviour at hext
  obtain ⟨e, hrun, hext⟩ := Option.bind_eq_some_iff.mp hext
  obtain ⟨exts, hexts, hext⟩ := Option.bind_eq_some_iff.mp hext
  cases hext
  -- The nodes in step with the execution, from nothing bound and nothing read.
  have hnodes := nodes_returns hmeans hsound hreads (simulates_start offset nodes hsound)
    (by
      show 0 + nodes.length ≤ (nodes.map _).length
      rw [List.length_map, Nat.zero_add]) hrun
  apply Meets.bind hnodes
  intro w hsim
  obtain ⟨hlength, hget⟩ := extensions hsim.length_stores hexts
  -- Then the instances nobody has read.
  apply Meets.bind (unread_returns hsim.sound (residues hmeans hsim hexts))
  intro flat hadds
  refine ⟨(hsim.adds.trans hadds).perm ?_ ?_, ?_⟩
  · have hrest : ((List.range parts.length).map (rest parts offset e)).flatMap Prod.fst =
        (List.range parts.length).flatMap fun k => if k ∈ e.read then []
          else Part.signalsOf parts e.stores offset k := by
      rw [List.flatMap_map]
      apply List.flatMap_congr
      intro k _
      unfold rest
      split <;> rfl
    -- Behind the body `exts` is what every instance came to, read or not.
    have hall : (List.range parts.length).flatMap (Part.signalsOf parts e.stores offset) =
        exts.flatMap fun ext => addressed offset ext.signals := by
      rw [← hlength]
      refine flatMap_eq_of_forall₂ ((forall₂_range exts).imp fun k ext hk => ?_)
      obtain ⟨p, values, hp, hvalues, hext⟩ := hget k ext hk
      exact Part.signalsOf_eq offset ((Part.extension_eq hp hvalues).trans hext)
    rw [addressed_append, addressed_own, addressed_flatMap, ← hall, hrest, List.append_assoc]
    exact List.Perm.append_left _ (flatMap_read_perm _ hsim.distinct hsim.read_lt)
  · have hrest : ((List.range parts.length).map (rest parts offset e)).flatMap Prod.snd =
        (List.range parts.length).flatMap fun k => if k ∈ e.read then []
          else Part.gadgetsOf parts k := by
      rw [List.flatMap_map]
      apply List.flatMap_congr
      intro k _
      unfold rest
      split <;> rfl
    have hall : (List.range parts.length).flatMap (Part.gadgetsOf parts) =
        parts.flatMap (·.gadgets) :=
      flatMap_eq_of_forall₂ ((forall₂_range parts).imp fun k p hk => Part.gadgetsOf_eq hk)
    rw [← hall, hrest]
    exact flatMap_read_perm _ hsim.distinct hsim.read_lt
  · -- An instance's outputs are what its template wrote.
    intro hroot
    show PortsHold host input flat w.portOutputs e.writes
    rw [hsim.ports hroot]
    exact hsim.writes.mono hsim.sound hadds.grows

end Body

/-! ## The tree -/

theorem inlineInstances_eq (insts : List SubGraphInstance) :
    inlineInstances insts = insts.map inlineSubGraphInstance := by
  induction insts with
  | nil => rfl
  | cons inst insts ih => rw [inlineInstances, ih, List.map_cons]

theorem behaviours_eq (insts : List SubGraphInstance) :
    behaviours host input insts = insts.map fun inst => inst.behaviour host input := by
  induction insts with
  | nil => rfl
  | cons inst insts ih => rw [behaviours, ih, List.map_cons]

theorem gadgetsOf_eq (insts : List SubGraphInstance) :
    gadgetsOf insts = insts.flatMap (·.gadgets) := by
  induction insts with
  | nil => rfl
  | cons inst insts ih => rw [gadgetsOf, ih, List.flatMap_cons]

/-- An instance of a template, with what it means. -/
def SubGraphInstance.part (host : Poseidon2.Host) (input : SignalIdx → Fr)
    (inst : SubGraphInstance) : Part :=
  ⟨inlineSubGraphInstance inst, inst.behaviour host input, inst.gadgets⟩

mutual

/-- A template, main or an instance's. -/
theorem inlineTemplate_returns : ∀ (template : TemplateGraph)
    (_ : ∀ site ∈ template.gadgets, site.Canonical) {base : Flat} {offset : Nat} {isRoot : Bool}
    {inputMapping : Ports} {reads : Nat → Option Fr} {ext : Extension} (_ : base.Sound)
    (_ : Reads host input base isRoot inputMapping reads)
    (_ : template.behaviour host input (!isRoot) reads = some ext),
    Returns (fun r => Adds host input base r.2 (addressed offset ext.signals) template.gadgets ∧
        (isRoot = false → PortsHold host input r.2 r.1 ext.ports))
      (inlineTemplate template base offset isRoot inputMapping)
  | .mk nodes subGraphs, hcanonical, _, _, _, _, _, _, hsound, hreads, hext => by
    have hmeans := inlineInstances_means subGraphs hcanonical
    have hparts : ∀ p ∈ subGraphs.map (·.part host input), Means host input p.inline p.behaviour
        p.gadgets := by
      intro p hp
      obtain ⟨inst, hinst, rfl⟩ := List.mem_map.mp hp
      exact hmeans inst hinst
    have hbehaviours : (subGraphs.map (·.part host input)).map (·.behaviour) =
        behaviours host input subGraphs := by
      rw [behaviours_eq, List.map_map]
      rfl
    have hinliners : (subGraphs.map (·.part host input)).map (·.inline) =
        inlineInstances subGraphs := by
      rw [inlineInstances_eq, List.map_map]
      rfl
    have hgadgets : (subGraphs.map (·.part host input)).flatMap (·.gadgets) =
        gadgetsOf subGraphs := by
      rw [gadgetsOf_eq, List.flatMap_map]
      rfl
    -- The three lists over the instances are one list of parts.
    rw [TemplateGraph.behaviour, ← hbehaviours] at hext
    rw [inlineTemplate, TemplateGraph.gadgets, ← hinliners, ← hgadgets]
    exact inlineBody_returns hparts hsound hreads hext

/-- **An instance's inliner means the instance.** -/
theorem inlineSubGraphInstance_means : ∀ (inst : SubGraphInstance)
    (_ : ∀ site ∈ inst.gadgets, site.Canonical),
    Means host input (inlineSubGraphInstance inst) (inst.behaviour host input) inst.gadgets
  | .compiled template signalOffset, hcanonical => by
    intro flat offset ports inputs ext hsound hports hext
    obtain ⟨ext', hbehaviour, rfl⟩ := Option.map_eq_some_iff.mp hext
    have hreads : Reads host input flat false ports inputs := hports
    have htemplate : Returns _ (inlineTemplate template flat (offset + signalOffset) false ports) :=
      inlineTemplate_returns template hcanonical hsound hreads hbehaviour
    apply htemplate.post
    rintro r ⟨hadds, hout⟩
    rw [addressed_below]
    exact ⟨hadds, hout rfl⟩
  | .gadget site, hcanonical => inlineGadget_means (hcanonical site List.mem_cons_self)

theorem inlineInstances_means : ∀ (insts : List SubGraphInstance)
    (_ : ∀ site ∈ gadgetsOf insts, site.Canonical), ∀ inst ∈ insts,
    Means host input (inlineSubGraphInstance inst) (inst.behaviour host input) inst.gadgets
  | [], _, _, hinst => nomatch hinst
  | inst :: insts, hcanonical, inst', hinst => by
    rcases List.mem_cons.mp hinst with heq | hinst
    · rw [heq]
      exact inlineSubGraphInstance_means inst fun site hsite =>
        hcanonical site (List.mem_append_left _ hsite)
    · exact inlineInstances_means insts (fun site hsite =>
        hcanonical site (List.mem_append_right _ hsite)) inst' hinst

end

/-- Main's own run. -/
theorem inlineTemplate_adds {main : TemplateGraph} {signals : List (Place × Fr)}
    (hcanonical : ∀ site ∈ main.gadgets, site.Canonical)
    (hmain : main.signals host input = some signals) :
    ∃ ports flat, inlineTemplate main ⟨[], [], []⟩ 0 true (fun _ => none) = .ok (ports, flat) ∧
      flat.Sound ∧
      (flat.outputs.map fun o => (o.1, flat.eval host input o.2)).Perm (addressed 0 signals) ∧
      flat.gadgetSites.Perm (main.gadgets.map (·.site)) := by
  obtain ⟨ext, hext, rfl⟩ := Option.map_eq_some_iff.mp hmain
  have hreads : Reads host input ⟨[], [], []⟩ true (fun _ => none) _ := rfl
  have hreturns : Returns _ (inlineTemplate main ⟨[], [], []⟩ 0 true fun _ => none) :=
    inlineTemplate_returns main hcanonical Flat.sound_nil hreads hext
  obtain ⟨⟨ports, flat⟩, hrun, hadds, _⟩ := returns_iff.mp hreturns
  obtain ⟨new, houtputs, hsignals⟩ := hadds.outputs
  obtain ⟨sites, hsites, hgadgets⟩ := hadds.sites
  refine ⟨ports, flat, hrun, hadds.sound, ?_, ?_⟩
  · rw [houtputs]
    exact hsignals
  · rw [hsites]
    exact hgadgets

/-- **The flat graph is the tree.** It binds every signal an instance uses, as often as the instance
    uses it, at the sum of the offsets on the way there and the signal's own number, to the value the
    execution of the tree gives it; and it has a site for every gadget instance, in the order of their
    nodes. Where siblings are apart and a template assigns once, the bindings of a signal agree. -/
theorem inlineTemplate_computes {main : TemplateGraph} {signals : List (Place × Fr)}
    (hcreated : ∀ site ∈ main.gadgets, site.Created)
    (hmain : main.signals host input = some signals) :
    ∃ ports flat, inlineTemplate main ⟨[], [], []⟩ 0 true (fun _ => none) = .ok (ports, flat) ∧
      (flat.outputs.map fun o => (o.1, flat.eval host input o.2)).Perm
        (signals.map fun s => (s.1.address, s.2)) ∧
      flat.gadgetSites.Perm (main.gadgets.map (·.site)) ∧
      (invocations flat.nodes).map Prod.fst = List.range flat.gadgetSites.length ∧
      ∀ span, main.Framed span → main.AssignsOnce → ∀ o ∈ flat.outputs, ∀ o' ∈ flat.outputs,
        o.1 = o'.1 → flat.eval host input o.2 = flat.eval host input o'.2 := by
  obtain ⟨ports, flat, hrun, hsound, hsignals, hgadgets⟩ :=
    inlineTemplate_adds (fun site hsite => (hcreated site hsite).canonical) hmain
  refine ⟨ports, flat, hrun, hsignals, hgadgets, hsound.sites, ?_⟩
  intro span hframed honce o ho o' ho' heq
  have hsettled := (signals_settled hframed honce hmain).settled
  have hmem : ∀ o ∈ flat.outputs, (o.1, flat.eval host input o.2) ∈ addressed 0 signals := by
    intro o ho
    exact hsignals.subset (List.mem_map_of_mem ho)
  exact hsettled _ (hmem o ho) _ (hmem o' ho') heq

/-- A template that squares its input and asks whether it is zero. -/
def squareTemplate : TemplateGraph :=
  .mk [⟨.localSignal 1, []⟩, ⟨.real .mul, [0, 0]⟩, ⟨.localSignalWrite 0, [1]⟩,
      ⟨.subCmpInput 0 1, [0]⟩]
    [.gadget ⟨.isZero, "IsZero_2", 2, 1, 1, 1, false⟩]

/-- A main that squares by that template, its signals behind main's two. -/
def nestedSquare : TemplateGraph :=
  .mk [⟨.localSignal 1, []⟩, ⟨.subCmpInput 0 1, [0]⟩, ⟨.subCmpOutput 0 0, []⟩,
      ⟨.localSignalWrite 0, [2]⟩]
    [.compiled squareTemplate 2]

theorem nestedSquare_created : ∀ site ∈ nestedSquare.gadgets, site.Created := by
  intro site hsite
  cases List.mem_singleton.mp hsite
  exact ⟨"Square", false, fun _ => some 3, ⟨"IsZero", "IsZero_2", 1, 1⟩, ⟨2, 3, 1⟩, .isZero, _, rfl,
    rfl, List.mem_singleton_self _⟩

theorem nestedSquare_framed : nestedSquare.Framed 7 := by
  have hsquare : squareTemplate.Framed 5 :=
    ⟨2, [(2, 3)], by decide, by decide, by decide, by simp, ⟨(2, 3), [], rfl, ⟨rfl, rfl⟩, rfl⟩⟩
  exact ⟨2, [(2, 5)], by decide, by decide, by decide, by simp,
    ⟨(2, 5), [], rfl, ⟨rfl, hsquare⟩, rfl⟩⟩

theorem nestedSquare_assignsOnce : nestedSquare.AssignsOnce := by
  refine ⟨?_, ⟨?_, trivial, trivial⟩, trivial⟩ <;> simp [AssignOnce, TemplateOp.signal?]

theorem inlineTemplate_computes_nestedSquare :
    ∃ signals, nestedSquare.signals default (fun _ => 3) = some signals ∧
      nestedSquare.Framed 7 ∧ nestedSquare.AssignsOnce ∧
      ∃ ports flat, inlineTemplate nestedSquare ⟨[], [], []⟩ 0 true (fun _ => none) =
          .ok (ports, flat) ∧
        (flat.outputs.map fun o => (o.1, flat.eval default (fun _ => 3) o.2)).Perm
          (signals.map fun s => (s.1.address, s.2)) ∧
        ∀ o ∈ flat.outputs, ∀ o' ∈ flat.outputs, o.1 = o'.1 →
          flat.eval default (fun _ => 3) o.2 = flat.eval default (fun _ => 3) o'.2 := by
  have hsome : (nestedSquare.signals default fun _ => 3).isSome = true := rfl
  obtain ⟨signals, hsignals⟩ := Option.isSome_iff_exists.mp hsome
  obtain ⟨ports, flat, hrun, hperm, _, _, hsettled⟩ :=
    inlineTemplate_computes nestedSquare_created hsignals
  exact ⟨signals, hsignals, nestedSquare_framed, nestedSquare_assignsOnce, ports, flat, hrun, hperm,
    hsettled 7 nestedSquare_framed nestedSquare_assignsOnce⟩

/-- A main that assigns its signal twice, which no circom program does. -/
def assignedTwice : TemplateGraph :=
  .mk [⟨.real (.constant 0), []⟩, ⟨.localSignalWrite 0, [0]⟩, ⟨.real (.constant 1), []⟩,
      ⟨.localSignalWrite 0, [2]⟩] []

/-- Its two bindings do not agree, though there are no siblings to share a signal. -/
theorem assignedTwice_disagrees :
    (assignedTwice.signals default fun _ => 0).isSome = true ∧ assignedTwice.Framed 1 ∧
      assignedTwice.gadgets = [] ∧
      ∃ ports flat, inlineTemplate assignedTwice ⟨[], [], []⟩ 0 true (fun _ => none) =
          .ok (ports, flat) ∧
        ∃ o ∈ flat.outputs, ∃ o' ∈ flat.outputs, o.1 = o'.1 ∧
          flat.eval default (fun _ => 0) o.2 ≠ flat.eval default (fun _ => 0) o'.2 := by
  refine ⟨rfl, ⟨1, [], by decide, by decide, by simp, .nil, rfl⟩, rfl, fun _ => none,
    ⟨[⟨.constant 0, []⟩, ⟨.constant 1, []⟩], [(0, 0), (0, 1)], []⟩, rfl, (0, 0), by simp, (0, 1),
    by simp, rfl, ?_⟩
  show (0 : Fr) ≠ 1
  decide

end Frontend
end CircomMpc
