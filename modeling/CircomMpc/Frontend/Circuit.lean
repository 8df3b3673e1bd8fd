import CircomMpc.Codegen.Pipeline
import CircomMpc.Frontend.Flatten

/-!
# From the template tree to the witness

`build_graph` behind circom: main is inlined, and what circom says about its inputs and its witness is
put beside the nodes. The graph is one the compiler takes, and so the tree's values reach the witness:
what the virtual machine computes is what the execution of the tree says.

Signals are numbered twice. circom's witness has the constant one in front of main's signals, so a
signal's number there is its address plus one, and the inputs are counted over the inputs alone
(`rebase`). `Producer.Lays` is the part of that numbering the proofs use.
-/

namespace CircomMpc
namespace Frontend

open Lib CircomMpc.Graph

/-- What circom's producer says about main: how many inputs, outputs and signals it has, which of
    the inputs are public, and which signal each witness position holds. -/
structure Producer where
  witnessToSignalList : List Nat
  mainInputList : InputList
  numberOfMainInputs : Nat
  numberOfMainOutputs : Nat
  totalNumberOfSignals : Nat
  publicInputs : List String
  mpcPublicInputs : List String

/-- The first input's place in the witness: behind the constant one and main's outputs. -/
def Producer.inputBase (producer : Producer) : Nat := 1 + producer.numberOfMainOutputs

/-- An input's start, counted over the inputs alone. -/
def rebase (inputBase : Nat) (entry : String × Nat × Nat) : Except Panic (String × Nat × Nat) := do
  ensure (inputBase ≤ entry.2.1)
    (.expect s!"circom reported input `{entry.1}` at witness offset {entry.2.1}")
  pure (entry.1, entry.2.1 - inputBase, entry.2.2)

/-- `build_graph`, from main's template on. -/
def buildGraph (producer : Producer) (main : TemplateGraph) : Except Panic Graph := do
  let inputList ← producer.mainInputList.mapM (rebase producer.inputBase)
  ensure ((inputList.map fun entry => entry.2.2).sum = producer.numberOfMainInputs)
    (.assertion "input_list sizes must cover exactly the declared inputs")
  let inlined ← inlineTemplate main ⟨[], [], []⟩ 0 true fun _ => none
  pure {
    nodes := inlined.2.nodes
    outputs := inlined.2.outputs
    gadgetSites := inlined.2.gadgetSites
    numRounds := 0
    signalToWitness := producer.witnessToSignalList
    inputList
    publicInputs := producer.publicInputs
    mpcPublicInputs := producer.mpcPublicInputs
    numInputs := producer.numberOfMainInputs
    numOutputs := producer.numberOfMainOutputs
    numSignals := producer.totalNumberOfSignals }

/-- What circom's numbering keeps to: the inputs stand behind main's outputs and are all there, and
    main's span is within the signals. -/
structure Producer.Lays (producer : Producer) (span : Nat) : Prop where
  behind : ∀ entry ∈ producer.mainInputList, producer.inputBase ≤ entry.2.1
  covered : (producer.mainInputList.map fun entry => entry.2.2).sum = producer.numberOfMainInputs
  span : span < producer.totalNumberOfSignals

/-- The value of the signal at an address. -/
def valueAt (signals : List (Place × Fr)) (address : SignalIdx) : Option Fr :=
  (signals.find? fun s => s.1.address == address).map (·.2)

/-- The witness a tree means, on what main reads and the signals it then has. -/
def Producer.witnessOf (producer : Producer) (input : SignalIdx → Fr) (signals : List (Place × Fr)) :
    List Fr :=
  producer.witnessToSignalList.map fun signal =>
    if signal = 0 then 1
    else if producer.numberOfMainOutputs < signal ∧
      signal ≤ producer.numberOfMainOutputs + producer.numberOfMainInputs then input (signal - 1)
    else (valueAt signals (signal - 1)).getD 0

theorem mapM_rebase {inputBase : Nat} {entries : InputList}
    (h : ∀ entry ∈ entries, inputBase ≤ entry.2.1) :
    entries.mapM (rebase inputBase) =
      .ok (entries.map fun entry => (entry.1, entry.2.1 - inputBase, entry.2.2)) := by
  apply mapM_eq_ok
  intro entry hentry
  unfold rebase
  rw [ensure_of (h entry hentry), ok_bind]
  rfl

section Graph

variable {producer : Producer} {main : TemplateGraph} {span : Nat} {g : Graph} {flat : Flat}

/-- The graph that holds a flattened main: the flat lists as they are, and the producer's
    numbers. -/
structure Carries (g : Graph) (flat : Flat) (producer : Producer) : Prop where
  nodes : g.nodes = flat.nodes
  outputs : g.outputs = flat.outputs
  gadgetSites : g.gadgetSites = flat.gadgetSites
  signalToWitness : g.signalToWitness = producer.witnessToSignalList
  numInputs : g.numInputs = producer.numberOfMainInputs
  numOutputs : g.numOutputs = producer.numberOfMainOutputs
  numSignals : g.numSignals = producer.totalNumberOfSignals

theorem buildGraph_eq_ok (hlays : producer.Lays span) {ports : Ports}
    (hrun : inlineTemplate main ⟨[], [], []⟩ 0 true (fun _ => none) = .ok (ports, flat)) :
    ∃ g, buildGraph producer main = .ok g ∧ Carries g flat producer := by
  have hcovered : ((producer.mainInputList.map fun entry =>
      (entry.1, entry.2.1 - producer.inputBase, entry.2.2)).map fun entry => entry.2.2).sum =
        producer.numberOfMainInputs := by
    rw [List.map_map]
    exact hlays.covered
  unfold buildGraph
  rw [mapM_rebase hlays.behind, ok_bind, ensure_of hcovered, ok_bind, hrun, ok_bind]
  exact ⟨_, rfl, ⟨rfl, rfl, rfl, rfl, rfl, rfl, rfl⟩⟩

/-- **The frontend's graph is one the compiler takes.** -/
theorem Carries.compilable (h : Carries g flat producer) (hsound : flat.Sound)
    (hsignals : ∀ o ∈ flat.outputs, o.1 + 1 < producer.totalNumberOfSignals) : g.Compilable := by
  have hsites : ((invocations g.nodes).map Prod.fst).Perm (List.range g.gadgetSites.length) := by
    rw [h.nodes, h.gadgetSites, hsound.sites]
  refine ⟨⟨?_, ?_, ?_, ?_, ?_, hsites, ?_, ?_⟩, ?_, ?_, ?_⟩
  · rw [h.nodes]
    exact hsound.ordered
  · rw [h.nodes]
    exact hsound.frontend
  · rw [h.nodes]
    exact hsound.arity
  · rw [h.nodes]
    exact hsound.results
  · rw [h.nodes]
    intro node hnode hop v hv source hsource
    obtain ⟨node', hnode', hplain⟩ := hsound.unread node hnode hop v hv
    rw [hsource] at hnode'
    cases hnode'
    exact hplain
  · rw [h.nodes, h.outputs]
    exact hsound.outputs
  · rw [h.outputs, h.numSignals]
    exact hsignals
  · -- Two results of one slot of one site read one node, since the sites' nodes are distinct.
    rintro site slot u v ⟨w, hu, hw⟩ ⟨w', hv, hw'⟩
    cases siteAt_unique_of_nodup (hsites.nodup_iff.mpr List.nodup_range) hw hw'
    rw [h.nodes] at hu hv
    exact hsound.slots u v w slot hu hv
  · intro v site inputs s hnode hs
    rw [h.nodes] at hnode
    rw [h.gadgetSites] at hs
    obtain ⟨s', hs', hlength⟩ := hsound.calls site inputs (List.mem_of_getElem? hnode)
    rw [hs] at hs'
    cases hs'
    exact hlength
  · rw [h.gadgetSites]
    exact hsound.host

theorem Carries.eval_eq (h : Carries g flat producer) (host : Poseidon2.Host) (input : SignalIdx → Fr)
    (v : ValueId) : g.eval (.plain g host input) v = flat.eval host input v := by
  have hinterp : Interp.plain g host input = flat.interp host input :=
    congrArg (fun sites => Flat.interp host input ⟨[], [], sites⟩) h.gadgetSites
  unfold Graph.eval Flat.eval
  rw [h.nodes, hinterp]

/-- A signal's last binding has the value the signal has. -/
theorem Carries.binding_eq (h : Carries g flat producer) {host : Poseidon2.Host}
    {input : SignalIdx → Fr} {signals : List (Place × Fr)}
    (hperm : (flat.outputs.map fun o => (o.1, flat.eval host input o.2)).Perm (addressed 0 signals))
    (hsettled : Settled (addressed 0 signals)) {signal : Nat} (hsignal : signal ≠ 0) :
    g.binding (.plain g host input) signal = valueAt signals (signal - 1) := by
  unfold Graph.binding valueAt
  rw [h.outputs]
  cases hlast : (flat.outputs.filter fun o => o.1 + 1 == signal).getLast? with
  -- Bound nowhere in the graph, and so a signal of no instance: what is bound are the tree's signals.
  | none =>
    have hempty : ∀ o ∈ flat.outputs, ¬ o.1 + 1 = signal := by
      intro o ho heq
      have hmem : o ∈ flat.outputs.filter fun o => o.1 + 1 == signal :=
        List.mem_filter.mpr ⟨ho, by simpa using heq⟩
      rw [List.getLast?_eq_none_iff.mp hlast] at hmem
      cases hmem
    have hnone : (signals.find? fun s => s.1.address == signal - 1) = none := by
      rw [List.find?_eq_none]
      intro s hs heq
      have haddress : s.1.address = signal - 1 := by simpa using heq
      have hmem : (s.1.address, s.2) ∈ addressed 0 signals :=
        List.mem_map_of_mem (f := fun s : Place × Fr => (s.1.address + 0, s.2)) hs
      obtain ⟨o, ho, hob⟩ := List.mem_map.mp (hperm.symm.subset hmem)
      have hfst : o.1 = s.1.address := congrArg Prod.fst hob
      refine hempty o ho ?_
      rw [hfst, haddress]
      exact Nat.sub_add_cancel (Nat.pos_of_ne_zero hsignal)
    rw [hnone]
    rfl
  -- The last binding is one of the tree's, and all of them have one value.
  | some o =>
    obtain ⟨ho, heq⟩ := List.mem_filter.mp (List.mem_of_getLast? hlast)
    have haddress : o.1 = signal - 1 := by
      have hsucc : o.1 + 1 = signal := by simpa using heq
      rw [← hsucc]
      rfl
    have hbound : (o.1, flat.eval host input o.2) ∈ addressed 0 signals :=
      hperm.subset (List.mem_map_of_mem ho)
    obtain ⟨s, hs, hsb⟩ := List.mem_map.mp hbound
    have hfound : (signals.find? fun s => s.1.address == signal - 1).isSome = true := by
      rw [List.find?_isSome]
      have hfst : s.1.address = o.1 := congrArg Prod.fst hsb
      exact ⟨s, hs, by rw [hfst, haddress]; exact beq_self_eq_true _⟩
    obtain ⟨s', hs'⟩ := Option.isSome_iff_exists.mp hfound
    have hmem' : (s'.1.address, s'.2) ∈ addressed 0 signals :=
      List.mem_map_of_mem (f := fun s : Place × Fr => (s.1.address + 0, s.2))
        (List.mem_of_find?_eq_some hs')
    have hat' : s'.1.address = signal - 1 := by simpa using List.find?_some hs'
    rw [hs']
    show some (g.eval _ o.2) = some s'.2
    rw [h.eval_eq host input]
    exact congrArg some (hsettled _ hbound _ hmem' (haddress.trans hat'.symm))

/-- The graph means what the tree means. -/
theorem Carries.witnessOf_eq (h : Carries g flat producer) {host : Poseidon2.Host}
    {inputs : List (InputValue Fr)} {signals : List (Place × Fr)}
    (hperm : (flat.outputs.map fun o => (o.1, flat.eval host (g.inputOf inputs) o.2)).Perm
      (addressed 0 signals))
    (hsettled : Settled (addressed 0 signals)) :
    g.witnessOf host inputs = producer.witnessOf (g.inputOf inputs) signals := by
  unfold Graph.witnessOf Producer.witnessOf
  rw [h.signalToWitness]
  apply List.map_congr_left
  intro signal _
  unfold Graph.signalValue
  rw [h.numInputs, h.numOutputs]
  by_cases hzero : signal = 0
  · rw [if_pos hzero, if_pos hzero]
  · rw [if_neg hzero, if_neg hzero, h.binding_eq hperm hsettled hzero]
    rfl

/-- Inlined, main is a graph that means what the tree means, whatever the inputs. -/
theorem buildGraph_means (hcreated : ∀ site ∈ main.gadgets, site.Created) (hframed : main.Framed span)
    (honce : main.AssignsOnce) (hlays : producer.Lays span)
    (hexecutes : ∀ host input, (main.signals host input).isSome = true) :
    ∃ g, buildGraph producer main = .ok g ∧ g.Compilable ∧
      ∀ host inputs signals, main.signals host (g.inputOf inputs) = some signals →
        g.witnessOf host inputs = producer.witnessOf (g.inputOf inputs) signals := by
  have hcanonical : ∀ site ∈ main.gadgets, site.Canonical :=
    fun site hsite => (hcreated site hsite).canonical
  obtain ⟨signals, hsignals⟩ := Option.isSome_iff_exists.mp (hexecutes default fun _ => 0)
  obtain ⟨ports, flat, hrun, hsound, hperm, _⟩ := inlineTemplate_adds hcanonical hsignals
  obtain ⟨g, hbuild, hcarries⟩ := buildGraph_eq_ok hlays hrun
  refine ⟨g, hbuild, hcarries.compilable hsound ?_, ?_⟩
  · -- Main's span is below the number of signals, and every binding is within main's span.
    intro o ho
    have hinside := (signals_settled hframed honce hsignals).inside _
      (hperm.subset (List.mem_map_of_mem ho))
    have hlt := hinside.2
    rw [Nat.zero_add] at hlt
    exact Nat.lt_of_le_of_lt (Nat.succ_le_of_lt hlt) hlays.span
  · -- The flat graph is one and the same whatever it is evaluated on.
    intro host inputs signals' hsignals'
    obtain ⟨ports', flat', hrun', _, hperm', _⟩ := inlineTemplate_adds hcanonical hsignals'
    rw [hrun] at hrun'
    cases hrun'
    exact hcarries.witnessOf_eq hperm' (signals_settled hframed honce hsignals').settled

/-- **From the template tree to the witness.** Main is inlined, optimized, lowered, compiled and run.
    On inputs of the declared variants the witness has, at every position, the value the execution of
    the tree gives its signal, if the products of every round come in the order of their full levels;
    otherwise no run gets past the round where they do not. -/
theorem buildGraph_runs (hcreated : ∀ site ∈ main.gadgets, site.Created) (hframed : main.Framed span)
    (honce : main.AssignsOnce) (hlays : producer.Lays span)
    (hexecutes : ∀ host input, (main.signals host input).isSome = true) (opt : OptLevel) :
    ∃ g o k g', buildGraph producer main = .ok g ∧ PassManager.runOptimize opt g = .ok o ∧
      lowerRounds o = .ok k ∧ PassManager.run opt g = .ok g' ∧ (o.SecretSites → k.Ascending) ∧
        ∀ program, Codegen.compile g' = .ok program →
          ∀ (host : Poseidon2.Host) (inputs : List (InputValue Fr)) (queue : List (List (SiteTrace Fr)))
            (signals : List (Place × Fr)), program.parts.TracesFit host →
            program.parts.InputsMatch inputs → QueueMatches host program queue inputs →
            main.signals host (g.inputOf inputs) = some signals →
              (k.Ascending → ∃ w, Vm.runPlain host program queue inputs = .ok w ∧
                w.intoFull = producer.witnessOf (g.inputOf inputs) signals) ∧
              (¬ k.Ascending → Vm.runPlain host program queue inputs = .error .roundMismatch) := by
  obtain ⟨g, hbuild, hcompilable, hmeans⟩ := buildGraph_means hcreated hframed honce hlays hexecutes
  obtain ⟨o, k, g', hoptimize, hrounds, hrun, hemittable, hiff, hsecret, hwitness⟩ :=
    PassManager.run_ok hcompilable opt
  refine ⟨g, o, k, g', hbuild, hoptimize, hrounds, hrun, hsecret, ?_⟩
  intro program hprogram host inputs queue signals hfits hinputs hqueue hsignals
  obtain ⟨t, fin, hcompiled⟩ := Codegen.compile_eq_ok hemittable hprogram
  rw [← hiff, ← hmeans host inputs signals hsignals, ← hwitness]
  exact hcompiled.runs hfits hinputs hqueue

/-- What circom says about the nested square. -/
def squareProducer : Producer where
  witnessToSignalList := [0, 1, 2, 3, 4, 5, 6, 7]
  mainInputList := [("a", 2, 1)]
  numberOfMainInputs := 1
  numberOfMainOutputs := 1
  totalNumberOfSignals := 8
  publicInputs := []
  mpcPublicInputs := []

theorem squareProducer_lays : squareProducer.Lays 7 := ⟨by decide, rfl, by decide⟩

theorem buildGraph_runs_nestedSquare : ∃ g g' program w signals,
    buildGraph squareProducer nestedSquare = .ok g ∧ PassManager.run .O1 g = .ok g' ∧
      Codegen.compile g' = .ok program ∧
      nestedSquare.signals default (g.inputOf [.secret 3]) = some signals ∧
      Vm.runPlain default program [] [.secret 3] = .ok w ∧
        w.intoFull = squareProducer.witnessOf (g.inputOf [.secret 3]) signals := by
  have hcheck : ((buildGraph squareProducer nestedSquare).toOption.any fun g =>
      (PassManager.runOptimize .O1 g).toOption.any fun o => (lowerRounds o).toOption.any fun k =>
        (PassManager.run .O1 g).toOption.any fun g' => (Codegen.compile g').toOption.any fun program =>
          decide (k.Ascending ∧ program.parts.numInputs = 1 ∧
            program.parts.inputDomains = [.shared] ∧
              ∀ batch ∈ program.parts.gadgetBatches, batch.kind = .gadget .isZero)) = true := by
    decide +kernel
  obtain ⟨g, o, k, g', hbuild, hoptimize, hrounds, hrun, _, hruns⟩ :=
    buildGraph_runs nestedSquare_created nestedSquare_framed nestedSquare_assignsOnce
      squareProducer_lays (fun _ _ => rfl) .O1
  simp only [hbuild, hoptimize, hrounds, hrun, Except.toOption, Option.any_some] at hcheck
  cases hcompile : Codegen.compile g' with
  | error e =>
    rw [hcompile] at hcheck
    cases hcheck
  | ok program =>
    simp only [hcompile, Option.any_some, decide_eq_true_eq] at hcheck
    obtain ⟨hascending, hcount, hdomains, hbatches⟩ := hcheck
    have hmatch : program.parts.InputsMatch [.secret (3 : Fr)] := by
      refine ⟨hcount.symm, ?_⟩
      intro i value hvalue
      rw [hdomains]
      cases i with
      | zero =>
        cases hvalue
        rfl
      | succ i => cases hvalue
    have hserviced : ∀ batch ∈ program.parts.gadgetBatches, batch.kind.isPrecomputed = false := by
      intro batch hbatch
      rw [hbatches batch hbatch]
      rfl
    have hfits : program.parts.TracesFit default := by
      intro batch hbatch kind hkind
      cases (hbatches batch hbatch).symm.trans hkind
      rfl
    have hsome : (nestedSquare.signals default (g.inputOf [.secret 3])).isSome = true := rfl
    obtain ⟨signals, hsignals⟩ := Option.isSome_iff_exists.mp hsome
    obtain ⟨w, hw, hwitness⟩ := (hruns program hcompile default [.secret 3] [] signals hfits hmatch
      (Codegen.queueMatches_nil hserviced) hsignals).1 hascending
    exact ⟨g, g', program, w, signals, hbuild, hrun, hcompile, hsignals, hw, hwitness⟩

end Graph

end Frontend
end CircomMpc
