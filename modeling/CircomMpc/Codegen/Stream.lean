import CircomMpc.Codegen.Pipeline
import CircomMpc.Vm.Instructions

/-!
# When the rounds of a compiled program line up

`linesUp` walks an instruction stream: every reshare names the products in flight, in their order, and
none are in flight at the end. Of a compiled program it says what `LinedUp` says of the graph, and so
depends on the order of the products behind `round_schedule` alone: `wide_schedule` sorts them by full
level and leaves a round's operand table as it was.
-/

namespace CircomMpc

open Lib

namespace ProgramParts

/-- With `pending` in flight, every reshare to come names what is. -/
def linesUpFrom (p : ProgramParts) : List Slot → List Instruction → Bool
  | pending, [] => decide (pending = [])
  | pending, i :: rest => p.accepts pending i && p.linesUpFrom (waitingAfter pending i) rest

def linesUp (p : ProgramParts) : Bool := p.linesUpFrom [] p.instructions

theorem linesUpFrom_twin (p : ProgramParts) (pending : List Slot) (instructions : List Instruction) :
    p.gadgetTwin.linesUpFrom pending instructions = p.linesUpFrom pending instructions := by
  induction instructions generalizing pending with
  | nil => rfl
  | cons i rest ih => exact congrArg (p.accepts pending i && ·) (ih _)

section Walk

variable {p : ProgramParts} {host : Poseidon2.Host} {vm : VmState Unit Fr}

/-- **A stream lines up where its instructions run through**, to a state with nothing in flight. -/
theorem linesUpFrom_iff (hfits : p.TracesFit host) (hw : p.WellEncoded)
    (hserviced : ∀ batch ∈ p.gadgetBatches, batch.kind.isPrecomputed = false) (h : vm.Ready p)
    {instructions : List Instruction} (hi : ∀ i ∈ instructions, p.InstructionOk i) :
    p.linesUpFrom vm.pendingMulDst instructions = true ↔
      ∃ vm', instructions.foldlM (Vm.executeInstruction (plainDriver host) p host) vm = .ok vm' ∧
        vm'.pendingMulDst = [] := by
  induction instructions generalizing vm with
  | nil =>
    rw [linesUpFrom, decide_eq_true_eq]
    exact ⟨fun hnone => ⟨vm, rfl, hnone⟩, fun ⟨_, hrun, hnone⟩ => by cases hrun; exact hnone⟩
  | cons i rest ih =>
    have hhere := hi i List.mem_cons_self
    rw [linesUpFrom, List.foldlM_cons, executeInstruction_eq host hw h hhere (.of_serviced hserviced _ i),
      hfits.overflows i, if_neg Bool.false_ne_true]
    -- The check of the stream is the machine's own at a reshare, and void elsewhere.
    by_cases haccepts : p.accepts vm.pendingMulDst i = true
    · rw [haccepts, Bool.true_and, if_pos rfl, ok_bind, ← pending_effect host hhere]
      exact ih (effect_ready h i) fun j hj => hi j (List.mem_cons_of_mem _ hj)
    · rw [if_neg haccepts, error_bind, Bool.and_eq_true]
      exact ⟨fun hall => absurd hall.1 haccepts, fun ⟨_, hrun, _⟩ => nomatch hrun⟩

/-- On any host, a stream that lines up stops at no round: its instructions run through, or one of
    them overflows. -/
theorem linesUpFrom_meets (host : Poseidon2.Host) (hw : p.WellEncoded)
    (hserviced : ∀ batch ∈ p.gadgetBatches, batch.kind.isPrecomputed = false) (h : vm.Ready p)
    {instructions : List Instruction} (hi : ∀ i ∈ instructions, p.InstructionOk i)
    (hlined : p.linesUpFrom vm.pendingMulDst instructions = true) :
    Meets (· = .capacityOverflow) (fun vm' => vm'.Ready p ∧ vm'.pendingMulDst = [])
      (instructions.foldlM (Vm.executeInstruction (plainDriver host) p host) vm) := by
  induction instructions generalizing vm with
  | nil => exact ⟨h, of_decide_eq_true hlined⟩
  | cons i rest ih =>
    have hhere := hi i List.mem_cons_self
    rw [linesUpFrom, Bool.and_eq_true] at hlined
    rw [List.foldlM_cons, executeInstruction_eq host hw h hhere (.of_serviced hserviced _ i),
      if_pos hlined.1]
    split
    · rfl
    · rw [ok_bind]
      rw [← pending_effect host hhere] at hlined
      exact ih (effect_ready h i) (fun j hj => hi j (List.mem_cons_of_mem _ hj)) hlined.2

end Walk

end ProgramParts

namespace Codegen

variable {g : Graph} {program : Program}

/-- **A compiled program's stream lines up where its graph's rounds do.** -/
theorem Compiled.linesUp_iff {t : Setting g} {fin : Emitter}
    (hcompiled : Compiled t fin program.parts) : program.parts.linesUp = true ↔ g.LinedUp := by
  let p := program.parts.gadgetTwin
  have hp : t.Emitted fin p := hcompiled.emitted
  -- Neither side depends on the host: take one whose vectors hold every decomposition.
  obtain ⟨host, hfits⟩ := p.exists_tracesFit default
  have hserviced : ∀ batch ∈ p.gadgetBatches, batch.kind.isPrecomputed = false := by
    intro batch hbatch
    obtain ⟨batch', _, rfl⟩ := List.mem_map.mp hbatch
    exact Setting.gadgetTwin_serviced batch'
  have hstart : t.Agrees p (.plain g host (g.inputOf [])) _ 0 _ _ (Effect.initial p [] []) :=
    initial_agrees hp.wellEncoded hcompiled.constants hcompiled.inputs
  have hnone : (Effect.initial p [] []).pendingMulDst = [] := by
    have hproducts := hstart.products
    rw [show g.pendingAt 0 = [] by rfl] at hproducts
    exact List.forall₂_nil_left_iff.mp hproducts
  obtain ⟨rest, hrest, hgood, hbad⟩ := hcompiled.walk.runs hp hfits hstart
  have hinstructions : p.instructions = rest := hp.instructions.trans hrest
  have hiff := ProgramParts.linesUpFrom_iff hfits hp.wellEncoded hserviced hstart.ready
    hp.wellEncoded.instructions
  rw [hnone, hinstructions] at hiff
  have htwin : program.parts.linesUp = p.linesUpFrom [] p.instructions :=
    (ProgramParts.linesUpFrom_twin program.parts [] program.parts.instructions).symm
  rw [htwin, hinstructions, hiff]
  constructor
  · rintro ⟨vm', hrun, _⟩
    by_contra hnot
    rw [hbad hnot] at hrun
    cases hrun
  · intro hlined
    obtain ⟨vm, hrun, n, hn, hend⟩ := hgood hlined
    have hproducts := hend.products
    rw [t.emittable.lowered.pendingAt_last hn] at hproducts
    exact ⟨vm, hrun, List.forall₂_nil_left_iff.mp hproducts⟩

/-- A run of a stream that lines up stops at no round, on any host. -/
theorem runPlain_of_linesUp {host : Poseidon2.Host} {inputs : List (InputValue Fr)}
    {queue : List (List (SiteTrace Fr))} (hlined : program.parts.linesUp = true)
    (hinputs : program.parts.InputsMatch inputs) (hqueue : QueueMatches host program queue inputs) :
    Vm.runPlain host program queue inputs ≠ .error .roundMismatch := by
  let p := program.parts.gadgetTwin
  have hw : p.WellEncoded := program.wellEncoded.gadgetTwin
  have hserviced : ∀ batch ∈ p.gadgetBatches, batch.kind.isPrecomputed = false := by
    intro batch hbatch
    obtain ⟨batch', _, rfl⟩ := List.mem_map.mp hbatch
    exact Setting.gadgetTwin_serviced batch'
  have hready := initial_ready hw [] inputs
  -- The twin has the same instructions, and starts with nothing in flight.
  have hlinedTwin : p.linesUpFrom (Effect.initial p [] inputs).pendingMulDst p.instructions = true := by
    rw [(Vm.initial_idle p [] inputs).2]
    exact (ProgramParts.linesUpFrom_twin program.parts [] program.parts.instructions).trans hlined
  have hrun : Meets (· ≠ .roundMismatch) (fun _ => True)
      (Vm.runPlain host program.gadgetTwin [] inputs) := by
    show Meets _ _ (Vm.run (plainDriver host) p host [] () inputs)
    have hlen : inputs.length = p.numInputs := hinputs.length
    unfold Vm.run
    rw [ensure_of hlen, ok_bind, initializeInputs_eq_ok hw ⟨hlen, hinputs.variants⟩, ok_bind]
    unfold Vm.executeInstructions
    -- Its execution may overflow a vector, but stops at no round.
    have hexecute : Meets (· ≠ .roundMismatch) (fun vm => vm.Ready p)
        (p.instructions.foldlM (Vm.executeInstruction (plainDriver host) p host)
            (Effect.initial p [] inputs) >>= fun vm =>
          ensure (vm.pendingMulDst = []) .pendingMulLocal >>= fun _ => pure vm) := by
      refine Meets.bind ((ProgramParts.linesUpFrom_meets host hw hserviced hready hw.instructions
        hlinedTwin).weaken ?_ fun _ => id) ?_
      · rintro _ rfl
        exact nofun
      · rintro vm ⟨hvm, hnone⟩
        rw [ensure_of hnone, ok_bind]
        exact hvm
    apply hexecute.bind
    intro vm hvm
    refine (finishWitness_plain hw hvm hlen).weaken ?_ fun _ _ => trivial
    rintro _ ⟨batches, rfl⟩
    exact nofun
  rw [← runPlain_twin hqueue]
  intro herror
  rw [herror] at hrun
  exact hrun rfl

end Codegen

namespace Graph

/-! ## The lowering, stage by stage -/

deriving instance DecidableEq for Graph

theorem runLower_eq (g : Graph) : PassManager.runLower g =
    lowerRounds g >>= fun k => WideSchedule.run k >>= fun r => pure r.1 := by
  unfold PassManager.runLower PassManager.pipeline PassManager.lowerStep lowerRounds
  simp only [List.foldlM_cons, List.foldlM_nil]
  cases MulSplit.run g with
  | error e => rfl
  | ok h =>
    rw [ok_bind, ok_bind]
    cases hround : RoundSchedule.run h.1 with
    | error e =>
      simp only [pure_bind, hround]
      rfl
    | ok k =>
      simp only [pure_bind, hround, ok_bind]
      cases WideSchedule.run k.1 <;> rfl

/-- What `wide_schedule` sorts. -/
def wideUnits (g : Graph) : Except Panic (List ((Nat × Nat) × WideSchedule.NodeRange)) := do
  let net ← networkLevels g (← computeDomains g)
  let full ← fullLevels g
  (← WideSchedule.units g.nodes 0).mapM (WideSchedule.keyed net full)

/-- The rest of `wide_schedule`, behind the sort. -/
def wideRest (g : Graph) (sorted : List ((Nat × Nat) × WideSchedule.NodeRange)) :
    Except Panic (Graph × Bool) := do
  let p ← ((sorted.map Prod.snd).flatMap WideSchedule.NodeRange.indices).foldlM
    (placeNode "wide_schedule: input not yet placed" g.nodes)
    ⟨List.replicate g.nodes.length none, [], g.numRounds⟩
  let g ← g.rebuildNodes p.nodes p.remap
  pure (g, true)

theorem wideRun_eq {g : Graph} {units sorted : List ((Nat × Nat) × WideSchedule.NodeRange)}
    (hnodes : g.nodes.isEmpty = false) (hunits : g.wideUnits = .ok units)
    (hcheck : ((windows units).all fun pair => WideSchedule.keyLe pair.1.1 pair.2.1) = false)
    (hsort : units.mergeSort (fun a b => WideSchedule.keyLe a.1 b.1) = sorted) :
    WideSchedule.run g = g.wideRest sorted := by
  unfold wideUnits at hunits
  obtain ⟨domains, hdomains, hunits⟩ := bind_eq_ok.mp hunits
  obtain ⟨net, hnet, hunits⟩ := bind_eq_ok.mp hunits
  obtain ⟨full, hfull, hunits⟩ := bind_eq_ok.mp hunits
  obtain ⟨ranges, hranges, hunits⟩ := bind_eq_ok.mp hunits
  unfold WideSchedule.run wideRest
  rw [hnodes, if_neg Bool.false_ne_true, hdomains, ok_bind, hnet, ok_bind, hfull, ok_bind, hranges,
    ok_bind, hunits, ok_bind, hcheck, if_neg Bool.false_ne_true, hsort]

theorem ok_of_toOption {ε α : Type} {x : Except ε α} {a : α} (h : x.toOption = some a) : x = .ok a := by
  cases x with
  | error e => cases h
  | ok b =>
    cases h
    rfl

/-- A lowering that sorts, from what each of its stages computes. -/
theorem runLower_sorted {g batched widened : Graph}
    {units sorted : List ((Nat × Nat) × WideSchedule.NodeRange)}
    (hrounds : (lowerRounds g).toOption = some batched) (hnodes : batched.nodes.isEmpty = false)
    (hunits : batched.wideUnits.toOption = some units)
    (hcheck : ((windows units).all fun pair => WideSchedule.keyLe pair.1.1 pair.2.1) = false)
    (hsort : units.mergeSort (fun a b => WideSchedule.keyLe a.1 b.1) = sorted)
    (hrest : (batched.wideRest sorted).toOption = some (widened, true)) :
    PassManager.runLower g = .ok widened := by
  rw [runLower_eq, ok_of_toOption hrounds, ok_bind,
    wideRun_eq hnodes (ok_of_toOption hunits) hcheck hsort, ok_of_toOption hrest]
  rfl

/-! ## When a compiled stream lines up -/

/-- **When a lowered circuit's instruction stream lines up.** For every frontend graph, lowered and
    compiled: every reshare names the products in flight, and none are left at the end, exactly if
    behind `round_schedule` the products of every round come in the order of their full levels. Then no
    run on inputs of the declared variants stops at a round; otherwise every one does, on a host whose
    vectors hold the program's decompositions. -/
theorem lowered_stream {g : Graph} (hg : g.Compilable) : ∃ k g', lowerRounds g = .ok k ∧
    PassManager.runLower g = .ok g' ∧ ∀ program, Codegen.compile g' = .ok program →
      (program.parts.linesUp = true ↔ k.Ascending) ∧
        ∀ (host : Poseidon2.Host) (inputs : List (InputValue Fr)) (queue : List (List (SiteTrace Fr))),
          program.parts.InputsMatch inputs → QueueMatches host program queue inputs →
            (k.Ascending → Vm.runPlain host program queue inputs ≠ .error .roundMismatch) ∧
            (program.parts.TracesFit host → ¬ k.Ascending →
              Vm.runPlain host program queue inputs = .error .roundMismatch) := by
  obtain ⟨h, k, g', hrounds, hlower, hl, _, hiff, _⟩ := lowering_rounds hg.frontend
  refine ⟨k, g', hrounds, hlower, ?_⟩
  intro program hprogram
  obtain ⟨t, fin, hcompiled⟩ := Codegen.compile_eq_ok (hl.emittable hg) hprogram
  have hstream := hcompiled.linesUp_iff.trans hiff
  refine ⟨hstream, ?_⟩
  intro host inputs queue hinputs hqueue
  constructor
  · intro hascending
    exact Codegen.runPlain_of_linesUp (hstream.mpr hascending) hinputs hqueue
  · intro hfits hnot
    exact (hcompiled.runs hfits hinputs hqueue).2 fun hlined => hnot (hiff.mp hlined)

/-- Behind `wide_schedule`: the products of `0`, which is an input, and of the value that waits for a
    public zero test. The first comes in front of the test's result, and the round names it first. -/
def straightWidened : Graph := { twoProducts 0 5 with
  nodes := [⟨.input 1, []⟩, ⟨.input 2, []⟩, ⟨.input 3, []⟩, ⟨.gadget 0, [2]⟩, ⟨.mulLocal, [0, 1]⟩,
    ⟨.gadgetResult 0, [3]⟩, ⟨.add, [0, 5]⟩, ⟨.mulLocal, [6, 1]⟩, ⟨.round 0, [4, 7]⟩,
    ⟨.roundResult 0, [8]⟩, ⟨.roundResult 1, [8]⟩, ⟨.add, [9, 10]⟩]
  outputs := [(0, 11)]
  numRounds := 1 }

/-- The units of the batched graph, by their levels. -/
def straightUnits : List ((Nat × Nat) × WideSchedule.NodeRange) :=
  [((0, 0), ⟨0, 1⟩), ((0, 0), ⟨1, 2⟩), ((0, 0), ⟨2, 3⟩), ((0, 0), ⟨3, 4⟩), ((0, 1), ⟨4, 5⟩),
    ((0, 1), ⟨5, 6⟩), ((0, 0), ⟨6, 7⟩), ((0, 1), ⟨7, 8⟩), ((0, 1), ⟨8, 11⟩), ((1, 2), ⟨11, 12⟩)]

/-- The same, sorted. -/
def straightSorted : List ((Nat × Nat) × WideSchedule.NodeRange) :=
  [((0, 0), ⟨0, 1⟩), ((0, 0), ⟨1, 2⟩), ((0, 0), ⟨2, 3⟩), ((0, 0), ⟨3, 4⟩), ((0, 0), ⟨6, 7⟩),
    ((0, 1), ⟨4, 5⟩), ((0, 1), ⟨5, 6⟩), ((0, 1), ⟨7, 8⟩), ((0, 1), ⟨8, 11⟩), ((1, 2), ⟨11, 12⟩)]

/-- Behind `round_schedule`: the round's operands are the products of `0` and of `5`. -/
def straightBatched : Graph := { twoProducts 0 5 with
  nodes := [⟨.input 1, []⟩, ⟨.input 2, []⟩, ⟨.input 3, []⟩, ⟨.gadget 0, [2]⟩, ⟨.gadgetResult 0, [3]⟩,
    ⟨.add, [0, 4]⟩, ⟨.mulLocal, [0, 1]⟩, ⟨.mulLocal, [5, 1]⟩, ⟨.round 0, [6, 7]⟩,
    ⟨.roundResult 0, [8]⟩, ⟨.roundResult 1, [8]⟩, ⟨.add, [9, 10]⟩]
  outputs := [(0, 11)]
  numRounds := 1 }

theorem straightUnits_sorted :
    straightUnits.mergeSort (fun a b => WideSchedule.keyLe a.1 b.1) = straightSorted := by
  simp [straightUnits, straightSorted, List.mergeSort, List.MergeSort.Internal.splitInTwo,
    WideSchedule.keyLe]

theorem straight_lowers : PassManager.runLower (twoProducts 0 5) = .ok straightWidened := by
  have hrounds : (lowerRounds (twoProducts 0 5)).toOption = some straightBatched := by decide +kernel
  have hunits : straightBatched.wideUnits.toOption = some straightUnits := by decide +kernel
  exact runLower_sorted hrounds rfl hunits (by decide) straightUnits_sorted (by decide +kernel)

/-- The test's node and its result's are the only ones of their kind. -/
theorem twoProducts_nodes {v : ValueId} {n : Lib.Cell Op} (h : (twoProducts 0 5).nodes[v]? = some n) :
    (∀ slot, n.op = .gadgetResult slot → v = 4) ∧
      (∀ site, n.op = .gadget site → site = 0 ∧ n.inputs.length = 1) := by
  have hnode : (n, v) ∈ (twoProducts 0 5).nodes.zipIdx := by
    rw [List.mk_mem_zipIdx_iff_getElem?]
    exact h
  simp only [twoProducts, List.zipIdx_cons, List.zipIdx_nil, List.mem_cons, List.not_mem_nil,
    Prod.mk.injEq, or_false] at hnode
  rcases hnode with ⟨rfl, rfl⟩ | ⟨rfl, rfl⟩ | ⟨rfl, rfl⟩ | ⟨rfl, rfl⟩ | ⟨rfl, rfl⟩ | ⟨rfl, rfl⟩ |
    ⟨rfl, rfl⟩ | ⟨rfl, rfl⟩ | ⟨rfl, rfl⟩ <;> simp

theorem twoProducts_compilable : (twoProducts 0 5).Compilable where
  frontend := by decide
  slots := by
    rintro site slot u v ⟨_, hu, _⟩ ⟨_, hv, _⟩
    rw [(twoProducts_nodes hu).1 slot rfl, (twoProducts_nodes hv).1 slot rfl]
  arity v site inputs s hnode hsite := by
    obtain ⟨rfl, hlength⟩ := (twoProducts_nodes hnode).2 site rfl
    cases hsite
    exact hlength
  host s hs := by
    cases List.mem_singleton.mp hs
    exact nofun

/-- Two products in one round, the second of a value the first does not wait for: the round lists
    them in the order the stream has them, and no run is stopped. -/
theorem lowered_stream_straight : ∃ g' program, PassManager.runLower (twoProducts 0 5) = .ok g' ∧
    Codegen.compile g' = .ok program ∧ program.parts.linesUp = true ∧
      ∀ x y z : Fr, Vm.runPlain default program [] [.secret x, .secret y, .public z] ≠
        .error .roundMismatch := by
  obtain ⟨k, g', hrounds, hlower, hstream⟩ := lowered_stream twoProducts_compilable
  have hascending : ((lowerRounds (twoProducts 0 5)).toOption.any fun k => decide k.Ascending) = true := by
    decide +kernel
  rw [hrounds] at hascending
  rw [straight_lowers] at hlower
  cases hlower
  have hcheck : ((Codegen.compile straightWidened).toOption.any fun program =>
      decide (program.parts.numInputs = 3 ∧ program.parts.inputDomains = [.shared, .shared, .public] ∧
        ∀ batch ∈ program.parts.gadgetBatches, batch.kind.isPrecomputed = false)) = true := by
    decide +kernel
  cases hcompile : Codegen.compile straightWidened with
  | error e =>
    rw [hcompile] at hcheck
    cases hcheck
  | ok program =>
    rw [hcompile] at hcheck
    simp only [Except.toOption, Option.any_some, decide_eq_true_eq] at hcheck hascending
    obtain ⟨hcount, hdomains, hbatches⟩ := hcheck
    obtain ⟨hlines, hruns⟩ := hstream program hcompile
    refine ⟨straightWidened, program, straight_lowers, hcompile, hlines.mpr hascending, ?_⟩
    intro x y z
    have hmatch : program.parts.InputsMatch [.secret x, .secret y, .public z] := by
      refine ⟨hcount.symm, ?_⟩
      intro i value hvalue
      rw [hdomains]
      have hi : i < 3 := (List.getElem?_eq_some_iff.mp hvalue).1
      rcases i with _ | _ | _ | i
      · cases hvalue
        rfl
      · cases hvalue
        rfl
      · cases hvalue
        rfl
      · omega
    exact (hruns default _ [] hmatch (Codegen.queueMatches_nil hbatches)).1 hascending

/-! ## A stream that does not -/

/-- Behind `round_schedule`: the round's operands are the products of `5` and of `0`. -/
def crossedBatched : Graph := { twoProducts 5 0 with
  nodes := [⟨.input 1, []⟩, ⟨.input 2, []⟩, ⟨.input 3, []⟩, ⟨.gadget 0, [2]⟩, ⟨.gadgetResult 0, [3]⟩,
    ⟨.add, [0, 4]⟩, ⟨.mulLocal, [5, 1]⟩, ⟨.mulLocal, [0, 1]⟩, ⟨.round 0, [6, 7]⟩,
    ⟨.roundResult 0, [8]⟩, ⟨.roundResult 1, [8]⟩, ⟨.add, [9, 10]⟩]
  outputs := [(0, 11)]
  numRounds := 1 }

/-- Behind `wide_schedule`: they are still, but the product of `0` has moved to the front. -/
def crossedWidened : Graph := { twoProducts 5 0 with
  nodes := [⟨.input 1, []⟩, ⟨.input 2, []⟩, ⟨.input 3, []⟩, ⟨.gadget 0, [2]⟩, ⟨.mulLocal, [0, 1]⟩,
    ⟨.gadgetResult 0, [3]⟩, ⟨.add, [0, 5]⟩, ⟨.mulLocal, [6, 1]⟩, ⟨.round 0, [7, 4]⟩,
    ⟨.roundResult 0, [8]⟩, ⟨.roundResult 1, [8]⟩, ⟨.add, [9, 10]⟩]
  outputs := [(0, 11)]
  numRounds := 1 }

/-- The units of the batched graph, by their levels. -/
def crossedUnits : List ((Nat × Nat) × WideSchedule.NodeRange) :=
  [((0, 0), ⟨0, 1⟩), ((0, 0), ⟨1, 2⟩), ((0, 0), ⟨2, 3⟩), ((0, 0), ⟨3, 4⟩), ((0, 1), ⟨4, 5⟩),
    ((0, 1), ⟨5, 6⟩), ((0, 1), ⟨6, 7⟩), ((0, 0), ⟨7, 8⟩), ((0, 1), ⟨8, 11⟩), ((1, 2), ⟨11, 12⟩)]

/-- The same, sorted. -/
def crossedSorted : List ((Nat × Nat) × WideSchedule.NodeRange) :=
  [((0, 0), ⟨0, 1⟩), ((0, 0), ⟨1, 2⟩), ((0, 0), ⟨2, 3⟩), ((0, 0), ⟨3, 4⟩), ((0, 0), ⟨7, 8⟩),
    ((0, 1), ⟨4, 5⟩), ((0, 1), ⟨5, 6⟩), ((0, 1), ⟨6, 7⟩), ((0, 1), ⟨8, 11⟩), ((1, 2), ⟨11, 12⟩)]

theorem crossedUnits_sorted :
    crossedUnits.mergeSort (fun a b => WideSchedule.keyLe a.1 b.1) = crossedSorted := by
  simp [crossedUnits, crossedSorted, List.mergeSort, List.MergeSort.Internal.splitInTwo,
    WideSchedule.keyLe]

theorem twoProducts_lowers : PassManager.runLower (twoProducts 5 0) = .ok crossedWidened := by
  have hrounds : (lowerRounds (twoProducts 5 0)).toOption = some crossedBatched := by decide +kernel
  have hunits : crossedBatched.wideUnits.toOption = some crossedUnits := by decide +kernel
  exact runLower_sorted hrounds rfl hunits (by decide) crossedUnits_sorted (by decide +kernel)

/-- The products of `5`, which waits for a public zero test, and of `0` with a secret: the stream has
    the second first, the round's table the first. -/
theorem twoProducts_crossed : (twoProducts 5 0).Frontend ∧ ∃ g' program,
    PassManager.runLower (twoProducts 5 0) = .ok g' ∧ Codegen.compile g' = .ok program ∧
      program.parts.linesUp = false := by
  have hcheck : ((Codegen.compile crossedWidened).toOption.any fun program =>
      !program.parts.linesUp) = true := by
    decide +kernel
  refine ⟨by decide, crossedWidened, ?_⟩
  cases hcompile : Codegen.compile crossedWidened with
  | error e =>
    rw [hcompile] at hcheck
    cases hcheck
  | ok program =>
    rw [hcompile] at hcheck
    exact ⟨program, twoProducts_lowers, rfl, by simpa [Except.toOption] using hcheck⟩

end Graph
end CircomMpc
