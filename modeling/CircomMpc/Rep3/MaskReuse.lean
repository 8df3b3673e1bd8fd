import CircomMpc.Codegen.Stream
import CircomMpc.Rep3.Lockstep

/-!
# No mask is used twice

The mask pool from both of its owners' sides. A driver sizes it by `mask_budget` and spends it in the
order of the instructions; a standalone service sizes it by its number of sites and spends it call by
call, and may be called again after a call that failed. `mask_budget_exact` puts their accounts beside
what a layer does with the masks it is given. `twoHashesProgram` at the end runs one batch of a site
twice and one of two sites in between, over the ideal library, and uses up its pool.
-/

namespace CircomMpc

open Lib Poseidon2

variable {σ S : Type}

/-- **The mask budget is exact, and no mask is used twice.** In a run with a driver sized by
    `mask_budget`, whatever the other parties answer: no check on the pool ever fails; the positions
    read by the s-box layers are those from zero up to the cursor, each once and in order; an
    instruction that runs a Poseidon2 batch on sharings moves the cursor by that batch's
    `mask_elements` and any other leaves it where it is; and once the instructions are done, `finish`
    succeeds. A layer, in a run or not, opens every input under a mask of its own, the next one.

    Outside a run, a walk that asks for more sites than the pool has left is refused with the pool as
    it was. So is a service's call; and of a service that was made by `new` and called any number of
    times since, with whatever outcome, the pool's positions have been read in order, and a call that
    asks for no more than is left is served if the parties answer. -/
theorem mask_budget_exact (net : Rep3 σ S) (value : S → Fr) (host : Host) (program : Program) :
    (∀ (queue : List (List (SiteTrace S))) (inputs : List (InputValue S)) (s s' : σ)
      (pool : MaskPool S), Rep3Driver.new net program.parts s = .ok (s', pool) →
      (∀ e, Vm.run (rep3Driver net host) program.parts host queue (s', pool) inputs = .error e →
        ¬ PoolFailed e) ∧
      (∀ k ≤ program.parts.instructions.length, ∀ vm,
        Vm.stateAfter (rep3Driver net host) program.parts host queue (s', pool) inputs k = .ok vm →
        vm.driver.2.r = pool.r ∧ vm.driver.2.consumed ≤ pool.r.length ∧
          Consecutive 0 vm.driver.2.served vm.driver.2.consumed ∧
          vm.driver.2.positions = List.range vm.driver.2.consumed) ∧
      (∀ k i vm vm', program.parts.instructions[k]? = some i →
        Vm.stateAfter (rep3Driver net host) program.parts host queue (s', pool) inputs k = .ok vm →
        Vm.executeInstruction (rep3Driver net host) program.parts host vm i = .ok vm' →
        (∀ t sites, program.parts.sharedPoseidon2 i = some (t, sites) →
          ∃ masks, maskElements t.get sites = .ok masks ∧
            vm'.driver.2.consumed = vm.driver.2.consumed + masks) ∧
        (program.parts.sharedPoseidon2 i = none →
          vm'.driver.2.consumed = vm.driver.2.consumed)) ∧
      ∀ vm, Vm.stateAfter (rep3Driver net host) program.parts host queue (s', pool) inputs
          program.parts.instructions.length = .ok vm →
        vm.driver.2.consumed = pool.r.length ∧
          (rep3Driver net host).finish vm.driver = .ok vm.driver) ∧
    (∀ (xs : List S) (s : σ) (pool : MaskPool S) (r : List (SboxTrace S) × (σ × MaskPool S)),
      rep3SboxLayer net xs (s, pool) = .ok r → LayerReads net xs s pool r) ∧
    (∀ (t : Nat) (states : List S) (outputs : List (SiteOutput S)) (s : σ) (pool : MaskPool S),
      pool.r.length < pool.consumed + outputs.length * siteMasks t →
      ∃ e, rep3Walk net host t states outputs (s, pool) = .error (e, pool)) ∧
    (∀ (service : Service S) (t : Nat) (states : List (InputValue S)) (s : σ),
      service.preprocessing.r.length <
        service.preprocessing.consumed + states.length / t * siteMasks t →
      ∃ e, service.trace net host t states s = .error (e, service)) ∧
    ∀ (t sites : Nat) (s s' : σ) (fresh service : Service S),
      Service.new net t sites s = .ok (fresh, s') → Service.Reached net host fresh service →
      service.preprocessing.r.length = sites * siteMasks t ∧
      service.preprocessing.positions = List.range service.preprocessing.consumed ∧
      ∀ (states : List (InputValue S)) (more : Nat) (s : σ), net.Answers value → 0 < more →
        states.length = more * t →
        service.preprocessing.consumed + more * siteMasks t ≤ sites * siteMasks t →
        ∃ traces s' service', service.trace net host t states s = .ok (traces, (s', service')) ∧
          traces.length = more ∧ service'.preprocessing.consumed =
            service.preprocessing.consumed + more * siteMasks t := by
  have hwell := program.wellEncoded
  refine ⟨fun queue inputs s s' pool hnew => ?_, fun xs s pool r hlayer => ?_,
    fun t states outputs s pool hshort => rep3Walk_refuses net host states s hshort,
    fun service t states s hshort => Service.trace_refuses host s hshort,
    fun t sites s s' fresh service hnew hreached => ?_⟩
  · obtain ⟨hholds, hlength, hconsumed, hserved⟩ := driver_new_eq_ok hnew
    -- What every prefix of the run has spent, whatever the other parties answered.
    have hspends := fun (k : Nat) (hk : k ≤ program.parts.instructions.length) =>
      @stateAfter_spends _ _ net host _ hwell queue (s', pool) inputs hholds k hk
    have hspent : ∀ k ≤ program.parts.instructions.length, ∀ vm,
        Vm.stateAfter (rep3Driver net host) program.parts host queue (s', pool) inputs k =
          .ok vm → Spending pool (program.parts.masksBefore k) 0 vm.driver.2 := by
      intro k hk vm hvm
      have hmeets := hspends k hk
      rw [hvm] at hmeets
      exact hmeets
    -- At the end of the stream the cursor stands at the whole budget.
    have hdone : ∀ vm : VmState (σ × MaskPool S) S,
        Spending pool (program.parts.masksBefore program.parts.instructions.length) 0
          vm.driver.2 → vm.driver.2.consumed = vm.driver.2.r.length := by
      intro vm hvm
      have hcursor := hvm.cursor
      rw [hvm.r]
      omega
    refine ⟨fun e hrun => ?_, fun k hk vm hvm => ?_, fun k i vm vm' hi hvm hstep => ?_,
      fun vm hvm => ?_⟩
    · -- No failure is the pool's: not of an instruction, and not of `finish`, which finds it used up.
      have hquiet : Quiet (Vm.run (rep3Driver net host) program.parts host queue (s', pool)
          inputs) := by
        rw [Vm.run_eq]
        refine Meets.bind (hspends _ (Nat.le_refl _)) fun vm hvm => ?_
        exact (Quiet.ensure id).bind fun _ => finishWitness_quiet inputs (hdone vm hvm)
      unfold Quiet at hquiet
      rw [hrun] at hquiet
      exact hquiet
    · -- The pool is the one prepared, only further on.
      have hspent' := hspent k hk vm hvm
      have hcursor := hspent'.cursor
      have hle := masksBefore_mono program.parts hk
      have hread := hspent'.toAhead.consecutive hserved hconsumed
      exact ⟨hspent'.r, by omega, hread, MaskPool.positions_eq hread⟩
    · have hk : k < program.parts.instructions.length := by
        by_contra hge
        rw [List.getElem?_eq_none (Nat.le_of_not_lt hge)] at hi
        cases hi
      have hspent' := hspent k (Nat.le_of_lt hk) vm hvm
      -- What the instruction takes is within the budget, so the pool holds it.
      have hleft := masksBefore_mono program.parts (Nat.succ_le_of_lt hk)
      rw [Nat.succ_eq_add_one, masksBefore_succ hi] at hleft
      have hholds' := hspent'.leaves hholds hleft
      have hmoved := @executeInstruction_spends _ _ net host _ _ hwell i hholds'
      rw [hstep] at hmoved
      have hmoved' : Spending vm.driver.2 (masksFor (program.parts.sharedPoseidon2 i)) 0
        vm'.driver.2 := hmoved
      have hcursor := hmoved'.cursor
      refine ⟨fun t sites hshared => ?_, fun hother => ?_⟩
      · rw [hshared] at hholds' hcursor
        have hbound := hholds'.left
        have hlengthBound := hholds'.bounded
        simp only [masksFor] at hbound hcursor
        exact ⟨_, maskElements_ok t.supported (by omega), by omega⟩
      · rw [hother] at hcursor
        simpa [masksFor] using hcursor
    · have hspent' := hspent _ (Nat.le_refl _) vm hvm
      have hused := hdone vm hspent'
      refine ⟨by rw [hused, hspent'.r], ?_⟩
      show (vm.driver.2.ensureConsumed >>= fun _ => _) = _
      unfold MaskPool.ensureConsumed
      rw [ensure_of hused]
      rfl
  · have hreads := rep3SboxLayer_reads net xs s pool
    rw [hlayer] at hreads
    exact hreads
  · obtain ⟨ht, hwidth, hlength, hbounded, hconsumed, hserved⟩ := Service.new_eq_ok hnew
    obtain ⟨hsame, hahead⟩ := hreached.ahead
    have hread := hahead.consecutive hserved hconsumed
    refine ⟨by rw [hahead.r, hlength], MaskPool.positions_eq hread,
      fun states more s hnet hmore hlen hleft => ?_⟩
    -- The columns are those the service was made with, and even; that is all a call needs.
    have hholds : service.preprocessing.Holds (more * siteMasks t) :=
      ⟨by rw [hahead.r, hlength]; exact hleft, by rw [hahead.r]; exact hbounded⟩
    obtain ⟨traces, s', service', htrace, hcount, hspent⟩ :=
      Service.trace_serves host hnet (hahead.even (Service.new_even hnet hnew)) (w := ⟨t, ht⟩)
        (hsame.trans hwidth) hmore hlen hholds s
    exact ⟨traces, s', service', htrace, hcount, hspent.cursor⟩

/-- Two Poseidon2 batches on sharings, of one site and of two, the first of them run twice. -/
def twoHashesParts : ProgramParts where
  instructions := [.gadget ⟨0⟩, .gadget ⟨1⟩, .gadget ⟨0⟩]
  constants := []
  inputDomains := [.shared, .shared]
  inputs := [⟨.shared, ⟨0⟩, ⟨0⟩⟩, ⟨.shared, ⟨1⟩, ⟨1⟩⟩]
  inputSignals := [⟨"in", 0, 2⟩]
  rounds := []
  roundOperands := []
  roundResults := []
  gadgetBatches := [
    ⟨.gadget (.poseidon2 ((Poseidon2Width.new? 2).get rfl)), 1,
      [⟨.shared, ⟨0⟩⟩, ⟨.shared, ⟨1⟩⟩], [⟨0⟩], [0, 1], [⟨.shared, ⟨2⟩⟩]⟩,
    ⟨.gadget (.poseidon2 ((Poseidon2Width.new? 2).get rfl)), 2,
      [⟨.shared, ⟨2⟩⟩, ⟨.shared, ⟨1⟩⟩, ⟨.shared, ⟨1⟩⟩, ⟨.shared, ⟨0⟩⟩], [⟨1⟩, ⟨0⟩], [0, 1, 2],
      [⟨.shared, ⟨3⟩⟩, ⟨.shared, ⟨4⟩⟩]⟩]
  witnessSources := [.one, .slot .shared ⟨4⟩]
  numInputs := 2
  slots := ⟨0, 5, 0⟩
  numPublicWitness := 1

def twoHashesProgram : Program := ⟨twoHashesParts, by rfl⟩

def twoHashesInputs : List (InputValue Summands) := [.secret (1, 1, 0), .secret (3, 0, 4)]

/-- In the clear the instructions run through. -/
theorem twoHashes_plain : ∃ vm, Vm.stateAfter (plainDriver default) twoHashesParts default [] ()
    (twoHashesInputs.map (·.reconstruct Summands.sum)) 3 = .ok vm := by
  have hw : twoHashesParts.WellEncoded := twoHashesProgram.wellEncoded
  have hinputs : twoHashesParts.InputsMatch
      (twoHashesInputs.map (·.reconstruct Summands.sum)) := by
    refine ⟨rfl, ?_⟩
    rintro (_ | _ | i) value hvalue
    · cases hvalue
      rfl
    · cases hvalue
      rfl
    · cases hvalue
  have hserviced : ∀ batch ∈ twoHashesParts.gadgetBatches, batch.kind.isPrecomputed = false := by
    decide
  have hfits : twoHashesParts.TracesFit default := by
    intro batch hbatch kind hkind
    cases List.mem_pair.mp hbatch with
    | inl h => subst h; cases hkind; rfl
    | inr h => subst h; cases hkind; rfl
  have hruns := (ProgramParts.linesUpFrom_iff hfits hw hserviced
    (initial_ready hw [] (twoHashesInputs.map (·.reconstruct Summands.sum))) hw.instructions).mp
    (by rw [(Vm.initial_idle _ _ _).2]; decide)
  obtain ⟨vm, hvm, _⟩ := hruns
  refine ⟨vm, ?_⟩
  unfold Vm.stateAfter
  rw [ensure_of hinputs.length, ok_bind, Codegen.initializeInputs_eq_ok hw hinputs, ok_bind]
  exact hvm

/-- Over parties that answer they do on sharings. -/
theorem twoHashes_runs {pool : MaskPool Summands}
    (hnew : Rep3Driver.new ideal twoHashesParts () = .ok ((), pool)) :
    ∃ vm, Vm.stateAfter (rep3Driver ideal default) twoHashesParts default [] ((), pool)
      twoHashesInputs 3 = .ok vm := by
  have hpromised : twoHashesParts.Promised ideal Summands.sum default [] () twoHashesInputs := by
    refine ⟨?_, fun _ _ _ _ _ _ _ _ _ _ _ => ideal_draw_ne_zero⟩
    intro batch hbatch n hkind
    cases List.mem_pair.mp hbatch with
    | inl h => subst h; cases hkind
    | inr h => subst h; cases hkind
  have htracks := Vm.stateAfter_rep3_tracks (ideal_correct.of_answers ideal_answers)
    twoHashesProgram.wellEncoded hpromised hnew (Nat.le_refl 3)
  obtain ⟨vm', hvm'⟩ := twoHashes_plain
  obtain ⟨vm, hvm, _⟩ := ((htracks.forward vm' hvm').weaken
    (fun _ => Raised.never) fun _ => id).ok_of_never
  exact ⟨vm, hvm⟩

/-- Four sites' masks are prepared for the run and used up by it, one after the other. A service for
    three sites refuses four and serves three then. -/
theorem mask_budget_exact_twoHashes :
    (∃ pool vm, Rep3Driver.new ideal twoHashesParts () = .ok ((), pool) ∧
      Vm.stateAfter (rep3Driver ideal default) twoHashesParts default [] ((), pool) twoHashesInputs
        3 = .ok vm ∧ pool.r.length = 288 ∧ vm.driver.2.positions = List.range 288 ∧
      (rep3Driver ideal default).finish vm.driver = .ok vm.driver) ∧
    ∃ service, Service.new ideal 2 3 () = .ok (service, ()) ∧
      (∃ e, service.trace ideal default 2 (List.replicate 8 (.public 5)) () = .error (e, service)) ∧
      ∃ traces s service', service.trace ideal default 2 (List.replicate 6 (.public 5)) () =
        .ok (traces, (s, service')) ∧ traces.length = 3 ∧ service'.preprocessing.consumed = 216 := by
  obtain ⟨hrun, _, _, hrefuses, hserves⟩ :=
    mask_budget_exact ideal Summands.sum default twoHashesProgram
  constructor
  · have hdriver : (Rep3Driver.new ideal twoHashesParts ()).toOption.isSome = true := by
      decide +kernel
    -- Preparing the pool is a computation over the ideal library, which returns.
    cases hnew : Rep3Driver.new ideal twoHashesParts () with
    | error e =>
      rw [hnew] at hdriver
      cases hdriver
    | ok state =>
      obtain ⟨⟨⟩, pool⟩ := state
      obtain ⟨vm, hvm⟩ := twoHashes_runs hnew
      obtain ⟨_, hpositions, _, hfinished⟩ := hrun [] twoHashesInputs () () pool hnew
      obtain ⟨hused, hfinish⟩ := hfinished vm hvm
      have hlength : pool.r.length = 288 := (driver_new_eq_ok hnew).2.1.trans (by decide)
      -- The positions up to the cursor, and the cursor at the end of the pool.
      have hread := (hpositions 3 (Nat.le_refl 3) vm hvm).2.2.2
      rw [hused, hlength] at hread
      exact ⟨pool, vm, rfl, hvm, hlength, hread, hfinish⟩
  · have hservice : (Service.new ideal 2 3 ()).toOption.isSome = true := by
      decide +kernel
    cases hnew : Service.new ideal 2 3 () with
    | error e =>
      rw [hnew] at hservice
      cases hservice
    | ok made =>
      obtain ⟨service, ⟨⟩⟩ := made
      -- A new service has not been called, and is one of those reached.
      have hfresh := (Service.new_eq_ok hnew).2.2.2.2.1
      obtain ⟨hlength, _, hserved⟩ := hserves 2 3 () () service service hnew .fresh
      refine ⟨service, rfl, hrefuses service 2 _ () ?_, ?_⟩
      · rw [hlength, hfresh]
        decide
      · obtain ⟨traces, s, service', htrace, hcount, hmoved⟩ :=
          hserved (List.replicate 6 (.public 5)) 3 () ideal_answers (by decide) rfl
            (by rw [hfresh]; decide)
        exact ⟨traces, s, service', htrace, hcount, by rw [hmoved, hfresh]; decide⟩

end CircomMpc
