import CircomMpc.Codegen.Pipeline
import CircomMpc.Rep3.Lockstep

/-!
# From the frontend's graph to the parties' shares

Three parties run what the compiler made of a graph, on sharings of its inputs. They end with sharings
of the witness the graph means, unless the network fails them; where the compiler has left a round
out of order they end with nothing.

Two halves are put together here. `PassManager.run_ok` and `Compiled.runs` say what a plain run of
the compiled program returns, and `Vm.runRep3_tracks` that a run on sharings tracks it. What the
parties promise (`Promised`) is about their inputs and their masks and names no compiler.
-/

namespace CircomMpc

open Lib

variable {σ S : Type} {net : Rep3 σ S} {value : S → Fr} {integer : net.Binary → Nat}

/-- The whole witness of a run on sharings, reconstructed. -/
def Witness.openFull (value : S → Fr) (w : Witness S) : List Fr :=
  w.publicInputs ++ w.witness.map value

namespace Graph

/-- **From the frontend's graph to the parties' shares.** A circuit is optimized, lowered and compiled,
    and run by three parties on sharings of inputs of the declared variants. If the products of every
    round come in the order of their full levels, the run fails with the network only, or for want of
    masks that no `usize` counts, and otherwise leaves sharings of the witness the circuit means; if
    they do not, it leaves none. -/
theorem circuit_runs_shared {g : Graph} (hg : g.Compilable) (opt : OptLevel)
    (hnet : net.Correct value integer) : ∃ o k g', PassManager.runOptimize opt g = .ok o ∧
      lowerRounds o = .ok k ∧ PassManager.run opt g = .ok g' ∧ (o.SecretSites → k.Ascending) ∧
        ∀ program, Codegen.compile g' = .ok program →
          ∀ (host : Poseidon2.Host) (queue : List (List (SiteTrace S))) (s : σ)
            (inputs : List (InputValue S)),
            program.parts.Promised net value host queue s inputs →
            program.parts.InputsMatch (inputs.map (·.reconstruct value)) →
            QueueMatches host program (queue.map fun sites => sites.map (·.reconstruct value))
              (inputs.map (·.reconstruct value)) →
              (k.Ascending → Meets
                (fun e => NetworkFailed e ∨
                  2 ^ 64 ≤ program.parts.masksBefore program.parts.instructions.length * 2)
                (fun w => w.openFull value = g.witnessOf host (inputs.map (·.reconstruct value)))
                (Vm.runRep3 net host program queue s inputs)) ∧
              (¬ k.Ascending → ∀ w, Vm.runRep3 net host program queue s inputs ≠ .ok w) := by
  obtain ⟨o, k, g', hoptimize, hrounds, hrun, hemittable, hiff, hsecret, hwitness⟩ :=
    PassManager.run_ok hg opt
  refine ⟨o, k, g', hoptimize, hrounds, hrun, hsecret, ?_⟩
  intro program hprogram host queue s inputs hpromised hinputs hqueue
  obtain ⟨t, fin, hcompiled⟩ := Codegen.compile_eq_ok hemittable hprogram
  obtain ⟨hgood, hbad⟩ := hcompiled.runs (hpromised.narrow.tracesFit host) hinputs hqueue
  -- The run on sharings tracks the plain run, in both directions.
  have htracks := Vm.runRep3_tracks hnet hpromised
  rw [← hiff, ← hwitness]
  constructor
  · intro hlined
    obtain ⟨w', hplain, hvalues⟩ := hgood hlined
    apply (htracks.forward w' hplain).post
    rintro w ⟨hpublic, hshared⟩
    show w.publicInputs ++ w.witness.map value = _
    rw [hpublic, hshared]
    exact hvalues
  · -- A run that left a witness would be tracked by a plain run that returns one.
    intro hnot w hw
    obtain ⟨w', hplain⟩ := htracks.backward w hw
    rw [hbad hnot] at hplain
    cases hplain

/-- Three parties get through the chained products. -/
theorem chainedProducts_shared : ∃ g' program w, PassManager.run .O1 chainedProducts = .ok g' ∧
    Codegen.compile g' = .ok program ∧ program.parts.gadgetBatches = [] ∧
      program.parts.InputsMatch [.secret 2, .secret 3, (.secret 5 : InputValue Fr)] ∧
        Vm.runRep3 ideal default program [] () [.secret (1, 1, 0), .secret (0, 1, 2), .secret (1, 3, 1)] =
          .ok w := by
  obtain ⟨g', program, hlower, hcompile, _, hmatch, hbatches⟩ := Codegen.chainedProducts_compiles
  have hrun : PassManager.run .O1 chainedProducts = .ok g' := by
    unfold PassManager.run
    rw [runOptimize_chained, ok_bind, hlower]
  have hcheck : ((PassManager.runLower chainedProducts).toOption.any fun g' =>
      (Codegen.compile g').toOption.any fun program => (Vm.runRep3 ideal default program [] ()
        [.secret (1, 1, 0), .secret (0, 1, 2), .secret (1, 3, 1)]).toOption.isSome) = true := by
    decide +kernel
  simp only [hlower, hcompile, Except.toOption, Option.any_some] at hcheck
  refine ⟨g', program, ?_⟩
  cases hw : Vm.runRep3 ideal default program [] ()
      [.secret (1, 1, 0), .secret (0, 1, 2), .secret (1, 3, 1)] with
  | ok w => exact ⟨w, hrun, hcompile, hbatches, hmatch, rfl⟩
  | error e =>
    rw [hw] at hcheck
    cases hcheck

theorem circuit_runs_shared_chained : ∃ g' program w,
    PassManager.run .O1 chainedProducts = .ok g' ∧ Codegen.compile g' = .ok program ∧
      Vm.runRep3 ideal default program [] () [.secret (1, 1, 0), .secret (0, 1, 2), .secret (1, 3, 1)] =
        .ok w ∧
      w.openFull Summands.sum =
        chainedProducts.witnessOf default [.secret 2, .secret 3, .secret 5] := by
  obtain ⟨g', program, w, hrun, hcompile, hbatches, hmatch, hw⟩ := chainedProducts_shared
  obtain ⟨o, k, g'', hoptimize, _, hrun', hsecret, hruns⟩ :=
    circuit_runs_shared Codegen.chainedProducts_compilable .O1 ideal_correct
  rw [runOptimize_chained] at hoptimize
  cases hoptimize
  rw [hrun] at hrun'
  cases hrun'
  have hpromised : program.parts.Promised ideal Summands.sum default [] ()
      [.secret (1, 1, 0), .secret (0, 1, 2), .secret (1, 3, 1)] := by
    constructor
    · intro batch hmem
      rw [hbatches] at hmem
      cases hmem
    · exact fun _ _ _ _ _ _ _ _ _ _ _ => ideal_draw_ne_zero
  have hvalue : [InputValue.secret ((1, 1, 0) : Summands), .secret (0, 1, 2),
      .secret (1, 3, 1)].map (·.reconstruct Summands.sum) = [.secret 2, .secret 3, .secret 5] := by
    decide
  have hshared := hruns program hcompile default [] ()
    [.secret (1, 1, 0), .secret (0, 1, 2), .secret (1, 3, 1)] hpromised
  rw [hvalue] at hshared
  exact ⟨g', program, w, hrun, hcompile, hw, ((hshared hmatch
    (Codegen.queueMatches_nil (by simp [hbatches]))).1 (hsecret secretSites_chained)).of_ok hw⟩

end Graph
end CircomMpc
