import CircomMpc.Passes.Merging
import CircomMpc.Passes.Pruning

/-!
# The optimisation loop reaches its normal form

The first turn folds and merges everything there is to fold and merge, and leaves dead nodes behind
at most; the second removes those, and finds nothing new to fold or merge; the third finds nothing.
So the loop stops because a turn changed nothing, behind the third turn at the latest, and its bound
of four never cuts it off.

`Tidy` is what a turn leaves, at each level: the normal forms of the passes it ran, without the claim
that nothing is dead. `AllLive` is added by a turn that reports no change, whose result is its own
input.
-/

namespace CircomMpc

open Lib CircomMpc.Graph

namespace PassManager

/-- The loop stops behind its `k`-th turn, the first that changes nothing, and leaves `g'`. Every
    turn in front of it reported a change. -/
inductive StopsAfter (passes : List PassFn) : Nat → Graph → Graph → Prop
  | last {g g' : Graph} (h : iteration passes g = .ok (g', false)) : StopsAfter passes 1 g g'
  | turn {k : Nat} {g g₁ g' : Graph} (h : iteration passes g = .ok (g₁, true))
      (hrest : StopsAfter passes k g₁ g') : StopsAfter passes (k + 1) g g'

/-- With turns to spare, the loop returns what the turn that changes nothing leaves. -/
theorem fixpoint_of_stopsAfter {passes : List PassFn} {k : Nat} {g g' : Graph}
    (h : StopsAfter passes k g g') : ∀ n, k ≤ n → fixpoint passes n g = .ok g' := by
  induction h with
  | last h =>
    intro n hn
    obtain ⟨n, rfl⟩ := Nat.exists_eq_add_of_le' hn
    rw [fixpoint, h]
    rfl
  | turn h _ ih =>
    intro n hn
    obtain ⟨n, rfl⟩ := Nat.exists_eq_add_of_le' (Nat.one_le_of_lt hn)
    rw [fixpoint, h]
    exact ih n (by omega)

/-! ## One turn -/

/-- One pass of a turn. -/
def turn (acc : Graph × Bool) (pass : PassFn) : Except Panic (Graph × Bool) := do
  let (g, changed) ← pass acc.1
  pure (g, acc.2 || changed)

/-- Passes that change nothing in a graph change nothing together. -/
theorem foldlM_turn_of_noop {passes : List PassFn} (acc : Graph × Bool)
    (h : ∀ pass ∈ passes, pass acc.1 = .ok (acc.1, false)) :
    passes.foldlM turn acc = .ok acc := by
  induction passes with
  | nil => rfl
  | cons pass passes ih =>
    have hturn : turn acc pass = .ok acc := by
      unfold turn
      rw [h pass (by simp), ok_bind]
      simp [pure, Except.pure]
    rw [List.foldlM_cons, hturn, ok_bind]
    exact ih fun other hother => h other (by simp [hother])

/-- The passes behind dead code elimination. -/
def later (opt : OptLevel) : List PassFn := (optimize opt).tail

theorem iteration_eq (opt : OptLevel) (g : Graph) :
    iteration (optimize opt) g =
      DeadCode.run g >>= fun r => (later opt).foldlM turn (r.1, r.2) := by
  have hcons : optimize opt = DeadCode.run :: later opt := by cases opt <;> rfl
  show (optimize opt).foldlM turn (g, false) = _
  rw [hcons, List.foldlM_cons]
  unfold turn
  cases DeadCode.run g with
  | error e => rfl
  | ok r => simp [ok_bind, pure, Except.pure]

/-- In a normal form but for dead nodes, as far as the level's passes go: what a turn leaves,
    whether or not it changed anything. -/
structure Tidy (opt : OptLevel) (g : Graph) : Prop where
  frontend : g.Frontend
  masked : g.Masked
  folded : opt ≠ .O0 → g.Folded
  distinct : opt = .O2 → g.Distinct

/-- On a tidy graph only dead code elimination has something to do. -/
theorem Tidy.noop {opt : OptLevel} {g : Graph} (h : Tidy opt g) :
    ∀ pass ∈ later opt, pass g = .ok (g, false) := by
  cases opt with
  | O0 => simp [later, optimize]
  | O1 =>
    have hfold := ConstFold.run_of_folded h.frontend (h.folded (by decide))
    simpa [later, optimize] using hfold
  | O2 =>
    have hfold := ConstFold.run_of_folded h.frontend (h.folded (by decide))
    have hcse := Cse.run_of_distinct h.frontend (h.distinct rfl)
    simpa [later, optimize] using ⟨hfold, hcse⟩

/-- **Every pass leaves a tidy graph alone that has nothing dead.** -/
theorem Tidy.optimize_noop {opt : OptLevel} {g : Graph} (h : Tidy opt g) (hlive : g.AllLive) :
    ∀ pass ∈ optimize opt, pass g = .ok (g, false) := by
  have hcons : optimize opt = DeadCode.run :: later opt := by cases opt <;> rfl
  intro pass hpass
  rw [hcons] at hpass
  rcases List.mem_cons.mp hpass with rfl | hlater
  · exact DeadCode.run_of_live h.frontend h.masked hlive
  · exact h.noop pass hlater

/-- What a turn that has got as far as `acc` knows: nothing is dead, or something was changed since
    the dead nodes went. -/
structure Swept (acc : Graph × Bool) : Prop where
  frontend : acc.1.Frontend
  masked : acc.1.Masked
  live : acc.2 = false → acc.1.AllLive

/-- A pass that keeps the signals bound, and reports every change, keeps a graph swept. -/
theorem Swept.turn {acc : Graph × Bool} {pass : PassFn} {P : Graph → Prop} (h : Swept acc)
    (hsimplifies : Simplifies pass)
    (hpass : Returns (fun r => P r.1 ∧ (r.2 = false → r.1 = acc.1) ∧
      r.1.outputs.map Prod.fst = acc.1.outputs.map Prod.fst) (pass acc.1)) :
    Returns (fun acc' => Swept acc' ∧ P acc'.1) (PassManager.turn acc pass) := by
  apply Meets.bind ((hsimplifies acc.1 h.frontend).both hpass)
  rintro r ⟨hrefines, hP, hsame, hsignals⟩
  have hwitness : r.1.signalToWitness = acc.1.signalToWitness := by rw [hrefines.metadata]
  refine ⟨⟨hrefines.frontend, h.masked.of_signals hwitness hsignals, ?_⟩, hP⟩
  intro hchanged
  obtain ⟨hold, hnew⟩ := Bool.or_eq_false_iff.mp hchanged
  show r.1.AllLive
  rw [hsame hnew]
  exact h.live hold

/-- Every turn that was given a well-formed graph leaves a tidy one, and one with nothing dead if it
    changed nothing. -/
theorem iteration_tidies {g : Graph} (hg : g.Frontend) (opt : OptLevel) :
    Returns (fun r => Tidy opt r.1 ∧ (r.2 = false → r.1.AllLive))
      (iteration (optimize opt) g) := by
  rw [iteration_eq]
  apply Meets.bind ((DeadCode.run_returns hg).both (DeadCode.run_prunes hg))
  rintro r ⟨hrefines, hmasked, hlive, _⟩
  have hswept : Swept (r.1, r.2) := ⟨hrefines.frontend, hmasked, fun _ => hlive⟩
  cases opt with
  | O0 => exact ⟨⟨hrefines.frontend, hmasked, fun h => absurd rfl h, nofun⟩, fun _ => hlive⟩
  | O1 =>
    show Returns _ (turn (r.1, r.2) ConstFold.run >>= pure)
    apply Meets.bind (hswept.turn (fun _ => ConstFold.run_returns)
      (ConstFold.run_folds hswept.frontend))
    rintro folded ⟨h, hfolded⟩
    exact ⟨⟨h.frontend, h.masked, fun _ => hfolded, nofun⟩, h.live⟩
  | O2 =>
    show Returns _ (turn (r.1, r.2) ConstFold.run >>= fun acc => turn acc Cse.run >>= pure)
    apply Meets.bind (hswept.turn (fun _ => ConstFold.run_returns)
      (ConstFold.run_folds hswept.frontend))
    -- Merging runs last, and keeps what folding has left.
    rintro folded ⟨h, hfolded⟩
    apply Meets.bind (h.turn (P := fun g' => g'.Distinct ∧ g'.Folded)
      (fun _ => Cse.run_returns) ((Cse.run_merges h.frontend).post ?_))
    · rintro merged ⟨h', hdistinct, hfolded'⟩
      exact ⟨⟨h'.frontend, h'.masked, fun _ => hfolded', fun _ => hdistinct⟩, h'.live⟩
    · rintro merged ⟨hdistinct, hkept, hrest⟩
      exact ⟨⟨hdistinct, hkept hfolded⟩, hrest⟩

/-- On a tidy graph one turn removes what is dead, and does no more. -/
theorem Tidy.iteration {opt : OptLevel} {g : Graph} (h : Tidy opt g) :
    Returns (fun r => Tidy opt r.1 ∧ r.1.AllLive) (iteration (optimize opt) g) := by
  rw [iteration_eq]
  apply Meets.bind ((DeadCode.run_returns h.frontend).both (DeadCode.run_prunes h.frontend))
  rintro r ⟨hrefines, hmasked, hlive, hfolded, hdistinct⟩
  have htidy : Tidy opt r.1 :=
    ⟨hrefines.frontend, hmasked, fun hopt => hfolded (h.folded hopt),
      fun hopt => hdistinct (h.distinct hopt)⟩
  rw [foldlM_turn_of_noop (r.1, r.2) htidy.noop]
  exact ⟨htidy, hlive⟩

/-- Where nothing is dead either, a turn changes nothing. -/
theorem Tidy.iteration_noop {opt : OptLevel} {g : Graph} (h : Tidy opt g) (hlive : g.AllLive) :
    PassManager.iteration (optimize opt) g = .ok (g, false) :=
  foldlM_turn_of_noop (g, false) (h.optimize_noop hlive)

/-- From a tidy graph the loop stops within two turns. -/
theorem Tidy.stops {opt : OptLevel} {g : Graph} (h : Tidy opt g) :
    ∃ k g', k ≤ 2 ∧ StopsAfter (optimize opt) k g g' ∧ Tidy opt g' ∧ g'.AllLive := by
  obtain ⟨⟨g₁, changed⟩, hrun, htidy, hlive⟩ := h.iteration.ok_of_never
  cases changed with
  | false => exact ⟨1, g₁, by decide, .last hrun, htidy, hlive⟩
  | true => exact ⟨2, g₁, by decide, .turn hrun (.last (htidy.iteration_noop hlive)), htidy, hlive⟩

end PassManager

/-- **The loop reaches its normal form.** On a well-formed graph, at every level, it stops because a
    turn changed nothing, behind the third turn at the latest, and every pass of the level leaves
    the result alone: nothing is dead, no output names a signal the projection does not address,
    nothing is left to fold, and no two pure nodes are twins. -/
theorem optimize_reaches_normal_form {g : Graph} (hg : g.Frontend) (opt : OptLevel) :
    ∃ k g', k ≤ 3 ∧ PassManager.StopsAfter (PassManager.optimize opt) k g g' ∧
      PassManager.runOptimize opt g = .ok g' ∧
      (∀ pass ∈ PassManager.optimize opt, pass g' = .ok (g', false)) ∧
      g'.AllLive ∧ g'.Masked ∧ (opt ≠ .O0 → g'.Folded) ∧ (opt = .O2 → g'.Distinct) := by
  obtain ⟨⟨g₁, changed⟩, hrun, htidy, hlive⟩ :=
    (PassManager.iteration_tidies hg opt).ok_of_never
  -- One turn if nothing changed, otherwise two or three from the tidy graph it left.
  have hstops : ∃ k g', k ≤ 3 ∧ PassManager.StopsAfter (PassManager.optimize opt) k g g' ∧
      PassManager.Tidy opt g' ∧ g'.AllLive := by
    cases changed with
    | false => exact ⟨1, g₁, by decide, .last hrun, htidy, hlive rfl⟩
    | true =>
      obtain ⟨k, g', hk, hstops, hnormal⟩ := htidy.stops
      exact ⟨k + 1, g', by omega, .turn hrun hstops, hnormal⟩
  obtain ⟨k, g', hk, hstops, hnormal, hall⟩ := hstops
  have hbound : k ≤ PassManager.maxIterations := by
    unfold PassManager.maxIterations
    omega
  exact ⟨k, g', hk, hstops, PassManager.fixpoint_of_stopsAfter hstops _ hbound,
    hnormal.optimize_noop hall, hall, hnormal.masked, hnormal.folded, hnormal.distinct⟩

theorem optimize_reaches_normal_form_sample :
    ∃ k g', k ≤ 3 ∧ PassManager.StopsAfter (PassManager.optimize .O2) k sampleGraph g' ∧
      PassManager.runOptimize .O2 sampleGraph = .ok g' ∧
      (∀ pass ∈ PassManager.optimize .O2, pass g' = .ok (g', false)) ∧
      g'.AllLive ∧ g'.Masked ∧ (OptLevel.O2 ≠ .O0 → g'.Folded) ∧
      (OptLevel.O2 = .O2 → g'.Distinct) :=
  optimize_reaches_normal_form (by decide) .O2

end CircomMpc
