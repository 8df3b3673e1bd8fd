import CircomMpc.Passes.Classical

/-!
# Common subexpressions

`cse`: hash-consing. Every pure node is looked up by its operation and its inputs among the nodes
kept so far; `Add` and `Mul` sort their inputs first. The table the callback threads through is the
source's hash map, as the list of its entries: a key is inserted only when it is absent, so the
order of the entries cannot be observed.
-/

namespace CircomMpc

open Lib CircomMpc.Graph

namespace Cse

/-- A node up to the order of a commutative operation's inputs. -/
abbrev Key := Op × List ValueId

/-- `canonical_inputs`: sorted for the commutative operations, so that the two orders of a sum or of
    a product have one key. -/
def canonicalInputs (op : Op) (inputs : List ValueId) : List ValueId :=
  match op with
  | .add | .mul => inputs.mergeSort (· ≤ ·)
  | _ => inputs

/-- The entries of `seen`. -/
abbrev Seen := List (Key × ValueId)

/-- `seen.get(key)`. -/
def Seen.get (seen : Seen) (key : Key) : Option ValueId :=
  (seen.find? fun entry => entry.1 == key).map Prod.snd

/-- The callback of `cse::run`: a pure node that is in the table is replaced by the earlier one, any
    other is kept. The next node kept gets the id `emitted.len()`. -/
def visit (seen : Seen) (node : Node) (emitted : List Node) : Seen × RewriteAction :=
  if node.op.isPure then
    let key := (node.op, canonicalInputs node.op node.inputs)
    match seen.get key with
    | some existing => (seen, .replaceWith existing)
    | none => ((key, emitted.length) :: seen, .keep)
  else
    (seen, .keep)

/-- `cse::run`. -/
def run (g : Graph) : Except Panic (Graph × Bool) := do
  let (g, _, changed) ← g.rewrite (fun seen _ node emitted => pure (visit seen node emitted)) []
  pure (g, changed)

/-! ## What the table knows -/

/-- Every entry points at an emitted node with its key. That every pure node has an entry is not
    part of it: a missing one costs a merge, not the meaning. -/
def Consed (seen : Seen) (emitted : List Node) : Prop :=
  ∀ entry ∈ seen, ∃ node, emitted[entry.2]? = some node ∧
    entry.1 = (node.op, canonicalInputs node.op node.inputs)

theorem Consed.grow {seen : Seen} {emitted : List Node} (h : Consed seen emitted)
    (more : List Node) : Consed seen (emitted ++ more) := by
  intro entry hentry
  obtain ⟨node, hnode, hkey⟩ := h entry hentry
  exact ⟨node, getElem?_append_of_some hnode, hkey⟩

theorem Seen.get_eq_some {seen : Seen} {key : Key} {v : ValueId} (h : seen.get key = some v) :
    (key, v) ∈ seen := by
  obtain ⟨entry, hfind, hv⟩ := Option.map_eq_some_iff.mp h
  have hkey : entry.1 = key := by simpa using List.find?_some hfind
  have hmem := List.mem_of_find?_eq_some hfind
  rw [← hkey, ← hv]
  exact hmem

/-- Nodes with one key compute the same: their operations are equal, and so are their inputs, up to
    the order when it does not matter. -/
theorem evalRule_of_key {op : Op} {inputs inputs' : List ValueId} (I : Interp)
    (look : ValueId → Value) (harity : ∀ arity ∈ op.fixedArity, inputs.length = arity)
    (hkey : canonicalInputs op inputs' = canonicalInputs op inputs) :
    evalRule I op (inputs'.map look) = evalRule I op (inputs.map look) := by
  -- A sorted pair of inputs is one of the pair's two orders.
  have hswap : ∀ {a b : ValueId}, inputs = [a, b] →
      (inputs'.mergeSort (· ≤ ·)) = inputs.mergeSort (· ≤ ·) →
      inputs' = [a, b] ∨ inputs' = [b, a] := by
    intro a b hab hsort
    have hperm : inputs'.Perm [a, b] := by
      rw [← hab]
      exact (List.mergeSort_perm inputs' _).symm.trans
        (hsort ▸ List.mergeSort_perm inputs _)
    obtain ⟨c, d, hcd⟩ := eq_pair hperm.length_eq
    subst hcd
    have hc : c = a ∨ c = b := by simpa using hperm.mem_iff.mp (List.mem_cons_self)
    rcases hc with rfl | rfl
    · have htail : [d].Perm [b] := (List.perm_cons c).mp hperm
      rw [List.singleton_perm_singleton.mp htail]
      exact .inl rfl
    · have hperm' : [c, d].Perm [c, a] := hperm.trans (List.Perm.swap _ _ _)
      have htail : [d].Perm [a] := (List.perm_cons c).mp hperm'
      rw [List.singleton_perm_singleton.mp htail]
      exact .inr rfl
  cases op
  case add =>
    obtain ⟨a, b, hab⟩ := eq_pair (harity 2 rfl)
    rcases hswap hab hkey with h | h
    · rw [h, hab]
    · funext k
      simp [h, hab, evalRule, operand, add_comm]
  case mul =>
    obtain ⟨a, b, hab⟩ := eq_pair (harity 2 rfl)
    rcases hswap hab hkey with h | h
    · rw [h, hab]
    · funext k
      simp [h, hab, evalRule, operand, mul_comm]
  all_goals
    have hsame : inputs' = inputs := hkey
    rw [hsame]

theorem visit_returns {seen : Seen} {node : Node} {emitted : List Node}
    (harity : ∀ arity ∈ node.op.fixedArity, node.inputs.length = arity)
    (hord : Ordered emitted) (hseen : Consed seen emitted) :
    Answers emitted node (visit seen node emitted).2 ∧
      Consed (visit seen node emitted).1 (emitted ++ (visit seen node emitted).2.pushed node) := by
  unfold visit
  split
  · rename_i hpure
    simp only
    split
    · -- Found: the earlier node computes the same.
      rename_i existing hget
      obtain ⟨twin, htwin, hkey⟩ := hseen _ (Seen.get_eq_some hget)
      obtain ⟨hop, hinputs⟩ := Prod.mk.injEq _ _ _ _ ▸ hkey
      refine ⟨.same existing hpure (List.getElem?_eq_some_iff.mp htwin).1 ?_ ?_, ?_⟩
      · intro source hsource
        rw [htwin] at hsource
        cases hsource
        exact invokes_pure (hop ▸ hpure)
      · intro I
        rw [value_eq hord htwin, ← hop]
        apply evalRule_of_key I _ harity
        rw [hinputs, ← hop]
      · exact hseen.grow _
    · -- New: it is in the table from now on.
      refine ⟨.keep, ?_⟩
      intro entry hentry
      rcases List.mem_cons.mp hentry with rfl | hold
      · exact ⟨node, by simp [RewriteAction.pushed], rfl⟩
      · exact hseen.grow _ entry hold
  · exact ⟨.keep, hseen.grow _⟩

/-- **Hash-consing simplifies.** -/
theorem run_returns {g : Graph} (hg : g.Frontend) : Returns (fun r => Refines g r.1) (run g) := by
  unfold run
  apply Meets.bind (classical_rewrite hg Consed ?_ ?_)
  · intro r hr
    exact hr
  · intro entry hentry
    cases hentry
  · intro seen i node emitted harity _ _ hord hseen
    exact visit_returns harity hord hseen

end Cse
end CircomMpc
