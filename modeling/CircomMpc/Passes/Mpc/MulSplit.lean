import CircomMpc.Passes.Mpc.Level
import CircomMpc.Passes.Classical

/-!
# Splitting secret products

`mul_split`: every product of two shared values becomes three nodes, the local product, a round of
its own and that round's result. Everything else is kept. The decision is made on the old graph, by
the old id, before the rewriting starts.

What the pass leaves is a `Split` graph. Every `MulLocal` stands directly in front of the round that
reshares it and the result that carries on its value, and nothing else reads it: the aliases the
rewriting hands to later nodes never point at a local product or at a round.
-/

namespace CircomMpc

open Lib CircomMpc.Graph

namespace MulSplit

/-- Whether a node is a product of two shared values. -/
def shouldSplit (domains : List Domain) (node : Node) : Except Panic Bool :=
  match node.op with
  | .mul => do
    if (← index domains (← index node.inputs 0)) = .shared then
      pure ((← index domains (← index node.inputs 1)) = .shared)
    else
      pure false
  | _ => pure false

/-- The three nodes of a secret product. `emitted.len()` is the id the next emitted node gets, so
    the round and the result can name what stands in front of them. -/
def splitProduct (numRounds : Nat) (node : Node) (emitted : List Node) :
    Except Panic RewriteAction := do
  let mulLocalId := emitted.length
  let roundNewId := emitted.length + 1
  let product ← Node.new .mulLocal node.inputs
  let round ← Node.new (.round numRounds) [mulLocalId]
  let result ← Node.new (.roundResult 0) [roundNewId]
  pure (.emitMany [product, round, result])

/-- The callback, which counts the rounds. -/
def visit (split : List Bool) (numRounds : Nat) (i : ValueId) (node : Node)
    (emitted : List Node) : Except Panic (Nat × RewriteAction) := do
  if ← index split i then
    pure (numRounds + 1, ← splitProduct numRounds node emitted)
  else
    pure (numRounds, .keep)

/-- `mul_split::run`. -/
def run (g : Graph) : Except Panic (Graph × Bool) := do
  let domains ← computeDomains g
  let split ← g.nodes.mapM (shouldSplit domains)
  let (g, numRounds, changed) ← g.rewrite (visit split) 0
  pure (g.setNumRounds numRounds, changed)

end MulSplit

/-! ## Levels with the products charged -/

/-- `netRule` of the split graph, on the graph in front of the splitting: a product of two shared
    values waits for its round. -/
def splitRule (g : Graph) : Op → List Facts → Facts
  | .mul, xs =>
    if (factsAt xs 0).domain = .shared ∧ (factsAt xs 1).domain = .shared then
      .plain .shared (maxNet xs + 1)
    else netRule g .mul xs
  | op, xs => netRule g op xs

namespace Graph

/-- The facts a node has once the products are split: a product of shared values charges the level
    its round will charge. -/
def splitFacts (g : Graph) (v : ValueId) : Facts := value (splitRule g) g.nodes v

/-- Whether a node is a product of two shared values. -/
def sharedProduct (g : Graph) (node : Node) : Bool :=
  node.op == .mul && node.inputs.all fun v => (g.splitFacts v).domain == .shared

theorem splitFacts_eq {g : Graph} (hg : Ordered g.nodes) {i : Nat} {node : Node}
    (hnode : g.nodes[i]? = some node) :
    g.splitFacts i = splitRule g node.op (node.inputs.map g.splitFacts) :=
  value_eq hg hnode

/-- Two operands' facts that agree on domains. -/
def SameDomain (x y : Facts) : Prop := x.domain = y.domain ∧ x.results = y.results

theorem sameDomain_at {xs ys : List Facts} (h : List.Forall₂ SameDomain xs ys) (k : Nat) :
    SameDomain (factsAt xs k) (factsAt ys k) := by
  induction h generalizing k with
  | nil => exact ⟨rfl, rfl⟩
  | cons hxy _ ih =>
    cases k with
    | zero => exact hxy
    | succ k => exact ih k

theorem sameDomain_joinAll {xs ys : List Facts} (h : List.Forall₂ SameDomain xs ys) :
    joinAll xs = joinAll ys := by
  have hmap : xs.map Facts.domain = ys.map Facts.domain := by
    induction h with
    | nil => rfl
    | cons hxy _ ih => rw [List.map_cons, List.map_cons, hxy.1, ih]
  rw [joinAll, joinAll, hmap]

theorem splitRule_sameDomain (g : Graph) (op : Op) {xs ys : List Facts}
    (h : List.Forall₂ SameDomain xs ys) : SameDomain (splitRule g op xs) (netRule g op ys) := by
  have h0 := sameDomain_at h 0
  have h1 := sameDomain_at h 1
  have hjoin := sameDomain_joinAll h
  cases op
  case mul =>
    show SameDomain (if (factsAt xs 0).domain = .shared ∧ (factsAt xs 1).domain = .shared then
      Facts.plain .shared (maxNet xs + 1) else netRule g .mul xs) _
    split
    · rename_i hshared
      have hd : (factsAt ys 0).domain.join (factsAt ys 1).domain = .shared := by
        rw [← h0.1, ← h1.1, hshared.1, hshared.2]
        rfl
      exact ⟨hd.symm, hd.symm⟩
    · simp [SameDomain, netRule, Facts.plain, h0.1, h1.1]
  all_goals simp [SameDomain, splitRule, netRule, Facts.plain, h0.1, h0.2, h1.1, hjoin]

/-- Charging the products changes no domain. -/
theorem splitFacts_sameDomain (g : Graph) (i : Nat) : SameDomain (g.splitFacts i) (g.facts i) := by
  unfold splitFacts facts
  generalize g.nodes = nodes
  -- By induction on the nodes from the back, since a node's facts look at those in front of it.
  induction nodes using List.reverseRecOn generalizing i with
  | nil => exact ⟨rfl, rfl⟩
  | append_singleton xs c ih =>
    rcases Nat.lt_trichotomy i xs.length with hi | hi | hi
    · rw [value_append _ hi, value_append _ hi]
      exact ih i
    · subst hi
      rw [value_push, value_push]
      apply splitRule_sameDomain
      rw [List.forall₂_map_left_iff, List.forall₂_map_right_iff]
      exact List.forall₂_same.mpr fun v _ => ih v
    · have hout : ∀ rule : Op → List Facts → Facts, value rule (xs ++ [c]) i = default := by
        intro rule
        rw [value]
        apply List.getD_eq_default
        rw [table_length, List.length_append]
        exact hi
      rw [hout, hout]
      exact ⟨rfl, rfl⟩

end Graph
end CircomMpc
