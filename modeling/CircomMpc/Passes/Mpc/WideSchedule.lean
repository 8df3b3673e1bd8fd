import CircomMpc.Passes.Mpc.RoundSchedule

/-!
# Widening the batches

`wide_schedule`: the nodes are sorted by network level and, within one, by full level, so that
public sites of one depth come to stand next to each other. A round and its results move as one
unit, and the sort is stable.
-/

namespace CircomMpc

open Lib CircomMpc.Graph

namespace WideSchedule

/-- `Range<usize>`: a node, or a round with its results. -/
structure NodeRange where
  start : Nat
  stop : Nat
deriving DecidableEq, Repr

def NodeRange.indices (unit : NodeRange) : List ValueId :=
  List.range' unit.start (unit.stop - unit.start)

/-- How many results belong to the unit that starts at node `i`. -/
def unitResults (nodes : List Node) (i : ValueId) : Except Panic Nat := do
  let node ← index nodes i
  match node.op with
  | .round _ =>
    let slots := node.inputs.length
    ensure (i + slots < nodes.length ∧
        ∀ k < slots, nodes[i + 1 + k]?.map Cell.op = some (.roundResult k))
      (.assertion s!"wide_schedule: Round at {i} not followed by its RoundResult block")
    pure slots
  | .roundResult _ => throw (.unreachable "consumed with its Round")
  | _ => pure 0

/-- The units from node `i` on. -/
def units (nodes : List Node) (i : Nat) : Except Panic (List NodeRange) :=
  if i < nodes.length then do
    let results ← unitResults nodes i
    let rest ← units nodes (i + 1 + results)
    pure (⟨i, i + 1 + results⟩ :: rest)
  else pure []
termination_by nodes.length - i

/-- `key`: the levels of a unit's first node. -/
def keyed (net full : List Nat) (unit : NodeRange) : Except Panic ((Nat × Nat) × NodeRange) := do
  pure ((← index net unit.start, ← index full unit.start), unit)

/-- The order of pairs. -/
def keyLe (a b : Nat × Nat) : Bool := a.1 < b.1 || (a.1 == b.1 && a.2 ≤ b.2)

/-- `wide_schedule::run`. -/
def run (g : Graph) : Except Panic (Graph × Bool) := do
  if g.nodes.isEmpty then pure (g, false)
  else
    let net ← networkLevels g (← computeDomains g)
    let full ← fullLevels g
    let units ← (← units g.nodes 0).mapM (keyed net full)
    if (windows units).all fun pair => keyLe pair.1.1 pair.2.1 then pure (g, false)
    else
      let sorted := (units.mergeSort fun a b => keyLe a.1 b.1).map Prod.snd
      let p ← (sorted.flatMap NodeRange.indices).foldlM
        (placeNode "wide_schedule: input not yet placed" g.nodes)
        ⟨List.replicate g.nodes.length none, [], g.numRounds⟩
      let g ← g.rebuildNodes p.nodes p.remap
      pure (g, true)

end WideSchedule
end CircomMpc
