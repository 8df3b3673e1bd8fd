import CircomMpc.Passes.Mpc.SplitMeaning

/-!
# Batching the rounds

`round_schedule`: all singleton rounds of one network level become one round. The node list is built
anew, level by level: first the level's nodes in their source order, then its round, then one result
for every product the round reshares. `mul_split` put every result directly behind its round, so the
result of the round at `i` is found at `i + 1`.
-/

namespace CircomMpc

open Lib CircomMpc.Graph

/-- The variables of a reconstruction: where the old nodes went, the new list, and how many rounds
    it has. -/
structure Placing where
  remap : List (Option ValueId)
  nodes : List Node
  numRounds : Nat

/-- Re-emits node `i` with its inputs renamed. -/
def placeNode (message : String) (old : List Node) (p : Placing) (i : ValueId) :
    Except Panic Placing := do
  let node ← index old i
  let inputs ← node.inputs.mapM (remapped message p.remap)
  let remap ← setIndex p.remap i (some p.nodes.length)
  let new ← Node.new node.op inputs
  pure { p with remap, nodes := p.nodes ++ [new] }

namespace RoundSchedule

/-- A level's nodes, and its rounds: every product with the index of its result. Both are filled in
    the order of the graph. -/
structure Buckets where
  nodes : List (List ValueId)
  rounds : List (List (ValueId × ValueId))

/-- One node of the bucketing loop. -/
def bucketStep (nodes : List Node) (depth : List Nat) (acc : Buckets) (node : Node) (i : ValueId) :
    Except Panic Buckets :=
  match node.op with
  | .round _ => do
    ensure (nodes[i + 1]?.map Cell.op = some (.roundResult 0)) (.assertion
      "mul_split invariant violated: Round not immediately followed by RoundResult(0)")
    let d ← index depth i
    let product ← index node.inputs 0
    pure { acc with rounds := ← pushAt acc.rounds d (product, i + 1) }
  | .roundResult _ => pure acc
  | _ => do
    let d ← index depth i
    pure { acc with nodes := ← pushAt acc.nodes d i }

/-- The buckets of all levels up to `maxDepth`. -/
def bucketize (nodes : List Node) (depth : List Nat) (maxDepth : Nat) : Except Panic Buckets :=
  nodes.zipIdx.foldlM (fun acc (node, i) => bucketStep nodes depth acc node i)
    ⟨List.replicate (maxDepth + 1) [], List.replicate (maxDepth + 1) []⟩

/-- The result of a round's `k`-th product. -/
def placeResult (roundNewId : ValueId) (p : Placing) (resultIdx : ValueId) (k : Nat) :
    Except Panic Placing := do
  let remap ← setIndex p.remap resultIdx (some p.nodes.length)
  let result ← Node.new (.roundResult k) [roundNewId]
  pure { p with remap, nodes := p.nodes ++ [result] }

/-- One round for all products of a level. -/
def placeRounds (p : Placing) (rounds : List (ValueId × ValueId)) : Except Panic Placing :=
  if rounds.isEmpty then pure p
  else do
    let roundInputs ← (rounds.map Prod.fst).mapM
      (remapped "round_schedule: MulLocal not yet placed" p.remap)
    let roundNewId := p.nodes.length
    let round ← Node.new (.round p.numRounds) roundInputs
    rounds.zipIdx.foldlM (fun p ((_, resultIdx), k) => placeResult roundNewId p resultIdx k)
      { p with nodes := p.nodes ++ [round], numRounds := p.numRounds + 1 }

/-- One level of the reconstruction: its nodes, then one round over its products, then the results.
    A level without a product has no round. -/
def placeLevel (old : List Node) (p : Placing) (level : List ValueId × List (ValueId × ValueId)) :
    Except Panic Placing := do
  let p ← level.1.foldlM (placeNode "round_schedule: input not yet placed" old) p
  placeRounds p level.2

/-- `round_schedule::run`. -/
def run (g : Graph) : Except Panic (Graph × Bool) := do
  if g.nodes.isEmpty then pure (g, false)
  else
    let domains ← computeDomains g
    let depth ← networkLevels g domains
    let maxDepth := depth.foldl max 0
    let buckets ← bucketize g.nodes depth maxDepth
    let hasRounds := buckets.rounds.any (!·.isEmpty)
    let alreadyLevelSorted := (windows depth).all fun pair => pair.1 ≤ pair.2
    if !hasRounds && alreadyLevelSorted then pure (g, false)
    else
      let p ← (buckets.nodes.zip buckets.rounds).foldlM (placeLevel g.nodes)
        ⟨List.replicate g.nodes.length none, [], 0⟩
      let g ← g.rebuildNodes p.nodes p.remap
      pure (g.setNumRounds p.numRounds, true)

end RoundSchedule
end CircomMpc
