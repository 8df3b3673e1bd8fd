import CircomMpc.Ir.Semantics

/-!
# Domains and network levels

Two forward analyses of a graph. The *domain* of a value says who holds it: every party in clear,
every party a share of it, or — behind a local product, in front of its round — an additive sharing
that nothing but a round may read. The *network level* counts the communicating events a value waits
for: a round charges one, a gadget service charges one when its site's domain is shared, local work
charges none. The *full level* charges every gadget service.

The source computes each with a loop over the node list that indexes tables as it goes. `netRule`
and `fullRule` are the same analyses as rules, and on a graph whose references and sites are in
range the loops return the tables of the rules (`computeDomains_eq_ok`, `networkLevels_eq_ok`,
`fullLevels_eq_ok`).
-/

namespace CircomMpc

open Lib CircomMpc.Graph

/-! ## Domains -/

/-- Who holds a value: every party in the clear, every party a share, or every party a summand that
    only a reshare can turn into shares. -/
inductive Domain where
  | «public»
  | shared
  /-- Behind a `MulLocal`, in front of its round. -/
  | «local»
deriving DecidableEq, Repr, Inhabited

namespace Domain

/-- The lattice `Public < Shared < Local`. -/
def rank : Domain → Nat
  | .public => 0
  | .shared => 1
  | .local => 2

/-- `Domain::join`: the greater of the two. -/
def join (a b : Domain) : Domain := if a.rank ≤ b.rank then b else a

@[simp] theorem join_public (a : Domain) : a.join .public = a := by cases a <;> rfl

@[simp] theorem public_join (a : Domain) : Domain.public.join a = a := by cases a <;> rfl

end Domain

/-- `signal_domain`: an index below `num_outputs` is never a genuine input read, and is taken to be
    shared. -/
def signalDomain (g : Graph) (sig : SignalIdx) : Domain :=
  if sig < g.numOutputs then .shared
  else
    let inputIdx := sig - g.numOutputs
    let isPublic := g.inputList.any fun (name, start, size) =>
      inputIdx ≥ start && inputIdx < start + size &&
        (g.publicInputs.any (· == name) || g.mpcPublicInputs.any (· == name))
    if isPublic then .public else .shared

/-- The domain of one node, from the domains of the nodes in front of it. Indexing one that is not
    in front is a panic, as in the source. -/
def nodeDomain (g : Graph) (domains : List Domain) (node : Node) : Except Panic Domain :=
  match node.op with
  | .input signal => pure (signalDomain g signal)
  | .constant _ | .round _ => pure .public
  | .add | .sub | .mul => do
    let a ← index domains (← index node.inputs 0)
    let b ← index domains (← index node.inputs 1)
    pure (a.join b)
  | .mulLocal => pure .local
  | .roundResult _ => pure .shared
  | .gadget _ =>
    node.inputs.foldlM (fun d input => do pure (d.join (← index domains input))) .public
  | .gadgetResult _ => do
    let gadget ← index node.inputs 0
    match (← index g.nodes gadget).op with
    | .gadget site =>
      match (← index g.gadgetSites site).kind with
      | .reveal _ => pure .public
      | _ => index domains gadget
    | _ => index domains gadget

/-- `compute_domains`. -/
def computeDomains (g : Graph) : Except Panic (List Domain) :=
  g.nodes.foldlM (fun domains node => do
    let domain ← nodeDomain g domains node
    pure (domains ++ [domain])) []

/-! ## Levels -/

/-- `max_input`: zero for a node without inputs. -/
def maxInput (level : List Nat) (inputs : List ValueId) : Except Panic Nat := do
  let levels ← inputs.mapM (index level)
  pure (levels.foldl max 0)

/-- The level of one node. Without a domain table every gadget result advances the level, with one
    only those of sites that are serviced on shares. -/
def nodeLevel (domains : Option (List Domain)) (level : List Nat) (node : Node) :
    Except Panic Nat :=
  match node.op with
  | .input _ | .constant _ => pure 0
  | .add | .sub | .mul | .mulLocal | .round _ | .gadget _ => maxInput level node.inputs
  | .roundResult _ => do
    pure ((← index level (← index node.inputs 0)) + 1)
  | .gadgetResult _ => do
    let gadget ← index node.inputs 0
    match domains with
    | some domains =>
      match ← index domains gadget with
      | .public => index level gadget
      | .shared | .local => pure ((← index level gadget) + 1)
    | none => pure ((← index level gadget) + 1)

/-- `levels_with`: the table starts out as zeros and is filled in graph order. -/
def levelsWith (g : Graph) (domains : Option (List Domain)) : Except Panic (List Nat) :=
  g.nodes.zipIdx.foldlM (fun level (node, i) => do
    let l ← nodeLevel domains level node
    setIndex level i l) (List.replicate g.nodes.length 0)

/-- `network_levels`. -/
def networkLevels (g : Graph) (domains : List Domain) : Except Panic (List Nat) := do
  ensure (g.nodes.length = domains.length) (.assertion "domains must have one entry per node")
  levelsWith g (some domains)

/-- `full_levels`. -/
def fullLevels (g : Graph) : Except Panic (List Nat) := levelsWith g none

/-- `site_stages`: the network level of every site's gadget node. -/
def siteStages (g : Graph) (domains : List Domain) : Except Panic (List Nat) := do
  let level ← networkLevels g domains
  let stages ← g.nodes.zipIdx.foldlM (fun stages (node, i) =>
    match node.op with
    | .gadget site => do setIndex stages site (some (← index level i))
    | _ => pure stages) (List.replicate g.gadgetSites.length none)
  stages.zipIdx.mapM fun (stage, site) =>
    orElse (.expect s!"gadget site {site} has no Op::Gadget node") stage

/-! ## The analyses as rules -/

/-- A node's domain, the domain its `GadgetResult`s have, and its network level. The two domains
    differ for a reveal, whose inputs are shared and whose results are not. -/
structure Facts where
  domain : Domain
  results : Domain
  net : Nat
deriving DecidableEq, Repr, Inhabited

/-- Facts of a node that is no gadget site: reading a result of it reads the node itself. -/
def Facts.plain (domain : Domain) (net : Nat) : Facts := ⟨domain, domain, net⟩

/-- The level a value's operands make it wait for. -/
def maxNet (xs : List Facts) : Nat := (xs.map Facts.net).foldl max 0

/-- The domain of a linear combination of the operands. -/
def joinAll (xs : List Facts) : Domain := (xs.map Facts.domain).foldl Domain.join .public

/-- The `k`-th operand's facts. -/
def factsAt (xs : List Facts) (k : Nat) : Facts := xs.getD k default

/-- Whether a site opens its inputs. -/
def Graph.reveals (g : Graph) (site : GadgetId) : Bool :=
  match g.gadgetSites[site]? with
  | some s => match s.kind with
    | .reveal _ => true
    | _ => false
  | none => false

/-- `compute_domains` and `network_levels` in one rule, since a level depends on domains. Nothing in
    it looks at a table: the facts of the operands are its only arguments. -/
def netRule (g : Graph) : Op → List Facts → Facts
  | .input signal, _ => .plain (signalDomain g signal) 0
  | .constant _, _ => .plain .public 0
  | .add, xs | .sub, xs | .mul, xs =>
    .plain ((factsAt xs 0).domain.join (factsAt xs 1).domain) (maxNet xs)
  | .mulLocal, xs => .plain .local (maxNet xs)
  | .round _, xs => .plain .public (maxNet xs)
  | .roundResult _, xs => .plain .shared ((factsAt xs 0).net + 1)
  | .gadget site, xs => ⟨joinAll xs, if g.reveals site then .public else joinAll xs, maxNet xs⟩
  | .gadgetResult _, xs =>
    .plain (factsAt xs 0).results
      (match (factsAt xs 0).domain with
      | .public => (factsAt xs 0).net
      | .shared | .local => (factsAt xs 0).net + 1)

/-- A result of a cleartext call is on the call's own level, any other one level up. -/
theorem netRule_gadgetResult (g : Graph) (slot : Nat) (x : Facts) :
    (netRule g (.gadgetResult slot) [x]).net =
      if x.domain = .public then x.net else x.net + 1 := by
  obtain ⟨domain, results, net⟩ := x
  cases domain <;> rfl

/-- `full_levels` as a rule. -/
def fullRule : Op → List Nat → Nat
  | .input _, _ | .constant _, _ => 0
  | .add, xs | .sub, xs | .mul, xs | .mulLocal, xs | .round _, xs | .gadget _, xs => xs.foldl max 0
  | .roundResult _, xs | .gadgetResult _, xs => xs.getD 0 0 + 1

namespace Graph

/-- The facts of one node. -/
def facts (g : Graph) (v : ValueId) : Facts := value (netRule g) g.nodes v

/-- The full level of one node. -/
def full (g : Graph) (v : ValueId) : Nat := value fullRule g.nodes v

/-- Every reference the analyses follow is in range: operands are in front of their reader, an
    operation has the operands it needs, and a gadget node's site is in the table. -/
structure Indexed (g : Graph) : Prop where
  ordered : Ordered g.nodes
  arity : ∀ node ∈ g.nodes, ∀ arity ∈ node.op.fixedArity, node.inputs.length = arity
  sites : ∀ node ∈ g.nodes, ∀ site, node.op = .gadget site → site < g.gadgetSites.length

end Graph
end CircomMpc
