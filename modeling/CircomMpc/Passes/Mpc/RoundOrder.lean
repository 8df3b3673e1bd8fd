import CircomMpc.Passes.Mpc.RoundSchedule

/-!
# The order `round_schedule` emits

The reconstruction is a walk through the levels. `levelNodes` and `levelRounds` are what the
bucketing loop collects for one level, and `Arranged` describes the new list by naming, for every
position, the old node or the merged round it comes from. One level of the loop extends the
arrangement by exactly the sources of that level (`placeLevel_returns`), because everything a node
reads has a level no higher than its own: in a lower bucket, earlier in the same bucket, or — the
result of a round — at the end of a lower one.
-/

namespace CircomMpc

open Lib CircomMpc.Graph

/-! ## Buckets -/

theorem index_map_range {α : Type} {f : Nat → α} {k d : Nat} (hd : d < k) :
    index ((List.range k).map f) d = .ok (f d) := by
  apply index_eq
  rw [List.getElem?_map, List.getElem?_range hd]
  rfl

/-- Pushing into one of a row of buckets. -/
theorem pushAt_eq_ok {α : Type} {f : Nat → List α} {k d : Nat} (hd : d < k) (x : α) :
    pushAt ((List.range k).map f) d x =
      .ok ((List.range k).map fun l => if l = d then f l ++ [x] else f l) := by
  rw [pushAt, index_map_range hd, ok_bind, setIndex, if_pos (by simpa using hd)]
  congr 1
  apply List.ext_getElem
  · simp
  · intro i hi _
    simp only [List.length_set, List.length_map, List.length_range] at hi
    rw [List.getElem_set]
    by_cases hdi : d = i
    · simp [hdi]
    · have hid : i ≠ d := fun h => hdi h.symm
      simp [hdi, hid]

namespace Graph

/-- Whether node `i` is outside the groups of a round and its results. -/
def plainAt (g : Graph) (i : ValueId) : Bool := g.nodes[i]?.any fun node => node.op.isPlain

/-- Whether node `i` is a round. -/
def roundAt (g : Graph) (i : ValueId) : Bool := g.nodes[i]?.any fun node => node.roundId?.isSome

/-- The plain nodes of one level among the first `n`. -/
def levelNodes (g : Graph) (n level : Nat) : List ValueId :=
  (List.range n).filter fun i => g.plainAt i && (g.facts i).net == level

/-- The rounds of one level among the first `n`: each one's product and its result. -/
def levelRounds (g : Graph) (n level : Nat) : List (ValueId × ValueId) :=
  ((List.range n).filter fun i => g.roundAt i && (g.facts i).net == level).map
    fun i => (i - 1, i + 1)

theorem levelNodes_succ (g : Graph) (n level : Nat) :
    g.levelNodes (n + 1) level =
      if g.plainAt n = true ∧ (g.facts n).net = level then g.levelNodes n level ++ [n]
      else g.levelNodes n level := by
  rw [levelNodes, List.range_succ, List.filter_append]
  by_cases h : g.plainAt n = true ∧ (g.facts n).net = level
  · simp [h, levelNodes]
  · rw [if_neg h]
    have hfalse : (g.plainAt n && (g.facts n).net == level) = false := by
      by_contra htrue
      rw [Bool.not_eq_false, Bool.and_eq_true] at htrue
      exact h ⟨htrue.1, eq_of_beq htrue.2⟩
    simp [hfalse, levelNodes]

theorem levelRounds_succ (g : Graph) (n level : Nat) :
    g.levelRounds (n + 1) level =
      if g.roundAt n = true ∧ (g.facts n).net = level then
        g.levelRounds n level ++ [(n - 1, n + 1)]
      else g.levelRounds n level := by
  rw [levelRounds, List.range_succ, List.filter_append, List.map_append]
  by_cases h : g.roundAt n = true ∧ (g.facts n).net = level
  · simp [h, levelRounds]
  · rw [if_neg h]
    have hfalse : (g.roundAt n && (g.facts n).net == level) = false := by
      by_contra htrue
      rw [Bool.not_eq_false, Bool.and_eq_true] at htrue
      exact h ⟨htrue.1, eq_of_beq htrue.2⟩
    simp [hfalse, levelRounds]

/-- The highest network level. -/
def maxDepth (g : Graph) : Nat := ((table (netRule g) g.nodes).map Facts.net).foldl max 0

theorem net_le_maxDepth {g : Graph} {i : Nat} (hi : i < g.nodes.length) :
    (g.facts i).net ≤ g.maxDepth := by
  apply le_foldl_max
  right
  apply List.mem_map_of_mem
  exact List.mem_of_getElem? (table_getElem? hi)

/-- A round of a split graph reads the node in front of it, and its result stands behind it. -/
theorem IsSplit.round_at {g : Graph} (hg : g.IsSplit) {i : Nat} {id : RoundId}
    {args : List ValueId} (hround : g.nodes[i]? = some ⟨.round id, args⟩) :
    ∃ s args', i = s + 1 ∧ args = [s] ∧ g.nodes[s]? = some ⟨.mulLocal, args'⟩ ∧
      g.nodes[s + 2]? = some ⟨.roundResult 0, [s + 1]⟩ := by
  obtain ⟨s, args', hi, hlocal⟩ := hg.split.round i id args hround
  subst hi
  obtain ⟨⟨id', hown⟩, hresult⟩ := hg.split.product s args' hlocal
  rw [hround] at hown
  cases hown
  exact ⟨s, args', rfl, rfl, hlocal, hresult⟩

/-- **The buckets** hold, level by level, what `levelNodes` and `levelRounds` say. -/
theorem bucketize_eq_ok {g : Graph} (hg : g.IsSplit) :
    RoundSchedule.bucketize g.nodes ((table (netRule g) g.nodes).map Facts.net) g.maxDepth =
      .ok ⟨(List.range (g.maxDepth + 1)).map (g.levelNodes g.nodes.length),
        (List.range (g.maxDepth + 1)).map (g.levelRounds g.nodes.length)⟩ := by
  have hloop : Returns (fun acc : RoundSchedule.Buckets =>
      acc.nodes = (List.range (g.maxDepth + 1)).map (g.levelNodes (0 + g.nodes.length)) ∧
      acc.rounds = (List.range (g.maxDepth + 1)).map (g.levelRounds (0 + g.nodes.length)))
      (RoundSchedule.bucketize g.nodes ((table (netRule g) g.nodes).map Facts.net)
        g.maxDepth) := by
    refine Meets.foldlM_zipIdx (fun i (acc : RoundSchedule.Buckets) =>
      acc.nodes = (List.range (g.maxDepth + 1)).map (g.levelNodes i) ∧
      acc.rounds = (List.range (g.maxDepth + 1)).map (g.levelRounds i)) ⟨?_, ?_⟩ ?_
    · apply List.ext_getElem <;> simp [levelNodes]
    · apply List.ext_getElem <;> simp [levelRounds]
    · rintro i node ⟨ns, rs⟩ hnode hacc
      rw [Nat.zero_add] at hacc ⊢
      obtain ⟨hns, hrs⟩ := hacc
      dsimp only at hns hrs
      subst hns hrs
      have hi : i < g.nodes.length := (List.getElem?_eq_some_iff.mp hnode).1
      have hdepth : index ((table (netRule g) g.nodes).map Facts.net) i = .ok (g.facts i).net :=
        index_table hi
      have hlt : (g.facts i).net < g.maxDepth + 1 := Nat.lt_succ_of_le (net_le_maxDepth hi)
      have hplain : ∀ b, node.op.isPlain = b → g.plainAt i = b := by
        intro b hb
        rw [plainAt, hnode]
        exact hb
      have hrounds : ∀ b, node.roundId?.isSome = b → g.roundAt i = b := by
        intro b hb
        rw [roundAt, hnode]
        exact hb
      -- A plain node goes to its level's nodes and leaves the rounds alone.
      have hpush : node.op.isPlain = true → node.roundId?.isSome = false →
          Returns (fun acc : RoundSchedule.Buckets =>
            acc.nodes = (List.range (g.maxDepth + 1)).map (g.levelNodes (i + 1)) ∧
            acc.rounds = (List.range (g.maxDepth + 1)).map (g.levelRounds (i + 1)))
          (do
            let d ← index ((table (netRule g) g.nodes).map Facts.net) i
            let nodes ← pushAt ((List.range (g.maxDepth + 1)).map (g.levelNodes i)) d i
            pure ⟨nodes, (List.range (g.maxDepth + 1)).map (g.levelRounds i)⟩) := by
        intro hp hr
        rw [hdepth, ok_bind, pushAt_eq_ok hlt]
        refine ⟨?_, ?_⟩
        · apply List.map_congr_left
          intro l _
          rw [levelNodes_succ, hplain true hp]
          simp [eq_comm]
        · apply List.map_congr_left
          intro l _
          rw [levelRounds_succ, hrounds false hr]
          simp
      obtain ⟨op, args⟩ := node
      cases op
      case round id =>
        obtain ⟨s, args', his, hargs, hlocal, hresult⟩ := hg.round_at hnode
        have hbehind : g.nodes[i + 1]?.map Cell.op = some (.roundResult 0) := by
          rw [his, hresult]
          rfl
        have hproduct : index args 0 = .ok s := by
          apply index_eq
          rw [hargs]
          rfl
        simp only [RoundSchedule.bucketStep, ensure_of hbehind, ok_bind, hdepth, hproduct,
          pushAt_eq_ok hlt]
        refine ⟨?_, ?_⟩
        · apply List.map_congr_left
          intro l _
          rw [levelNodes_succ, hplain false rfl]
          simp
        · apply List.map_congr_left
          intro l _
          have hs : s = i - 1 := by omega
          rw [levelRounds_succ, hrounds true rfl, hs]
          simp [eq_comm]
      case roundResult slot =>
        refine ⟨?_, ?_⟩
        · apply List.map_congr_left
          intro l _
          rw [levelNodes_succ, hplain false rfl]
          simp
        · apply List.map_congr_left
          intro l _
          rw [levelRounds_succ, hrounds false rfl]
          simp
      all_goals exact hpush rfl rfl
  obtain ⟨acc, hrun, hnodes, hrounds⟩ := hloop.ok_of_never
  rw [Nat.zero_add] at hnodes hrounds
  rw [hrun, ← hnodes, ← hrounds]

end Graph

/-! ## Sources -/

/-- What a position of the new list comes from: an old node, the merged round of a level, or the
    `k`-th result of that round. -/
inductive Source where
  | node (i : ValueId)
  | round (level : Nat)
  | result (level k : Nat)
deriving DecidableEq

/-- The new list so far, position by position: what each position is the place of, and that a round
    is followed by its results. The last clause is the converse, that every place is such a
    position. -/
structure Arranged (old : List Node) (rounds : Nat → List (ValueId × ValueId)) (p : Placing)
    (sources : List Source) : Prop where
  size : p.remap.length = old.length
  ids : roundIds p.nodes = List.range p.numRounds
  length : sources.length = p.nodes.length
  ordered : Ordered p.nodes
  node : ∀ q i : Nat, sources[q]? = some (.node i) → p.remap[i]? = some (some q) ∧
    ∃ c refs, old[i]? = some c ∧ c.op.isPlain = true ∧ p.nodes[q]? = some ⟨c.op, refs⟩ ∧
      Renamed p.remap c.inputs refs
  round : ∀ q l : Nat, sources[q]? = some (.round l) → ∃ id refs,
    p.nodes[q]? = some ⟨.round id, refs⟩ ∧ Renamed p.remap ((rounds l).map Prod.fst) refs ∧
      ∀ k < (rounds l).length, sources[q + 1 + k]? = some (.result l k)
  result : ∀ q l k : Nat, sources[q]? = some (.result l k) → ∃ q₀ m i, q = q₀ + 1 + k ∧
    sources[q₀]? = some (.round l) ∧ (rounds l)[k]? = some (m, i) ∧
      p.nodes[q]? = some ⟨.roundResult k, [q₀]⟩ ∧ p.remap[i]? = some (some q)
  source : ∀ i q : Nat, p.remap[i]? = some (some q) → sources[q]? = some (.node i) ∨
    ∃ l k m, sources[q]? = some (.result l k) ∧ (rounds l)[k]? = some (m, i)

theorem roundIds_plain {op : Op} {inputs : List ValueId} (h : op.isPlain = true) :
    roundIds [(⟨op, inputs⟩ : Node)] = [] := by
  cases op <;> first | rfl | cases h

/-- The sources of a round and its results. -/
def blockSources (level len : Nat) : List Source :=
  .round level :: (List.range len).map (.result level)

/-- A round at `o` has been emitted, with the first `k` of its results. The products' results in the
    old list have their places among them, and nothing else moved. -/
structure ResultsPlaced (p : Placing) (o : Nat) (id : RoundId) (refs : List ValueId)
    (rs : List (ValueId × ValueId)) (k : Nat) (p' : Placing) : Prop where
  nodes : p'.nodes = p.nodes ++ ⟨.round id, refs⟩ ::
    (List.range k).map fun j => ⟨.roundResult j, [o]⟩
  numRounds : p'.numRounds = p.numRounds + 1
  size : p'.remap.length = p.remap.length
  done : ∀ (j : Nat) (e : ValueId × ValueId), j < k → rs[j]? = some e →
    p'.remap[e.2]? = some (some (o + 1 + j))
  other : ∀ i : Nat, i ∉ (rs.take k).map Prod.snd → p'.remap[i]? = p.remap[i]?

/-- The results of a round, one after the other. -/
theorem placeResults_returns {p : Placing} {o : Nat} {id : RoundId} {refs : List ValueId}
    {rs : List (ValueId × ValueId)} (ho : o = p.nodes.length)
    (hrange : ∀ e ∈ rs, e.2 < p.remap.length) (hdistinct : (rs.map Prod.snd).Nodup) :
    Returns (ResultsPlaced p o id refs rs rs.length)
      (rs.zipIdx.foldlM (fun p ((_, resultIdx), k) => RoundSchedule.placeResult o p resultIdx k)
        { p with nodes := p.nodes ++ [⟨.round id, refs⟩], numRounds := p.numRounds + 1 }) := by
  have hloop : Returns (ResultsPlaced p o id refs rs (0 + rs.length))
      (rs.zipIdx.foldlM (fun p ((_, resultIdx), k) => RoundSchedule.placeResult o p resultIdx k)
        { p with nodes := p.nodes ++ [⟨.round id, refs⟩], numRounds := p.numRounds + 1 }) := by
    refine Meets.foldlM_zipIdx (ResultsPlaced p o id refs rs) ⟨rfl, rfl, rfl, ?_, ?_⟩ ?_
    · intro j e hj
      exact absurd hj (Nat.not_lt_zero j)
    · intro i _
      rfl
    · rintro k ⟨m, i⟩ p' he hp'
      rw [Nat.zero_add] at hp' ⊢
      have hi : i < p'.remap.length := by
        rw [hp'.size]
        exact hrange _ (List.mem_of_getElem? he)
      have hlen : p'.nodes.length = o + 1 + k := by
        rw [hp'.nodes, ho]
        simp
        omega
      have hnew : Node.new (.roundResult k) [o] = .ok ⟨.roundResult k, [o]⟩ :=
        Node.new_eq_ok (by simp [Op.fixedArity])
      have htake : (rs.take (k + 1)).map Prod.snd = (rs.take k).map Prod.snd ++ [i] := by
        rw [List.take_add_one, he]
        simp
      show Returns _ (RoundSchedule.placeResult o p' i k)
      rw [RoundSchedule.placeResult, setIndex, if_pos hi, ok_bind, hnew, ok_bind]
      refine ⟨?_, hp'.numRounds, ?_, ?_, ?_⟩
      · show p'.nodes ++ [(⟨.roundResult k, [o]⟩ : Node)] = _
        rw [hp'.nodes, List.range_succ]
        simp
      · show (p'.remap.set i _).length = _
        rw [List.length_set]
        exact hp'.size
      · intro j e hj hje
        show (p'.remap.set i (some p'.nodes.length))[e.2]? = _
        rcases Nat.lt_or_ge j k with hlt | hge
        · -- The results are distinct nodes, so the earlier entries stay.
          have hne : i ≠ e.2 := by
            intro heq
            have hnodup := List.nodup_iff_getElem?_ne_getElem?.mp hdistinct j k hlt
              (by simpa using (List.getElem?_eq_some_iff.mp he).1)
            apply hnodup
            rw [List.getElem?_map, List.getElem?_map, hje, he]
            exact congrArg some heq.symm
          rw [List.getElem?_set_ne hne]
          exact hp'.done j e hlt hje
        · have hjk : j = k := by omega
          subst hjk
          rw [he] at hje
          cases hje
          rw [List.getElem?_set_self hi, hlen]
      · intro j hj
        rw [htake, List.mem_append, List.mem_singleton] at hj
        push Not at hj
        show (p'.remap.set i _)[j]? = _
        rw [List.getElem?_set_ne (Ne.symm hj.2)]
        exact hp'.other j hj.1
  rw [Nat.zero_add] at hloop
  exact hloop

namespace Arranged

/-- Nothing emitted yet. -/
theorem start (old : List Node) (rounds : Nat → List (ValueId × ValueId)) :
    Arranged old rounds ⟨List.replicate old.length none, [], 0⟩ [] := by
  refine ⟨List.length_replicate, rfl, rfl, ?_, ?_, ?_, ?_, ?_⟩
  · intro i c hc
    cases hc
  · intro q i hq
    cases hq
  · intro q l hq
    cases hq
  · intro q l k hq
    cases hq
  · intro i q hiq
    cases List.eq_of_mem_replicate (List.mem_of_getElem? hiq)

variable {old : List Node} {rounds : Nat → List (ValueId × ValueId)} {p : Placing}
  {sources : List Source}

theorem target_lt (h : Arranged old rounds p sources) {i q : Nat}
    (hiq : p.remap[i]? = some (some q)) : q < p.nodes.length := by
  rw [← h.length]
  rcases h.source i q hiq with hq | ⟨l, k, m, hq, _⟩
  · exact (List.getElem?_eq_some_iff.mp hq).1
  · exact (List.getElem?_eq_some_iff.mp hq).1

theorem renamed_lt (h : Arranged old rounds p sources) {refs refs' : List ValueId}
    (hr : Renamed p.remap refs refs') : ∀ u ∈ refs', u < p.nodes.length := by
  intro u hu
  obtain ⟨v, _, hvu⟩ := hr.source hu
  exact h.target_lt hvu

/-- A plain node that has not been re-emitted. -/
theorem fresh_node (h : Arranged old rounds p sources)
    (hrounds : ∀ (l k m i : Nat), (rounds l)[k]? = some (m, i) →
      ∃ args, old[i]? = some ⟨.roundResult 0, args⟩)
    {i : Nat} {c : Node} (hc : old[i]? = some c) (hplain : c.op.isPlain = true)
    (hnew : Source.node i ∉ sources) (u : Nat) : p.remap[i]? ≠ some (some u) := by
  intro hiu
  rcases h.source i u hiu with hq | ⟨l, k, m, _, hentry⟩
  · exact hnew (List.mem_of_getElem? hq)
  · obtain ⟨args, hresult⟩ := hrounds l k m i hentry
    rw [hc] at hresult
    cases hresult
    cases hplain

/-- **One node.** -/
theorem placeNode_returns (h : Arranged old rounds p sources) {message : String} {i : Nat}
    {c : Node} (hc : old[i]? = some c) (hplain : c.op.isPlain = true)
    (harity : ∀ arity ∈ c.op.fixedArity, c.inputs.length = arity)
    (hfresh : ∀ u : Nat, p.remap[i]? ≠ some (some u))
    (hin : ∀ v ∈ c.inputs, ∃ u, p.remap[v]? = some (some u)) :
    Returns (fun p' => Arranged old rounds p' (sources ++ [.node i]))
      (placeNode message old p i) := by
  have hi : i < p.remap.length := by
    rw [h.size]
    exact (List.getElem?_eq_some_iff.mp hc).1
  unfold placeNode
  rw [index_eq hc, ok_bind]
  apply Meets.bind (mapM_remapped_returns hin)
  intro inputs hren
  have hnew : Node.new c.op inputs = .ok ⟨c.op, inputs⟩ := by
    apply Node.new_eq_ok
    intro arity h
    rw [hren.length]
    exact harity arity h
  rw [setIndex, if_pos hi, ok_bind, hnew, ok_bind]
  -- The node has no place yet, so writing its place overwrites none.
  have hstays : ∀ {refs refs' : List ValueId}, Renamed p.remap refs refs' →
      Renamed (p.remap.set i (some p.nodes.length)) refs refs' := fun hr => hr.stays hfresh
  have hentry : ∀ {j q : Nat}, p.remap[j]? = some (some q) →
      (p.remap.set i (some p.nodes.length))[j]? = some (some q) := by
    intro j q hjq
    have hij : i ≠ j := by
      intro heq
      subst heq
      exact hfresh q hjq
    rw [List.getElem?_set_ne hij]
    exact hjq
  refine ⟨?_, ?_, ?_, ?_, ?_, ?_, ?_, ?_⟩
  · rw [List.length_set]
    exact h.size
  · show roundIds (p.nodes ++ [(⟨c.op, inputs⟩ : Node)]) = List.range p.numRounds
    rw [roundIds_append, h.ids, roundIds_plain hplain, List.append_nil]
  · simp [h.length]
  · exact h.ordered.push (h.renamed_lt hren)
  · intro q j hq
    rcases Nat.lt_or_ge q sources.length with hlt | hge
    · rw [List.getElem?_append_left hlt] at hq
      obtain ⟨hjq, c', refs, hc', hplain', hget, hr⟩ := h.node q j hq
      exact ⟨hentry hjq, c', refs, hc', hplain', getElem?_append_of_some hget, hstays hr⟩
    · rw [List.getElem?_append_right hge] at hq
      obtain ⟨hk, heq⟩ := List.getElem?_eq_some_iff.mp hq
      simp only [List.length_singleton, Nat.lt_one_iff] at hk
      simp only [List.getElem_singleton, Source.node.injEq] at heq
      subst heq
      have hqlen : q = p.nodes.length := by
        rw [← h.length]
        omega
      subst hqlen
      refine ⟨List.getElem?_set_self hi, c, inputs, hc, hplain, ?_, hstays hren⟩
      simp
  · intro q l hq
    rcases Nat.lt_or_ge q sources.length with hlt | hge
    · rw [List.getElem?_append_left hlt] at hq
      obtain ⟨id, refs, hget, hr, hblock⟩ := h.round q l hq
      refine ⟨id, refs, getElem?_append_of_some hget, hstays hr, ?_⟩
      intro k hk
      exact getElem?_append_of_some (hblock k hk)
    · rw [List.getElem?_append_right hge] at hq
      have hmem := List.mem_of_getElem? hq
      cases List.mem_singleton.mp hmem
  · intro q l k hq
    rcases Nat.lt_or_ge q sources.length with hlt | hge
    · rw [List.getElem?_append_left hlt] at hq
      obtain ⟨q₀, m, j, hqq, hround, hpair, hget, hjq⟩ := h.result q l k hq
      exact ⟨q₀, m, j, hqq, getElem?_append_of_some hround, hpair, getElem?_append_of_some hget,
        hentry hjq⟩
    · rw [List.getElem?_append_right hge] at hq
      have hmem := List.mem_of_getElem? hq
      cases List.mem_singleton.mp hmem
  · intro j q hjq
    by_cases hij : i = j
    · subst hij
      have hset : (p.remap.set i (some p.nodes.length))[i]? = some (some p.nodes.length) :=
        List.getElem?_set_self hi
      rw [hset] at hjq
      cases hjq
      left
      rw [← h.length]
      simp
    · have hjq' : p.remap[j]? = some (some q) := by
        rw [← List.getElem?_set_ne hij]
        exact hjq
      rcases h.source j q hjq' with hq | ⟨l, k, m, hq, hpair⟩
      · exact .inl (getElem?_append_of_some hq)
      · exact .inr ⟨l, k, m, getElem?_append_of_some hq, hpair⟩

/-- **One merged round.** -/
theorem placeRounds_returns (h : Arranged old rounds p sources) {l : Nat} (hne : rounds l ≠ [])
    (hproducts : ∀ e ∈ rounds l, ∃ u : Nat, p.remap[e.1]? = some (some u))
    (hfresh : ∀ e ∈ rounds l, ∀ u : Nat, p.remap[e.2]? ≠ some (some u))
    (hrange : ∀ e ∈ rounds l, e.2 < old.length) (hdistinct : ((rounds l).map Prod.snd).Nodup) :
    Returns (fun p' => Arranged old rounds p' (sources ++ blockSources l (rounds l).length))
      (RoundSchedule.placeRounds p (rounds l)) := by
  have hempty : (rounds l).isEmpty = false := by
    rw [List.isEmpty_eq_false_iff]
    exact hne
  unfold RoundSchedule.placeRounds
  rw [hempty]
  have hin : ∀ v ∈ (rounds l).map Prod.fst, ∃ u : Nat, p.remap[v]? = some (some u) := by
    intro v hv
    obtain ⟨e, he, rfl⟩ := List.mem_map.mp hv
    exact hproducts e he
  apply Meets.bind (mapM_remapped_returns hin)
  intro refs hren
  have hround : Node.new (.round p.numRounds) refs = .ok ⟨.round p.numRounds, refs⟩ :=
    Node.new_eq_ok (by simp [Op.fixedArity])
  rw [hround, ok_bind]
  apply (placeResults_returns rfl (fun e he => by rw [h.size]; exact hrange e he) hdistinct).post
  intro p' hp'
  have hlenRefs : refs.length = (rounds l).length := by
    rw [hren.length, List.length_map]
  have hnodes := hp'.nodes
  -- Entries of `remap` that were there stay: the results are new.
  have hentry : ∀ {j q : Nat}, p.remap[j]? = some (some q) → p'.remap[j]? = some (some q) := by
    intro j q hjq
    rw [hp'.other j ?_]
    · exact hjq
    · rw [List.take_length]
      intro hmem
      obtain ⟨e, he, heq⟩ := List.mem_map.mp hmem
      rw [← heq] at hjq
      exact hfresh e he q hjq
  have hstays : ∀ {rs rs' : List ValueId}, Renamed p.remap rs rs' → Renamed p'.remap rs rs' :=
    fun hr => List.Forall₂.imp (fun v u hvu => hentry hvu) hr
  have hblock : ∀ k < (rounds l).length,
      (sources ++ blockSources l (rounds l).length)[p.nodes.length + 1 + k]? =
        some (.result l k) := by
    intro k hk
    rw [List.getElem?_append_right (by rw [h.length]; omega)]
    have hidx : p.nodes.length + 1 + k - sources.length = k + 1 := by
      rw [h.length]
      omega
    rw [hidx, blockSources, List.getElem?_cons_succ, List.getElem?_map, List.getElem?_range hk]
    rfl
  have hlast : ∀ {q : Nat} {src : Source}, sources.length ≤ q →
      (sources ++ blockSources l (rounds l).length)[q]? = some src →
      (q = p.nodes.length ∧ src = .round l) ∨
        ∃ k < (rounds l).length, q = p.nodes.length + 1 + k ∧ src = .result l k := by
    intro q src hge hq
    rw [List.getElem?_append_right hge] at hq
    have hlen := h.length
    cases hk : q - sources.length with
    | zero =>
      rw [hk] at hq
      left
      exact ⟨by omega, (Option.some.inj hq).symm⟩
    | succ k =>
      rw [hk, blockSources, List.getElem?_cons_succ, List.getElem?_map] at hq
      have hk' : k < (rounds l).length := by
        by_contra hout
        rw [List.getElem?_eq_none (by rw [List.length_range]; omega)] at hq
        cases hq
      rw [List.getElem?_range hk'] at hq
      right
      exact ⟨k, hk', by omega, (Option.some.inj hq).symm⟩
  refine ⟨?_, ?_, ?_, ?_, ?_, ?_, ?_, ?_⟩
  · rw [hp'.size]
    exact h.size
  · have hresults : roundIds ((List.range (rounds l).length).map
        fun j => (⟨.roundResult j, [p.nodes.length]⟩ : Node)) = [] := by
      rw [roundIds, List.filterMap_map]
      exact List.filterMap_eq_nil_iff.mpr fun _ _ => rfl
    have hcons : roundIds ((⟨.round p.numRounds, refs⟩ : Node) ::
        (List.range (rounds l).length).map fun j => ⟨.roundResult j, [p.nodes.length]⟩) =
        [p.numRounds] := by
      rw [← List.singleton_append, roundIds_append, hresults]
      rfl
    rw [hnodes, hp'.numRounds, roundIds_append, h.ids, hcons, List.range_succ]
  · rw [hnodes]
    simp [h.length, blockSources]
  · rw [hnodes, ← List.singleton_append, ← List.append_assoc]
    have hfirst : Ordered (p.nodes ++ [(⟨.round p.numRounds, refs⟩ : Node)]) :=
      h.ordered.push (h.renamed_lt hren)
    generalize (rounds l).length = n
    induction n with
    | zero => simpa using hfirst
    | succ n ih =>
      rw [List.range_succ, List.map_append, ← List.append_assoc]
      apply ih.push
      intro v hv
      rw [List.mem_singleton.mp hv]
      simp
  · intro q j hq
    rcases Nat.lt_or_ge q sources.length with hlt | hge
    · rw [List.getElem?_append_left hlt] at hq
      obtain ⟨hjq, c, rs, hc, hplain, hget, hr⟩ := h.node q j hq
      refine ⟨hentry hjq, c, rs, hc, hplain, ?_, hstays hr⟩
      rw [hnodes]
      exact getElem?_append_of_some hget
    · rcases hlast hge hq with ⟨_, hsrc⟩ | ⟨k, _, _, hsrc⟩ <;> cases hsrc
  · intro q l' hq
    rcases Nat.lt_or_ge q sources.length with hlt | hge
    · rw [List.getElem?_append_left hlt] at hq
      obtain ⟨id, rs, hget, hr, hresults⟩ := h.round q l' hq
      refine ⟨id, rs, ?_, hstays hr, ?_⟩
      · rw [hnodes]
        exact getElem?_append_of_some hget
      · intro k hk
        exact getElem?_append_of_some (hresults k hk)
    · rcases hlast hge hq with ⟨rfl, hsrc⟩ | ⟨k, _, _, hsrc⟩
      · cases hsrc
        refine ⟨p.numRounds, refs, ?_, hstays hren, hblock⟩
        rw [hnodes]
        simp
      · cases hsrc
  · intro q l' k hq
    rcases Nat.lt_or_ge q sources.length with hlt | hge
    · rw [List.getElem?_append_left hlt] at hq
      obtain ⟨q₀, m, j, hqq, hround, hpair, hget, hjq⟩ := h.result q l' k hq
      refine ⟨q₀, m, j, hqq, getElem?_append_of_some hround, hpair, ?_, hentry hjq⟩
      rw [hnodes]
      exact getElem?_append_of_some hget
    · rcases hlast hge hq with ⟨_, hsrc⟩ | ⟨k', hk', rfl, hsrc⟩
      · cases hsrc
      · cases hsrc
        have hpair : (rounds l)[k]? = some (rounds l)[k] := List.getElem?_eq_getElem hk'
        refine ⟨p.nodes.length, _, _, rfl, ?_, hpair, ?_, hp'.done k _ hk' hpair⟩
        · rw [← h.length]
          simp [blockSources]
        · rw [hnodes, List.getElem?_append_right (by omega)]
          have hidx : p.nodes.length + 1 + k - p.nodes.length = k + 1 := by omega
          rw [hidx, List.getElem?_cons_succ, List.getElem?_map, List.getElem?_range hk']
          rfl
  · intro j q hjq
    by_cases hmem : j ∈ (rounds l).map Prod.snd
    · obtain ⟨e, he, rfl⟩ := List.mem_map.mp hmem
      obtain ⟨k, hk, hget⟩ := List.getElem_of_mem he
      have hpair : (rounds l)[k]? = some e := hget ▸ List.getElem?_eq_getElem hk
      rw [hp'.done k e hk hpair] at hjq
      cases hjq
      exact .inr ⟨l, k, e.1, hblock k hk, hpair⟩
    · have hold : p.remap[j]? = some (some q) := by
        rw [← hp'.other j (by rw [List.take_length]; exact hmem)]
        exact hjq
      rcases h.source j q hold with hq | ⟨l', k, m, hq, hpair⟩
      · exact .inl (getElem?_append_of_some hq)
      · exact .inr ⟨l', k, m, getElem?_append_of_some hq, hpair⟩

end Arranged

/-! ## Level by level -/

namespace Graph

/-- The sources of one level: its nodes, then its round, if it has one. -/
def levelSources (g : Graph) (level : Nat) : List Source :=
  (g.levelNodes g.nodes.length level).map .node ++
    if (g.levelRounds g.nodes.length level).isEmpty then []
    else blockSources level (g.levelRounds g.nodes.length level).length

/-- The sources of the first `levels` levels. -/
def sourcesBelow (g : Graph) (levels : Nat) : List Source :=
  (List.range levels).flatMap g.levelSources

/-- Every round of the reconstruction. -/
def allRounds (g : Graph) (level : Nat) : List (ValueId × ValueId) :=
  g.levelRounds g.nodes.length level

section Levels

variable {g : Graph}

theorem mem_levelNodes {n level i : Nat} :
    i ∈ g.levelNodes n level ↔ i < n ∧ g.plainAt i = true ∧ (g.facts i).net = level := by
  simp [levelNodes]

theorem mem_levelRounds {n level : Nat} {e : ValueId × ValueId} :
    e ∈ g.levelRounds n level ↔
      ∃ i < n, g.roundAt i = true ∧ (g.facts i).net = level ∧ e = (i - 1, i + 1) := by
  simp only [levelRounds, List.mem_map, List.mem_filter, List.mem_range, Bool.and_eq_true,
    beq_iff_eq]
  constructor
  · rintro ⟨i, ⟨hi, hround, hnet⟩, rfl⟩
    exact ⟨i, hi, hround, hnet, rfl⟩
  · rintro ⟨i, hi, hround, hnet, rfl⟩
    exact ⟨i, ⟨hi, hround, hnet⟩, rfl⟩

theorem levelNodes_sorted (g : Graph) (n level : Nat) :
    (g.levelNodes n level).Pairwise (· < ·) :=
  List.Pairwise.filter _ List.pairwise_lt_range

theorem plainAt_of {i : Nat} {node : Node} (h : g.nodes[i]? = some node) :
    g.plainAt i = node.op.isPlain := by
  rw [plainAt, h]
  rfl

theorem roundAt_of {i : Nat} {node : Node} (h : g.nodes[i]? = some node) :
    g.roundAt i = node.roundId?.isSome := by
  rw [roundAt, h]
  rfl

/-- A round's entry: the product in front of it, on the round's own level, and its result. -/
theorem IsSplit.levelRounds_entry (hg : g.IsSplit) {level : Nat} {e : ValueId × ValueId}
    (he : e ∈ g.levelRounds g.nodes.length level) :
    ∃ s args id, e = (s, s + 2) ∧ g.nodes[s]? = some ⟨.mulLocal, args⟩ ∧
      g.nodes[s + 1]? = some ⟨.round id, [s]⟩ ∧
      g.nodes[s + 2]? = some ⟨.roundResult 0, [s + 1]⟩ ∧ (g.facts s).net = level ∧
      (g.facts (s + 1)).net = level := by
  obtain ⟨i, hi, hround, hnet, rfl⟩ := mem_levelRounds.mp he
  have hnode : g.nodes[i]? = some g.nodes[i] := List.getElem?_eq_getElem hi
  rw [roundAt_of hnode] at hround
  generalize hsame : g.nodes[i] = node at hnode hround
  obtain ⟨op, inputs⟩ := node
  cases op <;> cases hround
  rename_i id
  obtain ⟨s, args, rfl, rfl, hlocal, hresult⟩ := hg.round_at hnode
  refine ⟨s, args, id, rfl, hlocal, hnode, hresult, ?_, hnet⟩
  have hfacts := facts_eq hg.indexed hnode
  rw [hfacts] at hnet
  -- A round has the level of the one product it reads.
  have hmax : maxNet [g.facts s] = (g.facts s).net := by simp [maxNet]
  rw [← hmax]
  exact hnet

/-- Results of different rounds are different nodes. -/
theorem levelRounds_distinct (g : Graph) (n level : Nat) :
    ((g.levelRounds n level).map Prod.snd).Nodup := by
  rw [levelRounds, List.map_map]
  apply List.Nodup.map
  · intro i j h
    exact Nat.succ.inj h
  · exact List.Nodup.filter _ List.nodup_range

theorem IsSplit.allRounds_result (hg : g.IsSplit) {l k m i : Nat}
    (h : (g.allRounds l)[k]? = some (m, i)) : ∃ args, g.nodes[i]? = some ⟨.roundResult 0, args⟩ := by
  obtain ⟨s, _, _, heq, _, _, hresult, _⟩ := hg.levelRounds_entry (List.mem_of_getElem? h)
  cases heq
  exact ⟨_, hresult⟩

theorem mem_sourcesBelow_node {levels i : Nat} :
    Source.node i ∈ g.sourcesBelow levels ↔ ∃ l < levels, i ∈ g.levelNodes g.nodes.length l := by
  simp only [sourcesBelow, List.mem_flatMap, List.mem_range, levelSources, List.mem_append,
    List.mem_map, Source.node.injEq, exists_eq_right]
  constructor
  · rintro ⟨l, hl, hnode | hblock⟩
    · exact ⟨l, hl, hnode⟩
    · split at hblock
      · cases hblock
      · simp [blockSources] at hblock
  · rintro ⟨l, hl, hnode⟩
    exact ⟨l, hl, .inl hnode⟩

theorem mem_sourcesBelow_result {levels l k : Nat} :
    Source.result l k ∈ g.sourcesBelow levels ↔
      l < levels ∧ k < (g.allRounds l).length := by
  simp only [sourcesBelow, List.mem_flatMap, List.mem_range, levelSources, List.mem_append,
    List.mem_map, reduceCtorEq, and_false, exists_false, false_or, allRounds]
  constructor
  · rintro ⟨l', hl', hblock⟩
    split at hblock
    · cases hblock
    · simp only [blockSources, List.mem_cons, reduceCtorEq, List.mem_map, List.mem_range,
        Source.result.injEq, false_or] at hblock
      obtain ⟨k', hk', rfl, rfl⟩ := hblock
      exact ⟨hl', hk'⟩
  · rintro ⟨hl, hk⟩
    refine ⟨l, hl, ?_⟩
    have hne : (g.levelRounds g.nodes.length l).isEmpty = false := by
      rw [List.isEmpty_eq_false_iff]
      intro hnil
      rw [hnil] at hk
      cases hk
    rw [hne]
    simp [blockSources, hk]

/-- A value that is carried on is a node of its level, or the result of a round one level down. -/
theorem IsSplit.carried_source (hg : g.IsSplit) {v : Nat} {source : Node}
    (hsource : g.nodes[v]? = some source) (hraw : source.op.isRaw = false) :
    v ∈ g.levelNodes g.nodes.length (g.facts v).net ∨
      ∃ l k m : Nat, l + 1 = (g.facts v).net ∧ (g.allRounds l)[k]? = some (m, v) := by
  have hlt : v < g.nodes.length := (List.getElem?_eq_some_iff.mp hsource).1
  -- A plain node is in the bucket of its own level.
  have hplain : source.op.isPlain = true → v ∈ g.levelNodes g.nodes.length (g.facts v).net := by
    intro hp
    rw [mem_levelNodes]
    exact ⟨hlt, by rw [plainAt_of hsource]; exact hp, rfl⟩
  obtain ⟨op, args⟩ := source
  cases op
  case round => cases hraw
  case mulLocal => cases hraw
  case roundResult slot =>
    right
    obtain ⟨s, args', rfl, hlocal⟩ := hg.split.result v slot args hsource
    obtain ⟨⟨id, hround⟩, hresult⟩ := hg.split.product s args' hlocal
    -- A result's product is in the bucket one level down, because the round charges one.
    have hmem : (s, s + 2) ∈ g.allRounds (g.facts (s + 1)).net := by
      rw [allRounds, mem_levelRounds]
      refine ⟨s + 1, by omega, ?_, rfl, rfl⟩
      rw [roundAt_of hround]
      rfl
    obtain ⟨k, hk, hget⟩ := List.getElem_of_mem hmem
    refine ⟨_, k, s, ?_, hget ▸ List.getElem?_eq_getElem hk⟩
    rw [facts_eq hg.indexed hresult]
    rfl
  all_goals exact .inl (hplain rfl)

/-- What a plain node reads is on a lower level, or in front of it on its own, and never raw. -/
theorem IsSplit.input_source (hg : g.IsSplit) {i v : Nat} {node : Node}
    (hnode : g.nodes[i]? = some node) (hplain : node.op.isPlain = true) (hv : v ∈ node.inputs) :
    v < i ∧ (v ∈ g.levelNodes g.nodes.length (g.facts v).net ∧
        (g.facts v).net ≤ (g.facts i).net ∨
      ∃ l k m : Nat, l < (g.facts i).net ∧ (g.allRounds l)[k]? = some (m, v)) := by
  have hvi := hg.indexed.ordered i node hnode v hv
  have hi : i < g.nodes.length := (List.getElem?_eq_some_iff.mp hnode).1
  have hsource : g.nodes[v]? = some g.nodes[v] := List.getElem?_eq_getElem (hvi.trans hi)
  have hnet := net_mono hg.indexed hnode hv
  have hraw := hg.split.unread node (List.mem_of_getElem? hnode) hplain v hv _ hsource
  refine ⟨hvi, ?_⟩
  rcases hg.carried_source hsource hraw with hmem | ⟨l, k, m, hl, hentry⟩
  · exact .inl ⟨hmem, hnet⟩
  · exact .inr ⟨l, k, m, by omega, hentry⟩

/-- The arrangement after the first `levels` levels. -/
abbrev ArrangedBelow (g : Graph) (levels : Nat) (p : Placing) : Prop :=
  Arranged g.nodes g.allRounds p (g.sourcesBelow levels)

theorem Arranged.placed_node {old : List Node} {rounds : Nat → List (ValueId × ValueId)}
    {p : Placing} {sources : List Source} (h : Arranged old rounds p sources) {i : Nat}
    (hmem : Source.node i ∈ sources) : ∃ u : Nat, p.remap[i]? = some (some u) := by
  obtain ⟨q, hq, hget⟩ := List.getElem_of_mem hmem
  exact ⟨q, (h.node q i (hget ▸ List.getElem?_eq_getElem hq)).1⟩

theorem Arranged.placed_result {old : List Node} {rounds : Nat → List (ValueId × ValueId)}
    {p : Placing} {sources : List Source} (h : Arranged old rounds p sources) {l k m i : Nat}
    (hmem : Source.result l k ∈ sources) (hentry : (rounds l)[k]? = some (m, i)) :
    ∃ u : Nat, p.remap[i]? = some (some u) := by
  obtain ⟨q, hq, hget⟩ := List.getElem_of_mem hmem
  obtain ⟨_, m', i', _, _, hentry', _, hremap⟩ := h.result q l k (hget ▸ List.getElem?_eq_getElem hq)
  rw [hentry] at hentry'
  cases hentry'
  exact ⟨q, hremap⟩

/-- **One level.** -/
theorem placeLevel_returns (hg : g.IsSplit) {level : Nat} {p : Placing}
    (h : g.ArrangedBelow level p) :
    Returns (g.ArrangedBelow (level + 1)) (RoundSchedule.placeLevel g.nodes p
      (g.levelNodes g.nodes.length level, g.levelRounds g.nodes.length level)) := by
  have hnodes : Returns (fun p' => Arranged g.nodes g.allRounds p'
      (g.sourcesBelow level ++ (g.levelNodes g.nodes.length level).map .node))
      ((g.levelNodes g.nodes.length level).foldlM
        (placeNode "round_schedule: input not yet placed" g.nodes) p) := by
    refine Meets.foldlM_prefix (fun done p' => Arranged g.nodes g.allRounds p'
      (g.sourcesBelow level ++ done.map .node)) (by simpa using h) ?_
    intro done (i : Nat) rest p' hsplit hp'
    have hsorted := g.levelNodes_sorted g.nodes.length level
    rw [hsplit] at hsorted
    have hmem : i ∈ g.levelNodes g.nodes.length level := by
      rw [hsplit]
      simp
    obtain ⟨hi, hplainAt, hnet⟩ := mem_levelNodes.mp hmem
    have hnode : g.nodes[i]? = some g.nodes[i] := List.getElem?_eq_getElem hi
    have hplain : g.nodes[i].op.isPlain = true := by
      rw [← plainAt_of hnode]
      exact hplainAt
    -- A bucket is sorted, so what has been placed of it is exactly what is smaller.
    have hdone : ∀ v : Nat, v ∈ done → v < i := by
      intro v hv
      exact (List.pairwise_append.mp hsorted).2.2 v hv i (by simp)
    have hearlier : ∀ v : Nat, v ∈ g.levelNodes g.nodes.length level → v < i → v ∈ done := by
      intro v hv hlt
      rw [hsplit, List.mem_append] at hv
      rcases hv with hv | hv
      · exact hv
      · rcases List.mem_cons.mp hv with rfl | hv
        · omega
        · have hgt := (List.pairwise_cons.mp (List.pairwise_append.mp hsorted).2.1).1 v hv
          exact absurd hlt (Nat.lt_asymm hgt)
    rw [List.map_append, List.map_singleton, ← List.append_assoc]
    apply hp'.placeNode_returns hnode hplain
      (hg.indexed.arity _ (List.mem_of_getElem? hnode))
    · apply hp'.fresh_node (fun l k m i h => hg.allRounds_result h) hnode hplain
      rw [List.mem_append]
      rintro (hold | hnew)
      · obtain ⟨l, hl, hmem'⟩ := mem_sourcesBelow_node.mp hold
        have := (mem_levelNodes.mp hmem').2.2
        omega
      · obtain ⟨j, hj, heq⟩ := List.mem_map.mp hnew
        cases heq
        have := hdone i hj
        omega
    · intro v hv
      obtain ⟨hvi, hwhere⟩ := hg.input_source hnode hplain hv
      rcases hwhere with ⟨hmemV, hle⟩ | ⟨l, k, m, hl, hentry⟩
      · apply Arranged.placed_node hp'
        rw [List.mem_append]
        rcases Nat.lt_or_ge (g.facts v).net level with hlt | hge
        · exact .inl (mem_sourcesBelow_node.mpr ⟨_, hlt, hmemV⟩)
        · have hsame : (g.facts v).net = level := by omega
          rw [hsame] at hmemV
          exact .inr (List.mem_map_of_mem (hearlier v hmemV hvi))
      · apply Arranged.placed_result hp' _ hentry
        rw [List.mem_append]
        left
        rw [mem_sourcesBelow_result]
        exact ⟨by omega, (List.getElem?_eq_some_iff.mp hentry).1⟩
  apply Meets.bind hnodes
  intro p' hp'
  have hbelow : g.sourcesBelow (level + 1) = g.sourcesBelow level ++ g.levelSources level := by
    rw [sourcesBelow, List.range_succ, List.flatMap_append]
    simp [sourcesBelow]
  show Returns (Arranged g.nodes g.allRounds · (g.sourcesBelow (level + 1)))
    (RoundSchedule.placeRounds p' (g.allRounds level))
  rw [hbelow, levelSources, ← List.append_assoc]
  cases hempty : (g.allRounds level).isEmpty with
  | true =>
    have hnil : g.allRounds level = [] := List.isEmpty_iff.mp hempty
    have hlevel : (g.levelRounds g.nodes.length level).isEmpty = true := hempty
    rw [hlevel, hnil, if_pos rfl, List.append_nil]
    exact hp'
  -- The round's products were placed just now, and its results nowhere yet.
  | false =>
    have hlevel : (g.levelRounds g.nodes.length level).isEmpty = false := hempty
    rw [hlevel]
    apply hp'.placeRounds_returns (List.isEmpty_eq_false_iff.mp hempty)
    · intro e he
      obtain ⟨s, args, id, rfl, hlocal, _, _, hnet, _⟩ := hg.levelRounds_entry he
      apply Arranged.placed_node hp'
      rw [List.mem_append]
      right
      apply List.mem_map_of_mem
      rw [mem_levelNodes]
      exact ⟨(List.getElem?_eq_some_iff.mp hlocal).1, by rw [plainAt_of hlocal]; rfl, hnet⟩
    · intro e he u hu
      obtain ⟨s, args, id, rfl, _, hround, hresult, _, hnet⟩ := hg.levelRounds_entry he
      rcases hp'.source _ u hu with hq | ⟨l, k, m, hq, hentry⟩
      · obtain ⟨_, c, refs, hc, hplain, _⟩ := hp'.node u _ hq
        rw [hresult] at hc
        cases hc
        cases hplain
      · obtain ⟨s', _, _, heq, _, _, _, _, hnet'⟩ :=
          hg.levelRounds_entry (List.mem_of_getElem? hentry)
        have hss : s = s' := Nat.succ.inj (Nat.succ.inj (congrArg Prod.snd heq))
        subst hss
        have hmem := List.mem_of_getElem? hq
        rw [List.mem_append] at hmem
        rcases hmem with hmem | hmem
        · have := (mem_sourcesBelow_result.mp hmem).1
          omega
        · obtain ⟨_, _, hbad⟩ := List.mem_map.mp hmem
          cases hbad
    · intro e he
      obtain ⟨s, args, id, rfl, _, _, hresult, _, _⟩ := hg.levelRounds_entry he
      exact (List.getElem?_eq_some_iff.mp hresult).1
    · exact g.levelRounds_distinct g.nodes.length level

end Levels

end Graph
end CircomMpc
