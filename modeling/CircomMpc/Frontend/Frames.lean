import CircomMpc.Frontend.Hierarchy

/-!
# When a circuit's signals have one value

An instance has its signals at an offset of its father's. Where siblings occupy disjoint spans there,
no two instances share a signal; and where a template assigns a signal once, before it reads it, the
signal has one value in the template. Then it has one in the circuit.

Both conditions are circom's own: its runtime layout reserves a span for every instance, and the
language has a signal assigned once. Neither is checked by the inliner, which is why they are
predicates of the tree here and premises of whatever speaks of *the* value of a signal. `Settled` is
the conclusion, and it is proved by the same mutual recursion as the tree's meaning is defined by.
-/

namespace CircomMpc
namespace Frontend

open Lib

/-- The template's own signal that an operation reads or writes. -/
def TemplateOp.signal? : TemplateOp → Option Nat
  | .localSignal signal | .localSignalWrite signal => some signal
  | _ => none

/-- No node writes a signal that an earlier one has read or written: a read before the write would
    have seen another value. -/
def AssignOnce (nodes : List TemplateNode) : Prop :=
  nodes.Pairwise fun earlier later =>
    ∀ signal, later.op = .localSignalWrite signal → earlier.op.signal? ≠ some signal

/-- Two spans without a common signal. -/
def Apart (frame frame' : Nat × Nat) : Prop :=
  frame.1 + frame.2 ≤ frame'.1 ∨ frame'.1 + frame'.2 ≤ frame.1

theorem apart_of_lt {frames : List (Nat × Nat)} {frame frame' : Nat × Nat} {i j : Nat}
    (h : frames.Pairwise Apart) (hij : i < j) (hi : frames[i]? = some frame)
    (hj : frames[j]? = some frame') : Apart frame frame' := by
  obtain ⟨hilt, rfl⟩ := List.getElem?_eq_some_iff.mp hi
  obtain ⟨hjlt, rfl⟩ := List.getElem?_eq_some_iff.mp hj
  exact List.pairwise_iff_getElem.mp h i j hilt hjlt hij

theorem not_apart {frame frame' : Nat × Nat} {signal : Nat}
    (h : frame.1 ≤ signal ∧ signal < frame.1 + frame.2)
    (h' : frame'.1 ≤ signal ∧ signal < frame'.1 + frame'.2) : ¬ Apart frame frame' := by
  unfold Apart
  omega

mutual

/-- A template's own signals come first in its span, then its instances' spans, apart. The frames
    are offset and length, in the order of the instances. -/
def TemplateGraph.Framed : TemplateGraph → (span : Nat) → Prop
  | .mk nodes subGraphs, span => ∃ (own : Nat) (frames : List (Nat × Nat)), own ≤ span ∧
      (∀ node ∈ nodes, ∀ signal, node.op.signal? = some signal → signal < own) ∧
      (∀ frame ∈ frames, own ≤ frame.1 ∧ frame.1 + frame.2 ≤ span) ∧
      frames.Pairwise Apart ∧ FramedBy subGraphs frames

/-- An instance occupies a span of its father's. -/
def SubGraphInstance.Framed : SubGraphInstance → (frame : Nat × Nat) → Prop
  | .compiled template signalOffset, frame => frame.1 = signalOffset ∧ template.Framed frame.2
  | .gadget site, frame => frame.1 = site.signalOffset ∧
      frame.2 = site.numOutputs + site.numInputs + site.numIntermediates

def FramedBy : List SubGraphInstance → List (Nat × Nat) → Prop
  | [], frames => frames = []
  | inst :: insts, frames => ∃ frame rest, frames = frame :: rest ∧ inst.Framed frame ∧
      FramedBy insts rest

end

mutual

/-- Every template of the tree assigns once. -/
def TemplateGraph.AssignsOnce : TemplateGraph → Prop
  | .mk nodes subGraphs => AssignOnce nodes ∧ AssignsOnceIn subGraphs

def SubGraphInstance.AssignsOnce : SubGraphInstance → Prop
  | .compiled template _ => template.AssignsOnce
  | .gadget _ => True

def AssignsOnceIn : List SubGraphInstance → Prop
  | [] => True
  | inst :: insts => inst.AssignsOnce ∧ AssignsOnceIn insts

end

/-- One value a signal. -/
def Settled (signals : List (SignalIdx × Fr)) : Prop :=
  ∀ a ∈ signals, ∀ b ∈ signals, a.1 = b.1 → a.2 = b.2

/-- Signals within a span, one value each. Spans that are apart have settled signals together. -/
structure SettledIn (frame : Nat × Nat) (signals : List (SignalIdx × Fr)) : Prop where
  settled : Settled signals
  inside : ∀ a ∈ signals, frame.1 ≤ a.1 ∧ a.1 < frame.1 + frame.2

theorem SettledIn.below {span offset : Nat} {ext : Extension}
    (h : SettledIn (0, span) (addressed 0 ext.signals)) :
    SettledIn (offset, span) (addressed 0 (ext.below offset).signals) := by
  rw [addressed_below, Nat.zero_add]
  have hshift : addressed offset ext.signals = shifted offset (addressed 0 ext.signals) := by
    unfold addressed shifted
    rw [List.map_map]
    rfl
  rw [hshift]
  refine ⟨?_, ?_⟩
  · intro a ha b hb hab
    obtain ⟨a', ha', rfl⟩ := List.mem_map.mp ha
    obtain ⟨b', hb', rfl⟩ := List.mem_map.mp hb
    exact h.settled a' ha' b' hb' (Nat.add_right_cancel hab)
  · intro a ha
    obtain ⟨a', ha', rfl⟩ := List.mem_map.mp ha
    have hin := (h.inside a' ha').2
    rw [Nat.zero_add] at hin
    refine ⟨Nat.le_add_left _ _, ?_⟩
    show a'.1 + offset < offset + span
    rw [Nat.add_comm]
    exact Nat.add_lt_add_left hin offset

/-- The signals of a gadget: each input, output and intermediate has its own. -/
theorem GadgetInstance.settled (site : GadgetInstance) (args trace : List Fr) :
    SettledIn (0, site.numOutputs + site.numInputs + site.numIntermediates)
      (site.signals args trace) := by
  have hmem : ∀ a ∈ site.signals args trace,
      (∃ k < site.numInputs, a = (site.numOutputs + k, args.getD k 0)) ∨
      (∃ slot < site.numOutputs, a = (slot, trace.getD slot 0)) ∨
      ∃ slot, site.numOutputs ≤ slot ∧ slot < site.numOutputs + site.numIntermediates ∧
        a = (site.numOutputs + site.numInputs + (slot - site.numOutputs), trace.getD slot 0) := by
    intro a ha
    rcases List.mem_append.mp ha with ha | ha
    · obtain ⟨k, hk, rfl⟩ := List.mem_map.mp ha
      exact .inl ⟨k, List.mem_range.mp hk, rfl⟩
    · obtain ⟨slot, hslot, rfl⟩ := List.mem_map.mp ha
      by_cases hout : slot < site.numOutputs
      · rw [if_pos hout]
        exact .inr (.inl ⟨slot, hout, rfl⟩)
      · rw [if_neg hout]
        exact .inr (.inr ⟨slot, Nat.le_of_not_lt hout, List.mem_range.mp hslot, rfl⟩)
  refine ⟨?_, ?_⟩
  · intro a ha b hb hab
    rcases hmem a ha with ⟨k, hk, rfl⟩ | ⟨k, hk, rfl⟩ | ⟨k, hk, hk', rfl⟩ <;>
      rcases hmem b hb with ⟨j, hj, rfl⟩ | ⟨j, hj, rfl⟩ | ⟨j, hj, hj', rfl⟩
    all_goals
      have hsame : @Eq Nat _ _ := hab
      -- an input, an output and an intermediate never meet
      first
        | (exfalso
           omega)
        | (have heq : k = j := by omega
           rw [heq])
  · intro a ha
    rcases hmem a ha with ⟨k, hk, rfl⟩ | ⟨k, hk, rfl⟩ | ⟨k, hk, hk', rfl⟩
    all_goals
      refine ⟨Nat.zero_le _, ?_⟩
      show @LT.lt Nat _ _ _
      omega

section Body

variable {input : SignalIdx → Fr} {instances : List Behaviour} {recorded : Bool}
  {reads : Nat → Option Fr}

/-- Every binding so far is of a signal that `done` mentions, and of the value it still has: the
    writes come before what the signal would be read as from outside. -/
def Standing (reads : Nat → Option Fr) (done : List TemplateNode) (e : Execution) : Prop :=
  ∀ a ∈ e.signals, (e.writes a.1).or (reads a.1) = some a.2 ∧
    ∃ node ∈ done, node.op.signal? = some a.1

theorem Standing.more {done : List TemplateNode} {e : Execution} (h : Standing reads done e)
    (node : TemplateNode) : Standing reads (done ++ [node]) e := by
  intro a ha
  obtain ⟨hvalue, n, hn, hsignal⟩ := h a ha
  exact ⟨hvalue, n, List.mem_append_left _ hn, hsignal⟩

theorem step_standing {done : List TemplateNode} {node : TemplateNode} {e e' : Execution}
    (honce : ∀ signal, node.op = .localSignalWrite signal →
      ∀ n ∈ done, n.op.signal? ≠ some signal)
    (h : Standing reads done e)
    (hstep : e.step input instances recorded reads node = some e') :
    Standing reads (done ++ [node]) e' := by
  obtain ⟨op, inputs⟩ := node
  have hself : (⟨op, inputs⟩ : TemplateNode) ∈ done ++ [⟨op, inputs⟩] := by simp
  cases op with
  | real op =>
    obtain ⟨_, _, hstep⟩ := Option.bind_eq_some_iff.mp hstep
    obtain ⟨_, _, hstep⟩ := Option.bind_eq_some_iff.mp hstep
    cases hstep
    exact h.more _
  | localSignal signal =>
    obtain ⟨x, hx, hstep⟩ := Option.bind_eq_some_iff.mp hstep
    cases hstep
    -- A read binds its signal only where reads are recorded, in main.
    cases recorded with
    | false => exact h.more _
    | true =>
      intro a ha
      rcases List.mem_append.mp ha with ha | ha
      · exact h.more _ a ha
      · cases List.mem_singleton.mp ha
        exact ⟨hx, _, hself, rfl⟩
  | localSignalWrite signal =>
    obtain ⟨v, _, hstep⟩ := Option.bind_eq_some_iff.mp hstep
    obtain ⟨x, _, hstep⟩ := Option.bind_eq_some_iff.mp hstep
    cases hstep
    intro a ha
    rcases List.mem_append.mp ha with ha | ha
    · obtain ⟨hvalue, n, hn, hsignal⟩ := h a ha
      -- What was bound before is another signal's, or this write would be its second.
      have hne : a.1 ≠ signal := by
        intro heq
        exact honce signal rfl n hn (by rw [hsignal, heq])
      refine ⟨?_, n, List.mem_append_left _ hn, hsignal⟩
      show (Function.update e.writes signal (some x) a.1).or (reads a.1) = _
      rw [Function.update_of_ne hne]
      exact hvalue
    · cases List.mem_singleton.mp ha
      refine ⟨?_, _, hself, rfl⟩
      show (Function.update e.writes signal (some x) signal).or (reads signal) = _
      rw [Function.update_self]
      rfl
  | subCmpInput subCmp port =>
    obtain ⟨_, _, hstep⟩ := Option.bind_eq_some_iff.mp hstep
    obtain ⟨_, _, hstep⟩ := Option.bind_eq_some_iff.mp hstep
    obtain ⟨_, _, hstep⟩ := Option.bind_eq_some_iff.mp hstep
    obtain ⟨_, _, hstep⟩ := Option.bind_eq_some_iff.mp hstep
    cases hstep
    exact h.more _
  | subCmpOutput subCmp port =>
    obtain ⟨_, _, hstep⟩ := Option.bind_eq_some_iff.mp hstep
    obtain ⟨_, _, hstep⟩ := Option.bind_eq_some_iff.mp hstep
    obtain ⟨_, _, hstep⟩ := Option.bind_eq_some_iff.mp hstep
    obtain ⟨_, _, hstep⟩ := Option.bind_eq_some_iff.mp hstep
    cases hstep
    exact h.more _

theorem nodes_standing {nodes done : List TemplateNode} {e last : Execution}
    (honce : AssignOnce (done ++ nodes)) (h : Standing reads done e)
    (hrun : nodes.foldlM (Execution.step input instances recorded reads) e = some last) :
    Standing reads (done ++ nodes) last := by
  induction nodes generalizing done e with
  | nil =>
    cases hrun
    rw [List.append_nil]
    exact h
  | cons node nodes ih =>
    rw [List.foldlM_cons] at hrun
    obtain ⟨e', hstep, hrun⟩ := Option.bind_eq_some_iff.mp hrun
    have hhere : ∀ signal, node.op = .localSignalWrite signal →
        ∀ n ∈ done, n.op.signal? ≠ some signal := by
      intro signal hop n hn
      exact (List.pairwise_append.mp honce).2.2 n hn node List.mem_cons_self signal hop
    have hsplit : done ++ node :: nodes = (done ++ [node]) ++ nodes := by
      rw [List.append_assoc]
      rfl
    rw [hsplit] at honce ⊢
    exact ih honce (step_standing hhere h hstep) hrun

/-- **A template that assigns once, over instances that are settled and apart, is settled.** -/
theorem body_settled {nodes : List TemplateNode} {ext : Extension} {own span : Nat}
    {frames : List (Nat × Nat)} (hspan : own ≤ span)
    (hown : ∀ node ∈ nodes, ∀ signal, node.op.signal? = some signal → signal < own)
    (hinside : ∀ frame ∈ frames, own ≤ frame.1 ∧ frame.1 + frame.2 ≤ span)
    (hapart : frames.Pairwise Apart) (honce : AssignOnce nodes)
    (hinstances : List.Forall₂ (fun (inst : Behaviour) frame => ∀ inputs ext,
      inst inputs = some ext → SettledIn frame (addressed 0 ext.signals)) instances frames)
    (hext : bodyBehaviour input nodes instances recorded reads = some ext) :
    SettledIn (0, span) (addressed 0 ext.signals) := by
  unfold bodyBehaviour at hext
  obtain ⟨e, hrun, hext⟩ := Option.bind_eq_some_iff.mp hext
  obtain ⟨exts, hexts, hext⟩ := Option.bind_eq_some_iff.mp hext
  cases hext
  have hstart : Standing reads [] (.start instances) := fun _ ha => nomatch ha
  have honce' : AssignOnce ([] ++ nodes) := honce
  have hstanding : Standing reads nodes e := nodes_standing honce' hstart hrun
  -- A binding is the template's own, below `own`, or of one instance, within its frame.
  have hmine : ∀ a ∈ e.signals, a.1 < own := by
    intro a ha
    obtain ⟨_, node, hnode, hsignal⟩ := hstanding a ha
    exact hown node hnode a.1 hsignal
  have htheirs : ∀ a ∈ exts.flatMap (fun ext => addressed 0 ext.signals),
      ∃ (k : Nat) (frame : Nat × Nat) (ext : Extension), frames[k]? = some frame ∧
        exts[k]? = some ext ∧ SettledIn frame (addressed 0 ext.signals) ∧
          a ∈ addressed 0 ext.signals := by
    intro a ha
    obtain ⟨ext, hext, ha⟩ := List.mem_flatMap.mp ha
    obtain ⟨k, hk⟩ := List.mem_iff_getElem?.mp hext
    obtain ⟨entry, hentry, hbehaves⟩ := forall₂_getElem? (mapM_eq_some hexts) hk
    obtain ⟨hinst, _⟩ := List.getElem?_zip_eq_some.mp hentry
    obtain ⟨frame, hframe, hsettled⟩ := forall₂_getElem? hinstances.flip hinst
    exact ⟨k, frame, ext, hframe, hk, hsettled _ _ hbehaves, ha⟩
  have hmine' : shifted 0 e.signals = e.signals := List.map_id _
  rw [addressed_append, addressed_own, addressed_flatMap, hmine']
  refine ⟨?_, ?_⟩
  · intro a ha b hb hab
    rcases List.mem_append.mp ha with ha | ha <;> rcases List.mem_append.mp hb with hb | hb
    · -- Two of its own: both have the value the signal has at the end.
      have hvalue := (hstanding a ha).1
      rw [hab, (hstanding b hb).1] at hvalue
      exact (Option.some.inj hvalue).symm
    · -- One of its own, one of an instance: the instance's frame begins behind its own signals.
      obtain ⟨k, frame, ext, hframe, _, hsettled, hb⟩ := htheirs b hb
      have hlt := hmine a ha
      have hge := (hsettled.inside b hb).1
      have hle := (hinside frame (List.mem_of_getElem? hframe)).1
      rw [hab] at hlt
      exact absurd hlt (Nat.not_lt_of_le (Nat.le_trans hle hge))
    · obtain ⟨k, frame, ext, hframe, _, hsettled, ha⟩ := htheirs a ha
      have hlt := hmine b hb
      have hge := (hsettled.inside a ha).1
      have hle := (hinside frame (List.mem_of_getElem? hframe)).1
      rw [← hab] at hlt
      exact absurd hlt (Nat.not_lt_of_le (Nat.le_trans hle hge))
    · -- Two of instances: of one instance, which is settled, or of two, whose frames are apart.
      obtain ⟨k, frame, ext, hframe, hext, hsettled, ha⟩ := htheirs a ha
      obtain ⟨k', frame', ext', hframe', hext', hsettled', hb⟩ := htheirs b hb
      by_cases heq : k = k'
      · subst heq
        rw [hext] at hext'
        cases hext'
        exact hsettled.settled a ha b hb hab
      · have hin := hsettled.inside a ha
        have hin' := hsettled'.inside b hb
        rw [hab] at hin
        rcases Nat.lt_or_gt_of_ne heq with hlt | hlt
        · exact absurd (apart_of_lt hapart hlt hframe hframe') (not_apart hin hin')
        · exact absurd (apart_of_lt hapart hlt hframe' hframe) (not_apart hin' hin)
  · intro a ha
    refine ⟨Nat.zero_le _, ?_⟩
    rw [Nat.zero_add]
    rcases List.mem_append.mp ha with ha | ha
    · exact Nat.lt_of_lt_of_le (hmine a ha) hspan
    · obtain ⟨k, frame, ext, hframe, _, hsettled, ha⟩ := htheirs a ha
      exact Nat.lt_of_lt_of_le (hsettled.inside a ha).2
        (hinside frame (List.mem_of_getElem? hframe)).2

end Body

/-! ## The tree -/

section Tree

variable {host : Poseidon2.Host} {input : SignalIdx → Fr}

mutual

theorem TemplateGraph.settled : ∀ (template : TemplateGraph) {span : Nat} {recorded : Bool}
    {reads : Nat → Option Fr} {ext : Extension} (_ : template.Framed span)
    (_ : template.AssignsOnce) (_ : template.behaviour host input recorded reads = some ext),
    SettledIn (0, span) (addressed 0 ext.signals)
  | .mk nodes subGraphs, _, _, _, _, hframed, honce, hext => by
    obtain ⟨own, frames, hspan, hown, hinside, hapart, hframes⟩ := hframed
    rw [TemplateGraph.behaviour] at hext
    exact body_settled hspan hown hinside hapart honce.1
      (instances_settled subGraphs hframes honce.2) hext

theorem SubGraphInstance.settled : ∀ (inst : SubGraphInstance) {frame : Nat × Nat}
    (_ : inst.Framed frame) (_ : inst.AssignsOnce) (inputs : Nat → Option Fr) (ext : Extension)
    (_ : inst.behaviour host input inputs = some ext), SettledIn frame (addressed 0 ext.signals)
  | .compiled template signalOffset, (_, span), hframed, honce, inputs, ext, hext => by
    obtain ⟨rfl, hframed⟩ := hframed
    obtain ⟨ext', hbehaviour, rfl⟩ := Option.map_eq_some_iff.mp hext
    exact (template.settled hframed honce hbehaviour).below
  | .gadget site, (_, span), hframed, _, inputs, ext, hext => by
    obtain ⟨rfl, hspan⟩ := hframed
    obtain ⟨ext', hbehaviour, rfl⟩ := Option.map_eq_some_iff.mp hext
    obtain ⟨_, args, _, _, rfl⟩ := GadgetInstance.behaviour_eq_some hbehaviour
    dsimp only at hspan
    subst hspan
    have hsettled := site.settled args (site.kind.plainTrace host args)
    have hsame : addressed 0 (own (site.signals args (site.kind.plainTrace host args))) =
        site.signals args (site.kind.plainTrace host args) :=
      (addressed_own 0 _).trans (List.map_id _)
    rw [← hsame] at hsettled
    exact SettledIn.below hsettled

theorem instances_settled : ∀ (insts : List SubGraphInstance) {frames : List (Nat × Nat)}
    (_ : FramedBy insts frames) (_ : AssignsOnceIn insts),
    List.Forall₂ (fun (inst : Behaviour) frame => ∀ inputs ext, inst inputs = some ext →
      SettledIn frame (addressed 0 ext.signals)) (behaviours host input insts) frames
  | [], _, hframes, _ => by
    cases hframes
    exact .nil
  | inst :: insts, _, hframes, honce => by
    obtain ⟨frame, rest, rfl, hframed, hrest⟩ := hframes
    rw [behaviours]
    exact .cons (inst.settled hframed honce.1) (instances_settled insts hrest honce.2)

end

/-- **In a framed tree that assigns once, a signal has one value.** -/
theorem signals_settled {main : TemplateGraph} {span : Nat} {signals : List (Place × Fr)}
    (hframed : main.Framed span) (honce : main.AssignsOnce)
    (hmain : main.signals host input = some signals) :
    SettledIn (0, span) (addressed 0 signals) := by
  obtain ⟨ext, hext, rfl⟩ := Option.map_eq_some_iff.mp hmain
  exact main.settled hframed honce hext

end Tree

end Frontend
end CircomMpc
