import CircomMpc.Rep3.Ideal
import CircomMpc.Rep3.Poseidon2Reconstruct

/-!
# The three-party gadgets and their plain twins

Each gadget is implemented twice, in the clear and on sharings, with different algebra and different
batching. `GadgetsReconstruct` is what the two have in common: what a gadget leaves on sharings is,
reconstructed, its plain twin's trace, and what it may fail for. Of the second there are two
readings. Over a correct library a gadget fails as the network does, and over one that answers it
does not fail: it returns.
-/

namespace CircomMpc

open Lib

variable {σ S : Type} {net : Rep3 σ S} {value : S → Fr} {integer : net.Binary → Nat}

/-- **Every three-party gadget leaves its plain twin's trace**, failing for `Bad` alone: for every
    number of sites and every sharing of their inputs. The masked zero test is right for every draw
    of non-zero masks, and the Poseidon2 walk is the plain one, sink by sink, for any pool of powers
    that holds enough masks. A batch without sites is refused by the two gadgets that say so. -/
structure Rep3.GadgetsReconstruct (net : Rep3 σ S) (value : S → Fr) (Bad : RunError → Prop) :
    Prop where
  isZero : ∀ (inputs : List S) (s : σ),
    Meets Bad (fun r => r.1.map value = (inputs.map value).flatMap IsZero.plainTrace)
      (IsZero.rep3Trace net inputs s)
  maskedReveal : ∀ (inputs : List S) (s : σ),
    (∀ mask ∈ (net.draw inputs.length s).1, value mask ≠ 0) →
    Meets (fun e => Bad e ∨ inputs = [] ∧ e = .maskedRevealEmpty)
      (fun r => List.Forall₂ (fun x trace =>
        [value trace.isZero, value trace.inverse] = IsZero.plainTrace (value x) ∧
          trace.revealed = if value x = 0 then 1 else 0) inputs r.1)
      (IsZero.rep3MaskedRevealTrace net inputs s)
  num2Bits : ∀ (n : Nat) (inputs : List S) (s : σ), n ≤ 254 →
    Meets Bad (fun r => r.1.map value = (inputs.map value).flatMap fun x => Num2Bits.bits x n)
      (Num2Bits.rep3Trace net n inputs s)
  aliasCheck : ∀ (inputs : List S) (s : σ), inputs.length % 254 = 0 →
    Meets (fun e => Bad e ∨ inputs = [] ∧ e = .aliasCheckShares 0)
      (fun r => aliasCheckTracesPlain (inputs.map value) = .ok (r.1.map value))
      (AliasCheck.rep3Trace net inputs s)
  poseidon2 : ∀ (t sites : Nat) (rc : Poseidon2.RoundConstants t) (states : List S)
    (outputs : List (Poseidon2.SiteOutput S)) (pool : Poseidon2.MaskPool S) (s : σ)
    (outputs' : List (Poseidon2.SiteOutput Fr)),
    t ∈ poseidon2SupportedWidths → states.length = sites * t → pool.Powers value →
    pool.Holds (sites * Poseidon2.siteMasks t) →
    Poseidon2.walk Poseidon2.plainOps t (states.map value) rc
      (outputs.map (·.reconstruct value)) () = .ok (outputs', ()) →
    Meets (fun e => Bad e.1) (fun r => r.1.map (·.reconstruct value) = outputs')
      (Poseidon2.walk (Poseidon2.rep3Ops net) t states rc outputs (s, pool))
  requested : ∀ (host : Poseidon2.Host) (w : Poseidon2Width) (states : List S)
    (requests offsets : List Nat) (pool : Poseidon2.MaskPool S) (s : σ) (values : List Fr),
    pool.Powers value → pool.Holds (states.length / w.get * Poseidon2.siteMasks w.get) →
    Poseidon2.plainTraceRequested host w.get (states.map value) requests offsets = .ok values →
    Meets (fun e => Bad e.1) (fun r => r.1.map value = values)
      (Poseidon2.rep3TraceRequestedPreprocessed net host w.get states requests offsets (s, pool))

/-- The gadgets fail as the primitives they call do. -/
theorem Rep3.Correct.gadgetsReconstruct {Fails : Rep3Error → Prop}
    (hnet : net.Correct value integer Fails) : net.GadgetsReconstruct value (Raised Fails) where
  isZero := IsZero.rep3Trace_reconstructs hnet
  maskedReveal := IsZero.rep3MaskedRevealTrace_reconstructs hnet
  num2Bits _ inputs s hn := Num2Bits.rep3Trace_reconstructs hnet hn inputs s
  aliasCheck := AliasCheck.rep3Trace_reconstructs hnet
  poseidon2 _ _ rc _ outputs _ s _ ht hlen hpowers hholds hplain :=
    Poseidon2.walk_reconstructs hnet rc outputs s ht hlen hpowers hholds hplain
  requested host w _ _ _ _ s _ hpowers hholds hplain :=
    Poseidon2.rep3TraceRequested_reconstructs hnet host w s hpowers hholds hplain

theorem Rep3.GadgetsReconstruct.weaken {Bad Bad' : RunError → Prop}
    (h : net.GadgetsReconstruct value Bad) (hbad : ∀ e, Bad e → Bad' e) :
    net.GadgetsReconstruct value Bad' where
  isZero inputs s := (h.isZero inputs s).weaken hbad fun _ => id
  maskedReveal inputs s hmasks :=
    (h.maskedReveal inputs s hmasks).weaken (fun e => Or.imp_left (hbad e)) fun _ => id
  num2Bits n inputs s hn := (h.num2Bits n inputs s hn).weaken hbad fun _ => id
  aliasCheck inputs s hsites :=
    (h.aliasCheck inputs s hsites).weaken (fun e => Or.imp_left (hbad e)) fun _ => id
  poseidon2 t sites rc states outputs pool s outputs' ht hlen hpowers hholds hplain :=
    (h.poseidon2 t sites rc states outputs pool s outputs' ht hlen hpowers hholds hplain).weaken
      (fun e => hbad e.1) fun _ => id
  requested host w states requests offsets pool s values hpowers hholds hplain :=
    (h.requested host w states requests offsets pool s values hpowers hholds hplain).weaken
      (fun e => hbad e.1) fun _ => id

/-- **`IsZero` inverts no zero.** Whatever `inv_vec` does with a list that has a zero in it, the
    trace is the same, and so are its failures: the call is never made on such a list. -/
theorem IsZero.rep3Trace_invVec (hnet : net.Correct value integer)
    {invVec : List S → σ → Except Rep3Error (List S × σ)}
    (hagree : ∀ xs s, (∀ x ∈ xs, value x ≠ 0) → invVec xs s = net.invVec xs s) (inputs : List S)
    (s : σ) : IsZero.rep3Trace { net with invVec } inputs s = IsZero.rep3Trace net inputs s := by
  unfold IsZero.rep3Trace
  cases hbits : net.a2bMany inputs s with
  | error e => rfl
  | ok r =>
    obtain ⟨bits, s1⟩ := r
    dsimp only [call_ok, ok_bind]
    cases hzeros : net.isZeroMany bits s1 with
    | error e => rfl
    | ok r =>
      obtain ⟨isZeroBits, s2⟩ := r
      dsimp only [call_ok, ok_bind]
      cases hisZero : net.bitInjectMany isZeroBits s2 with
      | error e => rfl
      | ok r =>
        obtain ⟨isZero, s3⟩ := r
        have hindicator := IsZero.isZero_reconstructs hnet hbits hzeros hisZero
        have hsame := hagree _ s3 (IsZero.maskZeros_ne_zero hnet hindicator)
        dsimp only [call_ok, ok_bind]
        show (call (invVec (maskZeros net inputs isZero) s3) >>= _) = _
        rw [hsame]

/-- **Every three-party gadget reconstructs to its plain twin.** Over a correct library a gadget
    leaves sharings of its plain twin's trace or fails because the network did; if the primitives
    answer besides, it returns, with sharings of that trace. And `IsZero` inverts no zero. -/
theorem rep3_gadgets_reconstruct (hnet : net.Correct value integer) :
    net.GadgetsReconstruct value NetworkFailed ∧
    (net.Answers value → net.GadgetsReconstruct value fun _ => False) ∧
    ∀ invVec : List S → σ → Except Rep3Error (List S × σ),
      (∀ xs s, (∀ x ∈ xs, value x ≠ 0) → invVec xs s = net.invVec xs s) → ∀ inputs s,
        IsZero.rep3Trace { net with invVec } inputs s = IsZero.rep3Trace net inputs s := by
  refine ⟨hnet.gadgetsReconstruct, fun hanswers => ?_, fun invVec hagree => ?_⟩
  · exact (hnet.of_answers hanswers).gadgetsReconstruct.weaken fun _ => Raised.never
  · exact IsZero.rep3Trace_invVec hnet hagree

/-- A zero and a seven, shared by the ideal library: both zero tests return, and the one that does
    not open its inputs leaves the plain traces. -/
theorem rep3_gadgets_reconstruct_ideal :
    (∃ r, IsZero.rep3Trace ideal [(0, 0, 0), (1, 2, 4)] () = .ok r ∧
      r.1.map Summands.sum = [0, 7].flatMap IsZero.plainTrace) ∧
    ∃ r, IsZero.rep3MaskedRevealTrace ideal [(0, 0, 0), (1, 2, 4)] () = .ok r ∧
      r.1.map (·.revealed) = [1, 0] := by
  have hvalues : [((0, 0, 0) : Summands), (1, 2, 4)].map Summands.sum = [0, 7] := by decide
  have hreconstruct := (rep3_gadgets_reconstruct ideal_correct).2.1 ideal_answers
  refine ⟨?_, ?_⟩
  · rw [← hvalues]
    exact (hreconstruct.isZero _ _).ok_of_never
  · have hcall := hreconstruct.maskedReveal [(0, 0, 0), (1, 2, 4)] () fun _ => ideal_draw_ne_zero
    obtain ⟨r, hr, hrel⟩ := (hcall.weaken (fun e he => he.elim id fun h => nomatch h.1)
      fun _ => id).ok_of_never
    refine ⟨r, hr, ?_⟩
    obtain ⟨traces, s⟩ := r
    cases hrel with
    | cons hzero hrest =>
      cases hrest with
      | cons hseven hnil =>
        cases hnil
        simp only [List.map_cons, List.map_nil, hzero.2, hseven.2]
        decide

end CircomMpc
