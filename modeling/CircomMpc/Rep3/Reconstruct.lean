import Mathlib.Data.List.GetD
import CircomMpc.Gadgets.Poseidon2Walk
import CircomMpc.Gadgets.Site
import CircomMpc.Lib.Refines
import CircomMpc.Modulus
import CircomMpc.Rep3.Gadgets
import CircomMpc.Vm.Rows

/-!
# The gadgets reconstruct to their plain twins

Under `Rep3.Correct`, each three-party gadget leaves sharings of the trace its own `plain_trace`
computes on the reconstructed inputs, or fails because a primitive did. `IsZero` divides by values
that are never zero: an input that is zero has its zero bit, a one, added to it first.

The proofs go through the primitives' calls in order, each with the promise it comes with, until the
last line is an equation between traces. `AliasCheck` is the long one. Its batch multiplies the 127
pairs of all sites at once, adds them up into one number a site, decomposes these, and then cuts the
three lists back into sites.
-/

namespace CircomMpc

open Lib

variable {σ S : Type}

section Reconstruct

variable {net : Rep3 σ S} {value : S → Fr} {integer : net.Binary → Nat} {Fails : Rep3Error → Prop}
  (hnet : net.Correct value integer Fails)
include hnet

/-- The bits of a conversion are the bits of the canonical representative. -/
theorem injectBits_reconstructs {n : Nat} (hn : n ≤ 254) {xs : List S} {a2b : List net.Binary}
    (h : a2b.map integer = xs.map fun x => intoBigint (value x)) (s : σ) :
    Meets (Raised Fails)
      (fun r => r.1.map value = (xs.map value).flatMap fun x => Num2Bits.bits x n)
      (injectBits net n a2b s) := by
  have hle : ∀ b ∈ a2b.flatMap fun bits => (List.range n).map (net.bit bits), integer b ≤ 1 := by
    intro b hb
    obtain ⟨bits, _, hb⟩ := List.mem_flatMap.mp hb
    obtain ⟨i, hi, rfl⟩ := List.mem_map.mp hb
    rw [hnet.bit _ (Nat.lt_of_lt_of_le (List.mem_range.mp hi) hn)]
    split <;> omega
  apply (meets_call (hnet.bitInjectMany hle s)).post
  intro out hout
  have hbits : ∀ bits : net.Binary,
      ((List.range n).map (net.bit bits)).map (fun b => ((integer b : Nat) : Fr)) =
        (List.range n).map fun i => if (integer bits).testBit i then 1 else 0 := by
    intro bits
    rw [List.map_map]
    refine List.map_congr_left fun i hi => ?_
    rw [Function.comp_apply, hnet.bit _ (Nat.lt_of_lt_of_le (List.mem_range.mp hi) hn)]
    split <;> simp
  rw [hout, List.map_flatMap]
  simp only [hbits]
  calc a2b.flatMap (fun bits => (List.range n).map fun i =>
          if (integer bits).testBit i then (1 : Fr) else 0)
      = (a2b.map integer).flatMap fun m => (List.range n).map fun i =>
          if m.testBit i then (1 : Fr) else 0 := by rw [List.flatMap_map]
    _ = (xs.map value).flatMap fun x => Num2Bits.bits x n := by
        rw [h, List.flatMap_map, List.flatMap_map]
        rfl

theorem Num2Bits.rep3Trace_reconstructs {n : Nat} (hn : n ≤ 254) (inputs : List S) (s : σ) :
    Meets (Raised Fails)
      (fun r => r.1.map value = (inputs.map value).flatMap fun x => Num2Bits.bits x n)
      (Num2Bits.rep3Trace net n inputs s) := by
  apply Meets.bind (meets_call (hnet.a2bMany inputs s))
  intro r hr
  exact injectBits_reconstructs hnet hn hr r.2

namespace IsZero

/-- With its own zero bit added, no input is zero. -/
theorem maskZeros_ne_zero {inputs isZero : List S}
    (h : isZero.map value = inputs.map fun x => if value x = 0 then 1 else 0) :
    ∀ m ∈ maskZeros net inputs isZero, value m ≠ 0 := by
  intro m hm
  obtain ⟨p, hp, rfl⟩ := List.mem_map.mp hm
  obtain ⟨i, hi, rfl⟩ := List.mem_iff_getElem.mp hp
  rw [List.length_zip, lt_min_iff] at hi
  rw [List.getElem_zip, hnet.add]
  have hbit : value isZero[i] = if value inputs[i] = 0 then 1 else 0 := by
    have hget := congrArg (fun xs => xs[i]?) h
    simpa [List.getElem?_eq_getElem hi.1, List.getElem?_eq_getElem hi.2] using hget
  rw [hbit]
  split
  next hzero => simp [hzero]
  next hne => simpa using hne

omit hnet in
/-- What the inversion gives, site by site: the zero bit, and the helper it leaves. -/
theorem helper_eq (x : Fr) :
    [(if x = 0 then 1 else 0 : Fr), (x + if x = 0 then 1 else 0)⁻¹ - if x = 0 then 1 else 0] =
      plainTrace x := by
  unfold plainTrace inverse
  by_cases hx : x = 0
  · simp [hx]
  · simp [hx]

omit hnet in
/-- What a zero test leaves can be injected. -/
theorem zeroBits_le {bits isZeroBits : List net.Binary}
    (h : isZeroBits.map integer = bits.map fun b => if integer b = 0 then 1 else 0) :
    ∀ b ∈ isZeroBits, integer b ≤ 1 := by
  intro b hb
  have hmem := List.mem_map_of_mem (f := integer) hb
  rw [h] at hmem
  obtain ⟨bit, _, hbit⟩ := List.mem_map.mp hmem
  rw [← hbit]
  split <;> omega

/-- The three calls before the inversion leave a sharing of each input's zero bit. -/
theorem isZero_reconstructs {inputs isZero : List S} {bits isZeroBits : List net.Binary}
    {s s1 s2 s3 : σ} (hbits : net.a2bMany inputs s = .ok (bits, s1))
    (hzeros : net.isZeroMany bits s1 = .ok (isZeroBits, s2))
    (hisZero : net.bitInjectMany isZeroBits s2 = .ok (isZero, s3)) :
    isZero.map value = inputs.map fun x => if value x = 0 then 1 else 0 := by
  have ha2b := hnet.a2bMany inputs s
  rw [hbits, meets_ok] at ha2b
  have htest := hnet.isZeroMany bits s1
  rw [hzeros, meets_ok] at htest
  have hinject := hnet.bitInjectMany (zeroBits_le htest) s2
  rw [hisZero, meets_ok] at hinject
  calc isZero.map value
      = (isZeroBits.map integer).map fun m : Nat => (m : Fr) := by
        rw [hinject, List.map_map]
        rfl
    _ = ((bits.map integer).map fun m => if m = 0 then 1 else 0).map fun m : Nat => (m : Fr) := by
        rw [htest, List.map_map (l := bits) (g := fun m => if m = 0 then 1 else 0)]
        rfl
    _ = inputs.map fun x => if value x = 0 then 1 else 0 := by
        rw [ha2b, List.map_map, List.map_map]
        refine List.map_congr_left fun x _ => ?_
        simp [intoBigint]

theorem rep3Trace_reconstructs (inputs : List S) (s : σ) :
    Meets (Raised Fails) (fun r => r.1.map value = (inputs.map value).flatMap plainTrace)
      (rep3Trace net inputs s) := by
  unfold rep3Trace
  refine Meets.bind (meets_called (hnet.a2bMany inputs s)) fun r hbits => ?_
  obtain ⟨bits, s1⟩ := r
  refine Meets.bind (meets_called (hnet.isZeroMany bits s1)) fun r hzeros => ?_
  obtain ⟨isZeroBits, s2⟩ := r
  refine Meets.bind (meets_called (hnet.bitInjectMany (zeroBits_le hzeros.2) s2)) fun r hisZero => ?_
  obtain ⟨isZero, s3⟩ := r
  have hindicator := isZero_reconstructs hnet hbits.1 hzeros.1 hisZero.1
  refine Meets.bind (meets_call (hnet.invVec (maskZeros_ne_zero hnet hindicator) s3))
    fun r hinvs => ?_
  obtain ⟨invs, s4⟩ := r
  dsimp only at hinvs ⊢
  have hinverses : invs.map value =
      inputs.map fun x => (value x + if value x = 0 then 1 else 0)⁻¹ := by
    calc invs.map value
        = ((inputs.map value).zip (isZero.map value)).map fun p => (p.1 + p.2)⁻¹ := by
          rw [hinvs, maskZeros, List.map_map, List.zip_map, List.map_map]
          refine List.map_congr_left fun p _ => ?_
          rw [Function.comp_apply, hnet.add]
          rfl
      _ = inputs.map fun x => (value x + if value x = 0 then 1 else 0)⁻¹ := by
          rw [hindicator, List.zip_map', List.map_map]
          rfl
  refine meets_pure ?_
  calc ((isZero.zip invs).flatMap fun p => [p.1, net.sub p.2 p.1]).map value
      = ((isZero.map value).zip (invs.map value)).flatMap fun q => [q.1, q.2 - q.1] := by
        rw [List.map_flatMap, List.zip_map, List.flatMap_map]
        simp only [List.map_cons, List.map_nil, hnet.sub]
        rfl
    _ = inputs.flatMap fun x => plainTrace (value x) := by
        rw [hindicator, hinverses, List.zip_map', List.flatMap_map]
        simp only [helper_eq]
    _ = (inputs.map value).flatMap plainTrace := by rw [List.flatMap_map]

/-- With every mask non-zero, the opened product is zero exactly where the input is. -/
theorem unmask_reconstructs {mask : S} (hmask : value mask ≠ 0) (x : Fr) :
    let trace := unmask net mask (x * value mask)
    [value trace.isZero, value trace.inverse] = plainTrace x ∧
      trace.revealed = if x = 0 then 1 else 0 := by
  have : Fact modulus.Prime := ⟨modulus_prime⟩
  unfold unmask plainTrace inverse
  by_cases hx : x = 0
  · simp [hx, hnet.promote, hnet.default]
  · have hprod : x * value mask ≠ 0 := mul_ne_zero hx hmask
    simp [hprod, hx, hnet.default, hnet.mulPublic, mul_inv_cancel_left₀ hmask]

theorem rep3MaskedRevealTrace_reconstructs (inputs : List S) (s : σ)
    (hmasks : ∀ mask ∈ (net.draw inputs.length s).1, value mask ≠ 0) :
    Meets (fun e => Raised Fails e ∨ inputs = [] ∧ e = .maskedRevealEmpty)
      (fun r => List.Forall₂ (fun x trace =>
        [value trace.isZero, value trace.inverse] = plainTrace (value x) ∧
          trace.revealed = if value x = 0 then 1 else 0) inputs r.1)
      (rep3MaskedRevealTrace net inputs s) := by
  unfold rep3MaskedRevealTrace
  refine Meets.guard_bind (fun h => .inr ⟨not_not.mp h, rfl⟩) fun _ => ?_
  have hlen : inputs.length = (net.draw inputs.length s).1.length := (net.draw_length _ s).symm
  revert hmasks hlen
  generalize net.draw inputs.length s = drawn
  obtain ⟨masks, s'⟩ := drawn
  intro hmasks hlen
  dsimp only at hmasks hlen ⊢
  apply Meets.bind ((meets_call (hnet.mulOpenVec hlen s')).weaken (fun _ => .inl) fun _ h => h)
  intro r hopened
  refine meets_pure ?_
  dsimp only
  rw [hopened, List.forall₂_iff_get]
  have hcount : ((masks.zip ((inputs.zip masks).map fun p => value p.1 * value p.2)).map
      fun p => unmask net p.1 p.2).length = inputs.length := by
    rw [List.length_map, List.length_zip, List.length_map, List.length_zip]
    omega
  refine ⟨hcount.symm, fun i hi _ => ?_⟩
  have him : i < masks.length := hlen ▸ hi
  simp only [List.get_eq_getElem, List.getElem_map, List.getElem_zip]
  exact unmask_reconstructs hnet (hmasks _ (List.getElem_mem him)) _

end IsZero

namespace AliasCheck

theorem rep3Part_reconstructs {product highSig lowSig : S}
    (h : value product = value lowSig * value highSig) (a b : Fr) (highBit lowBit : Bool) :
    value (rep3Part net a b highBit lowBit product highSig lowSig) =
      comparatorPart a b highBit lowBit (value highSig) (value lowSig) := by
  cases highBit <;> cases lowBit <;>
    simp only [rep3Part, comparatorPart, hnet.add, hnet.sub, hnet.addPublic, hnet.mulPublic, h]
  all_goals ring

omit hnet in
/-- The shared loop and the plain one, at the same turn: the powers are public and equal, the sum
    and the parts are shared. -/
structure ComparatorRel (value : S → Fr) (c : Rep3Comparator S) (c' : Comparator) : Prop where
  b : c.b = c'.b
  a : c.a = c'.a
  e : c.e = c'.e
  sum : value c.sum = c'.sum
  parts : c.parts.map value = c'.parts

theorem getD_reconstructs (site : List S) (i : Nat) :
    value (site.getD i net.default) = (site.map value).getD i 0 := by
  rw [← hnet.default, List.getD_map]

theorem step_reconstructs {site : List S} {c : Rep3Comparator S} {c' : Comparator}
    (hc : ComparatorRel value c c') {product : S} {i : Nat}
    (h : value product = value (site.getD (i * 2) net.default) *
      value (site.getD (i * 2 + 1) net.default)) :
    ComparatorRel value (Rep3Comparator.step net site c (product, i))
      (Comparator.step (site.map value) c' i) := by
  have hpart : value (rep3Part net c.a c.b (ctBitsMinusOne.getD (i * 2 + 1) false)
      (ctBitsMinusOne.getD (i * 2) false) product (site.getD (i * 2 + 1) net.default)
      (site.getD (i * 2) net.default)) =
      comparatorPart c'.a c'.b (ctBitsMinusOne.getD (i * 2 + 1) false)
        (ctBitsMinusOne.getD (i * 2) false) ((site.map value).getD (i * 2 + 1) 0)
        ((site.map value).getD (i * 2) 0) := by
    rw [rep3Part_reconstructs hnet h, hc.a, hc.b, getD_reconstructs hnet, getD_reconstructs hnet]
  constructor
  · exact congrArg₂ (· - ·) hc.b hc.e
  · exact congrArg₂ (· + ·) hc.a hc.e
  · exact congrArg₂ (· + ·) hc.e hc.e
  · exact (hnet.add _ _).trans (congrArg₂ (· + ·) hc.sum hpart)
  · simp only [Rep3Comparator.step, Comparator.step, List.map_append, hc.parts, List.map_cons,
      List.map_nil, hpart]

/-- The loop from turn `k` on. -/
theorem loop_reconstructs {site : List S} : ∀ {products : List S} {k : Nat}
    {c : Rep3Comparator S} {c' : Comparator}, ComparatorRel value c c' →
    (products.map value = (List.range' k products.length).map fun i =>
      value (site.getD (i * 2) net.default) * value (site.getD (i * 2 + 1) net.default)) →
    ComparatorRel value ((products.zipIdx k).foldl (Rep3Comparator.step net site) c)
      ((List.range' k products.length).foldl (Comparator.step (site.map value)) c')
  | [], _, _, _, hc, _ => hc
  | product :: products, k, c, c', hc, h => by
    rw [List.length_cons, List.range'_succ, List.map_cons, List.map_cons, List.cons.injEq] at h
    rw [List.zipIdx_cons, List.foldl_cons, List.length_cons, List.range'_succ, List.foldl_cons]
    exact loop_reconstructs (step_reconstructs hnet hc h.1) h.2

/-- What a site's products reconstruct to. -/
def PairProducts (net : Rep3 σ S) (value : S → Fr) (site products : List S) : Prop :=
  products.map value = (List.range' 0 127).map fun i =>
    value (site.getD (i * 2) net.default) * value (site.getD (i * 2 + 1) net.default)

theorem rep3Comparator_reconstructs {site products : List S}
    (h : PairProducts net value site products) :
    ComparatorRel value (rep3Comparator net site products) (comparator (site.map value)) := by
  have hlen : products.length = 127 := by
    have hcount := congrArg List.length h
    rwa [List.length_map, List.length_map, List.length_range'] at hcount
  have hstart : ComparatorRel value (Rep3Comparator.start net) Comparator.start :=
    ⟨rfl, rfl, rfl, hnet.zeroShare, rfl⟩
  unfold rep3Comparator comparator
  rw [List.range_eq_range', ← hlen]
  exact loop_reconstructs hnet hstart (by rw [hlen]; exact h)

omit hnet in
theorem pairSignals_length (k : Nat) (site : List S) : (pairSignals net k site).length = 127 := by
  rw [pairSignals, List.length_map, List.length_range]

omit hnet in
/-- One multiplication of all sites' pairs gives every site its own products. -/
theorem products_reconstruct {sites : List (List S)} {products : List S}
    (h : products.map value =
      ((sites.flatMap (pairSignals net 0)).zip (sites.flatMap (pairSignals net 1))).map
        fun p => value p.1 * value p.2) :
    List.Forall₂ (PairProducts net value) sites (Poseidon2.chunksExact 127 products) := by
  have hpairs : products.map value = sites.flatMap fun site =>
      ((pairSignals net 0 site).zip (pairSignals net 1 site)).map
        fun p => value p.1 * value p.2 := by
    rw [h, List.flatMap_def, List.flatMap_def, flatten_zip_flatten fun site _ => by
      rw [pairSignals_length, pairSignals_length], List.map_flatMap]
  have hchunks := Poseidon2.chunksExact_map 127 value products
  rw [hpairs, Poseidon2.chunksExact_flatMap (by omega) fun site _ => by
    rw [List.length_map, List.length_zip, pairSignals_length, pairSignals_length, min_self]]
    at hchunks
  have heach := forall₂_eq (sites.map fun site =>
    ((pairSignals net 0 site).zip (pairSignals net 1 site)).map fun p => value p.1 * value p.2)
  nth_rewrite 2 [hchunks] at heach
  rw [List.forall₂_map_left_iff, List.forall₂_map_right_iff] at heach
  refine heach.imp fun site chunk hchunk => ?_
  unfold PairProducts
  rw [← hchunk, pairSignals, pairSignals, List.zip_map', List.map_map, List.range_eq_range']
  rfl

/-- One comparator a site. -/
theorem comparators_reconstruct {sites productChunks : List (List S)}
    (h : List.Forall₂ (PairProducts net value) sites productChunks) :
    List.Forall₂ (fun site c => ComparatorRel value c (comparator (site.map value))) sites
      ((sites.zip productChunks).map fun p => rep3Comparator net p.1 p.2) := by
  induction h with
  | nil => exact .nil
  | cons hproducts _ ih => exact .cons (rep3Comparator_reconstructs hnet hproducts) ih

/-- One site's slots, out of the batch's values. -/
theorem rep3SiteTrace_reconstructs {inputs allBitsField site : List S} {sites : List (List S)}
    {comparators : List (Rep3Comparator S)} (hinputs : inputs.length = sites.length * 254)
    (hsites : Poseidon2.chunksExact 254 inputs = sites)
    (hcomparators : List.Forall₂
      (fun site c => ComparatorRel value c (comparator (site.map value))) sites comparators)
    (hbits : allBitsField.map value =
      (comparators.map fun c => value c.sum).flatMap fun x => Num2Bits.bits x 135)
    {i : Nat} (hi : sites[i]? = some site) :
    Refines (fun _ => False) (fun r y => r.map value = y)
      (rep3SiteTrace inputs comparators allBitsField i) (plainTrace (site.map value)) := by
  have hlt : i < sites.length := (List.getElem?_eq_some_iff.mp hi).1
  -- The site's own piece of each of the three lists: inputs, sums, bits.
  have hcut : slice inputs (i * 254) ((i + 1) * 254) = site := by
    have hn : inputs.length / 254 = sites.length := by omega
    rw [← hsites, Poseidon2.chunksExact, hn, List.getElem?_map, List.getElem?_range hlt] at hi
    rw [Nat.succ_mul]
    exact Option.some.inj hi
  obtain ⟨c, hc, hrel⟩ := forall₂_getElem? hcomparators.flip hi
  have hslice : (slice allBitsField (i * 135) ((i + 1) * 135)).map value =
      Num2Bits.bits (comparator (site.map value)).sum 135 := by
    obtain ⟨hic, hget⟩ := List.getElem?_eq_some_iff.mp hc
    have hi' : i < (comparators.map fun c => Num2Bits.bits (value c.sum) 135).length := by
      rw [List.length_map]
      exact hic
    have hpieces := slice_flatten (w := 135) [] (fun x hx => by
      obtain ⟨c, _, rfl⟩ := List.mem_map.mp hx
      exact Num2Bits.bits_length _ _) hi'
    rw [List.append_nil, List.getElem_map, hget, hrel.sum] at hpieces
    rw [← slice_map, hbits, List.flatMap_map, List.flatMap_def, Nat.mul_comm i,
      Nat.mul_comm (i + 1)]
    exact hpieces
  have hcount : allBitsField.length = comparators.length * 135 := by
    have hlen := congrArg List.length hbits
    simpa [List.length_flatMap, Function.comp_def, Num2Bits.bits_length] using hlen
  have hbitsLength : (slice allBitsField (i * 135) ((i + 1) * 135)).length = 135 := by
    rw [← List.length_map (f := value), hslice, Num2Bits.bits_length]
  -- Bit 127 of the sum is the comparison, by the argument of the plain gadget.
  have hnth : readAt "bits" (slice allBitsField (i * 135) ((i + 1) * 135)) 127 =
      .ok ((slice allBitsField (i * 135) ((i + 1) * 135)).getD 127 net.default) :=
    readAt_getD _ (by rw [hbitsLength]; decide)
  have hle : (i + 1) * 254 ≤ inputs.length := by
    rw [hinputs]
    exact Nat.mul_le_mul_right _ hlt
  have hle' : (i + 1) * 135 ≤ allBitsField.length := by
    rw [hcount, ← hcomparators.length_eq]
    exact Nat.mul_le_mul_right _ hlt
  unfold rep3SiteTrace plainTrace
  rw [rangeOf_eq_ok (Nat.mul_le_mul_right _ (Nat.le_succ i)) hle, ok_bind, readAt, hc, orElse_some,
    ok_bind, rangeOf_eq_ok (Nat.mul_le_mul_right _ (Nat.le_succ i)) hle', ok_bind, hnth, ok_bind,
    hcut]
  refine fun y hy => ?_
  obtain ⟨_, hy⟩ := seq_eq_ok.mp hy
  cases hy
  refine meets_pure ?_
  have hout : value ((slice allBitsField (i * 135) ((i + 1) * 135)).getD 127 net.default) =
      (Num2Bits.bits (comparator (site.map value)).sum 135).getD 127 0 := by
    rw [getD_reconstructs hnet, hslice]
  simp only [List.map_append, List.map_cons, List.map_nil, hout, hrel.parts, hrel.sum, hslice]

theorem rep3Trace_reconstructs (inputs : List S) (s : σ) (hsites : inputs.length % 254 = 0) :
    Meets (fun e => Raised Fails e ∨ inputs = [] ∧ e = .aliasCheckShares 0)
      (fun r => aliasCheckTracesPlain (inputs.map value) = .ok (r.1.map value))
      (rep3Trace net inputs s) := by
  have hn : inputs.length = inputs.length / 254 * 254 := by omega
  obtain ⟨hjoin, hlengths, hcount⟩ := Poseidon2.flatten_chunksExact (by omega) hn
  unfold rep3Trace
  refine Meets.guard_bind (fun h => .inr ?_) fun _ => ?_
  · have hnil : inputs = [] := by
      by_contra hne
      exact h ⟨hne, hsites⟩
    subst hnil
    exact ⟨rfl, rfl⟩
  have hpairs : ((Poseidon2.chunksExact 254 inputs).flatMap (pairSignals net 0)).length =
      ((Poseidon2.chunksExact 254 inputs).flatMap (pairSignals net 1)).length := by
    simp only [List.length_flatMap, pairSignals_length]
  refine Meets.bind ((meets_call (hnet.mulVec hpairs s)).weaken (fun _ => .inl) fun _ h => h) ?_
  intro r hproducts
  obtain ⟨products, s1⟩ := r
  dsimp only at hproducts ⊢
  have hcomparators := comparators_reconstruct hnet (products_reconstruct hproducts)
  generalize ((Poseidon2.chunksExact 254 inputs).zip (Poseidon2.chunksExact 127 products)).map
    (fun p => rep3Comparator net p.1 p.2) = comparators at hcomparators ⊢
  refine Meets.bind ((meets_call (hnet.a2bMany _ s1)).weaken (fun _ => .inl) fun _ h => h) ?_
  intro r ha2b
  obtain ⟨a2b, s2⟩ := r
  dsimp only at ha2b ⊢
  refine Meets.bind ((injectBits_reconstructs hnet (by decide) ha2b s2).weaken (fun _ => .inl)
    fun _ h => h) ?_
  intro r hbits
  obtain ⟨allBitsField, s3⟩ := r
  dsimp only at hbits ⊢
  rw [List.map_map] at hbits
  rw [← hcount]
  have hresults : Refines (fun _ => False) (List.Forall₂ fun (r : List S) y => r.map value = y)
      ((List.range (Poseidon2.chunksExact 254 inputs).length).mapM
        (rep3SiteTrace inputs comparators allBitsField))
      ((Poseidon2.chunksExact 254 inputs).mapM fun site => plainTrace (site.map value)) :=
    Refines.mapM (forall₂_range (Poseidon2.chunksExact 254 inputs)) fun i site hi =>
      rep3SiteTrace_reconstructs hnet (hcount ▸ hn) rfl hcomparators hbits hi
  have hplain : (Poseidon2.chunksExact 254 inputs).mapM (fun site => plainTrace (site.map value)) =
      .ok ((Poseidon2.chunksExact 254 inputs).map fun site => trace (site.map value)) :=
    mapM_eq_ok fun site hsite =>
      (plainTrace_eq_ok (by rw [List.length_map]; exact hlengths site hsite)).1
  obtain ⟨results, hrun, hrel⟩ := (hresults _ hplain).ok_of_never
  rw [hrun]
  refine meets_pure ?_
  unfold aliasCheckTracesPlain
  rw [ensure_of (by rw [List.length_map]; exact hsites), ok_bind, Poseidon2.chunksExact_map,
    List.mapM_map]
  have hjoined : results.map (List.map value) =
      (Poseidon2.chunksExact 254 inputs).map fun site => trace (site.map value) := by
    rw [← List.forall₂_eq_eq_eq, List.forall₂_map_left_iff]
    exact hrel
  rw [List.map_flatten, hjoined]
  exact congrArg (fun x => x >>= fun traces => pure traces.flatten) hplain

end AliasCheck

end Reconstruct

end CircomMpc
