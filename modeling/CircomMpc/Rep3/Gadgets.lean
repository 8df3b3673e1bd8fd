import CircomMpc.Rep3.Primitives
import CircomMpc.Vm.Machine

/-!
# The three-party gadgets

`rep3_trace` of `iszero.rs`, `num2bits.rs` and `aliascheck.rs`, and the masked `IsZero` that also
reveals its result. Each is its gadget's trace computed on sharings, over the whole batch at once:
every round of communication is one primitive's call, whatever the number of sites.

A primitive's failure is the run's (`call`). What the source asserts about the lengths of the answers,
or reads from them by index, is a check or a read here that may miss, so that a library that answers
with too few values ends a run in an error instead of in a wrong trace.
-/

namespace CircomMpc

open Lib

variable {σ S : Type}

namespace Rep3

variable (net : Rep3 σ S)

/-- `(0..n).map(|_| arithmetic::rand(state))`. -/
def draw : Nat → σ → List S × σ
  | 0, s => ([], s)
  | n + 1, s =>
    let (mask, s) := net.rand s
    let (masks, s) := draw n s
    (mask :: masks, s)

theorem draw_length (n : Nat) (s : σ) : (net.draw n s).1.length = n := by
  induction n generalizing s with
  | zero => rfl
  | succ n ih => exact congrArg (· + 1) (ih _)

end Rep3

variable (net : Rep3 σ S)

/-! ## `IsZero` -/

namespace IsZero

/-- What is inverted: every input, with its own zero bit added to it. -/
def maskZeros (inputs isZero : List S) : List S := (inputs.zip isZero).map fun p => net.add p.1 p.2

/-- `iszero::rep3_trace`. -/
def rep3Trace (inputs : List S) (s : σ) : Except RunError (List S × σ) := do
  let (bits, s) ← call (net.a2bMany inputs s)
  let (isZeroBits, s) ← call (net.isZeroMany bits s)
  let (isZero, s) ← call (net.bitInjectMany isZeroBits s)
  let (invs, s) ← call (net.invVec (maskZeros net inputs isZero) s)
  pure ((isZero.zip invs).flatMap fun p => [p.1, net.sub p.2 p.1], s)

/-- `iszero::rep3_masked_reveal_trace`, one site: the input times its mask is public. -/
def unmask (mask : S) (product : Fr) : IsZeroRevealTrace S :=
  if product = 0 then
    { isZero := net.promote 1, inverse := net.default, revealed := 1 }
  else
    { isZero := net.default, inverse := net.mulPublic mask (inverse product), revealed := 0 }

/-- `iszero::rep3_masked_reveal_trace`. -/
def rep3MaskedRevealTrace (inputs : List S) (s : σ) :
    Except RunError (List (IsZeroRevealTrace S) × σ) := do
  ensure (inputs ≠ []) .maskedRevealEmpty
  let (masks, s) := net.draw inputs.length s
  let (opened, s) ← call (net.mulOpenVec inputs masks s)
  pure ((masks.zip opened).map fun p => unmask net p.1 p.2, s)

end IsZero

/-! ## `Num2Bits` -/

/-- The `n` lowest bits of every conversion, brought back into the field. -/
def injectBits (n : Nat) (a2b : List net.Binary) (s : σ) : Except RunError (List S × σ) :=
  call (net.bitInjectMany (a2b.flatMap fun bits => (List.range n).map (net.bit bits)) s)

/-- `num2bits::rep3_trace`. -/
def Num2Bits.rep3Trace (n : Nat) (inputs : List S) (s : σ) : Except RunError (List S × σ) := do
  let (a2b, s) ← call (net.a2bMany inputs s)
  injectBits net n a2b s

/-! ## `AliasCheck` -/

namespace AliasCheck

/-- The comparator loop's running values, the sum and the parts shared. -/
structure Rep3Comparator (S : Type) where
  b : Fr
  a : Fr
  e : Fr
  sum : S
  parts : List S

def Rep3Comparator.start : Rep3Comparator S :=
  { b := ((2 ^ 128 - 1 : Nat) : Fr), a := 1, e := 1, sum := net.zeroShare, parts := [] }

/-- One pair's part, given the product of its two signals. -/
def rep3Part (a b : Fr) (highBit lowBit : Bool) (product highSig lowSig : S) : S :=
  match highBit, lowBit with
  | false, false =>
    net.add (net.add (net.mulPublic product (-b)) (net.mulPublic highSig b))
      (net.mulPublic lowSig b)
  | false, true =>
    net.addPublic
      (net.sub
        (net.add (net.sub (net.mulPublic product a) (net.mulPublic lowSig a))
          (net.mulPublic highSig b))
        (net.mulPublic highSig a)) a
  | true, false =>
    net.addPublic (net.sub (net.mulPublic product b) (net.mulPublic highSig a)) a
  | true, true => net.addPublic (net.mulPublic product (-a)) a

/-- One turn of the loop, for pair `i`. -/
def Rep3Comparator.step (site : List S) (c : Rep3Comparator S) (entry : S × Nat) :
    Rep3Comparator S :=
  let lo := entry.2 * 2
  let hi := lo + 1
  let part := rep3Part net c.a c.b (ctBitsMinusOne.getD hi false) (ctBitsMinusOne.getD lo false)
    entry.1 (site.getD hi net.default) (site.getD lo net.default)
  { b := c.b - c.e, a := c.a + c.e, e := c.e + c.e, sum := net.add c.sum part,
    parts := c.parts ++ [part] }

/-- The comparator of one site, over its 127 products. -/
def rep3Comparator (site products : List S) : Rep3Comparator S :=
  products.zipIdx.foldl (Rep3Comparator.step net site) (Rep3Comparator.start net)

/-- The lower (`k = 0`) or the higher (`k = 1`) signals of a site's 127 pairs. -/
def pairSignals (k : Nat) (site : List S) : List S :=
  (List.range 127).map fun i => site.getD (i * 2 + k) net.default

/-- One site's 519 slots. -/
def rep3SiteTrace (inputs : List S) (comparators : List (Rep3Comparator S))
    (allBitsField : List S) (site : Nat) : Except RunError (List S) := do
  let input ← rangeOf "inputs" inputs (site * 254) ((site + 1) * 254)
  let comparator ← readAt "sums" comparators site
  let bits ← rangeOf "all_bits_field" allBitsField (site * 135) ((site + 1) * 135)
  let compconstantOut ← readAt "bits" bits 127
  pure ([compconstantOut] ++ input ++ comparator.parts ++ [comparator.sum] ++ bits ++
    [comparator.sum])

/-- `aliascheck::rep3_trace`. -/
def rep3Trace (inputs : List S) (s : σ) : Except RunError (List S × σ) := do
  ensure (inputs ≠ [] ∧ inputs.length % 254 = 0) (.aliasCheckShares inputs.length)
  let sites := Poseidon2.chunksExact 254 inputs
  let (products, s) ← call
    (net.mulVec (sites.flatMap (pairSignals net 0)) (sites.flatMap (pairSignals net 1)) s)
  let comparators := (sites.zip (Poseidon2.chunksExact 127 products)).map fun p =>
    rep3Comparator net p.1 p.2
  let (a2b, s) ← call (net.a2bMany (comparators.map (·.sum)) s)
  let (allBitsField, s) ← injectBits net 135 a2b s
  let results ← (List.range (inputs.length / 254)).mapM
    (rep3SiteTrace inputs comparators allBitsField)
  pure (results.flatten, s)

end AliasCheck

end CircomMpc
