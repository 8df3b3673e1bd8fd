import CircomMpc.Vm.Error

/-!
# The plain traces of `IsZero`, `Num2Bits` and `AliasCheck`

What one site of each gadget computes in the clear: outputs first, then the intermediates of the
circuit's own signal layout. Poseidon2's trace has a module of its own.

A trace may fail. `Num2Bits` collects as many bits as its template says, which no field element
bounds, and `AliasCheck` reads exactly 254; both are errors or panics of the source and `Except` here.
-/

namespace CircomMpc

open Lib

/-- One site's precomputed trace: a site's outputs and its intermediates. -/
structure SiteTrace (S : Type) where
  output : List S
  intermediate : List S
deriving DecidableEq, Repr

/-- A trace's slots, in order: the outputs, then the intermediates. -/
def SiteTrace.slots {S : Type} (trace : SiteTrace S) : List S := trace.output ++ trace.intermediate

/-! ## `IsZero` -/

namespace IsZero

/-- `iszero::plain_trace`: `[out, inv]`. -/
def plainTrace (x : Fr) : List Fr :=
  if x = 0 then [1, 0] else [0, inverse x]

/-- `iszero::plain_trace_many`: every site's trace, site-major. The source inverts the whole batch
    at once, which is `inverse` item by item with zeros left alone. -/
def plainTraceMany (inputs : List Fr) : List Fr :=
  (inputs.zip (inputs.map inverse)).flatMap fun (x, inv) => if x = 0 then [1, 0] else [0, inv]

theorem plainTrace_length (x : Fr) : (plainTrace x).length = 2 := by
  unfold plainTrace; split <;> rfl

/-- Inverting the batch at once changes no site's trace. -/
theorem plainTraceMany_eq (inputs : List Fr) :
    plainTraceMany inputs = inputs.flatMap plainTrace := by
  induction inputs with
  | nil => rfl
  | cons x xs ih =>
    have h : plainTraceMany (x :: xs) = plainTrace x ++ plainTraceMany xs := by
      simp [plainTraceMany, plainTrace]
    rw [h, ih, List.flatMap_cons]

end IsZero

/-! ## `Num2Bits` -/

/-- `size_of::<Fr>()`: four limbs of eight bytes. -/
def sizeOfFr : Nat := 32

namespace Num2Bits

/-- The canonical representative as `n` bits, least significant first. -/
def bits (x : Fr) (n : Nat) : List Fr :=
  (List.range n).map fun i => if (intoBigint x).testBit i then 1 else 0

/-- `num2bits::plain_trace`: the bits, collected into a vector of `n` elements. Only the allocation
    bounds `n`, which counts bits no field element has: a vector of more bytes than `isize::MAX` is
    a panic. -/
def plainTrace (isizeMax : Nat) (x : Fr) (n : Nat) : Except RunError (List Fr) := do
  ensure (n * sizeOfFr ≤ isizeMax) .capacityOverflow
  pure (bits x n)

@[simp] theorem bits_length (x : Fr) (n : Nat) : (bits x n).length = n := by
  simp [bits]

/-- A bit of a decomposition. -/
theorem bits_getD (x : Fr) {n i : Nat} (hi : i < n) :
    (bits x n).getD i 0 = if (intoBigint x).testBit i then 1 else 0 := by
  rw [bits, List.getD_eq_getElem?_getD, List.getElem?_map, List.getElem?_range hi]
  rfl

/-- The `Num2Bits` arm of `run_plain_batch`: the sites' bits, one site after the other. The vector
    they are flattened into grows as it is filled, so memory gives out before its capacity does;
    running out of memory is not modelled. -/
def plainTraceMany (isizeMax n : Nat) (inputs : List Fr) : Except RunError (List Fr) := do
  let traces ← inputs.mapM fun x => plainTrace isizeMax x n
  pure traces.flatten

variable {isizeMax n : Nat} {inputs : List Fr}

theorem plainTraceMany_eq_ok (h : n * sizeOfFr ≤ isizeMax) :
    plainTraceMany isizeMax n inputs = .ok (inputs.flatMap fun x => bits x n) := by
  have hsites : inputs.mapM (fun x => plainTrace isizeMax x n) = .ok (inputs.map fun x => bits x n) :=
    mapM_eq_ok fun x _ => by rw [plainTrace, ensure_of h]; rfl
  rw [plainTraceMany, hsites, ok_bind, List.flatMap_def]
  rfl

/-- The first site is where a batch that is too wide stops. -/
theorem plainTraceMany_overflows (h : ¬ n * sizeOfFr ≤ isizeMax) (hne : inputs ≠ []) :
    plainTraceMany isizeMax n inputs = .error .capacityOverflow := by
  cases inputs with
  | nil => exact absurd rfl hne
  | cons x xs =>
    rw [plainTraceMany, List.mapM_cons, plainTrace, ensure_of_not h]
    rfl

end Num2Bits

/-! ## `AliasCheck` -/

namespace AliasCheck

/-- `CT_BITS_MINUS_ONE`: the bits of `modulus - 1`, least significant first. -/
def ctBitsMinusOne : List Bool := [
  false, false, false, false, false, false, false, false, false, false, false, false, false,
  false, false, false, false, false, false, false, false, false, false, false, false, false,
  false, false, true, true, true, true, true, true, false, false, true, false, false, true, true,
  false, true, false, true, true, true, true, true, false, false, false, false, true, true, true,
  true, true, false, false, false, false, true, false, true, false, false, false, true, false,
  false, true, false, false, false, false, true, true, true, false, true, false, false, true,
  true, true, false, true, true, false, false, true, true, true, true, false, false, false,
  false, true, false, false, true, false, false, false, false, true, false, true, true, true,
  true, true, false, false, true, true, false, false, false, false, false, true, false, true,
  false, false, true, false, true, true, true, false, true, false, false, false, false, true,
  true, false, true, false, true, false, false, false, false, false, false, true, true, false,
  false, false, false, false, false, true, false, true, true, false, true, true, false, true,
  true, false, true, false, false, false, true, false, false, false, false, false, true, false,
  true, false, false, false, false, true, true, true, false, true, true, false, false, true,
  false, true, false, false, false, false, false, false, false, true, false, true, true, false,
  false, false, true, true, false, false, true, false, false, false, false, true, true, true,
  false, true, false, false, true, true, true, false, false, true, true, true, false, false,
  true, false, false, false, true, false, false, true, true, false, false, false, false, false,
  true, true]

/-- The comparator loop's running values: the powers `a`, `b` and `e`, the sum, and the parts in the
    order they were added. -/
structure Comparator where
  b : Fr
  a : Fr
  e : Fr
  sum : Fr
  parts : List Fr

/-- The loop's state on entry; `u128::MAX` is `2^128 - 1`. -/
def Comparator.start : Comparator :=
  { b := ((2 ^ 128 - 1 : Nat) : Fr), a := 1, e := 1, sum := 0, parts := [] }

/-- One pair's part: one of four bilinear formulas, by the constant's two bits. -/
def comparatorPart (a b : Fr) (highBit lowBit : Bool) (highSig lowSig : Fr) : Fr :=
  match highBit, lowBit with
  | false, false => -b * highSig * lowSig + b * highSig + b * lowSig
  | false, true => a * highSig * lowSig - a * lowSig + b * highSig - a * highSig + a
  | true, false => b * highSig * lowSig - a * highSig + a
  | true, true => -a * highSig * lowSig + a

/-- One turn of the loop, for pair `i`. -/
def Comparator.step (input : List Fr) (c : Comparator) (i : Nat) : Comparator :=
  let lo := i * 2
  let hi := lo + 1
  let part := comparatorPart c.a c.b (ctBitsMinusOne.getD hi false) (ctBitsMinusOne.getD lo false)
    (input.getD hi 0) (input.getD lo 0)
  { b := c.b - c.e, a := c.a + c.e, e := c.e + c.e, sum := c.sum + part,
    parts := c.parts ++ [part] }

/-- The comparator after all 127 pairs. -/
def comparator (input : List Fr) : Comparator :=
  (List.range 127).foldl (Comparator.step input) Comparator.start

/-- `aliascheck::plain_trace`: the 519-slot trace of one site, given its 254 inputs. -/
def plainTrace (input : List Fr) : Except RunError (List Fr) := do
  ensure (input.length = 254) (.assertion "AliasCheck input must be 254 field elements")
  let c := comparator input
  let sout := c.sum
  -- 135 elements fit a vector of any target.
  let bits := Num2Bits.bits sout 135
  let compconstantOut := bits.getD 127 0
  pure ([compconstantOut] ++ input ++ c.parts ++ [sout] ++ bits ++ [sout])

theorem parts_length (input : List Fr) : (comparator input).parts.length = 127 := by
  have h : ∀ (is : List Nat) (c : Comparator),
      (is.foldl (Comparator.step input) c).parts.length = c.parts.length + is.length := by
    intro is
    induction is with
    | nil => intro c; rfl
    | cons i is ih =>
      intro c
      rw [List.foldl_cons, ih]
      simp only [Comparator.step, List.length_append, List.length_cons, List.length_nil]
      omega
  unfold comparator
  rw [h, List.length_range]
  rfl

/-- A site with 254 inputs always gets its 519 slots. -/
theorem plainTrace_ok {input : List Fr} (h : input.length = 254) :
    ∃ trace, plainTrace input = .ok trace ∧ trace.length = 519 := by
  refine ⟨_, by rw [plainTrace, ensure_of h]; rfl, ?_⟩
  simp only [List.length_append, List.length_cons, List.length_nil, h, parts_length,
    Num2Bits.bits_length]

end AliasCheck

end CircomMpc
