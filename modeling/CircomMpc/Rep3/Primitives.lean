import CircomMpc.Vm.Error

/-!
# The replicated-sharing primitives

What the three-party driver and its gadgets use of the protocol library, which is not part of this
repository: a record of operations over a share type `S` and a state `σ`, the randomness and the
position in the conversation. A share is read two ways. For one party it is that party's replicated
share. For the three of them in lockstep it is the triple, and an operation is the three parties'
calls of it; that is the reading under which `Correct` says what the library promises.

Everything that talks to the other parties may fail. Local operations may not. `Correct` is what is
promised of an answer, if there is one, and of what a failure may be; `Answers` is the promise that
there is one. The results about reconstruction need the first, those that say a run returns need both.
-/

namespace CircomMpc

open Lib

/-- Why a primitive fails. -/
inductive Rep3Error where
  | network (reason : String)
  /-- `inv_vec` met a zero. -/
  | inverseOfZero

/-- `?` at a call of a primitive. -/
def Rep3Error.raise : Rep3Error → RunError
  | network reason => .driver reason
  | inverseOfZero => .inverseOfZero

structure Rep3 (σ S : Type) where
  /-- `Rep3UintShare<Fr>`: a share of an integer's bits. -/
  Binary : Type
  /-- What a local multiplication leaves, before it is reshared. -/
  Local : Type
  /-- `Rep3PrimeFieldShare::default()`. -/
  default : S
  /-- `Rep3PrimeFieldShare::zero_share()`. -/
  zeroShare : S
  /-- `promote_from_trivial` and `promote_to_trivial_share`. -/
  promote : Fr → S
  add : S → S → S
  sub : S → S → S
  addPublic : S → Fr → S
  subSharedByPublic : S → Fr → S
  subPublicByShared : Fr → S → S
  mulPublic : S → Fr → S
  /-- `arithmetic::rand`: a fresh secret, from correlated randomness. -/
  rand : σ → S × σ
  openVec : List S → σ → Except Rep3Error (List Fr × σ)
  mulVec : List S → List S → σ → Except Rep3Error (List S × σ)
  mulOpenVec : List S → List S → σ → Except Rep3Error (List Fr × σ)
  invVec : List S → σ → Except Rep3Error (List S × σ)
  localMulVec : List S → List S → σ → List Local × σ
  reshareVec : List Local → σ → Except Rep3Error (List S × σ)
  /-- `a2b_many_selector`: the conversion the state selects. -/
  a2bMany : List S → σ → Except Rep3Error (List Binary × σ)
  /-- `(bits >> i).and_mask(1)`. -/
  bit : Binary → Nat → Binary
  isZeroMany : List Binary → σ → Except Rep3Error (List Binary × σ)
  bitInjectMany : List Binary → σ → Except Rep3Error (List S × σ)

variable {σ S α β : Type}

/-- A primitive called from the repository's code. -/
def call (x : Except Rep3Error α) : Except RunError α := x.mapError Rep3Error.raise

@[simp] theorem call_ok (a : α) : call (.ok a) = .ok a := rfl

/-- A failure of the network. -/
def Network : Rep3Error → Prop
  | .network _ => True
  | .inverseOfZero => False

/-- The failures of a primitive, as the repository reports them. -/
def Raised (Fails : Rep3Error → Prop) (e : RunError) : Prop :=
  ∃ reason, Fails reason ∧ e = reason.raise

/-- The network's failures, as the repository reports them. -/
abbrev NetworkFailed : RunError → Prop := Raised Network

/-- Where no primitive fails, nothing is reported. -/
theorem Raised.never {e : RunError} (h : Raised (fun _ => False) e) : False :=
  h.elim fun _ hreason => hreason.1

section Calls

variable {Fails : Rep3Error → Prop} {P : α → Prop} {x : Except Rep3Error α}

theorem meets_call (h : Meets Fails P x) : Meets (Raised Fails) P (call x) :=
  h.mapError fun e he => ⟨e, he, rfl⟩

/-- The same, with what was returned. -/
theorem meets_called (h : Meets Fails P x) :
    Meets (Raised Fails) (fun a => x = .ok a ∧ P a) (call x) :=
  meets_call h.called

end Calls

/-- A primitive's failure is never one of the repository's own checks. -/
theorem meets_call_any {P : RunError → Prop} {Q : α → Prop} {x : Except Rep3Error α}
    (he : ∀ e : Rep3Error, P e.raise) (h : ∀ a, x = .ok a → Q a) : Meets P Q (call x) := by
  cases x with
  | ok a => exact h a rfl
  | error e => exact he e

/-- What the library promises of the three parties' calls. `value` reconstructs a sharing and
    `integer` a shared integer. A call fails for a reason of `Fails` only, and the reasons are the
    network's unless something else is said; `inv_vec` promises nothing of a list with a zero in it. -/
structure Rep3.Correct (net : Rep3 σ S) (value : S → Fr) (integer : net.Binary → Nat)
    (Fails : Rep3Error → Prop := Network) : Prop where
  default : value net.default = 0
  zeroShare : value net.zeroShare = 0
  promote : ∀ c, value (net.promote c) = c
  add : ∀ a b, value (net.add a b) = value a + value b
  sub : ∀ a b, value (net.sub a b) = value a - value b
  addPublic : ∀ a c, value (net.addPublic a c) = value a + c
  subSharedByPublic : ∀ a c, value (net.subSharedByPublic a c) = value a - c
  subPublicByShared : ∀ c a, value (net.subPublicByShared c a) = c - value a
  mulPublic : ∀ a c, value (net.mulPublic a c) = value a * c
  openVec : ∀ xs s, Meets Fails (fun r => r.1 = xs.map value) (net.openVec xs s)
  mulVec : ∀ {xs ys}, xs.length = ys.length → ∀ s, Meets Fails
    (fun r => r.1.map value = (xs.zip ys).map fun p => value p.1 * value p.2) (net.mulVec xs ys s)
  mulOpenVec : ∀ {xs ys}, xs.length = ys.length → ∀ s, Meets Fails
    (fun r => r.1 = (xs.zip ys).map fun p => value p.1 * value p.2) (net.mulOpenVec xs ys s)
  invVec : ∀ {xs}, (∀ x ∈ xs, value x ≠ 0) → ∀ s, Meets Fails
    (fun r => r.1.map value = xs.map fun x => (value x)⁻¹) (net.invVec xs s)
  reshareVec : ∀ {xs ys}, xs.length = ys.length → ∀ s s', Meets Fails
    (fun r => r.1.map value = (xs.zip ys).map fun p => value p.1 * value p.2)
    (net.reshareVec (net.localMulVec xs ys s).1 s')
  a2bMany : ∀ xs s, Meets Fails
    (fun r => r.1.map integer = xs.map fun x => intoBigint (value x)) (net.a2bMany xs s)
  bit : ∀ b {i}, i < 254 → integer (net.bit b i) = if (integer b).testBit i then 1 else 0
  isZeroMany : ∀ bs s, Meets Fails
    (fun r => r.1.map integer = bs.map fun b => if integer b = 0 then 1 else 0)
    (net.isZeroMany bs s)
  bitInjectMany : ∀ {bs}, (∀ b ∈ bs, integer b ≤ 1) → ∀ s, Meets Fails
    (fun r => r.1.map value = bs.map fun b => ((integer b : Nat) : Fr)) (net.bitInjectMany bs s)

/-- The three parties answer, with as many values as they were asked for. A library that is correct
    may still fail; one that answers as well does not. -/
structure Rep3.Answers (net : Rep3 σ S) (value : S → Fr) : Prop where
  openVec : ∀ xs s, ∃ ys s', net.openVec xs s = .ok (ys, s') ∧ ys.length = xs.length
  mulVec : ∀ {xs ys}, xs.length = ys.length → ∀ s,
    ∃ zs s', net.mulVec xs ys s = .ok (zs, s') ∧ zs.length = xs.length
  mulOpenVec : ∀ {xs ys}, xs.length = ys.length → ∀ s, ∃ r, net.mulOpenVec xs ys s = .ok r
  invVec : ∀ {xs}, (∀ x ∈ xs, value x ≠ 0) → ∀ s, ∃ r, net.invVec xs s = .ok r
  reshareVec : ∀ {xs ys}, xs.length = ys.length → ∀ s s',
    ∃ r, net.reshareVec (net.localMulVec xs ys s).1 s' = .ok r
  a2bMany : ∀ xs s, ∃ r, net.a2bMany xs s = .ok r
  isZeroMany : ∀ bs s, ∃ r, net.isZeroMany bs s = .ok r
  bitInjectMany : ∀ bs s, ∃ r, net.bitInjectMany bs s = .ok r

/-- A library that is correct where it answers, and answers, is correct and never fails. -/
theorem Rep3.Correct.of_answers {net : Rep3 σ S} {value : S → Fr} {integer : net.Binary → Nat}
    {Fails : Rep3Error → Prop} (h : net.Correct value integer Fails) (ha : net.Answers value) :
    net.Correct value integer fun _ => False where
  default := h.default
  zeroShare := h.zeroShare
  promote := h.promote
  add := h.add
  sub := h.sub
  addPublic := h.addPublic
  subSharedByPublic := h.subSharedByPublic
  subPublicByShared := h.subPublicByShared
  mulPublic := h.mulPublic
  openVec xs s := by
    obtain ⟨ys, s', hcall, _⟩ := ha.openVec xs s
    exact (h.openVec xs s).returns ⟨_, hcall⟩
  mulVec hlen s := by
    obtain ⟨zs, s', hcall, _⟩ := ha.mulVec hlen s
    exact (h.mulVec hlen s).returns ⟨_, hcall⟩
  mulOpenVec hlen s := (h.mulOpenVec hlen s).returns (ha.mulOpenVec hlen s)
  invVec hne s := (h.invVec hne s).returns (ha.invVec hne s)
  reshareVec hlen s s' := (h.reshareVec hlen s s').returns (ha.reshareVec hlen s s')
  a2bMany xs s := (h.a2bMany xs s).returns (ha.a2bMany xs s)
  bit := h.bit
  isZeroMany bs s := (h.isZeroMany bs s).returns (ha.isZeroMany bs s)
  bitInjectMany {bs} hle s := (h.bitInjectMany hle s).returns (ha.bitInjectMany bs s)

end CircomMpc
