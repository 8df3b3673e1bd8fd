import Mathlib.Algebra.Ring.Nat
import CircomMpc.Lib.Outcome

/-!
# Readers of byte strings, and what they read

A `Reader` consumes a byte string from the front and may fail. Two judgments are proved about one.
`Decodes r bs x ok` goes from a value to its bytes: on `bs`, whatever follows, `r` returns `x` and
stops right behind `bs` when `ok` holds, and fails when it does not; and it fails on every proper
initial piece of `bs`. `Consumes r E` goes the other way: whatever `r` accepts is a piece of the
input that `E` relates to the value returned.

Both have one rule per way readers are put together, so that a proof about a format is the shape of
its reader. The truncated case is part of the first judgment because it composes there: an initial
piece of two pieces either cuts the first or contains it.
-/

namespace CircomMpc
namespace Lib

variable {ε α β : Type}

/-- A computation that consumes bytes from the front of a string. -/
abbrev Reader (ε α : Type) : Type := StateT (List UInt8) (Except ε) α

namespace Reader

/-- The next `n` bytes. -/
def take (eof : ε) (n : Nat) : Reader ε (List UInt8) := fun s =>
  if n ≤ s.length then .ok (s.take n, s.drop n) else .error eof

/-- A fallible computation that reads nothing. -/
def lift (x : Except ε α) : Reader ε α := fun s => x >>= fun a => .ok (a, s)

/-- `n` items, one after the other. -/
def many (r : Reader ε α) : Nat → Reader ε (List α)
  | 0 => pure []
  | n + 1 => do
    let x ← r
    let xs ← many r n
    pure (x :: xs)

theorem bind_run (r : Reader ε α) (f : α → Reader ε β) (s : List UInt8) :
    (r >>= f) s = r s >>= fun (x, s) => f x s := rfl

theorem bind_eq_ok {r : Reader ε α} {f : α → Reader ε β} {s rest : List UInt8} {y : β}
    (h : (r >>= f) s = .ok (y, rest)) :
    ∃ x s', r s = .ok (x, s') ∧ f x s' = .ok (y, rest) := by
  rw [bind_run] at h
  obtain ⟨⟨x, s'⟩, hx, hf⟩ := Lib.bind_eq_ok.mp h
  exact ⟨x, s', hx, hf⟩

end Reader

/-! ## From a value to its bytes -/

/-- `r` reads `bs` as `x` if `ok`, and fails otherwise, whatever follows; and it needs all of `bs`,
    so that a truncated string is an error. -/
structure Decodes (r : Reader ε α) (bs : List UInt8) (x : α) (ok : Prop) : Prop where
  accepts : ok → ∀ rest, r (bs ++ rest) = .ok (x, rest)
  rejects : ¬ ok → ∀ rest, ∃ e, r (bs ++ rest) = .error e
  truncated : ∀ s t, bs = s ++ t → t ≠ [] → ∃ e, r s = .error e

namespace Decodes

variable {r : Reader ε α} {bs bs' : List UInt8} {x : α} {ok ok' : Prop}

protected theorem pure (x : α) : Decodes (pure x : Reader ε α) [] x True := by
  refine ⟨fun _ rest => rfl, fun h => absurd trivial h, fun s t h ht => ?_⟩
  exact absurd (List.append_eq_nil_iff.mp h.symm).2 ht

/-- The same judgment under another name for the bytes and the condition. -/
theorem cast (h : Decodes r bs x ok) (hbs : bs = bs') (hok : ok ↔ ok') : Decodes r bs' x ok' := by
  subst hbs
  rw [← propext hok]
  exact h

protected theorem bind {f : α → Reader ε β} {y : β} (hr : Decodes r bs x ok)
    (hf : ok → Decodes (f x) bs' y ok') : Decodes (r >>= f) (bs ++ bs') y (ok ∧ ok') := by
  refine ⟨?_, ?_, ?_⟩
  · rintro ⟨h, h'⟩ rest
    rw [Reader.bind_run, List.append_assoc, hr.accepts h, ok_bind]
    exact (hf h).accepts h' rest
  · intro h rest
    rw [Reader.bind_run, List.append_assoc]
    by_cases hok : ok
    · rw [hr.accepts hok, ok_bind]
      exact (hf hok).rejects (fun h' => h ⟨hok, h'⟩) rest
    · obtain ⟨e, he⟩ := hr.rejects hok (bs' ++ rest)
      exact ⟨e, by rw [he]; rfl⟩
  · intro s t h ht
    rw [Reader.bind_run]
    -- Either the cut is inside `bs`, or `s` is all of `bs` and a piece of `bs'`.
    rcases List.append_eq_append_iff.mp h with ⟨u, hs, hu⟩ | ⟨u, hs, hu⟩
    · by_cases hok : ok
      · obtain ⟨e, he⟩ := (hf hok).truncated u t hu ht
        exact ⟨e, by rw [hs, hr.accepts hok, ok_bind]; exact he⟩
      · obtain ⟨e, he⟩ := hr.rejects hok u
        exact ⟨e, by rw [hs, he]; rfl⟩
    · by_cases hnil : u = []
      · subst hnil
        rw [List.append_nil] at hs
        rw [List.nil_append] at hu
        subst hs hu
        by_cases hok : ok
        · obtain ⟨e, he⟩ := (hf hok).truncated [] t rfl ht
          have hacc := hr.accepts hok []
          rw [List.append_nil] at hacc
          exact ⟨e, by rw [hacc, ok_bind]; exact he⟩
        · obtain ⟨e, he⟩ := hr.rejects hok []
          rw [List.append_nil] at he
          exact ⟨e, by rw [he]; rfl⟩
      · obtain ⟨e, he⟩ := hr.truncated s u hs hnil
        exact ⟨e, by rw [he]; rfl⟩

/-- A last step that returns something and reads nothing. -/
theorem bind_pure {f : α → Reader ε β} {y : β} (hr : Decodes r bs x ok)
    (hf : f x = pure y) :
    Decodes (r >>= f) bs y ok := by
  refine (hr.bind fun _ => ?_).cast (List.append_nil bs) (and_iff_left trivial)
  rw [hf]
  exact Decodes.pure y

/-- A last step that only packages what was read. -/
theorem map {f : α → β} (hr : Decodes r bs x ok) :
    Decodes (r >>= fun x => pure (f x)) bs (f x) ok :=
  hr.bind_pure rfl

theorem take (eof : ε) (bs : List UInt8) {n : Nat} (h : bs.length = n) :
    Decodes (Reader.take eof n) bs bs True := by
  subst h
  refine ⟨fun _ rest => ?_, fun h => absurd trivial h, fun s t h ht => ⟨eof, ?_⟩⟩
  · unfold Reader.take
    rw [if_pos (by rw [List.length_append]; exact Nat.le_add_right _ _), List.take_left,
      List.drop_left]
  · have hlen : 0 < t.length := List.length_pos_iff.mpr ht
    unfold Reader.take
    rw [if_neg (by rw [h, List.length_append]; omega)]

theorem lift {y : Except ε α} {x : α} (h : y = .ok x) : Decodes (Reader.lift y) [] x True := by
  subst h
  exact Decodes.pure x

/-- A check that passes exactly when `ok` holds, and the value it hands on. -/
theorem guard {y : Except ε α} {x : α} (h : ok → y = .ok x) (h' : ¬ ok → ∃ e, y = .error e) :
    Decodes (Reader.lift y) [] x ok := by
  refine ⟨fun hok rest => ?_, fun hok rest => ?_, fun s t h ht => ?_⟩
  · rw [h hok]; rfl
  · obtain ⟨e, he⟩ := h' hok
    exact ⟨e, by rw [he]; rfl⟩
  · exact absurd (List.append_eq_nil_iff.mp h.symm).2 ht

/-- A table: item by item. -/
theorem many {e : α → List UInt8} {p : α → Prop} :
    ∀ {xs : List α}, (∀ x ∈ xs, Decodes r (e x) x (p x)) →
      Decodes (r.many xs.length) (xs.flatMap e) xs (∀ x ∈ xs, p x)
  | [], _ => (Decodes.pure []).cast rfl (by simp)
  | x :: xs, h => by
    have hx := h x (by simp)
    have hxs : Decodes (r.many xs.length) (xs.flatMap e) xs (∀ x ∈ xs, p x) :=
      many fun y hy => h y (by simp [hy])
    exact (hx.bind fun _ => hxs.map).cast rfl (by simp)

end Decodes

/-! ## From accepted bytes to the value -/

/-- Whatever `r` accepts is a piece of the input that `E` relates to the value. -/
def Consumes (r : Reader ε α) (E : α → List UInt8 → Prop) : Prop :=
  ∀ s x rest, r s = .ok (x, rest) → ∃ bs, s = bs ++ rest ∧ E x bs

namespace Consumes

variable {r : Reader ε α} {E E' : α → List UInt8 → Prop}

protected theorem pure (x : α) :
    Consumes (pure x : Reader ε α) fun y bs => y = x ∧ bs = [] := by
  intro s y rest h
  cases h
  exact ⟨[], rfl, rfl, rfl⟩

protected theorem bind {f : α → Reader ε β} {F : α → β → List UInt8 → Prop} (hr : Consumes r E)
    (hf : ∀ x, Consumes (f x) (F x)) :
    Consumes (r >>= f) fun y bs => ∃ x b b', bs = b ++ b' ∧ E x b ∧ F x y b' := by
  intro s y rest h
  obtain ⟨x, s', hx, hy⟩ := Reader.bind_eq_ok h
  obtain ⟨b, rfl, hb⟩ := hr s x s' hx
  obtain ⟨b', rfl, hb'⟩ := hf x s' y rest hy
  exact ⟨b ++ b', (List.append_assoc b b' rest).symm, x, b, b', rfl, hb, hb'⟩

theorem weaken (hr : Consumes r E) (h : ∀ x bs, E x bs → E' x bs) : Consumes r E' := by
  intro s x rest hx
  obtain ⟨bs, hs, he⟩ := hr s x rest hx
  exact ⟨bs, hs, h x bs he⟩

theorem take (eof : ε) (n : Nat) :
    Consumes (Reader.take eof n) fun x bs => bs = x ∧ x.length = n := by
  intro s x rest h
  unfold Reader.take at h
  split at h
  · next hn =>
    cases h
    exact ⟨s.take n, (List.take_append_drop n s).symm, rfl, List.length_take_of_le hn⟩
  · cases h

theorem lift (y : Except ε α) : Consumes (Reader.lift y) fun x bs => y = .ok x ∧ bs = [] := by
  intro s x rest h
  obtain ⟨a, ha, hret⟩ := Lib.bind_eq_ok.mp h
  cases hret
  exact ⟨[], rfl, ha, rfl⟩

theorem many (hr : Consumes r E) : ∀ n, Consumes (r.many n) fun xs bs =>
    xs.length = n ∧ ∃ pieces, List.Forall₂ E xs pieces ∧ bs = pieces.flatten
  | 0 => (Consumes.pure []).weaken fun xs bs ⟨hxs, hbs⟩ => by
    subst hxs hbs
    exact ⟨rfl, [], .nil, rfl⟩
  | n + 1 => by
    refine (hr.bind fun x => (many hr n).bind fun xs => Consumes.pure (x :: xs)).weaken ?_
    rintro _ _ ⟨x, b, _, rfl, hx, xs, _, _, rfl, ⟨hlen, pieces, hxs, rfl⟩, rfl, rfl⟩
    exact ⟨by rw [List.length_cons, hlen], b :: pieces, .cons hx hxs, by simp⟩

/-- A table whose items are their encodings is its items' encodings. -/
theorem many_of {e : α → List UInt8} {p : α → Prop} (hr : Consumes r fun x bs => bs = e x ∧ p x)
    (n : Nat) :
    Consumes (r.many n) fun xs bs => xs.length = n ∧ bs = xs.flatMap e ∧ ∀ x ∈ xs, p x := by
  refine (many hr n).weaken ?_
  rintro xs _ ⟨hlen, pieces, hall, rfl⟩
  refine ⟨hlen, ?_⟩
  clear hlen
  induction hall with
  | nil => exact ⟨rfl, by simp⟩
  | cons h _ ih =>
    obtain ⟨hbytes, hp⟩ := h
    obtain ⟨ihbytes, ihp⟩ := ih
    refine ⟨by rw [List.flatten_cons, List.flatMap_cons, hbytes, ihbytes], ?_⟩
    simpa using ⟨hp, ihp⟩

end Consumes

/-! ## Fixed-width little-endian integers -/

/-- The `k` low bytes of `n`, the lowest first. -/
def leBytes : Nat → Nat → List UInt8
  | 0, _ => []
  | k + 1, n => UInt8.ofNat n :: leBytes k (n / 256)

/-- The number a little-endian byte string stands for. -/
def ofLeBytes : List UInt8 → Nat
  | [] => 0
  | b :: bs => b.toNat + 256 * ofLeBytes bs

@[simp] theorem leBytes_length (k n : Nat) : (leBytes k n).length = k := by
  induction k generalizing n with
  | zero => rfl
  | succ k ih => rw [leBytes, List.length_cons, ih]

theorem ofLeBytes_leBytes {k n : Nat} (h : n < 256 ^ k) : ofLeBytes (leBytes k n) = n := by
  induction k generalizing n with
  | zero => rw [Nat.pow_zero] at h; rw [leBytes, ofLeBytes]; omega
  | succ k ih =>
    have hdiv : n / 256 < 256 ^ k := by
      rw [Nat.pow_succ] at h
      exact Nat.div_lt_of_lt_mul (by rw [Nat.mul_comm]; exact h)
    rw [leBytes, ofLeBytes, ih hdiv, UInt8.toNat_ofNat']
    exact Nat.mod_add_div n 256

theorem leBytes_ofLeBytes (bs : List UInt8) : leBytes bs.length (ofLeBytes bs) = bs := by
  induction bs with
  | nil => rfl
  | cons b bs ih =>
    have hb : b.toNat < 256 := b.toNat_lt
    have hdiv : (b.toNat + 256 * ofLeBytes bs) / 256 = ofLeBytes bs := by omega
    have hlow : UInt8.ofNat (b.toNat + 256 * ofLeBytes bs) = b := by
      apply UInt8.toNat_inj.mp
      rw [UInt8.toNat_ofNat']
      omega
    rw [ofLeBytes, List.length_cons, leBytes, hdiv, hlow, ih]

theorem ofLeBytes_lt (bs : List UInt8) : ofLeBytes bs < 256 ^ bs.length := by
  induction bs with
  | nil => exact Nat.one_pos
  | cons b bs ih =>
    have hb : b.toNat < 256 := b.toNat_lt
    rw [ofLeBytes, List.length_cons, Nat.pow_succ]
    omega

end Lib
end CircomMpc
