import CircomMpc.Program.WellEncoded

/-!
# Feeding a program by name

`inputs.rs`: a program's inputs are positional, but a caller may hand over a map from each declared
signal's name to that signal's elements. `flattenNamed` scatters such a map into the flat order by
the signals' ranges, and then takes every position to have been written: one that was not is a
panic, not an error.

`Program::new` checks three things of the ranges — the sizes add up to the input count, no range
runs past it, no name repeats. None of them says that two ranges do not overlap, so none says that
every position is written; and the sums are taken in `usize`, where a release build wraps, so a
range may also pass although it runs past `usize`, and then `flatten_named` writes outside the
table. The last section states exactly when a program can be fed by name: when no range runs past
`usize` and every position belongs to a signal, which for sizes that add up without wrapping means
that no position belongs to two.
-/

namespace CircomMpc

open Lib

variable {σ S : Type}

/-! ## Values and maps -/

/-- One positional input. -/
inductive InputValue (S : Type) where
  | «public» (value : Fr)
  | secret (value : S)
deriving DecidableEq, Repr

/-- Why reading the inputs fails. The last two are what the source does not report: it panics. -/
inductive InputError where
  | missing (name : String) (size offset : Nat)
  | elementCount (name : String) (size got : Nat)
  | undeclared (stale : String)
  | valueCount (expected got : Nat)
  | localDomain
  | indexOutOfRange (index : Nat)
  | uncovered (input : Nat)
deriving DecidableEq, Repr

namespace InputError

/-- The text of each error; a panic's text is its payload. -/
def text : InputError → String
  | missing name size offset =>
    s!"no value supplied for circuit input `{name}` ({size} element(s) at offset {offset})"
  | elementCount name size got => s!"circuit input `{name}` needs {size} element(s), got {got}"
  | undeclared stale => s!"supplied input `{stale}` is not declared by this circuit"
  | valueCount expected got => s!"expected one value per circuit input ({expected}), got {got}"
  | localDomain => "an input's domain cannot be Local"
  | indexOutOfRange index => s!"index {index} out of range"
  | uncovered input => s!"input {input} has no declared signal covering it"

/-- The errors that are panics of the source. -/
inductive IsPanic : InputError → Prop where
  | indexOutOfRange {index} : IsPanic (.indexOutOfRange index)
  | uncovered {input} : IsPanic (.uncovered input)

end InputError

/-- A name-keyed map of whole-signal values: a `BTreeMap` or a `HashMap`, which differ in the order
    their keys come in. A name has one entry. -/
structure NamedMap (α : Type) where
  entries : List (String × α)
  nodup : (entries.map Prod.fst).Nodup

namespace NamedMap

variable {α : Type}

/-- `map.keys()`. -/
def keys (m : NamedMap α) : List String := m.entries.map Prod.fst

/-- `map.get(name)`. -/
def get (m : NamedMap α) (name : String) : Option α :=
  (m.entries.find? fun entry => entry.1 = name).map Prod.snd

theorem get_eq_some {m : NamedMap α} {name : String} {a : α} :
    m.get name = some a ↔ (name, a) ∈ m.entries := by
  obtain ⟨entries, nodup⟩ := m
  unfold get
  induction entries with
  | nil => simp
  | cons entry rest ih =>
    rw [List.map_cons, List.nodup_cons] at nodup
    by_cases h : entry.1 = name
    · rw [List.find?_cons_of_pos (by simpa using h), Option.map_some, Option.some_inj,
        List.mem_cons]
      constructor
      · intro ha
        exact .inl (Prod.ext h.symm ha.symm)
      · intro hmem
        rcases hmem with heq | hmem
        · rw [← heq]
        · exact absurd (h ▸ List.mem_map_of_mem hmem) nodup.1
    · rw [List.find?_cons_of_neg (by simpa using h), ih nodup.2, List.mem_cons]
      constructor
      · exact .inr
      · intro hmem
        rcases hmem with heq | hmem
        · rw [← heq] at h
          exact absurd rfl h
        · exact hmem

theorem mem_keys {m : NamedMap α} {name : String} :
    name ∈ m.keys ↔ ∃ a, m.get name = some a := by
  unfold keys
  rw [List.mem_map]
  constructor
  · intro h
    obtain ⟨entry, hmem, rfl⟩ := h
    exact ⟨entry.2, get_eq_some.mpr hmem⟩
  · intro h
    obtain ⟨a, ha⟩ := h
    exact ⟨(name, a), get_eq_some.mp ha, rfl⟩

end NamedMap

/-! ## From names to positions -/

/-- The flat positions a signal occupies. -/
def InputSignal.positions (signal : InputSignal) : List Nat :=
  List.range' signal.offset signal.size

theorem InputSignal.mem_positions {signal : InputSignal} {i : Nat} :
    i ∈ signal.positions ↔ signal.offset ≤ i ∧ i < signal.offset + signal.size :=
  List.mem_range'_1

namespace ProgramParts

variable (p : ProgramParts)

/-- `flat[i] = Some(value)`. -/
def setFlat (flat : List (Option (InputValue S))) (i : Nat) (value : InputValue S) :
    Except InputError (List (Option (InputValue S))) :=
  if i < flat.length then .ok (flat.set i (some value)) else .error (.indexOutOfRange i)

/-- `flatten_named`, one declared signal. Its positions are `usize` sums, which wrap round as a
    release build has it. -/
def placeSignal (named : NamedMap (List (InputValue S)))
    (flat : List (Option (InputValue S))) (signal : InputSignal) :
    Except InputError (List (Option (InputValue S))) := do
  let values ← orElse (.missing signal.name signal.size signal.offset) (named.get signal.name)
  ensure (values.length = signal.size) (.elementCount signal.name signal.size values.length)
  values.zipIdx.foldlM (fun flat (value, i) => setFlat flat ((signal.offset + i) % 2 ^ 64) value) flat

/-- `flatten_named`. -/
def flattenNamed (named : NamedMap (List (InputValue S))) :
    Except InputError (List (InputValue S)) := do
  let flat ← p.inputSignals.foldlM (placeSignal named) (List.replicate p.numInputs none)
  match named.keys.find? fun name => ¬ p.inputSignals.any fun signal => signal.name = name with
  | some stale => .error (.undeclared stale)
  | none => flat.zipIdx.mapM fun (v, i) => orElse (.uncovered i) v

/-- `as_inputs` of a name-keyed map. -/
def asInputs (named : NamedMap (List (InputValue S))) : Except InputError (List (InputValue S)) :=
  p.flattenNamed named

/-- `classify_inputs`, one value. The sharing routine may keep a state of its own. -/
def classifyInput (share : Fr → σ → S × σ) (bank : Bank) (v : Fr) (s : σ) :
    Except InputError (InputValue S × σ) :=
  match bank with
  | .public => .ok (.public v, s)
  | .shared =>
    let (shared, s) := share v s
    .ok (.secret shared, s)
  | .local => .error .localDomain

/-- `classify_inputs`. -/
def classifyInputs (share : Fr → σ → S × σ) (values : List Fr) (s : σ) :
    Except InputError (List (InputValue S) × σ) := do
  ensure (values.length = p.numInputs) (.valueCount p.numInputs values.length)
  (p.inputDomains.zip values).foldlM
    (fun (inputs, s) (bank, v) => do
      let (input, s) ← classifyInput share bank v s
      pure (inputs ++ [input], s)) ([], s)

/-! ## What a map has to have, and what the ranges have to do -/

/-- The map has the declared names and no other, each with its signal's number of elements. Nothing
    is said of the ranges the signals declare. -/
structure Matches (named : NamedMap (List (InputValue S))) : Prop where
  names : ∀ name, name ∈ named.keys ↔ name ∈ p.inputSignals.map (·.name)
  sizes : ∀ signal ∈ p.inputSignals, ∀ values, named.get signal.name = some values →
    values.length = signal.size

/-- The map has a signal's name, with the right number of elements. -/
def Supplies (named : NamedMap (List (InputValue S))) (signal : InputSignal) : Prop :=
  ∃ values, named.get signal.name = some values ∧ values.length = signal.size

/-- The signals' fields are `usize`. -/
def SignalsSized : Prop := ∀ signal ∈ p.inputSignals, signal.offset < 2 ^ 64 ∧ signal.size < 2 ^ 64

/-- No signal's range runs past `usize`. -/
def RangesFit : Prop := ∀ signal ∈ p.inputSignals, signal.offset + signal.size < 2 ^ 64

/-- Every position belongs to some signal. -/
def Covered : Prop := ∀ i < p.numInputs, i ∈ p.inputSignals.flatMap (·.positions)

/-- No position belongs to two signals. -/
def SignalsDisjoint : Prop :=
  p.inputSignals.Pairwise fun s t => s.positions.Disjoint t.positions

/-- The values of a name-keyed map sit at the positions of the right values. -/
def Holds (Good : Nat → InputValue S → Prop) (named : NamedMap (List (InputValue S))) : Prop :=
  ∀ signal ∈ p.inputSignals, ∀ values, named.get signal.name = some values →
    ∀ (i : Nat) (v : InputValue S), values[i]? = some v → Good (signal.offset + i) v

/-- The flat table after some of its positions were written: as long as the program has inputs,
    filled exactly there, and with values that are `Good` where they stand. -/
structure Scattered (Good : Nat → InputValue S → Prop) (written : List Nat)
    (flat : List (Option (InputValue S))) : Prop where
  length : flat.length = p.numInputs
  filled : ∀ k : Nat, (∃ v, flat[k]? = some (some v)) ↔ k ∈ written
  good : ∀ (k : Nat) (v : InputValue S), flat[k]? = some (some v) → Good k v

variable {p} {Good : Nat → InputValue S → Prop} {written : List Nat}
  {flat : List (Option (InputValue S))} {named : NamedMap (List (InputValue S))}

/-- A range that does not run past `usize` ends within the inputs. -/
theorem WellEncoded.signal_le (hp : p.WellEncoded) (hfit : p.RangesFit) {signal : InputSignal}
    (hsignal : signal ∈ p.inputSignals) : signal.offset + signal.size ≤ p.numInputs := by
  have hrange := hp.signalRange signal hsignal
  rw [Nat.mod_eq_of_lt (hfit signal hsignal)] at hrange
  exact hrange

theorem Scattered.start :
    p.Scattered Good [] (List.replicate p.numInputs (none : Option (InputValue S))) := by
  constructor
  · exact List.length_replicate
  · intro k
    rw [List.getElem?_replicate]
    split <;> simp
  · intro k v h
    rw [List.getElem?_replicate] at h
    split at h <;> simp at h

/-- Writing one more position. -/
theorem Scattered.set (h : p.Scattered Good written flat) {i : Nat} {v : InputValue S}
    (hi : i < p.numInputs) (hv : Good i v) :
    p.Scattered Good (written ++ [i]) (flat.set i (some v)) := by
  have hlt : i < flat.length := h.length ▸ hi
  constructor
  · rw [List.length_set, h.length]
  · intro k
    rw [List.mem_append, List.mem_singleton, ← h.filled k]
    by_cases hk : i = k
    · subst hk
      rw [List.getElem?_set_self hlt]
      simp
    · rw [List.getElem?_set_ne hk]
      constructor
      · exact .inl
      · intro hor
        rcases hor with hor | hor
        · exact hor
        · exact absurd hor.symm hk
  · intro k w hw
    by_cases hk : i = k
    · subst hk
      rw [List.getElem?_set_self hlt] at hw
      cases hw
      exact hv
    · rw [List.getElem?_set_ne hk] at hw
      exact h.good k w hw

/-- Scattering one signal writes its positions, unless the map has no such name or the wrong
    number of elements for it. -/
theorem placeSignal_meets {signal : InputSignal} (hfit : signal.offset + signal.size < 2 ^ 64)
    (hrange : signal.offset + signal.size ≤ p.numInputs)
    (hgood : ∀ values, named.get signal.name = some values →
      ∀ (i : Nat) (v : InputValue S), values[i]? = some v → Good (signal.offset + i) v)
    (h : p.Scattered Good written flat) :
    Meets (fun e => ¬ e.IsPanic ∧
        ∀ values, named.get signal.name = some values → values.length ≠ signal.size)
      (fun flat => p.Scattered Good (written ++ signal.positions) flat ∧ Supplies named signal)
      (placeSignal named flat signal) := by
  unfold placeSignal
  cases hget : named.get signal.name with
  -- An undeclared name is an error, and the map matches no program that declares it.
  | none =>
    refine ⟨nofun, ?_⟩
    intro values hvalues
    cases hvalues
  | some values =>
    rw [orElse_some, ok_bind]
    apply Meets.guard_bind
    · intro hne
      refine ⟨nofun, ?_⟩
      intro values' hvalues
      cases hvalues
      exact hne
    · -- The right count: the writes are in the table, since the range is, and nowhere else.
      intro hlen
      have hloop : Returns
          (p.Scattered Good (written ++ List.range' signal.offset (0 + values.length)))
          (values.zipIdx.foldlM
            (fun flat x => setFlat flat ((signal.offset + x.2) % 2 ^ 64) x.1) flat) := by
        refine Meets.foldlM_zipIdx
          (fun i flat => p.Scattered Good (written ++ List.range' signal.offset i) flat) ?_ ?_
        · rw [List.range'_zero, List.append_nil]
          exact h
        · intro i v flat hv hflat
          have hi : i < values.length := (List.getElem?_eq_some_iff.mp hv).1
          rw [Nat.zero_add] at hflat ⊢
          have hbound : signal.offset + i < p.numInputs := by omega
          have hin : signal.offset + i < 2 ^ 64 := by omega
          rw [List.range'_concat, Nat.one_mul, ← List.append_assoc, setFlat, Nat.mod_eq_of_lt hin,
            if_pos (hflat.length.symm ▸ hbound)]
          exact hflat.set hbound (hgood values hget i v hv)
      rw [Nat.zero_add, hlen] at hloop
      refine hloop.weaken (fun _ hfalse => hfalse.elim) ?_
      intro flat' hflat'
      exact ⟨hflat', values, hget, hlen⟩

/-- Unwrapping the table: every position is there, or the panic names one no signal covers. -/
theorem unwrap_meets {flat : List (Option (InputValue S))}
    (h : p.Scattered Good (p.inputSignals.flatMap (·.positions)) flat) :
    Meets (fun e : InputError => e.IsPanic ∧ ¬ p.Covered)
      (fun values => p.Covered ∧ values.length = p.numInputs ∧
        ∀ (k : Nat) (v : InputValue S), values[k]? = some v → Good k v)
      (flat.zipIdx.mapM fun x => orElse (.uncovered x.2) x.1) := by
  -- A position without a value is one that no signal has written, so none covers it.
  have hitems : Meets (fun e : InputError => e.IsPanic ∧ ¬ p.Covered)
      (fun values => List.Forall₂ (fun x v => x.1 = some v) flat.zipIdx values)
      (flat.zipIdx.mapM fun x => orElse (.uncovered x.2) x.1) := by
    apply Meets.mapM_rel
    intro x hx
    obtain ⟨v, i⟩ := x
    have hget : flat[i]? = some v := List.mem_zipIdx_iff_getElem?.mp hx
    cases v with
    | none =>
      refine ⟨.uncovered, ?_⟩
      intro hcovered
      have hi : i < flat.length := (List.getElem?_eq_some_iff.mp hget).1
      obtain ⟨v, hv⟩ := (h.filled i).mpr (hcovered i (h.length ▸ hi))
      rw [hget] at hv
      cases hv
    | some v => rfl
  apply hitems.post
  intro values hvalues
  have hlen : values.length = p.numInputs := by
    rw [← hvalues.length_eq, List.length_zipIdx, h.length]
  have hentry : ∀ (k : Nat) (v : InputValue S), values[k]? = some v →
      flat[k]? = some (some v) := by
    intro k v hv
    obtain ⟨x, hx, hxv⟩ := forall₂_getElem? hvalues hv
    rw [List.getElem?_zipIdx, Option.map_eq_some_iff] at hx
    obtain ⟨v', hv', rfl⟩ := hx
    rw [hv']
    exact congrArg some hxv
  refine ⟨?_, hlen, ?_⟩
  · intro i hi
    exact (h.filled i).mp ⟨_, hentry i _ (List.getElem?_eq_getElem (hlen ▸ hi))⟩
  · intro k v hv
    exact h.good k v (hentry k v hv)

/-- **`flatten_named` on ranges that fit.** It reports an error only on a map that does not match,
    panics only when some position is uncovered, and otherwise returns every value of the map at its
    own position. -/
theorem flattenNamed_meets (hp : p.WellEncoded) (hfit : p.RangesFit) (hgood : p.Holds Good named) :
    Meets (fun e => (e.IsPanic → ¬ p.Covered) ∧ (¬ e.IsPanic → ¬ p.Matches named))
      (fun flat => p.Matches named ∧ p.Covered ∧ flat.length = p.numInputs ∧
        ∀ (k : Nat) (v : InputValue S), flat[k]? = some v → Good k v)
      (p.flattenNamed named) := by
  unfold flattenNamed
  -- The signals in their order: behind each, what has been written are its positions and those
  -- of the signals before.
  have hloop : Meets
      (fun e => (e.IsPanic → ¬ p.Covered) ∧ (¬ e.IsPanic → ¬ p.Matches named))
      (fun flat => p.Scattered Good (p.inputSignals.flatMap (·.positions)) flat ∧
        ∀ signal ∈ p.inputSignals, Supplies named signal)
      (p.inputSignals.foldlM (placeSignal named) (List.replicate p.numInputs none)) := by
    refine Meets.foldlM_prefix
      (fun (done : List InputSignal) flat =>
        p.Scattered Good (done.flatMap (·.positions)) flat ∧
          ∀ signal ∈ done, Supplies named signal) ⟨Scattered.start, by simp⟩ ?_
    intro done signal rest flat hsplit hdone
    obtain ⟨hflat, hsupplied⟩ := hdone
    have hmem : signal ∈ p.inputSignals := by
      rw [hsplit]
      simp
    apply (placeSignal_meets (hfit signal hmem) (hp.signal_le hfit hmem) (hgood signal hmem)
      hflat).weaken
    · intro e he
      refine ⟨fun hpanic => absurd hpanic he.1, ?_⟩
      intro _ hmatches
      obtain ⟨values, hvalues⟩ := NamedMap.mem_keys.mp
        ((hmatches.names signal.name).mpr (List.mem_map_of_mem hmem))
      exact he.2 values hvalues (hmatches.sizes signal hmem values hvalues)
    · intro flat' hflat'
      refine ⟨?_, ?_⟩
      · rw [List.flatMap_append, List.flatMap_singleton]
        exact hflat'.1
      · intro s hs
        rcases List.mem_append.mp hs with hs | hs
        · exact hsupplied s hs
        · rw [List.mem_singleton.mp hs]
          exact hflat'.2
  apply Meets.bind hloop
  intro flat hflat
  obtain ⟨hflat, hsupplied⟩ := hflat
  cases hstale : named.keys.find? fun name =>
      ¬ p.inputSignals.any fun signal => signal.name = name with
  -- A name of the map that no signal has is an error, and the map does not match.
  | some stale =>
    refine ⟨nofun, ?_⟩
    intro _ hmatches
    have hundeclared := List.find?_some hstale
    obtain ⟨signal, hsignal, hname⟩ := List.mem_map.mp
      ((hmatches.names stale).mp (List.mem_of_find?_eq_some hstale))
    have hany : (p.inputSignals.any fun signal => signal.name = stale) = true :=
      List.any_eq_true.mpr ⟨signal, hsignal, by simpa using hname⟩
    simp [hany] at hundeclared
  -- Every name is declared and every signal was supplied: the map matches.
  | none =>
    have hmatches : p.Matches named := by
      constructor
      · intro name
        constructor
        · intro hkey
          have hdeclared := List.find?_eq_none.mp hstale name hkey
          simpa [List.any_eq_true] using hdeclared
        · intro hname
          obtain ⟨signal, hsignal, rfl⟩ := List.mem_map.mp hname
          obtain ⟨values, hvalues, _⟩ := hsupplied signal hsignal
          exact NamedMap.mem_keys.mpr ⟨values, hvalues⟩
      · intro signal hsignal values hvalues
        obtain ⟨values', hvalues', hlen⟩ := hsupplied signal hsignal
        rw [hvalues] at hvalues'
        cases hvalues'
        exact hlen
    apply (unwrap_meets hflat).weaken
    · intro e he
      exact ⟨fun _ => he.2, fun hno => absurd he.1 hno⟩
    · intro values hvalues
      exact ⟨hmatches, hvalues⟩

end ProgramParts

/-- `as_inputs` of a name-keyed map, of which nothing is known. -/
theorem ProgramParts.asInputs_meets {p : ProgramParts} (hp : p.WellEncoded) (hfit : p.RangesFit)
    (named : NamedMap (List (InputValue S))) :
    Meets (fun e => (e.IsPanic → ¬ p.Covered) ∧ (¬ e.IsPanic → ¬ p.Matches named))
      (fun _ => p.Matches named ∧ p.Covered) (p.asInputs named) := by
  have hany : p.Holds (fun _ _ => True) named := fun _ _ _ _ _ _ _ => trivial
  apply (flattenNamed_meets hp hfit hany).post
  intro inputs h
  exact ⟨h.1, h.2.1⟩

/-! ## Names and positions agree -/

namespace ProgramParts

variable {p : ProgramParts}

/-- Where no sum wraps, the ranges of an accepted program cover its inputs exactly when they are
    disjoint. -/
theorem WellEncoded.covered_iff (hp : p.WellEncoded) (hfit : p.RangesFit)
    (htotal : (p.inputSignals.map (·.size)).sum < 2 ^ 64) : p.Covered ↔ p.SignalsDisjoint := by
  have hflat : (p.inputSignals.map (·.positions)).flatten =
      p.inputSignals.flatMap (·.positions) := List.flatMap_def.symm
  have hlength : (p.inputSignals.flatMap (·.positions)).length = p.numInputs := by
    rw [List.length_flatMap, ← hp.signalTotal, Nat.mod_eq_of_lt htotal]
    congr 1
    apply List.map_congr_left
    intro signal _
    exact List.length_range'
  have hbelow : ∀ x ∈ p.inputSignals.flatMap (·.positions), x < p.numInputs := by
    intro x hx
    obtain ⟨signal, hsignal, hmem⟩ := List.mem_flatMap.mp hx
    have hrange := hp.signal_le hfit hsignal
    have hin := InputSignal.mem_positions.mp hmem
    omega
  have hnodup : ∀ block ∈ p.inputSignals.map (·.positions), block.Nodup := by
    intro block hblock
    obtain ⟨signal, _, rfl⟩ := List.mem_map.mp hblock
    exact List.nodup_range'
  have h := covers_iff_disjoint (hflat ▸ hlength) (hflat ▸ hbelow) hnodup
  rw [hflat, List.pairwise_map] at h
  exact h

/-- `classify_inputs` wraps any vector of the right length. -/
theorem classifyInputs_returns (hp : p.WellEncoded) {share : Fr → σ → S × σ} {values : List Fr}
    {s : σ} (hlen : values.length = p.numInputs) :
    Returns (fun r => r.1.length = p.numInputs) (p.classifyInputs share values s) := by
  unfold classifyInputs
  apply Meets.ensure_bind hlen
  have hzip : (p.inputDomains.zip values).length = p.numInputs := by
    rw [List.length_zip, hp.domainsLength, hlen, Nat.min_self]
  have hloop : Returns (fun r : List (InputValue S) × σ =>
        r.1.length = (p.inputDomains.zip values).length)
      ((p.inputDomains.zip values).foldlM
        (fun r x => do
          let (input, s) ← classifyInput share x.1 x.2 r.2
          pure (r.1 ++ [input], s)) ([], s)) := by
    refine Meets.foldlM_prefix
      (fun done (r : List (InputValue S) × σ) => r.1.length = done.length) rfl ?_
    intro done x rest r hsplit hr
    have hbank : x.1 ≠ .local := by
      have hx : x ∈ p.inputDomains.zip values := by
        rw [hsplit]
        simp
      exact hp.domains x.1 (List.of_mem_zip hx).1
    obtain ⟨bank, v⟩ := x
    have hgrow : ∀ input : InputValue S, (r.1 ++ [input]).length = (done ++ [(bank, v)]).length := by
      intro input
      rw [List.length_append, List.length_append, hr]
      rfl
    cases bank with
    | «public» => exact hgrow _
    | shared => exact hgrow _
    | «local» => exact absurd rfl hbank
  rw [hzip] at hloop
  exact hloop

end ProgramParts

/-- Cutting a positional vector by the declared signals. -/
def Program.cut (program : Program) (inputs : List (InputValue S)) :
    NamedMap (List (InputValue S)) where
  entries := program.parts.inputSignals.map fun signal =>
    (signal.name, slice inputs signal.offset (signal.offset + signal.size))
  nodup := by
    rw [List.map_map]
    exact program.wellEncoded.signalNames

/-- A cut vector's entries are the ranges of the vector. -/
theorem Program.get_cut {program : Program} {inputs : List (InputValue S)} {signal : InputSignal}
    (hsignal : signal ∈ program.parts.inputSignals) :
    (program.cut inputs).get signal.name =
      some (slice inputs signal.offset (signal.offset + signal.size)) :=
  NamedMap.get_eq_some.mpr (List.mem_map_of_mem hsignal)

theorem Program.cut_matches {program : Program} (hfit : program.parts.RangesFit)
    {inputs : List (InputValue S)} (hlen : inputs.length = program.parts.numInputs) :
    program.parts.Matches (program.cut inputs) := by
  constructor
  · intro name
    unfold NamedMap.keys cut
    rw [List.map_map]
    exact Iff.rfl
  · intro signal hsignal values hvalues
    rw [get_cut hsignal, Option.some_inj] at hvalues
    rw [← hvalues, slice_length (hlen ▸ program.wellEncoded.signal_le hfit hsignal),
      Nat.add_sub_cancel_left]

theorem Program.cut_holds (program : Program) (inputs : List (InputValue S)) :
    program.parts.Holds (fun k v => inputs[k]? = some v) (program.cut inputs) := by
  intro signal hsignal values hvalues i v hv
  rw [get_cut hsignal, Option.some_inj] at hvalues
  rw [← hvalues, slice, List.getElem?_take, List.getElem?_drop] at hv
  split at hv
  · exact hv
  · cases hv

/-- **What feeding a program by name promises.** A positional vector, cut by the signals and named,
    comes back as it was; naming never panics; and it accepts exactly the maps with the declared
    names and sizes. -/
structure NamedInputsAgree (program : Program) : Prop where
  positional : ∀ (σ S : Type) (share : Fr → σ → S × σ) (values : List Fr) (s : σ),
    values.length = program.parts.numInputs →
      ∃ inputs s', program.parts.classifyInputs share values s = .ok (inputs, s') ∧
        program.parts.asInputs (program.cut inputs) = .ok inputs
  total : ∀ (S : Type) (named : NamedMap (List (InputValue S))) (e : InputError),
    program.parts.asInputs named = .error e → ¬ e.IsPanic
  accepts : ∀ (S : Type) (named : NamedMap (List (InputValue S))),
    (∃ inputs, program.parts.asInputs named = .ok inputs) ↔ program.parts.Matches named

/-- Scattering a signal whose range runs past `usize` goes through the last index there is, which no
    table reaches; so a signal that is placed fits. -/
theorem ProgramParts.placeSignal_fits {p : ProgramParts} {named : NamedMap (List (InputValue S))}
    {signal : InputSignal} (hoffset : signal.offset < 2 ^ 64) (hinputs : p.numInputs < 2 ^ 64)
    {flat : List (Option (InputValue S))} (hflat : flat.length = p.numInputs) :
    Meets (fun _ => True)
      (fun flat => flat.length = p.numInputs ∧ signal.offset + signal.size < 2 ^ 64)
      (placeSignal named flat signal) := by
  unfold placeSignal
  refine Meets.bind_any fun values => Meets.guard_bind (fun _ => trivial) fun hlen => ?_
  have hloop : Meets (fun _ => True)
      (fun flat => flat.length = p.numInputs ∧ signal.offset + (0 + values.length) < 2 ^ 64)
      (values.zipIdx.foldlM
        (fun flat x => setFlat flat ((signal.offset + x.2) % 2 ^ 64) x.1) flat) := by
    refine Meets.foldlM_zipIdx
      (fun i (flat : List (Option (InputValue S))) =>
        flat.length = p.numInputs ∧ signal.offset + i < 2 ^ 64) ⟨hflat, hoffset⟩ ?_
    intro i v flat _ hinv
    rw [setFlat, Nat.mod_eq_of_lt hinv.2, hinv.1]
    split
    next hlt =>
      refine ⟨by rw [List.length_set, hinv.1], ?_⟩
      omega
    next => exact trivial
  rw [Nat.zero_add, hlen] at hloop
  exact hloop

/-- A map is read only where every range fits. -/
theorem ProgramParts.asInputs_fits {p : ProgramParts} (hp : p.WellEncoded) (hsized : p.SignalsSized)
    {named : NamedMap (List (InputValue S))} {inputs : List (InputValue S)}
    (h : p.asInputs named = .ok inputs) : p.RangesFit := by
  have hinputs : p.numInputs < 2 ^ 64 := by
    rw [← hp.signalTotal]
    exact Nat.mod_lt _ (by decide)
  have hloop : Meets (fun _ => True)
      (fun flat => flat.length = p.numInputs ∧
        ∀ signal ∈ p.inputSignals, signal.offset + signal.size < 2 ^ 64)
      (p.inputSignals.foldlM (placeSignal named) (List.replicate p.numInputs none)) := by
    refine Meets.foldlM_prefix
      (fun (done : List InputSignal) (flat : List (Option (InputValue S))) =>
        flat.length = p.numInputs ∧ ∀ signal ∈ done, signal.offset + signal.size < 2 ^ 64)
      ⟨List.length_replicate, by simp⟩ ?_
    intro done signal rest flat hsplit hdone
    have hmem : signal ∈ p.inputSignals := by
      rw [hsplit]
      simp
    apply (placeSignal_fits (hsized signal hmem).1 hinputs hdone.1).post
    intro flat' hflat'
    refine ⟨hflat'.1, fun s hs => ?_⟩
    rcases List.mem_append.mp hs with hs | hs
    · exact hdone.2 s hs
    · rw [List.mem_singleton.mp hs]
      exact hflat'.2
  unfold asInputs flattenNamed at h
  obtain ⟨flat, hflat, _⟩ := bind_eq_ok.mp h
  rw [hflat] at hloop
  exact hloop.2

/-- Cutting by the signals and naming gives the vector back only if the ranges fit and every
    position is covered. -/
theorem NamedInputsAgree.fits {program : Program} (h : NamedInputsAgree program)
    (hsized : program.parts.SignalsSized) : program.parts.RangesFit ∧ program.parts.Covered := by
  obtain ⟨inputs, _, _, hback⟩ := h.positional Unit Fr (fun v s => (v, s))
    (List.replicate program.parts.numInputs 0) () List.length_replicate
  have hfit := ProgramParts.asInputs_fits program.wellEncoded hsized hback
  have hmeets := ProgramParts.asInputs_meets program.wellEncoded hfit (program.cut inputs)
  rw [hback] at hmeets
  exact ⟨hfit, hmeets.2⟩

/-- **A program can be fed by name exactly when no range runs past `usize` and every position
    belongs to a signal**, which, for sizes whose sum does not wrap, says that no position belongs
    to two. `Program::new` checks neither: sizes that add up and ranges that fit once wrapped still
    leave room for one position declared twice, for another not declared at all, and for a range
    far outside the table. -/
theorem namedInputs_agree_iff (program : Program) (hsized : program.parts.SignalsSized) :
    (NamedInputsAgree program ↔ program.parts.RangesFit ∧ program.parts.Covered) ∧
      (program.parts.RangesFit → (program.parts.inputSignals.map (·.size)).sum < 2 ^ 64 →
        (program.parts.Covered ↔ program.parts.SignalsDisjoint)) := by
  have hp := program.wellEncoded
  refine ⟨⟨fun h => h.fits hsized, fun ⟨hfit, hcovered⟩ => ?_⟩, hp.covered_iff⟩
  constructor
  · -- Classified and flattened back, a flat vector is itself: every position has the value its
    -- signal was given there.
    intro σ S share values s hlen
    obtain ⟨r, hr, hinputs⟩ := (ProgramParts.classifyInputs_returns hp hlen).ok_of_never
    refine ⟨r.1, r.2, hr, ?_⟩
    have hmeets := ProgramParts.flattenNamed_meets hp hfit (program.cut_holds r.1)
    unfold ProgramParts.asInputs
    cases hflat : program.parts.flattenNamed (program.cut r.1) with
    | error e =>
      rw [hflat] at hmeets
      by_cases hpanic : e.IsPanic
      · exact absurd hcovered (hmeets.1 hpanic)
      · exact absurd (program.cut_matches hfit hinputs) (hmeets.2 hpanic)
    | ok flat =>
      rw [hflat] at hmeets
      obtain ⟨_, _, hlength, hentries⟩ := hmeets
      congr 1
      apply List.ext_getElem (hlength.trans hinputs.symm)
      intro k hk hk'
      have hentry := hentries k flat[k] (List.getElem?_eq_getElem hk)
      rw [List.getElem?_eq_getElem hk', Option.some_inj] at hentry
      exact hentry.symm
  · intro S named e he hpanic
    have hmeets := ProgramParts.asInputs_meets hp hfit named
    rw [he] at hmeets
    exact hmeets.1 hpanic hcovered
  · intro S named
    have hmeets := ProgramParts.asInputs_meets hp hfit named
    cases hread : program.parts.asInputs named with
    | error e =>
      rw [hread] at hmeets
      constructor
      · intro hok
        obtain ⟨inputs, hok⟩ := hok
        cases hok
      · intro hmatches
        by_cases hpanic : e.IsPanic
        · exact absurd hcovered (hmeets.1 hpanic)
        · exact absurd hmatches (hmeets.2 hpanic)
    | ok inputs =>
      rw [hread] at hmeets
      exact ⟨fun _ => hmeets.1, fun _ => ⟨inputs, rfl⟩⟩

/-- Two public inputs under the given signals, and a witness of the constant one. -/
def twoInputParts (signals : List InputSignal) : ProgramParts where
  instructions := []
  constants := []
  inputDomains := [.public, .public]
  inputs := []
  inputSignals := signals
  rounds := []
  roundOperands := []
  roundResults := []
  gadgetBatches := []
  witnessSources := [.one]
  numInputs := 2
  slots := ⟨0, 0, 0⟩
  numPublicWitness := 1

/-- The signals side by side. -/
def sideBySide : Program := ⟨twoInputParts [⟨"b", 1, 1⟩, ⟨"a", 0, 1⟩], rfl⟩

/-- Both signals over position `0`: accepted, although position `1` has no signal. -/
def overlapping : Program := ⟨twoInputParts [⟨"a", 0, 1⟩, ⟨"b", 0, 1⟩], rfl⟩

/-- One signal on the last index of `usize`: its end wraps to zero, so it is accepted. -/
def wrapping : Program := ⟨twoInputParts [⟨"a", 2 ^ 64 - 1, 1⟩, ⟨"b", 0, 1⟩], rfl⟩

/-- Signals that lie side by side can be fed by name. -/
theorem namedInputs_agree_sideBySide : NamedInputsAgree sideBySide :=
  (namedInputs_agree_iff sideBySide (by unfold ProgramParts.SignalsSized; decide)).1.mpr
    ⟨by unfold ProgramParts.RangesFit; decide, by unfold ProgramParts.Covered; decide⟩

/-- The overlapping and the wrapping program panic on a map with exactly the declared names and
    sizes, one on the position no signal covers, one on the index past the table. -/
theorem overlapping_panics :
    overlapping.parts.asInputs (overlapping.cut ([.public 0, .public 0] : List (InputValue Fr))) =
      .error (.uncovered 1) ∧ ¬ NamedInputsAgree overlapping ∧
    wrapping.parts.asInputs (overlapping.cut ([.public 0, .public 0] : List (InputValue Fr))) =
      .error (.indexOutOfRange (2 ^ 64 - 1)) ∧ ¬ NamedInputsAgree wrapping := by
  refine ⟨by decide, fun h => ?_, by decide, fun h => ?_⟩
  · have hone : 1 ∉ overlapping.parts.inputSignals.flatMap (·.positions) := by decide
    exact hone ((h.fits (by unfold ProgramParts.SignalsSized; decide)).2 1 (by decide))
  · have hfit := (h.fits (by unfold ProgramParts.SignalsSized; decide)).1
    exact absurd (hfit ⟨"a", 2 ^ 64 - 1, 1⟩ (by decide)) (by decide)

end CircomMpc
