import Mathlib.Data.List.Basic
import Mathlib.Data.List.Forall2
import Mathlib.Data.List.GetD
import Mathlib.Data.List.Induction
import CircomMpc.Lib.Table

/-!
# Tables over acyclic node lists

A list of cells, each with an operation and references to earlier cells, is a directed acyclic graph
in topological order. An analysis of such a graph — its evaluation, a type or level assignment — is
a *rule* that computes a cell's fact from its operation and the facts of the cells it refers to.
`table` runs the rule over the list, and `value` reads the table. The one equation every proof uses
is `value_eq`: in an ordered list the fact of a cell is the rule applied to the facts of its
references, wherever in the list they stand.

A transformation of such a graph builds a new list from the front and keeps, for every old cell it
has dealt with, the position of the new cell that stands for it. `Placed` is the invariant all of
them keep: the new list is ordered, and every recorded position holds the old cell's fact. Pushing a
cell keeps it, recording a position keeps it when the facts agree, and a cell moved with its
references renamed has the fact it had (`Placed.moved_fact`).
-/

namespace CircomMpc
namespace Lib

variable {ε α β γ κ : Type}

/-- An operation and the positions of the cells it reads. -/
structure Cell (κ : Type) where
  op : κ
  inputs : List Nat
  deriving DecidableEq, Repr

/-- Every reference points strictly back. -/
def Ordered (cells : List (Cell κ)) : Prop :=
  ∀ (i : Nat) (c : Cell κ), cells[i]? = some c → ∀ v ∈ c.inputs, v < i

/-- The facts of all cells, in order. A reference past the end of the list reads `default`. -/
def table [Inhabited α] (rule : κ → List α → α) (cells : List (Cell κ)) : List α :=
  cells.foldl (fun facts c => facts ++ [rule c.op (c.inputs.map (facts.getD · default))]) []

/-- The fact of one cell. -/
def value [Inhabited α] (rule : κ → List α → α) (cells : List (Cell κ)) (v : Nat) : α :=
  (table rule cells).getD v default

/-! ## Ordered lists -/

theorem ordered_iff {cells : List (Cell κ)} :
    Ordered cells ↔ ∀ entry ∈ cells.zipIdx, ∀ v ∈ entry.1.inputs, v < entry.2 := by
  constructor
  · intro h entry hentry
    exact h entry.2 entry.1 (List.mem_zipIdx_iff_getElem?.mp hentry)
  · intro h i c hc
    exact h (c, i) (List.mem_zipIdx_iff_getElem?.mpr hc)

instance {cells : List (Cell κ)} : Decidable (Ordered cells) :=
  decidable_of_iff _ ordered_iff.symm

theorem ordered_nil : Ordered ([] : List (Cell κ)) := by
  intro i c hc
  cases hc

theorem Ordered.push {xs : List (Cell κ)} {c : Cell κ} (h : Ordered xs)
    (hc : ∀ v ∈ c.inputs, v < xs.length) : Ordered (xs ++ [c]) := by
  intro i d hd
  rcases Nat.lt_or_ge i xs.length with hi | hi
  · rw [List.getElem?_append_left hi] at hd
    exact h i d hd
  · rw [List.getElem?_append_right hi] at hd
    have hsingle := List.getElem?_eq_some_iff.mp hd
    obtain ⟨hlt, heq⟩ := hsingle
    have hlast : i - xs.length = 0 := by simpa using hlt
    have hdc : d = c := by
      rw [← heq]
      simp [hlast]
    subst hdc
    intro v hv
    exact Nat.lt_of_lt_of_le (hc v hv) hi

/-! ## The table and its equation -/

section Rules

variable [Inhabited α] {rule : κ → List α → α}

theorem table_push (xs : List (Cell κ)) (c : Cell κ) :
    table rule (xs ++ [c]) = table rule xs ++ [rule c.op (c.inputs.map (value rule xs))] := by
  rw [table, List.foldl_append]
  rfl

theorem table_length (xs : List (Cell κ)) : (table rule xs).length = xs.length := by
  induction xs using List.reverseRecOn with
  | nil => rfl
  | append_singleton xs c ih =>
    rw [table_push, List.length_append, List.length_append, ih]
    rfl

/-- The fact of a cell just pushed. -/
theorem value_push (xs : List (Cell κ)) (c : Cell κ) :
    value rule (xs ++ [c]) xs.length = rule c.op (c.inputs.map (value rule xs)) := by
  have hlen : xs.length = (table rule xs).length := (table_length xs).symm
  rw [value, table_push, List.getD_eq_getElem?_getD, hlen]
  simp

/-- Pushing more cells leaves the facts of the earlier ones alone. -/
theorem value_append {xs : List (Cell κ)} (ys : List (Cell κ)) {i : Nat} (hi : i < xs.length) :
    value rule (xs ++ ys) i = value rule xs i := by
  induction ys generalizing xs with
  | nil => rw [List.append_nil]
  | cons y ys ih =>
    have hstep : value rule (xs ++ [y]) i = value rule xs i := by
      rw [value, table_push, List.getD_append _ _ _ _ (by rw [table_length]; exact hi), value]
    have happ : xs ++ y :: ys = (xs ++ [y]) ++ ys := by simp
    rw [happ, ih (by simp; omega), hstep]

/-- Where every reference is in range, the facts read through them are those of the shorter list. -/
theorem map_value_append {xs : List (Cell κ)} (ys : List (Cell κ)) {refs : List Nat}
    (h : ∀ v ∈ refs, v < xs.length) :
    refs.map (value rule (xs ++ ys)) = refs.map (value rule xs) := by
  apply List.map_congr_left
  intro v hv
  exact value_append ys (h v hv)

/-- **The equation of an analysis.** -/
theorem value_eq {cells : List (Cell κ)} (hord : Ordered cells) {i : Nat} {c : Cell κ}
    (hc : cells[i]? = some c) :
    value rule cells i = rule c.op (c.inputs.map (value rule cells)) := by
  have hi : i < cells.length := (List.getElem?_eq_some_iff.mp hc).1
  have hget : cells[i] = c := (List.getElem?_eq_some_iff.mp hc).2
  -- Cells behind the one in question do not change its fact, nor those of its references.
  have hsplit : cells = (cells.take i ++ [c]) ++ cells.drop (i + 1) := by
    rw [← hget, List.append_assoc, List.singleton_append, List.getElem_cons_drop,
      List.take_append_drop]
  have hlen : (cells.take i).length = i := by
    rw [List.length_take]
    omega
  have hrefs : ∀ v ∈ c.inputs, v < (cells.take i).length := by
    intro v hv
    rw [hlen]
    exact hord i c hc v hv
  have hhere : value rule cells i = value rule (cells.take i ++ [c]) i := by
    conv_lhs => rw [hsplit]
    exact value_append _ (by simp; omega)
  -- As the last cell of its prefix, its fact is the rule's.
  have hpush : value rule (cells.take i ++ [c]) (cells.take i).length =
      rule c.op (c.inputs.map (value rule (cells.take i))) := value_push (cells.take i) c
  rw [hlen] at hpush
  have hback : c.inputs.map (value rule cells) = c.inputs.map (value rule (cells.take i)) := by
    conv_lhs => rw [hsplit, List.append_assoc]
    exact map_value_append _ hrefs
  rw [hhere, hpush, hback]

/-- Whatever solves the equation is the analysis. -/
theorem value_unique {cells : List (Cell κ)} (hord : Ordered cells) {look : Nat → α}
    (h : ∀ (i : Nat) (c : Cell κ), cells[i]? = some c → look i = rule c.op (c.inputs.map look))
    {i : Nat} (hi : i < cells.length) : value rule cells i = look i := by
  induction i using Nat.strongRecOn with
  | _ i ih =>
    have hc : cells[i]? = some cells[i] := List.getElem?_eq_getElem hi
    rw [value_eq hord hc, h i _ hc]
    congr 1
    apply List.map_congr_left
    intro v hv
    have hvi := hord i _ hc v hv
    exact ih v hvi (Nat.lt_trans hvi hi)

/-- The table, entry by entry. -/
theorem table_getElem? {cells : List (Cell κ)} {i : Nat} (hi : i < cells.length) :
    (table rule cells)[i]? = some (value rule cells i) := by
  have hlt : i < (table rule cells).length := by rw [table_length]; exact hi
  rw [value, List.getD_eq_getElem _ _ hlt]
  exact List.getElem?_eq_getElem hlt

end Rules

/-! ## Loops that fill a table -/

/-- A loop that appends one entry for every item produces `target`, when every step produces the
next entry of `target` from the entries in front of it. -/
theorem foldlM_push_eq_ok {f : List β → γ → Except ε β} {target : List β} :
    ∀ {xs : List γ} {done : List β}, done.length + xs.length = target.length →
      done = target.take done.length →
      (∀ (i : Nat) (x : γ) (b : β), xs[i]? = some x → target[done.length + i]? = some b →
        f (target.take (done.length + i)) x = .ok b) →
      xs.foldlM (fun acc x => do
        let b ← f acc x
        pure (acc ++ [b])) done = .ok target
  | [], done, hlen, hdone, _ => by
    have hfull : done.length = target.length := hlen
    rw [List.foldlM_nil]
    rw [hfull, List.take_length] at hdone
    rw [hdone]
    rfl
  | x :: xs, done, hlen, hdone, hstep => by
    have hlt : done.length < target.length := by
      rw [← hlen, List.length_cons]
      omega
    have hnext : target[done.length]? = some target[done.length] :=
      List.getElem?_eq_getElem hlt
    -- The step sees exactly the entries of `target` in front of its own.
    have hfirst : f done x = .ok target[done.length] := by
      have h := hstep 0 x target[done.length] rfl (by simp)
      rw [Nat.add_zero, ← hdone] at h
      exact h
    have hgrown : done ++ [target[done.length]] = target.take (done.length + 1) := by
      rw [List.take_add_one, hnext, ← hdone]
      rfl
    rw [List.foldlM_cons, hfirst]
    show List.foldlM _ (done ++ [target[done.length]]) xs = _
    apply foldlM_push_eq_ok
    · rw [List.length_append, ← hlen]
      simp
      omega
    · rw [List.length_append, List.length_singleton]
      exact hgrown
    · intro i y b hy hb
      have hshift : (done ++ [target[done.length]]).length + i = done.length + (i + 1) := by
        simp
        omega
      rw [hshift] at hb ⊢
      exact hstep (i + 1) y b hy hb

/-! ## Rebuilding a graph -/

/-- The cells built so far, and where the old ones went: wherever a place is recorded, the cell
    there has the old one's fact. -/
structure Placed [Inhabited α] (rule : κ → List α → α) (old : List (Cell κ))
    (remap : List (Option Nat)) (new : List (Cell κ)) : Prop where
  ordered : Ordered new
  valid : ∀ (i t : Nat), remap[i]? = some (some t) →
    t < new.length ∧ value rule new t = value rule old i

/-- The positions a renaming assigns to a list of references. -/
def Renamed (remap : List (Option Nat)) (refs refs' : List Nat) : Prop :=
  List.Forall₂ (fun v u => remap[v]? = some (some u)) refs refs'

/-- What holds of every reference and where it went holds of the renamed list. -/
theorem Renamed.map_eq {remap : List (Option Nat)} {refs refs' : List Nat} {f g : Nat → α}
    (h : Renamed remap refs refs')
    (hfacts : ∀ v u : Nat, u ∈ refs' → remap[v]? = some (some u) → f u = g v) :
    refs'.map f = refs.map g := by
  induction h with
  | nil => rfl
  | @cons v u refs refs' hvu _ ih =>
    rw [List.map_cons, List.map_cons, hfacts v u (by simp) hvu,
      ih fun w x hx => hfacts w x (by simp [hx])]

namespace Placed

variable [Inhabited α] {rule : κ → List α → α} {old new : List (Cell κ)}
  {remap : List (Option Nat)}

theorem start (old : List (Cell κ)) (k : Nat) : Placed rule old (List.replicate k none) [] := by
  refine ⟨ordered_nil, ?_⟩
  intro i t h
  have hmem := List.mem_of_getElem? h
  cases List.eq_of_mem_replicate hmem

theorem push (h : Placed rule old remap new) {c : Cell κ} (hc : ∀ v ∈ c.inputs, v < new.length) :
    Placed rule old remap (new ++ [c]) := by
  refine ⟨h.ordered.push hc, ?_⟩
  intro i t hit
  obtain ⟨ht, hval⟩ := h.valid i t hit
  refine ⟨?_, ?_⟩
  · rw [List.length_append]
    omega
  · rw [value_append _ ht, hval]

theorem record (h : Placed rule old remap new) {i t : Nat} (ht : t < new.length)
    (hval : value rule new t = value rule old i) :
    Placed rule old (remap.set i (some t)) new := by
  refine ⟨h.ordered, ?_⟩
  intro j u hju
  rw [List.getElem?_set] at hju
  split at hju
  · split at hju
    · cases hju
      subst i
      exact ⟨ht, hval⟩
    · cases hju
  · exact h.valid j u hju

/-- The references of a renamed cell are in range, and hold the facts of the old ones. -/
theorem renamed (h : Placed rule old remap new) {refs refs' : List Nat}
    (hr : Renamed remap refs refs') :
    (∀ u ∈ refs', u < new.length) ∧ refs'.map (value rule new) = refs.map (value rule old) := by
  induction hr with
  | nil => exact ⟨by simp, rfl⟩
  | @cons v u refs refs' hvu _ ih =>
    obtain ⟨hu, hval⟩ := h.valid v u hvu
    refine ⟨?_, ?_⟩
    · intro w hw
      rcases List.mem_cons.mp hw with rfl | hw
      · exact hu
      · exact ih.1 w hw
    · rw [List.map_cons, List.map_cons, hval, ih.2]

/-- A cell with its references renamed has the fact it had. -/
theorem moved_fact (h : Placed rule old remap new) (hold : Ordered old) {i : Nat} {c : Cell κ}
    (hc : old[i]? = some c) {refs' : List Nat} (hr : Renamed remap c.inputs refs') :
    rule c.op (refs'.map (value rule new)) = value rule old i := by
  rw [(h.renamed hr).2, value_eq hold hc]

/-- The induction behind a placement that is known as a whole, on the new position: a cell's fact may
    be computed from those of the new cells in front of it, whichever old cells they stand for. -/
theorem of_facts (hnew : Ordered new)
    (h : ∀ i t : Nat, remap[i]? = some (some t) →
      (∀ v u : Nat, u < t → remap[v]? = some (some u) →
        value rule new u = value rule old v) →
      t < new.length ∧ value rule new t = value rule old i) :
    Placed rule old remap new := by
  refine ⟨hnew, ?_⟩
  intro i t
  induction t using Nat.strongRecOn generalizing i with
  | _ t ih =>
    intro hit
    apply h i t hit
    intro v u hu hvu
    exact (ih u hu v hvu).2

/-- A graph whose cells are old cells with their references renamed: every recorded position holds
    the old cell's fact. -/
theorem of_moved (hold : Ordered old) (hnew : Ordered new)
    (h : ∀ i t : Nat, remap[i]? = some (some t) → ∃ (c : Cell κ) (refs' : List Nat),
      old[i]? = some c ∧ new[t]? = some ⟨c.op, refs'⟩ ∧ Renamed remap c.inputs refs') :
    Placed rule old remap new := by
  apply of_facts hnew
  intro i t hit hfacts
  obtain ⟨c, refs', hc, hc', hren⟩ := h i t hit
  refine ⟨(List.getElem?_eq_some_iff.mp hc').1, ?_⟩
  rw [value_eq hnew hc', value_eq hold hc,
    hren.map_eq fun v u hu hvu => hfacts v u (hnew t _ hc' u hu) hvu]

end Placed

/-- A renaming survives an entry for a cell that had none. -/
theorem Renamed.stays {remap : List (Option Nat)} {refs refs' : List Nat} {i : Nat}
    {t : Option Nat} (h : Renamed remap refs refs')
    (hfresh : ∀ u : Nat, remap[i]? ≠ some (some u)) : Renamed (remap.set i t) refs refs' := by
  apply List.Forall₂.imp _ h
  intro v u hvu
  have hiv : i ≠ v := by
    intro heq
    subst heq
    exact hfresh u hvu
  rw [List.getElem?_set_ne hiv]
  exact hvu

/-- Every new reference is where some old one went. -/
theorem Renamed.source {remap : List (Option Nat)} {refs refs' : List Nat} {u : Nat}
    (h : Renamed remap refs refs') (hu : u ∈ refs') : ∃ v ∈ refs, remap[v]? = some (some u) := by
  induction h with
  | nil => cases hu
  | @cons v w refs refs' hvw _ ih =>
    rcases List.mem_cons.mp hu with rfl | hu
    · exact ⟨v, by simp, hvw⟩
    · obtain ⟨v', hv', hren⟩ := ih hu
      exact ⟨v', by simp [hv'], hren⟩

/-- Every old reference went somewhere. -/
theorem Renamed.target {remap : List (Option Nat)} {refs refs' : List Nat} {v : Nat}
    (h : Renamed remap refs refs') (hv : v ∈ refs) : ∃ u ∈ refs', remap[v]? = some (some u) := by
  induction h with
  | nil => cases hv
  | @cons w u refs refs' hwu _ ih =>
    rcases List.mem_cons.mp hv with rfl | hmem
    · exact ⟨u, List.mem_cons_self, hwu⟩
    · obtain ⟨t, ht, hvt⟩ := ih hmem
      exact ⟨t, List.mem_cons_of_mem _ ht, hvt⟩

theorem Renamed.length {remap : List (Option Nat)} {refs refs' : List Nat}
    (h : Renamed remap refs refs') : refs'.length = refs.length :=
  (List.Forall₂.length_eq h).symm

end Lib
end CircomMpc
