import CircomMpc.Codegen.Assembly
import CircomMpc.Vm.Precompute

/-!
# What a batch writes

Every result that is left of a site of a plan is written by the plan's batch, to its home and with its
value, provided the inputs of the sites the batch reads are where the walk noted them. A fused batch
reads its zero tests only: what it opens is a result of its own.

A row holds the results that are left of a site, so a site that lost some of them to dead code has a
shorter row, and slots and homes are looked up by the result's own number.
-/

namespace CircomMpc

open Lib CircomMpc.Graph

namespace Codegen

open GadgetSchedule

variable {g : Graph}

/-- The sites whose inputs a batch reads. -/
def readSites : ScheduledBatch → List GadgetId
  | .gadget plan => plan.siteIds
  | .isZeroReveal plan => plan.sites.map IsZeroRevealSite.zeroTestSite

/-! ## Values of results -/

/-- A gadget result is its slot of the site's trace. -/
theorem eval_result (hg : g.Hosted) {site slot : Nat} {u v : ValueId} {inputs : List ValueId}
    (hv : g.ResultAt site slot v) (hu : g.nodes[u]? = some ⟨.gadget site, inputs⟩) (I : Interp) :
    g.eval I v = I.trace site (inputs.map (g.eval I)) slot := by
  obtain ⟨u', hnode, hat⟩ := hv
  cases hg.siteAt_unique hat ⟨inputs, hu⟩
  unfold eval
  rw [value_eq hg.ordered hnode]
  show value (evalRule I) g.nodes u slot = _
  rw [value_eq hg.ordered hu]
  show I.trace site ((inputs.map (value (evalRule I) g.nodes)).map fun x => x 0) slot = _
  rw [List.map_map]
  rfl

/-- The same, with the site's kind. -/
theorem eval_result_plain (hg : g.Hosted) {site slot : Nat} {u v : ValueId} {inputs : List ValueId}
    {s : GadgetSite} (hv : g.ResultAt site slot v) (hu : g.nodes[u]? = some ⟨.gadget site, inputs⟩)
    (hs : g.gadgetSites[site]? = some s) (host : Poseidon2.Host) (input : SignalIdx → Fr) :
    g.eval (.plain g host input) v =
      (s.kind.plainTrace host (inputs.map (g.eval (.plain g host input)))).getD slot 0 := by
  rw [eval_result hg hv hu]
  simp only [Interp.plain, hs]

/-- The walk noted the site's inputs where the machine has their values. -/
def Fed (g : Graph) (I : Interp) (siteInputs : List (List SiteInput)) (vm : VmState Unit Fr)
    (site : GadgetId) : Prop :=
  ∃ (u : ValueId) (inputs : List ValueId) (sis : List SiteInput),
    g.nodes[u]? = some ⟨.gadget site, inputs⟩ ∧ siteInputs[site]? = some sis ∧
      List.Forall₂ (fun v (si : SiteInput) => vm.read si.bank si.slot = g.eval I v) inputs sis

theorem Fed.values (hg : g.Hosted) {I : Interp} {siteInputs : List (List SiteInput)}
    {vm : VmState Unit Fr} {site : GadgetId} {u : ValueId} {inputs : List ValueId}
    {sis : List SiteInput} (h : Fed g I siteInputs vm site)
    (hu : g.nodes[u]? = some ⟨.gadget site, inputs⟩) (hsis : siteInputs[site]? = some sis) :
    sis.map (fun si => vm.read si.bank si.slot) = inputs.map (g.eval I) := by
  obtain ⟨u', inputs', sis', hu', hsis', hvalues⟩ := h
  cases hg.siteAt_unique ⟨inputs, hu⟩ ⟨inputs', hu'⟩
  rw [hu] at hu'
  rw [hsis] at hsis'
  cases hu'
  cases hsis'
  clear hsis hu
  induction hvalues with
  | nil => rfl
  | cons hv _ ih => rw [List.map_cons, List.map_cons, hv, ih]

namespace Setting

variable (t : Setting g)

/-! ## The rows of a plan -/

/-- The row has a destination for every result that is left of `site`, and for nothing else; `shift`
    is what the batch adds to the site's own slots. -/
structure Serves (site : GadgetId) (shift : Nat) (row : List (ResultSlot × ResultTarget)) : Prop where
  sound : ∀ r ∈ row, ∃ slot v, g.ResultAt site slot v ∧
    t.home v = some ⟨r.2.bank, r.2.slot.index⟩ ∧ r.1.index = shift + slot
  complete : ∀ slot v, g.ResultAt site slot v →
    ∃ r ∈ row, t.home v = some ⟨r.2.bank, r.2.slot.index⟩

variable {t}

theorem siteTargets_meets {site : GadgetId} {base : Loc}
    (hbase : t.res.gadgets.siteResultBase[site]? = some base) (shift : Nat) :
    Meets (fun _ => True) (t.Serves site shift)
      (siteTargets t.res.gadgets site base.bank shift) := by
  unfold siteTargets
  apply Meets.bind_eq
  intro slots hslots
  rw [index_eq_ok] at hslots
  obtain ⟨vs, hvs, hlive, hall⟩ := t.holds.live site slots hslots
  -- One slot that is left: its result, where it has its home.
  have hstep : ∀ x ∈ slots.zipIdx, Meets (fun _ : Panic => True)
      (fun r => ∃ v, vs[x.2]? = some v ∧ g.ResultAt site x.1 v ∧
        t.home v = some ⟨r.2.bank, r.2.slot.index⟩ ∧ r.1.index = shift + x.1)
      ((fun (x : Nat × Nat) => do
        let node ← index (← index t.res.gadgets.liveNodes site) x.2
        let phys ← orElse (.expect "every live gadget result has a physical slot")
          (← index t.res.gadgets.resultPhys node)
        pure ((⟨shift + x.1⟩, ⟨base.bank, ⟨phys⟩⟩) : ResultSlot × ResultTarget)) x) := by
    rintro ⟨logical, pos⟩ hx
    have hlogical : slots[pos]? = some logical := List.mem_zipIdx_iff_getElem?.mp hx
    dsimp only
    rw [index_eq hvs, ok_bind]
    apply Meets.bind_eq
    intro v hv
    apply Meets.bind_eq
    intro entry hentry
    apply Meets.bind_eq
    intro phys hphys
    rw [index_eq_ok] at hv hentry
    rw [orElse_eq_ok] at hphys
    subst hphys
    obtain ⟨logical', hlogical', hat⟩ := forall₂_getElem? hlive hv
    rw [hlogical] at hlogical'
    cases hlogical'
    obtain ⟨base', phys', hbase', hphys', hhome⟩ := t.holds.results site logical v hat
    rw [hbase] at hbase'
    rw [hentry] at hphys'
    cases hbase'
    cases hphys'
    exact ⟨v, hv, hat, hhome, rfl⟩
  apply (Meets.mapM_rel hstep).post
  intro row hrow
  -- Every target is such a result's, and every such result has its target.
  refine ⟨?_, ?_⟩
  · intro r hr
    obtain ⟨k, hk⟩ := List.mem_iff_getElem?.mp hr
    obtain ⟨x, _, v, _, hat, hhome, hslot⟩ := forall₂_getElem? hrow hk
    exact ⟨x.1, v, hat, hhome, hslot⟩
  · intro slot v hat
    obtain ⟨pos, hpos⟩ := List.mem_iff_getElem?.mp (hall slot v hat)
    obtain ⟨logical, hlogical, hat'⟩ := forall₂_getElem? hlive hpos
    have hx : slots.zipIdx[pos]? = some (logical, pos) := by
      rw [List.getElem?_zipIdx, hlogical]
      simp
    obtain ⟨r, hr, v', hv', _, hhome, _⟩ := forall₂_getElem? hrow.flip hx
    rw [hpos] at hv'
    cases hv'
    exact ⟨r, List.mem_of_getElem? hr, hhome⟩

/-- A row of an ordinary batch. -/
def NormalRow (t : Setting g) (siteInputs : List (List SiteInput)) (entry : GadgetId × ValueId)
    (row : Row) : Prop :=
  siteInputs[entry.1]? = some row.1 ∧ t.Serves entry.1 0 row.2

/-- A row of a fused batch: one input, the zero test's results and the opened one behind them. -/
structure FusedRow (t : Setting g) (siteInputs : List (List SiteInput)) (e : IsZeroRevealSite)
    (row : Row) : Prop where
  input : ∃ inputs input, siteInputs[e.zeroTestSite]? = some inputs ∧ inputs[0]? = some input ∧
    row.1 = [input]
  results : ∃ zeroTest reveal, t.Serves e.zeroTestSite 0 zeroTest ∧ t.Serves e.revealSite 2 reveal ∧
    (∀ r ∈ zeroTest, r.1.index ≤ 1) ∧ (∀ r ∈ reveal, r.1.index = 2) ∧ row.2 = zeroTest ++ reveal

theorem normalSite_meets {siteInputs : List (List SiteInput)} {plan : BatchPlan} {w : Rows}
    (entry : GadgetId × ValueId) :
    Meets (fun _ => True)
      (fun w' => ∃ row, t.NormalRow siteInputs entry row ∧ w' = w.push row.1 row.2)
      (normalSite t.res.gadgets siteInputs plan w entry) := by
  unfold normalSite
  apply Meets.bind_eq
  intro inputs hinputs
  apply Meets.bind_eq
  intro base hbase
  apply Meets.bind_any
  intro bank
  apply Meets.guard_bind (fun _ => trivial)
  intro _
  rw [index_eq_ok] at hinputs hbase
  apply Meets.bind (siteTargets_meets hbase 0)
  intro row hrow
  exact ⟨(inputs, row), ⟨hinputs, hrow⟩, rfl⟩

theorem fusedSite_meets {siteInputs : List (List SiteInput)} {w : Rows} (e : IsZeroRevealSite) :
    Meets (fun _ => True)
      (fun w' => ∃ row, t.FusedRow siteInputs e row ∧ w' = w.push row.1 row.2)
      (fusedSite t.res.gadgets siteInputs w e) := by
  unfold fusedSite
  apply Meets.bind_eq
  -- The checks of the source, in their order.
  intro source hsource
  rw [index_eq_ok] at hsource
  apply Meets.guard_bind (fun _ => trivial)
  intro hshared
  rw [← hshared]
  apply Meets.bind (siteTargets_meets hsource 0)
  intro zeroTest hzero
  apply Meets.guard_bind (fun _ => trivial)
  intro hlow
  apply Meets.bind_eq
  intro opened hopened
  rw [index_eq_ok] at hopened
  apply Meets.guard_bind (fun _ => trivial)
  intro hpublic
  rw [← hpublic]
  apply Meets.bind (siteTargets_meets hopened 2)
  intro reveal hreveal
  apply Meets.guard_bind (fun _ => trivial)
  intro hhigh
  apply Meets.bind_eq
  intro inputs hinputs
  apply Meets.bind_eq
  intro input hinput
  rw [index_eq_ok] at hinputs hinput
  exact ⟨([input], zeroTest ++ reveal), ⟨⟨inputs, input, hinputs, hinput, rfl⟩,
    zeroTest, reveal, hzero, hreveal, hlow, hhigh, rfl⟩, rfl⟩

/-- Rows pushed one after another. -/
theorem pushAll_meets {α : Type} {f : Rows → α → Except Panic Rows} {R : α → Row → Prop}
    (hf : ∀ w x, Meets (fun _ => True) (fun w' => ∃ row, R x row ∧ w' = w.push row.1 row.2) (f w x))
    (xs : List α) :
    Meets (fun _ => True) (fun w => ∃ rows, List.Forall₂ R xs rows ∧ w.Are rows)
      (xs.foldlM f .start) := by
  apply Meets.foldlM_prefix (fun done (w : Rows) => ∃ rows, List.Forall₂ R done rows ∧ w.Are rows)
  · exact ⟨[], .nil, Rows.are_start⟩
  · rintro done x rest w _ ⟨rows, hrows, hare⟩
    apply (hf w x).post
    rintro w' ⟨row, hrow, rfl⟩
    exact ⟨rows ++ [row], List.rel_append hrows (.cons hrow .nil), hare.push row.1 row.2⟩

theorem assembleNormalBatch_meets (siteInputs : List (List SiteInput)) (plan : BatchPlan) :
    Meets (fun _ => True) (fun batch => ∃ rows,
        List.Forall₂ (t.NormalRow siteInputs) plan.sites rows ∧ HasRows batch rows ∧
          batch.kind.gadgetTwin = .gadget plan.kind)
      (assembleNormalBatch t.res.gadgets siteInputs plan) := by
  unfold assembleNormalBatch
  apply Meets.bind (pushAll_meets (fun w entry => normalSite_meets entry) plan.sites)
  rintro w ⟨rows, hrows, hare⟩
  have hkind : Meets (fun _ : Panic => True) (fun kind => kind.gadgetTwin = .gadget plan.kind)
      (planKind plan) := by
    unfold planKind
    split
    · cases hk : plan.kind with
      | poseidon2 w => exact rfl
      | num2Bits n => exact trivial
      | isZero => exact trivial
      | aliasCheck => exact trivial
      | reveal n => exact trivial
    · exact rfl
  apply Meets.bind hkind
  intro kind hkind
  exact ⟨rows, hrows, ⟨hrows.length_eq, hare.inputs, hare.requests, hare.targets, hare.offsets⟩,
    hkind⟩

theorem assembleFusedBatch_meets (siteInputs : List (List SiteInput)) (plan : IsZeroRevealPlan) :
    Meets (fun _ => True) (fun batch => ∃ rows,
        List.Forall₂ (t.FusedRow siteInputs) plan.sites rows ∧ HasRows batch rows ∧
          batch.kind.gadgetTwin = .isZeroReveal)
      (assembleFusedBatch t.res.gadgets siteInputs plan) := by
  unfold assembleFusedBatch
  apply Meets.bind (pushAll_meets (fun w e => fusedSite_meets e) plan.sites)
  rintro w ⟨rows, hrows, hare⟩
  exact ⟨rows, hrows, ⟨hrows.length_eq, hare.inputs, hare.requests, hare.targets, hare.offsets⟩, rfl⟩

/-! ## The writes -/

/-- Every result of the batch's sites is written to its home, with its value, and nothing else is
    written. -/
structure Writes (t : Setting g) (p : ProgramParts) (I : Interp) (plan : ScheduledBatch)
    (ws : List (ResultTarget × Fr)) : Prop where
  slots : ∀ w ∈ ws, w.1.bank ≠ .local ∧ p.SlotOk w.1.bank w.1.slot
  sound : ∀ w ∈ ws, ∃ site ∈ plan.siteIds, ∃ slot v, g.ResultAt site slot v ∧
    t.home v = some ⟨w.1.bank, w.1.slot.index⟩ ∧ w.2 = g.eval I v
  complete : ∀ site ∈ plan.siteIds, ∀ slot v, g.ResultAt site slot v →
    ∃ w ∈ ws, t.home v = some ⟨w.1.bank, w.1.slot.index⟩

variable {p : ProgramParts} {batch : GadgetBatch} {rows : List Row}
  {siteInputs : List (List SiteInput)} {vm : VmState Unit Fr}

/-- An ordinary batch. -/
theorem writes_normal {plan : BatchPlan} (hwindow : plan.Window g)
    (hrows : List.Forall₂ (t.NormalRow siteInputs) plan.sites rows) (htables : HasRows batch rows)
    (hkind : batch.kind.gadgetTwin = .gadget plan.kind) (hb : p.BatchOk batch.gadgetTwin)
    (host : Poseidon2.Host) (input : SignalIdx → Fr)
    (hfed : ∀ site ∈ plan.siteIds, Fed g (.plain g host input) siteInputs vm site) :
    ∃ ws, Effect.batch host vm batch.gadgetTwin = vm.writeAll ws ∧
      t.Writes p (.plain g host input) (.gadget plan) ws := by
  have hhosted := t.emittable.sited.hosted
  have htwin : HasRows batch.gadgetTwin rows := ⟨htables.sites, htables.inputs, htables.requests,
    htables.targets, htables.offsets⟩
  have hkind' : batch.gadgetTwin.kind = .gadget plan.kind := hkind
  -- What is known of one row: the site's node and kind, and the values it reads.
  have hrow : ∀ (entry : GadgetId × ValueId) (row : Row), entry ∈ plan.sites →
      t.NormalRow siteInputs entry row → ∃ inputs s,
        g.nodes[entry.2]? = some ⟨.gadget entry.1, inputs⟩ ∧ g.gadgetSites[entry.1]? = some s ∧
        s.kind = plan.kind ∧ row.1.map (fun si => vm.read si.bank si.slot) =
          inputs.map (g.eval (.plain g host input)) := by
    intro entry row hentry hnormal
    obtain ⟨inputs, hnode⟩ := hwindow.siteAt entry hentry
    obtain ⟨s, hs, hkey⟩ := hwindow.keyed entry hentry
    have hsite : entry.1 ∈ plan.siteIds := List.mem_map_of_mem hentry
    exact ⟨inputs, s, hnode, hs, congrArg Prod.fst hkey, (hfed _ hsite).values hhosted hnode hnormal.1⟩
  have hwidth : ∀ row ∈ rows, row.1.length = batch.gadgetTwin.kind.inputsPerSite := by
    intro row hmem
    obtain ⟨k, hk⟩ := List.mem_iff_getElem?.mp hmem
    obtain ⟨entry, hentry, hnormal⟩ := forall₂_getElem? hrows hk
    obtain ⟨inputs, s, hnode, hs, hskind, hvalues⟩ := hrow entry row (List.mem_of_getElem? hentry) hnormal
    have hlen := congrArg List.length hvalues
    rw [List.length_map, List.length_map] at hlen
    rw [hlen, t.emittable.arity _ _ _ _ hnode hs, hskind, hkind', inputsPerSite_gadget]
  have hnot : batch.gadgetTwin.kind.isPrecomputed = false := by
    rw [hkind']
    rfl
  refine ⟨_, htwin.effect hb hwidth hnot host vm, fun w hw => htwin.target hb hw, ?_, ?_⟩
  · intro w hw
    obtain ⟨row, hmem, hw⟩ := List.mem_flatMap.mp hw
    obtain ⟨r, hr, rfl⟩ := List.mem_map.mp hw
    obtain ⟨k, hk⟩ := List.mem_iff_getElem?.mp hmem
    obtain ⟨entry, hentry, hnormal⟩ := forall₂_getElem? hrows hk
    have hin := List.mem_of_getElem? hentry
    obtain ⟨inputs, s, hnode, hs, hskind, hvalues⟩ := hrow entry row hin hnormal
    obtain ⟨slot, v, hat, hhome, hslot⟩ := hnormal.2.sound r hr
    refine ⟨entry.1, List.mem_map_of_mem hin, slot, v, hat, hhome, ?_⟩
    rw [eval_result_plain hhosted hat hnode hs, hvalues, hslot, hkind', hskind, Nat.zero_add]
    rfl
  · intro site hsite slot v hat
    obtain ⟨entry, hin, rfl⟩ := List.mem_map.mp hsite
    obtain ⟨k, hk⟩ := List.mem_iff_getElem?.mp hin
    obtain ⟨row, hrow', hnormal⟩ := forall₂_getElem? hrows.flip hk
    obtain ⟨r, hr, hhome⟩ := hnormal.2.complete slot v hat
    exact ⟨_, List.mem_flatMap.mpr ⟨row, List.mem_of_getElem? hrow', List.mem_map_of_mem hr⟩, hhome⟩

/-- A fused site's first slots are the zero test's. -/
theorem fused_low (host : Poseidon2.Host) (x : Fr) {slot : Nat} (h : slot ≤ 1) :
    (BatchKind.isZeroReveal.plainTrace host [x]).getD slot 0 =
      (IsZero.plainTrace x).getD slot 0 := by
  have hlt : slot < (IsZero.plainTrace x).length := by
    rw [IsZero.plainTrace_length]
    omega
  show (IsZero.plainTrace x ++ [_]).getD slot 0 = _
  rw [List.getD_eq_getElem?_getD, List.getElem?_append_left hlt, List.getD_eq_getElem?_getD]

/-- The last one is the zero test's `out`, opened. -/
theorem fused_high (host : Poseidon2.Host) (x : Fr) :
    (BatchKind.isZeroReveal.plainTrace host [x]).getD 2 0 = (IsZero.plainTrace x).getD 0 0 := by
  have hlen := IsZero.plainTrace_length x
  show (IsZero.plainTrace x ++ [_]).getD 2 0 = _
  rw [List.getD_eq_getElem?_getD, List.getElem?_append_right (Nat.le_of_eq hlen), hlen]
  rfl

/-- A fused batch. What it opens is what the reveal's only input evaluates to, a result of the zero
    test. -/
theorem writes_fused {plan : IsZeroRevealPlan} {reveals zeros : BatchPlan}
    (hfusion : Fusion g reveals zeros plan) (hreveals : reveals.Window g) (hzeros : zeros.Window g)
    (hrows : List.Forall₂ (t.FusedRow siteInputs) plan.sites rows) (htables : HasRows batch rows)
    (hkind : batch.kind.gadgetTwin = .isZeroReveal) (hb : p.BatchOk batch.gadgetTwin)
    (host : Poseidon2.Host) (input : SignalIdx → Fr)
    (hfed : ∀ e ∈ plan.sites, Fed g (.plain g host input) siteInputs vm e.zeroTestSite) :
    ∃ ws, Effect.batch host vm batch.gadgetTwin = vm.writeAll ws ∧
      t.Writes p (.plain g host input) (.isZeroReveal plan) ws := by
  have hhosted := t.emittable.sited.hosted
  have htwin : HasRows batch.gadgetTwin rows := ⟨htables.sites, htables.inputs, htables.requests,
    htables.targets, htables.offsets⟩
  have hkind' : batch.gadgetTwin.kind = .isZeroReveal := hkind
  have hwidth : ∀ row ∈ rows, row.1.length = batch.gadgetTwin.kind.inputsPerSite := by
    intro row hmem
    obtain ⟨k, hk⟩ := List.mem_iff_getElem?.mp hmem
    obtain ⟨e, _, hfused⟩ := forall₂_getElem? hrows hk
    obtain ⟨_, si, _, _, hsingle⟩ := hfused.input
    rw [hsingle, hkind']
    rfl
  have hnot : batch.gadgetTwin.kind.isPrecomputed = false := by
    rw [hkind']
    rfl
  -- The two sites of one row, with the value the zero test reads.
  have hzero : ∀ (e : IsZeroRevealSite) (row : Row), e ∈ plan.sites → t.FusedRow siteInputs e row →
      row.1.map (fun si => vm.read si.bank si.slot) = [g.eval (.plain g host input) e.input] ∧
      ∀ slot v, g.ResultAt e.zeroTestSite slot v → g.eval (.plain g host input) v =
        (IsZero.plainTrace (g.eval (.plain g host input) e.input)).getD slot 0 := by
    intro e row he hfused
    obtain ⟨entry, _, _, hopens⟩ := hfusion.opens e he
    obtain ⟨u, hu⟩ := hopens.zeroTest
    obtain ⟨inputs, si, hinputs, hsi, hsingle⟩ := hfused.input
    have hvalues := (hfed e he).values hhosted hu hinputs
    have hone := congrArg List.length hvalues
    rw [List.length_map, List.length_map, List.length_singleton] at hone
    obtain ⟨si', rfl⟩ := List.length_eq_one_iff.mp hone
    cases hsi
    refine ⟨by rw [hsingle]; exact hvalues, ?_⟩
    intro slot v hat
    have hmem : e.zeroTestSite ∈ zeros.siteIds :=
      hfusion.zeroSites.mem_iff.mp (List.mem_map_of_mem he)
    obtain ⟨entry', hentry', hsite⟩ := List.mem_map.mp hmem
    obtain ⟨s, hs, hkey⟩ := hzeros.keyed entry' hentry'
    rw [hsite] at hs
    have hs' : s.kind = .isZero := (congrArg Prod.fst hkey).trans hfusion.zeroKind.1
    rw [eval_result_plain hhosted hat hu hs, hs']
    rfl
  have hopened : ∀ (e : IsZeroRevealSite) (v : ValueId), e ∈ plan.sites → g.ResultAt e.revealSite 0 v →
      ∃ result, g.ResultAt e.zeroTestSite 0 result ∧
        g.eval (.plain g host input) v = g.eval (.plain g host input) result := by
    intro e v he hat
    obtain ⟨entry, hentry, hsite, hopens⟩ := hfusion.opens e he
    obtain ⟨result, hnode, hresult⟩ := hopens.reveal
    obtain ⟨s, hs, hkey⟩ := hreveals.keyed entry hentry
    rw [← hsite] at hs
    have hs' : s.kind = .reveal 1 := (congrArg Prod.fst hkey).trans hfusion.revealKind.1
    refine ⟨result, hresult, ?_⟩
    rw [eval_result_plain hhosted hat hnode hs, hs']
    rfl
  refine ⟨_, htwin.effect hb hwidth hnot host vm, fun w hw => htwin.target hb hw, ?_, ?_⟩
  · intro w hw
    obtain ⟨row, hmem, hw⟩ := List.mem_flatMap.mp hw
    obtain ⟨r, hr, rfl⟩ := List.mem_map.mp hw
    obtain ⟨k, hk⟩ := List.mem_iff_getElem?.mp hmem
    obtain ⟨e, hentry, hfused⟩ := forall₂_getElem? hrows hk
    have he := List.mem_of_getElem? hentry
    obtain ⟨hvalues, hresults⟩ := hzero e row he hfused
    obtain ⟨zeroTest, reveal, hserves, hserves', hlow, hhigh, hall⟩ := hfused.results
    rw [hall] at hr
    dsimp only
    rw [hvalues, hkind']
    rcases List.mem_append.mp hr with hr | hr
    · obtain ⟨slot, v, hat, hhome, hslot⟩ := hserves.sound r hr
      refine ⟨e.zeroTestSite, List.mem_append_left _ (List.mem_map_of_mem he), slot, v, hat, hhome, ?_⟩
      have hsmall := hlow r hr
      rw [hresults slot v hat, hslot, Nat.zero_add]
      exact fused_low host _ (by omega)
    · obtain ⟨slot, v, hat, hhome, hslot⟩ := hserves'.sound r hr
      have htwo := hhigh r hr
      have hslot₀ : slot = 0 := by omega
      subst hslot₀
      obtain ⟨result, hresult, heq⟩ := hopened e v he hat
      refine ⟨e.revealSite, List.mem_append_right _ (List.mem_map_of_mem he), 0, v, hat, hhome, ?_⟩
      rw [heq, hresults 0 result hresult, htwo]
      exact fused_high host _
  · intro site hsite slot v hat
    have hin : ∃ e ∈ plan.sites, site = e.zeroTestSite ∨ site = e.revealSite := by
      rcases List.mem_append.mp hsite with hsite | hsite
      · obtain ⟨e, he, rfl⟩ := List.mem_map.mp hsite
        exact ⟨e, he, .inl rfl⟩
      · obtain ⟨e, he, rfl⟩ := List.mem_map.mp hsite
        exact ⟨e, he, .inr rfl⟩
    obtain ⟨e, he, hsite⟩ := hin
    obtain ⟨k, hk⟩ := List.mem_iff_getElem?.mp he
    obtain ⟨row, hrow, hfused⟩ := forall₂_getElem? hrows.flip hk
    obtain ⟨zeroTest, reveal, hserves, hserves', _, _, hall⟩ := hfused.results
    have hmem : ∃ r ∈ row.2, t.home v = some ⟨r.2.bank, r.2.slot.index⟩ := by
      rw [hall]
      rcases hsite with rfl | rfl
      · obtain ⟨r, hr, hhome⟩ := hserves.complete slot v hat
        exact ⟨r, List.mem_append_left _ hr, hhome⟩
      · obtain ⟨r, hr, hhome⟩ := hserves'.complete slot v hat
        exact ⟨r, List.mem_append_right _ hr, hhome⟩
    obtain ⟨r, hr, hhome⟩ := hmem
    exact ⟨_, List.mem_flatMap.mpr ⟨row, List.mem_of_getElem? hrow, List.mem_map_of_mem hr⟩, hhome⟩

/-- **Whatever kind a batch is of, it writes its sites' results.** -/
theorem writes_of_assembled {plan : ScheduledBatch} (hplan : plan ∈ t.schedule.plans)
    (hbatch : assembleBatch t.res.gadgets siteInputs plan = .ok batch)
    (hb : p.BatchOk batch.gadgetTwin) (host : Poseidon2.Host) (input : SignalIdx → Fr)
    (hfed : ∀ site ∈ readSites plan, Fed g (.plain g host input) siteInputs vm site) :
    ∃ ws, Effect.batch host vm batch.gadgetTwin = vm.writeAll ws ∧
      t.Writes p (.plain g host input) plan ws := by
  rcases t.planned.serviced.kinds plan hplan with
    ⟨plan, rfl, hwindow⟩ | ⟨plan, reveals, zeros, rfl, hfusion, hreveals, hzeros⟩
  · obtain ⟨rows, hrows, htables, hkind⟩ := (assembleNormalBatch_meets siteInputs plan).of_ok hbatch
    exact writes_normal hwindow hrows htables hkind hb host input hfed
  · obtain ⟨rows, hrows, htables, hkind⟩ := (assembleFusedBatch_meets siteInputs plan).of_ok hbatch
    exact writes_fused hfusion hreveals hzeros hrows htables hkind hb host input
      fun e he => hfed _ (List.mem_map_of_mem he)

end Setting

end Codegen
end CircomMpc
