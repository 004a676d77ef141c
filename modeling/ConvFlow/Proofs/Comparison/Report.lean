/-
# What a report lists

A check runs two graphs on a row of assignments, and an output gives a finding if the tensors that
the graphs deliver at its position have different shapes, or elements that are not close.  The
findings do not say at which position they were made.  `Reports` says what they are all the same:
there is a list of places, ordered by sample and then by position, which consists of all places
where the graphs differ, and the findings describe these places one by one.

The main statement, `check_exact`, says when there is a report and what it contains.
-/
import Mathlib.Data.List.Forall2
import ConvFlow.Proofs.Comparison.Closeness
import ConvFlow.Proofs.Comparison.Samples

namespace ConvFlow

open Outcome

variable {α : Type} [Element α]

namespace Graph

/-- On the given inputs the graph runs, and it delivers `t` at position `p` of its outputs. -/
def Delivers (g : Graph α) (given : NameMap (Tensor α)) (p : Nat) (t : Tensor α) : Prop :=
  ∃ m v, g.execute given = .ok m ∧ g.outputs[p]? = some v ∧ m[v]? = some t

variable {g : Graph α} {given m : NameMap (Tensor α)} {p : Nat} {v : String} {t : Tensor α}

/-- A graph that runs delivers a tensor at every position. -/
lemma exists_delivers (hm : g.execute given = .ok m) (hp : p < g.outputs.length) :
    ∃ t, g.Delivers given p t := by
  obtain ⟨t, ht⟩ := exists_output hm (List.getElem_mem hp)
  exact ⟨t, m, g.outputs[p], hm, List.getElem?_eq_getElem hp, ht⟩

lemma delivers_iff (hm : g.execute given = .ok m) (hv : g.outputs[p]? = some v) :
    g.Delivers given p t ↔ m[v]? = some t := by
  constructor
  · rintro ⟨m', v', hm', hv', ht⟩
    obtain rfl := Except.ok.inj (hm.symm.trans hm')
    obtain rfl := Option.some.inj (hv.symm.trans hv')
    exact ht
  · exact fun ht => ⟨m, v, hm, hv, ht⟩

lemma Delivers.lt (h : g.Delivers given p t) : p < g.outputs.length := by
  obtain ⟨_, _, -, hv, -⟩ := h
  exact (List.getElem?_eq_some_iff.1 hv).1

end Graph

namespace Comparison

open Sampling

variable {tol : Tolerance α} {settings : Settings α} {g h : Graph α}
  {given : NameMap (Tensor α)} {e a : Tensor α} {i p : Nat}
  {numbered : List (NameMap (Tensor α) × Nat)} {places places' : List (Nat × Nat)}
  {found more : List (Finding α)}

/-! ## Tensors that differ -/

/-- The tensors have different shapes, or their elements at some index are not close. -/
def Differ (tol : Tolerance α) (e a : Tensor α) : Prop :=
  e.shape ≠ a.shape ∨ ∃ idx, e.shape.Holds idx ∧ tol.isClose (a.get idx) (e.get idx) = false

lemma compare_eq_none_iff_not_differ : compare tol e a = none ↔ ¬ Differ tol e a := by
  rw [compare_eq_none_iff_get, Differ, not_or, not_not]
  refine and_congr_right fun _ => ?_
  simp only [not_exists, not_and, Bool.not_eq_false]

lemma exists_divergence_iff : (∃ d, compare tol e a = some d) ↔ Differ tol e a := by
  rw [← Option.ne_none_iff_exists', ne_eq, compare_eq_none_iff_not_differ, not_not]

/-! ## Places where graphs differ -/

/-- On the given inputs the graphs deliver tensors at position `p` that differ. -/
def DiffersAt (tol : Tolerance α) (g h : Graph α) (given : NameMap (Tensor α)) (p : Nat) : Prop :=
  ∃ e a, g.Delivers given p e ∧ h.Delivers given p a ∧ Differ tol e a

/-- The finding names the output of the first graph at position `p`, and it says how the tensor
that the second graph delivers there differs. -/
def Describes (tol : Tolerance α) (g h : Graph α) (given : NameMap (Tensor α)) (p : Nat)
    (f : Finding α) : Prop :=
  g.outputs[p]? = some f.output ∧
    ∃ e a, g.Delivers given p e ∧ h.Delivers given p a ∧ compare tol e a = some f.divergence

lemma differsAt_iff_exists_describes :
    DiffersAt tol g h given p ↔ ∃ f, f.sample = i ∧ Describes tol g h given p f := by
  constructor
  · rintro ⟨e, a, he, ha, hdiffer⟩
    have hlt : p < g.outputs.length := he.lt
    obtain ⟨d, hd⟩ := exists_divergence_iff.2 hdiffer
    exact ⟨⟨g.outputs[p], i, d⟩, rfl, List.getElem?_eq_getElem hlt, e, a, he, ha, hd⟩
  · rintro ⟨f, -, -, e, a, he, ha, hd⟩
    exact ⟨e, a, he, ha, exists_divergence_iff.1 ⟨f.divergence, hd⟩⟩

/-- The findings report the places, given as a sample with a position, where the graphs differ on
the numbered assignments. -/
structure Reports (tol : Tolerance α) (g h : Graph α) (numbered : List (NameMap (Tensor α) × Nat))
    (places : List (Nat × Nat)) (findings : List (Finding α)) : Prop where
  /-- The places are distinct, and they are ordered by sample and then by position. -/
  ordered : places.Pairwise (Prod.Lex (· < ·) (· < ·))
  /-- They are all the places where the graphs differ. -/
  mem_iff : ∀ i p, (i, p) ∈ places ↔
    ∃ given, (given, i) ∈ numbered ∧ DiffersAt tol g h given p
  /-- There is one finding for each place, and it describes the difference there. -/
  described : List.Forall₂ (fun (place : Nat × Nat) f => f.sample = place.1 ∧
    ∃ given, (given, place.1) ∈ numbered ∧ Describes tol g h given place.2 f) places findings

namespace Reports

lemma nil : Reports tol g h [] [] [] where
  ordered := List.Pairwise.nil
  mem_iff := by simp
  described := List.Forall₂.nil

/-- Findings for a first sample are followed by those for later ones. -/
lemma append (hfirst : Reports tol g h [(given, i)] places found)
    (hrest : Reports tol g h numbered places' more) (hlater : ∀ q ∈ numbered, i < q.2) :
    Reports tol g h ((given, i) :: numbered) (places ++ places') (found ++ more) where
  ordered := by
    refine List.pairwise_append.2 ⟨hfirst.ordered, hrest.ordered, ?_⟩
    intro first hmem later hmem'
    obtain ⟨_, hsample, -⟩ := (hfirst.mem_iff first.1 first.2).1 hmem
    obtain ⟨given', hsample', -⟩ := (hrest.mem_iff later.1 later.2).1 hmem'
    obtain ⟨-, hi⟩ := Prod.mk.inj (List.mem_singleton.1 hsample)
    have hlt : first.1 < later.1 := hi ▸ hlater _ hsample'
    exact Prod.Lex.left _ _ hlt
  mem_iff j p := by
    rw [List.mem_append, hfirst.mem_iff, hrest.mem_iff, ← exists_or]
    refine exists_congr fun given' => ?_
    rw [List.mem_singleton, List.mem_cons, or_and_right]
  described := by
    refine List.rel_append (hfirst.described.imp ?_) (hrest.described.imp ?_)
    · rintro place f ⟨hsample, given', hmem, hdescribes⟩
      exact ⟨hsample, given', List.mem_cons.2 (Or.inl (List.mem_singleton.1 hmem)), hdescribes⟩
    · rintro place f ⟨hsample, given', hmem, hdescribes⟩
      exact ⟨hsample, given', List.mem_cons_of_mem _ hmem, hdescribes⟩

/-- Nothing is found exactly if the graphs differ nowhere. -/
lemma eq_nil_iff (hreports : Reports tol g h numbered places found) :
    found = [] ↔ ∀ given ∈ numbered.map Prod.fst, ∀ p, ¬ DiffersAt tol g h given p := by
  have hplaces : found = [] ↔ places = [] := by
    rw [← List.length_eq_zero_iff, ← hreports.described.length_eq, List.length_eq_zero_iff]
  rw [hplaces, List.eq_nil_iff_forall_not_mem, List.forall_mem_map]
  constructor
  · intro hnone q hq p hdiffers
    exact hnone (q.2, p) ((hreports.mem_iff q.2 p).2 ⟨q.1, hq, hdiffers⟩)
  · intro hnone place hplace
    obtain ⟨given, hgiven, hdiffers⟩ := (hreports.mem_iff place.1 place.2).1 hplace
    exact hnone _ hgiven place.2 hdiffers

end Reports

/-! ## The findings of one sample -/

/-- The entries that a function keeps of a list stand at increasing positions, which are all those
of entries with a value. -/
lemma exists_kept {β γ : Type} (f : β → Option γ) (l : List β) : ∃ ps : List Nat,
    ps.Pairwise (· < ·) ∧ (∀ p, p ∈ ps ↔ ∃ c, l[p]?.bind f = some c) ∧
      List.Forall₂ (fun p c => l[p]?.bind f = some c) ps (l.filterMap f) := by
  induction l with
  | nil => exact ⟨[], List.Pairwise.nil, by simp, List.Forall₂.nil⟩
  | cons b l ih =>
    obtain ⟨ps, hordered, hmem, hkept⟩ := ih
    -- Behind a new head all positions are greater by one.
    have hshifted : (ps.map (· + 1)).Pairwise (· < ·) :=
      List.pairwise_map.2 (hordered.imp Nat.succ_lt_succ)
    have hkept' : List.Forall₂ (fun p c => (b :: l)[p]?.bind f = some c) (ps.map (· + 1))
        (l.filterMap f) := List.forall₂_map_left_iff.2 hkept
    have hmem' (p : Nat) : p + 1 ∈ ps.map (· + 1) ↔ ∃ c, (b :: l)[p + 1]?.bind f = some c := by
      rw [List.getElem?_cons_succ, ← hmem, List.mem_map_of_injective Nat.succ_injective]
    cases hb : f b with
    | none =>
      refine ⟨ps.map (· + 1), hshifted, ?_, ?_⟩
      · intro p
        cases p with
        | zero => simp [hb]
        | succ p => exact hmem' p
      · rw [List.filterMap_cons_none hb]
        exact hkept'
    | some c =>
      have hhead : ∀ q ∈ ps.map (· + 1), 0 < q := by simp
      refine ⟨0 :: ps.map (· + 1), List.pairwise_cons.2 ⟨hhead, hshifted⟩, ?_, ?_⟩
      · intro p
        cases p with
        | zero => simp [hb]
        | succ p => rw [List.mem_cons, ← hmem' p, or_iff_right (Nat.succ_ne_zero p)]
      · rw [List.filterMap_cons_some hb]
        exact List.Forall₂.cons hb hkept'

/-- What is found at a pair of outputs. -/
def foundAt (tol : Tolerance α) (sample : Nat) (expected actual : NameMap (Tensor α))
    (names : String × String) : Option (Finding α) :=
  match expected[names.1]?, actual[names.2]? with
  | some e, some t => (compare tol e t).map fun d => ⟨names.1, sample, d⟩
  | _, _ => none

lemma compareOutputs_eq (names : List (String × String)) (expected actual : NameMap (Tensor α)) :
    compareOutputs tol i names expected actual = names.filterMap (foundAt tol i expected actual) :=
  rfl

lemma foundAt_eq_some_iff {expected actual : NameMap (Tensor α)} {v w : String} {f : Finding α} :
    foundAt tol i expected actual (v, w) = some f ↔ f.sample = i ∧ f.output = v ∧
      ∃ e a, expected[v]? = some e ∧ actual[w]? = some a ∧ compare tol e a = some f.divergence := by
  unfold foundAt
  split
  · rename_i e a he ha
    simp only at he ha
    simp only [he, ha, Option.map_eq_some_iff, Option.some.injEq, exists_and_left, exists_eq_left']
    constructor
    · rintro ⟨d, hd, rfl⟩
      exact ⟨rfl, rfl, hd⟩
    · rintro ⟨rfl, rfl, hd⟩
      exact ⟨f.divergence, hd, rfl⟩
  · rename_i hnone
    refine iff_of_false (by simp) ?_
    rintro ⟨-, -, e, a, he, ha, -⟩
    exact hnone e a he ha

/-- At a position of two runs the finding that describes it is made, and no other. -/
lemma foundAt_iff_describes {expected actual : NameMap (Tensor α)} {f : Finding α}
    (hexpected : g.execute given = .ok expected) (hactual : h.execute given = .ok actual) :
    (g.outputs.zip h.outputs)[p]?.bind (foundAt tol i expected actual) = some f ↔
      f.sample = i ∧ Describes tol g h given p f := by
  rw [Option.bind_eq_some_iff]
  constructor
  · rintro ⟨⟨v, w⟩, hnames, hfound⟩
    obtain ⟨hv, hw⟩ := List.getElem?_zip_eq_some.1 hnames
    obtain ⟨hsample, rfl, e, a, he, ha, hd⟩ := foundAt_eq_some_iff.1 hfound
    exact ⟨hsample, hv, e, a, ⟨expected, _, hexpected, hv, he⟩, ⟨actual, _, hactual, hw, ha⟩, hd⟩
  · rintro ⟨hsample, hv, e, a, he, ⟨m, w, hm, hw, ha⟩, hd⟩
    obtain rfl := Except.ok.inj (hactual.symm.trans hm)
    refine ⟨(f.output, w), List.getElem?_zip_eq_some.2 ⟨hv, hw⟩, foundAt_eq_some_iff.2 ?_⟩
    exact ⟨hsample, rfl, e, a, (Graph.delivers_iff hexpected hv).1 he, ha, hd⟩

/-- What is found on one assignment. -/
lemma reports_of_compareRuns (hfound : compareRuns g h tol i given = .ok found) :
    ∃ places, Reports tol g h [(given, i)] places found := by
  obtain ⟨-, expected, actual, hexpected, hactual, rfl⟩ := compareRuns_eq_ok_iff.1 hfound
  obtain ⟨ps, hordered, hmem, hkept⟩ :=
    exists_kept (foundAt tol i expected actual) (g.outputs.zip h.outputs)
  simp only [foundAt_iff_describes hexpected hactual] at hmem hkept
  refine ⟨ps.map (i, ·), ?_, ?_, ?_⟩
  · exact List.pairwise_map.2 (hordered.imp fun hlt => Prod.Lex.right i hlt)
  · intro j p
    rw [List.mem_map]
    constructor
    · rintro ⟨q, hq, heq⟩
      obtain ⟨rfl, rfl⟩ := Prod.mk.inj heq
      exact ⟨given, List.mem_singleton_self _, differsAt_iff_exists_describes.2 ((hmem q).1 hq)⟩
    · rintro ⟨given', hmem', hdiffers⟩
      obtain ⟨rfl, rfl⟩ := Prod.mk.inj (List.mem_singleton.1 hmem')
      exact ⟨p, (hmem p).2 (differsAt_iff_exists_describes.1 hdiffers), rfl⟩
  · rw [compareOutputs_eq, List.forall₂_map_left_iff]
    refine hkept.imp fun p f => ?_
    rintro ⟨hsample, hdescribes⟩
    exact ⟨hsample, given, List.mem_singleton_self _, hdescribes⟩

/-! ## The findings of a check -/

lemma exists_compareRuns_iff (i : Nat) : (∃ found, compareRuns g h tol i given = .ok found) ↔
    g.outputs.length = h.outputs.length ∧
      (∃ m, g.execute given = .ok m) ∧ ∃ m, h.execute given = .ok m := by
  simp only [compareRuns_eq_ok_iff]
  constructor
  · rintro ⟨_, hlen, expected, actual, hg, hh, -⟩
    exact ⟨hlen, ⟨expected, hg⟩, actual, hh⟩
  · rintro ⟨hlen, ⟨expected, hg⟩, actual, hh⟩
    exact ⟨_, hlen, expected, actual, hg, hh, rfl⟩

/-- A row of assignments is compared to its end if the graphs can be compared on each. -/
lemma exists_compareSamples_iff {count : Nat} {s : KeyStream} :
    (∃ findings, compareSamples g h tol count i s = .ok findings) ↔
      ∀ given ∈ drawn g.inputs count s, g.outputs.length = h.outputs.length ∧
        (∃ m, g.execute given = .ok m) ∧ ∃ m, h.execute given = .ok m := by
  induction count generalizing i s with
  | zero => simp [compareSamples, drawn]
  | succ count ih =>
    rw [drawn, List.forall_mem_cons, ← ih (i := i + 1), ← exists_compareRuns_iff i]
    simp only [compareSamples_succ_eq_ok_iff]
    constructor
    · rintro ⟨_, found, more, hfound, hmore, -⟩
      exact ⟨⟨found, hfound⟩, more, hmore⟩
    · rintro ⟨⟨found, hfound⟩, more, hmore⟩
      exact ⟨_, found, more, hfound, hmore, rfl⟩

/-- What is found on a row of assignments, numbered from `i` on. -/
lemma reports_of_compareSamples {count : Nat} {s : KeyStream}
    (hfound : compareSamples g h tol count i s = .ok found) :
    ∃ places, Reports tol g h ((drawn g.inputs count s).zipIdx i) places found := by
  induction count generalizing i s found with
  | zero =>
    obtain rfl : [] = found := Except.ok.inj hfound
    exact ⟨[], Reports.nil⟩
  | succ count ih =>
    obtain ⟨first, more, hfirst, hmore, rfl⟩ := compareSamples_succ_eq_ok_iff.1 hfound
    obtain ⟨places, hplaces⟩ := reports_of_compareRuns hfirst
    obtain ⟨places', hplaces'⟩ := ih hmore
    refine ⟨places ++ places', ?_⟩
    rw [drawn, List.zipIdx_cons]
    exact hplaces.append hplaces' fun q hq => List.le_snd_of_mem_zipIdx hq

/-- The report of a check wraps up what was found on its samples. -/
lemma check_eq_ok_iff {report : Report α} : check g h settings = .ok report ↔ ∃ findings,
    compareSamples g h settings.tolerance (max 1 settings.samples) 0
        (KeyStream.ofSeed settings.seed) = .ok findings ∧
      ⟨max 1 settings.samples, g.outputs.length, findings⟩ = report := by
  rw [check]
  simp only [bind_eq_ok_iff, pure_eq_ok, Except.ok.injEq]

lemma exists_check_iff : (∃ report, check g h settings = .ok report) ↔
    g.outputs.length = h.outputs.length ∧ ∀ given ∈ settings.assignments g.inputs,
      (∃ m, g.execute given = .ok m) ∧ ∃ m, h.execute given = .ok m := by
  have hsamples : (∃ report, check g h settings = .ok report) ↔
      ∀ given ∈ settings.assignments g.inputs, g.outputs.length = h.outputs.length ∧
        (∃ m, g.execute given = .ok m) ∧ ∃ m, h.execute given = .ok m := by
    rw [Settings.assignments, ← exists_compareSamples_iff (i := 0)]
    simp only [check_eq_ok_iff]
    constructor
    · rintro ⟨_, findings, hfound, -⟩
      exact ⟨findings, hfound⟩
    · rintro ⟨findings, hfound⟩
      exact ⟨_, findings, hfound, rfl⟩
  rw [hsamples]
  constructor
  · intro hall
    -- The numbers of outputs are looked at with each sample, and there is at least one.
    obtain ⟨given, hgiven⟩ := exists_assignment settings g.inputs
    exact ⟨(hall given hgiven).1, fun given hgiven => (hall given hgiven).2⟩
  · rintro ⟨hlen, hall⟩ given hgiven
    exact ⟨hlen, hall given hgiven⟩

/-- Graphs that have been compared deliver a tensor each at all positions. -/
lemma exists_delivers_of_check (hcheck : ∃ report, check g h settings = .ok report)
    (hgiven : given ∈ settings.assignments g.inputs) (hp : p < g.outputs.length) :
    ∃ e a, g.Delivers given p e ∧ h.Delivers given p a := by
  obtain ⟨hlen, hall⟩ := exists_check_iff.1 hcheck
  obtain ⟨⟨expected, hexpected⟩, actual, hactual⟩ := hall given hgiven
  have hp' : p < h.outputs.length := hlen ▸ hp
  obtain ⟨e, he⟩ := Graph.exists_delivers hexpected hp
  obtain ⟨a, ha⟩ := Graph.exists_delivers hactual hp'
  exact ⟨e, a, he, ha⟩

/-- **A check reports exactly the differences that there are.**  There is a report exactly if the
graphs deliver the same number of outputs and both run on all assignments drawn for the first of
them, of which there are as many as settled, but at least one.  The report then gives these
numbers.  On each assignment both graphs deliver a tensor at every position; the places where these
differ are listed once each, by sample and then by position, and the graphs count as equivalent
exactly if there are none. -/
theorem check_exact :
    ((∃ report, check g h settings = .ok report) ↔ g.outputs.length = h.outputs.length ∧
      ∀ given ∈ settings.assignments g.inputs,
        (∃ m, g.execute given = .ok m) ∧ ∃ m, h.execute given = .ok m) ∧
    ∀ report, check g h settings = .ok report →
      report.samples = max 1 settings.samples ∧
      (settings.assignments g.inputs).length = report.samples ∧
      report.outputsCompared = g.outputs.length ∧
      (∀ given ∈ settings.assignments g.inputs, ∀ p < report.outputsCompared,
        ∃ e a, g.Delivers given p e ∧ h.Delivers given p a) ∧
      (∃ places, Reports settings.tolerance g h (settings.assignments g.inputs).zipIdx places
        report.findings) ∧
      (report.isEquivalent = true ↔ ∀ given ∈ settings.assignments g.inputs, ∀ p,
        ¬ DiffersAt settings.tolerance g h given p) := by
  refine ⟨exists_check_iff, ?_⟩
  intro report hreport
  obtain ⟨findings, hfound, rfl⟩ := check_eq_ok_iff.1 hreport
  obtain ⟨places, hplaces⟩ := reports_of_compareSamples hfound
  refine ⟨rfl, length_assignments settings g.inputs, rfl, ?_, ⟨places, hplaces⟩, ?_⟩
  · intro given hgiven p hp
    exact exists_delivers_of_check ⟨_, hreport⟩ hgiven hp
  · rw [Report.isEquivalent, List.isEmpty_iff, hplaces.eq_nil_iff, List.zipIdx_map_fst,
      Settings.assignments]

/-- A graph that delivers its input as it is, and multiplied by a constant. -/
def amplifier (factor : Rat) : Graph Rat where
  name := "amplifier"
  inputs := [⟨"signal", [2]⟩]
  outputs := ["signal", "amplified"]
  nodes := [⟨"amplify", .mul, ["signal", "factor"], ["amplified"]⟩]
  initializers := (∅ : NameMap (Tensor Rat)).insert "factor" (.fill [1] factor)
  valueShapes := ∅

/-- Settings for two samples. -/
def twice : Settings Rat := ⟨2, 0, ⟨0, 1 / 100⟩⟩

/-- Amplifiers with different constants differ in both samples at the second output, and there
only. -/
theorem amplifier_reports : ∃ report, check (amplifier 2) (amplifier 3) twice = .ok report ∧
    report.findings.map (fun f => (f.sample, f.output)) = [(0, "amplified"), (1, "amplified")] ∧
    report.samples = 2 ∧ (twice.assignments (amplifier 2).inputs).length = 2 ∧
    (∃ places, Reports twice.tolerance (amplifier 2) (amplifier 3)
      (twice.assignments (amplifier 2).inputs).zipIdx places report.findings) ∧
    ¬ ∀ given ∈ twice.assignments (amplifier 2).inputs, ∀ p,
      ¬ DiffersAt twice.tolerance (amplifier 2) (amplifier 3) given p := by
  have hfindings : (check (amplifier 2) (amplifier 3) twice).toOption.map
      (fun r => r.findings.map fun f => (f.sample, f.output)) =
        some [(0, "amplified"), (1, "amplified")] := by decide +kernel
  obtain ⟨report, hreport, hlisted⟩ := Option.map_eq_some_iff.1 hfindings
  rw [toOption_eq_some_iff] at hreport
  obtain ⟨hsamples, hlength, -, -, hplaces, hequivalent⟩ := check_exact.2 report hreport
  refine ⟨report, hreport, hlisted, hsamples, hlength.trans hsamples, hplaces, fun hnone => ?_⟩
  have hempty : report.findings = [] := List.isEmpty_iff.1 (hequivalent.2 hnone)
  rw [hempty] at hlisted
  exact absurd hlisted (by decide)

end Comparison

end ConvFlow
