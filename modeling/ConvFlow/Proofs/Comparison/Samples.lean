/-
# What a check of two graphs establishes

A check draws assignments of inputs one after another from a seeded stream and runs both graphs on
each.  `Settings.assignments` lists these assignments, and `AlikeOn` says that both graphs run on
an assignment and that their outputs are related position by position.

The main statement, `check_iff`, says when a check finds no difference: exactly if the two graphs
are alike on every assignment that is drawn, where tensors are related if `compare` finds no
difference between them.
-/
import Mathlib.Data.List.Forall2
import ConvFlow.Comparison.Check
import ConvFlow.Proofs.Execution.Run

namespace ConvFlow

open Outcome

namespace Graph

variable {α : Type} [Element α] {g : Graph α} {given m : NameMap (Tensor α)}

/-- What an execution delivers contains all outputs. -/
lemma exists_output (h : g.execute given = .ok m) {v : String} (hv : v ∈ g.outputs) :
    ∃ t, m[v]? = some t := by
  obtain ⟨start, -, hrun⟩ := bind_eq_ok_iff.1 h
  obtain ⟨final, -, hdeliver⟩ := bind_eq_ok_iff.1 hrun
  obtain ⟨t, -, ht⟩ := Execution.getElem?_deliver hdeliver hv
  exact ⟨t, ht⟩

end Graph

namespace Comparison

open Sampling

variable {α : Type} [Element α] {g h k : Graph α} {given : NameMap (Tensor α)}

/-! ## The assignments that are drawn -/

/-- Assignments of the inputs, drawn one after another from the stream. -/
def drawn (inputs : List ValueDecl) : Nat → KeyStream → List (NameMap (Tensor α))
  | 0, _ => []
  | n + 1, s =>
    let next : NameMap (Tensor α) × KeyStream := sampleInputs inputs s
    next.1 :: drawn inputs n next.2

/-- The assignments on which a check with these settings compares graphs. -/
def Settings.assignments (settings : Settings α) (inputs : List ValueDecl) :
    List (NameMap (Tensor α)) :=
  drawn inputs (max 1 settings.samples) (KeyStream.ofSeed settings.seed)

lemma length_drawn (inputs : List ValueDecl) (n : Nat) (s : KeyStream) :
    (drawn inputs n s : List (NameMap (Tensor α))).length = n := by
  induction n generalizing s with
  | zero => rfl
  | succ n ih => rw [drawn, List.length_cons, ih]

lemma length_assignments (settings : Settings α) (inputs : List ValueDecl) :
    (settings.assignments inputs).length = max 1 settings.samples :=
  length_drawn _ _ _

/-- At least one assignment is drawn. -/
lemma exists_assignment (settings : Settings α) (inputs : List ValueDecl) :
    ∃ given, given ∈ settings.assignments inputs := by
  refine List.exists_mem_of_length_pos ?_
  rw [length_assignments]
  exact Nat.lt_of_lt_of_le Nat.zero_lt_one (Nat.le_max_left _ _)

/-! ## Graphs that are alike on an assignment -/

/-- Both graphs run on the given inputs, they deliver the same number of outputs, and the tensors
at each position are related. -/
def AlikeOn (R : Tensor α → Tensor α → Prop) (given : NameMap (Tensor α)) (g h : Graph α) :
    Prop :=
  ∃ expected actual, g.execute given = .ok expected ∧ h.execute given = .ok actual ∧
    List.Forall₂ (fun v w => ∃ e a, expected[v]? = some e ∧ actual[w]? = some a ∧ R e a)
      g.outputs h.outputs

namespace AlikeOn

variable {R S T : Tensor α → Tensor α → Prop}

lemma length_outputs (hgh : AlikeOn R given g h) : g.outputs.length = h.outputs.length := by
  obtain ⟨_, _, -, -, houtputs⟩ := hgh
  exact houtputs.length_eq

lemma imp (hgh : AlikeOn R given g h) (hRS : ∀ a b, R a b → S a b) : AlikeOn S given g h := by
  obtain ⟨expected, actual, hg, hh, houtputs⟩ := hgh
  refine ⟨expected, actual, hg, hh, houtputs.imp fun v w => ?_⟩
  rintro ⟨e, a, he, ha, hR⟩
  exact ⟨e, a, he, ha, hRS e a hR⟩

lemma trans (hgh : AlikeOn R given g h) (hhk : AlikeOn S given h k)
    (hRST : ∀ a b c, R a b → S b c → T a c) : AlikeOn T given g k := by
  obtain ⟨first, second, hg, hh, hfirst⟩ := hgh
  obtain ⟨second', third, hh', hk, hsecond⟩ := hhk
  -- The graph in the middle runs only once: both halves speak of the same tensors.
  obtain rfl := Except.ok.inj (hh.symm.trans hh')
  refine ⟨first, third, hg, hk, List.forall₂_iff_get.2 ⟨?_, fun i hi hi' => ?_⟩⟩
  · exact hfirst.length_eq.trans hsecond.length_eq
  · have hmid : i < h.outputs.length := hfirst.length_eq ▸ hi
    obtain ⟨a, b, ha, hb, hR⟩ := hfirst.get hi hmid
    obtain ⟨b', c, hb', hc, hS⟩ := hsecond.get hmid hi'
    obtain rfl := Option.some.inj (hb.symm.trans hb')
    exact ⟨a, c, ha, hc, hRST a b c hR hS⟩

end AlikeOn

/-! ## The check -/

section Check

variable {tol : Tolerance α} {settings : Settings α}

/-- Nothing is found in two runs exactly if the outputs at each position compare equal. -/
lemma compareOutputs_eq_nil_iff {sample : Nat} {names : List (String × String)}
    {expected actual : NameMap (Tensor α)}
    (hexpected : ∀ p ∈ names, ∃ e, expected[p.1]? = some e)
    (hactual : ∀ p ∈ names, ∃ a, actual[p.2]? = some a) :
    compareOutputs tol sample names expected actual = [] ↔ ∀ p ∈ names,
      ∃ e a, expected[p.1]? = some e ∧ actual[p.2]? = some a ∧ compare tol e a = none := by
  rw [compareOutputs, List.filterMap_eq_nil_iff]
  refine forall₂_congr fun p hp => ?_
  obtain ⟨e, he⟩ := hexpected p hp
  obtain ⟨a, ha⟩ := hactual p hp
  simp [he, ha]

/-- Graphs are compared if they deliver the same number of outputs and both run. -/
lemma compareRuns_eq_ok_iff {sample : Nat} {found : List (Finding α)} :
    compareRuns g h tol sample given = .ok found ↔ g.outputs.length = h.outputs.length ∧
      ∃ expected actual, g.execute given = .ok expected ∧ h.execute given = .ok actual ∧
        compareOutputs tol sample (g.outputs.zip h.outputs) expected actual = found := by
  unfold compareRuns
  split
  · rename_i hlen
    exact iff_of_false (by simp) fun hcompared => hlen hcompared.1
  · rename_i hlen
    rw [not_not] at hlen
    simp only [bind_eq_ok_iff, mapError_eq_ok_iff, pure_eq_ok, Except.ok.injEq, hlen, true_and,
      exists_and_left]

lemma compareRuns_eq_nil_iff (sample : Nat) : compareRuns g h tol sample given = .ok [] ↔
    AlikeOn (fun e a => compare tol e a = none) given g h := by
  simp only [compareRuns_eq_ok_iff, AlikeOn, List.forall₂_iff_zip, ← exists_and_left]
  refine exists_congr fun expected => exists_congr fun actual => ?_
  rw [and_left_comm, and_congr_right_iff]
  intro hg
  rw [and_left_comm, and_congr_right_iff]
  intro hh
  rw [compareOutputs_eq_nil_iff
    (fun p hp => g.exists_output hg (List.of_mem_zip (a := p.1) (b := p.2) hp).1)
    (fun p hp => h.exists_output hh (List.of_mem_zip (a := p.1) (b := p.2) hp).2)]
  exact and_congr_right fun _ =>
    ⟨fun hall v w hvw => hall (v, w) hvw, fun hall p hp => hall hp⟩

/-- The first sample is compared, and then all others. -/
lemma compareSamples_succ_eq_ok_iff {first count : Nat} {s : KeyStream}
    {findings : List (Finding α)} :
    compareSamples g h tol (count + 1) first s = .ok findings ↔ ∃ found more,
      compareRuns g h tol first (sampleInputs g.inputs s).1 = .ok found ∧
      compareSamples g h tol count (first + 1) (sampleInputs (α := α) g.inputs s).2 = .ok more ∧
      found ++ more = findings := by
  rw [compareSamples]
  simp only [bind_eq_ok_iff, pure_eq_ok, Except.ok.injEq, exists_and_left]

lemma compareSamples_eq_nil_iff (first : Nat) {count : Nat} {s : KeyStream} :
    compareSamples g h tol count first s = .ok [] ↔ ∀ given ∈ drawn g.inputs count s,
      AlikeOn (fun e a => compare tol e a = none) given g h := by
  induction count generalizing first s with
  | zero => simp [compareSamples, drawn]
  | succ count ih =>
    rw [drawn, List.forall_mem_cons, ← ih (first + 1),
      ← compareRuns_eq_nil_iff first, compareSamples_succ_eq_ok_iff]
    simp only [List.append_eq_nil_iff]
    constructor
    · rintro ⟨found, more, hfound, hmore, rfl, rfl⟩
      exact ⟨hfound, hmore⟩
    · rintro ⟨hfound, hmore⟩
      exact ⟨[], [], hfound, hmore, rfl, rfl⟩

/-- **A check finds no difference exactly between graphs that are alike on all assignments drawn
for the first of them.** -/
theorem check_iff : (∃ report, check g h settings = .ok report ∧ report.isEquivalent = true) ↔
    ∀ given ∈ settings.assignments g.inputs,
      AlikeOn (fun e a => compare settings.tolerance e a = none) given g h := by
  rw [Settings.assignments, ← compareSamples_eq_nil_iff 0, check]
  simp only [bind_eq_ok_iff, pure_eq_ok, Except.ok.injEq]
  constructor
  · rintro ⟨report, ⟨findings, hfindings, rfl⟩, hempty⟩
    obtain rfl : findings = [] := List.isEmpty_iff.1 hempty
    exact hfindings
  · intro hfindings
    exact ⟨_, ⟨[], hfindings, rfl⟩, rfl⟩

end Check

end Comparison

end ConvFlow
