/-
# How a check depends on its settings

One stream of random words runs through all samples of a check, and comparing outputs takes nothing
from it.  So the first samples of a check are the same however many there are in all, and what is
found on them comes first in its report (`compareSamples_add`).

In exact arithmetic a larger tolerance accepts whatever a smaller one accepts (`isClose_mono`).  A
check under a larger tolerance makes some of the findings that it makes under the smaller one, and
each of them counts no more elements (`Finding.Relaxes`).

The main statement, `check_monotone`, puts the two together.
-/
import ConvFlow.Proofs.Comparison.Report

namespace ConvFlow.Comparison

open Outcome Sampling

/-! ## Fewer samples -/

section Samples

variable {α : Type} [Element α] {g h : Graph α} {tol : Tolerance α} {found : List (Finding α)}

/-- Samples are compared one after another, so comparing more of them begins with comparing
fewer. -/
lemma compareSamples_add {count more first : Nat} {s : KeyStream}
    (hall : compareSamples g h tol (count + more) first s = .ok found) :
    ∃ s' front back, compareSamples g h tol count first s = .ok front ∧
      compareSamples g h tol more (first + count) s' = .ok back ∧ front ++ back = found := by
  induction count generalizing first s found with
  | zero =>
    rw [Nat.zero_add] at hall
    exact ⟨s, [], found, rfl, hall, rfl⟩
  | succ count ih =>
    rw [Nat.add_right_comm] at hall
    obtain ⟨now, later, hnow, hlater, rfl⟩ := compareSamples_succ_eq_ok_iff.1 hall
    obtain ⟨s', front, back, hfront, hback, rfl⟩ := ih hlater
    refine ⟨s', now ++ front, back, ?_, ?_, List.append_assoc _ _ _⟩
    · exact compareSamples_succ_eq_ok_iff.2 ⟨now, front, hnow, hfront, rfl⟩
    · rw [Nat.add_assoc, Nat.add_comm 1 count] at hback
      exact hback

/-- Findings bear the numbers of the samples on which they were made. -/
lemma sample_of_compareSamples {count first : Nat} {s : KeyStream}
    (hfound : compareSamples g h tol count first s = .ok found) :
    ∀ f ∈ found, first ≤ f.sample ∧ f.sample < first + count := by
  obtain ⟨places, hplaces⟩ := reports_of_compareSamples hfound
  intro f hf
  obtain ⟨place, -, hsample, given, hgiven, -⟩ := exists_of_mem_forall₂ hplaces.described hf
  have hnumber := List.le_snd_of_mem_zipIdx hgiven
  have hbound := List.snd_lt_add_of_mem_zipIdx hgiven
  rw [length_drawn] at hbound
  rw [hsample]
  exact ⟨hnumber, hbound⟩

/-- A check with fewer samples finds what a check with more of them finds on the first ones. -/
lemma check_of_le {n m : Nat} {seed : UInt64} {report : Report α} (hn : 1 ≤ n) (hnm : n ≤ m)
    (hreport : check g h ⟨m, seed, tol⟩ = .ok report) : check g h ⟨n, seed, tol⟩ =
      .ok ⟨n, report.outputsCompared, report.findings.filter (·.sample < n)⟩ := by
  obtain ⟨found, hfound, rfl⟩ := check_eq_ok_iff.1 hreport
  obtain ⟨more, rfl⟩ := Nat.exists_eq_add_of_le hnm
  rw [Nat.max_eq_right (hn.trans hnm)] at hfound
  obtain ⟨s', front, back, hfront, hback, rfl⟩ := compareSamples_add hfound
  have hkept : (front ++ back).filter (·.sample < n) = front := by
    rw [List.filter_append, List.filter_eq_self.2, List.filter_eq_nil_iff.2, List.append_nil]
    · intro f hf
      have hnumber := (sample_of_compareSamples hback f hf).1
      simpa using hnumber
    · intro f hf
      have hnumber := (sample_of_compareSamples hfront f hf).2
      simpa using hnumber
  refine check_eq_ok_iff.2 ⟨front, ?_, ?_⟩
  · rw [Nat.max_eq_right hn]
    exact hfront
  · rw [Nat.max_eq_right hn, hkept]

end Samples

/-! ## Larger tolerances -/

section Tolerances

variable {α : Type}

/-- The first divergence is of the same kind as the second one: a difference between the same
shapes, or some elements of as many are not close, but no more than there. -/
inductive Divergence.Relaxes : Divergence α → Divergence α → Prop
  | shape (expected got : Shape) : Relaxes (.shape expected got) (.shape expected got)
  | values {max max' : α} {index index' mismatched mismatched' : Nat} (total : Nat)
      (le : mismatched' ≤ mismatched) :
      Relaxes (.values max' index' mismatched' total) (.values max index mismatched total)

/-- The first finding is at the same output of the same sample as the second one, and it reports no
more. -/
structure Finding.Relaxes (f' f : Finding α) : Prop where
  output : f'.output = f.output
  sample : f'.sample = f.sample
  divergence : f'.divergence.Relaxes f.divergence

/-- The second tolerance is at least as large as the first one. -/
structure Tolerance.Le (tol tol' : Tolerance Rat) : Prop where
  rtol : tol.rtol ≤ tol'.rtol
  atol : tol.atol ≤ tol'.atol

/-- Rows of entries, one behind the other, of which some are related to some of the others. -/
lemma sublistForall₂_append {β γ : Type} {R : β → γ → Prop} {l₁ l₂ : List β} {k₁ k₂ : List γ}
    (h₁ : List.SublistForall₂ R l₁ k₁) (h₂ : List.SublistForall₂ R l₂ k₂) :
    List.SublistForall₂ R (l₁ ++ l₂) (k₁ ++ k₂) := by
  rw [List.sublistForall₂_iff] at h₁ h₂ ⊢
  obtain ⟨kept₁, hrel₁, hsub₁⟩ := h₁
  obtain ⟨kept₂, hrel₂, hsub₂⟩ := h₂
  exact ⟨kept₁ ++ kept₂, List.rel_append hrel₁ hrel₂, hsub₁.append hsub₂⟩

/-- A function that keeps no more entries of a list than another one does. -/
lemma sublistForall₂_filterMap {β γ δ : Type} {R : γ → δ → Prop} {f : β → Option γ}
    {k : β → Option δ} (hrel : ∀ b c, f b = some c → ∃ d, k b = some d ∧ R c d) (l : List β) :
    List.SublistForall₂ R (l.filterMap f) (l.filterMap k) := by
  induction l with
  | nil => exact List.SublistForall₂.nil
  | cons b l ih =>
    cases hf : f b with
    | none =>
      rw [List.filterMap_cons_none hf]
      cases hk : k b with
      | none =>
        rw [List.filterMap_cons_none hk]
        exact ih
      | some d =>
        rw [List.filterMap_cons_some hk]
        exact List.SublistForall₂.cons_right ih
    | some c =>
      obtain ⟨d, hk, hcd⟩ := hrel b c hf
      rw [List.filterMap_cons_some hf, List.filterMap_cons_some hk]
      exact List.SublistForall₂.cons hcd ih

variable {tol tol' : Tolerance Rat} {g h : Graph Rat} {found : List (Finding Rat)}

/-- The bound on a difference grows with the tolerances. -/
lemma isClose_mono (hle : tol.Le tol') {x y : Rat} (hclose : tol.isClose x y = true) :
    tol'.isClose x y = true := by
  rw [Tolerance.isClose, decide_eq_true_iff] at hclose ⊢
  have hshare : tol.rtol * Element.abs y ≤ tol'.rtol * Element.abs y := by
    refine mul_le_mul_of_nonneg_right hle.rtol ?_
    rw [abs_eq]
    exact abs_nonneg y
  exact hclose.trans (add_le_add hle.atol hshare)

/-- What differs under a larger tolerance differs under a smaller one. -/
lemma compare_mono (hle : tol.Le tol') {e a : Tensor Rat} {d' : Divergence Rat}
    (hd' : compare tol' e a = some d') : ∃ d, compare tol e a = some d ∧ d'.Relaxes d := by
  by_cases hshape : e.shape = a.shape
  · have hdiffer' : compare tol' e a ≠ none := by
      rw [hd']
      exact Option.some_ne_none d'
    have hdiffer : compare tol e a ≠ none := by
      intro hnone
      obtain ⟨-, hclose⟩ := compare_eq_none_iff.1 hnone
      exact hdiffer' (compare_eq_none_iff.2 ⟨hshape, fun p hp => isClose_mono hle (hclose p hp)⟩)
    rw [compare_eq_values hshape hdiffer', Option.some.injEq] at hd'
    obtain rfl := hd'
    refine ⟨_, compare_eq_values hshape hdiffer, Divergence.Relaxes.values _ ?_⟩
    rw [mismatched_ofTensors, mismatched_ofTensors]
    refine List.countP_mono_left fun p _ hfar => ?_
    rw [Bool.not_eq_true'] at hfar ⊢
    exact Bool.eq_false_of_not_eq_true fun hclose =>
      Bool.noConfusion (hfar.symm.trans (isClose_mono hle hclose))
  · have hshapes (tol : Tolerance Rat) :
        compare tol e a = some (.shape e.shape a.shape) := if_pos hshape
    obtain rfl := Option.some.inj ((hshapes tol').symm.trans hd')
    exact ⟨_, hshapes tol, Divergence.Relaxes.shape _ _⟩

/-- What is found on one assignment under a larger tolerance, besides what is found under a smaller
one. -/
lemma compareRuns_mono (hle : tol.Le tol') {i : Nat} {given : NameMap (Tensor Rat)}
    (hfound : compareRuns g h tol i given = .ok found) :
    ∃ found', compareRuns g h tol' i given = .ok found' ∧
      List.SublistForall₂ Finding.Relaxes found' found := by
  obtain ⟨hlen, expected, actual, hexpected, hactual, rfl⟩ := compareRuns_eq_ok_iff.1 hfound
  refine ⟨_, compareRuns_eq_ok_iff.2 ⟨hlen, expected, actual, hexpected, hactual, rfl⟩, ?_⟩
  rw [compareOutputs_eq, compareOutputs_eq]
  refine sublistForall₂_filterMap ?_ _
  rintro ⟨v, w⟩ f' hf'
  obtain ⟨hsample, houtput, e, a, he, ha, hd'⟩ := foundAt_eq_some_iff.1 hf'
  obtain ⟨d, hd, hrelaxes⟩ := compare_mono hle hd'
  exact ⟨⟨v, i, d⟩, foundAt_eq_some_iff.2 ⟨rfl, rfl, e, a, he, ha, hd⟩, houtput, hsample, hrelaxes⟩

lemma compareSamples_mono (hle : tol.Le tol') {count first : Nat} {s : KeyStream}
    (hfound : compareSamples g h tol count first s = .ok found) :
    ∃ found', compareSamples g h tol' count first s = .ok found' ∧
      List.SublistForall₂ Finding.Relaxes found' found := by
  induction count generalizing first s found with
  | zero =>
    obtain rfl : [] = found := Except.ok.inj hfound
    exact ⟨[], rfl, List.SublistForall₂.nil⟩
  | succ count ih =>
    obtain ⟨now, later, hnow, hlater, rfl⟩ := compareSamples_succ_eq_ok_iff.1 hfound
    obtain ⟨now', hnow', hrelax⟩ := compareRuns_mono hle hnow
    obtain ⟨later', hlater', hrelaxLater⟩ := ih hlater
    exact ⟨now' ++ later', compareSamples_succ_eq_ok_iff.2 ⟨now', later', hnow', hlater', rfl⟩,
      sublistForall₂_append hrelax hrelaxLater⟩

lemma check_mono (hle : tol.Le tol') {samples : Nat} {seed : UInt64} {report : Report Rat}
    (hreport : check g h ⟨samples, seed, tol⟩ = .ok report) :
    ∃ report', check g h ⟨samples, seed, tol'⟩ = .ok report' ∧
      List.SublistForall₂ Finding.Relaxes report'.findings report.findings := by
  obtain ⟨found, hfound, rfl⟩ := check_eq_ok_iff.1 hreport
  obtain ⟨found', hfound', hrelax⟩ := compareSamples_mono hle hfound
  exact ⟨_, check_eq_ok_iff.2 ⟨found', hfound', rfl⟩, hrelax⟩

/-- **More samples and smaller tolerances find more.**  If a check runs, it runs with fewer samples
as well, and then it finds exactly what it has found on the first ones.  Whether it runs does not
depend on the tolerance; under a larger one it makes some of the findings that it makes under a
smaller one, at the same outputs of the same samples, and counts no more elements there.  So what is
accepted with more samples and a smaller tolerance is accepted with fewer samples and a larger
one. -/
theorem check_monotone (seed : UInt64) {n m : Nat} (hn : 1 ≤ n) (hnm : n ≤ m)
    (hrtol : tol.rtol ≤ tol'.rtol) (hatol : tol.atol ≤ tol'.atol) :
    (∀ report, check g h ⟨m, seed, tol⟩ = .ok report → check g h ⟨n, seed, tol⟩ =
      .ok ⟨n, report.outputsCompared, report.findings.filter (·.sample < n)⟩) ∧
    (∀ samples, ((∃ report, check g h ⟨samples, seed, tol⟩ = .ok report) ↔
        ∃ report', check g h ⟨samples, seed, tol'⟩ = .ok report') ∧
      ∀ report report', check g h ⟨samples, seed, tol⟩ = .ok report →
        check g h ⟨samples, seed, tol'⟩ = .ok report' →
          List.SublistForall₂ Finding.Relaxes report'.findings report.findings) ∧
    ((∃ report, check g h ⟨m, seed, tol⟩ = .ok report ∧ report.isEquivalent = true) →
      ∃ report, check g h ⟨n, seed, tol'⟩ = .ok report ∧ report.isEquivalent = true) := by
  have hle : tol.Le tol' := ⟨hrtol, hatol⟩
  refine ⟨fun report => check_of_le hn hnm, fun samples => ⟨?_, ?_⟩, ?_⟩
  · rw [exists_check_iff, exists_check_iff]
    exact Iff.rfl
  · intro report report' hreport hreport'
    obtain ⟨same, hsame, hrelax⟩ := check_mono hle hreport
    obtain rfl := Except.ok.inj (hreport'.symm.trans hsame)
    exact hrelax
  · rintro ⟨report, hreport, hequivalent⟩
    have hnone : report.findings = [] := List.isEmpty_iff.1 hequivalent
    obtain ⟨report', hreport', hrelax⟩ := check_mono hle (check_of_le hn hnm hreport)
    refine ⟨report', hreport', List.isEmpty_iff.2 ?_⟩
    obtain ⟨kept, hkept, hsub⟩ := List.sublistForall₂_iff.1 hrelax
    simp only [hnone, List.filter_nil, List.sublist_nil] at hsub
    rw [hsub] at hkept
    exact List.forall₂_nil_right_iff.1 hkept

/-- A tolerance of one half, whatever is expected. -/
def half : Tolerance Rat := ⟨0, 1 / 2⟩

/-- Amplifiers that differ by one differ in both samples.  With one sample the first difference is
found alone, and under a tolerance of one half no others are found.  Amplifiers that differ by one
hundredth are accepted in the first place, and so under this tolerance with one sample. -/
theorem amplifier_monotone : 1 ≤ 1 ∧ 1 ≤ 2 ∧ twice.tolerance.rtol ≤ half.rtol ∧
    twice.tolerance.atol ≤ half.atol ∧
    (∃ report report', check (amplifier 2) (amplifier 3) ⟨2, 0, twice.tolerance⟩ = .ok report ∧
      check (amplifier 2) (amplifier 3) ⟨2, 0, half⟩ = .ok report' ∧
      report.findings.map (·.sample) = [0, 1] ∧
      check (amplifier 2) (amplifier 3) ⟨1, 0, twice.tolerance⟩ =
        .ok ⟨1, report.outputsCompared, report.findings.filter (·.sample < 1)⟩ ∧
      List.SublistForall₂ Finding.Relaxes report'.findings report.findings) ∧
    ∃ report, check (amplifier 2) (amplifier (201 / 100)) ⟨1, 0, half⟩ = .ok report ∧
      report.isEquivalent = true := by
  have htwo : 1 ≤ 2 := by decide
  have hrtol : twice.tolerance.rtol ≤ half.rtol := by decide +kernel
  have hatol : twice.tolerance.atol ≤ half.atol := by decide +kernel
  obtain ⟨hfewer, hlarger, -⟩ := check_monotone (g := amplifier 2) (h := amplifier 3) 0
    (le_refl 1) htwo hrtol hatol
  obtain ⟨-, -, haccepted⟩ := check_monotone (g := amplifier 2) (h := amplifier (201 / 100)) 0
    (le_refl 1) htwo hrtol hatol
  have hsamples : (check (amplifier 2) (amplifier 3) ⟨2, 0, twice.tolerance⟩).toOption.map
      (fun r => r.findings.map (·.sample)) = some [0, 1] := by decide +kernel
  obtain ⟨report, hreport, hlisted⟩ := Option.map_eq_some_iff.1 hsamples
  rw [toOption_eq_some_iff] at hreport
  obtain ⟨report', hreport'⟩ := (hlarger 2).1.1 ⟨report, hreport⟩
  refine ⟨le_refl 1, htwo, hrtol, hatol, ⟨report, report', hreport, hreport', hlisted,
    hfewer report hreport, (hlarger 2).2 report report' hreport hreport'⟩, haccepted ?_⟩
  have hequivalent : (check (amplifier 2) (amplifier (201 / 100))
      ⟨2, 0, twice.tolerance⟩).toOption.map Report.isEquivalent = some true := by decide +kernel
  obtain ⟨same, hsame, hempty⟩ := Option.map_eq_some_iff.1 hequivalent
  exact ⟨same, toOption_eq_some_iff.1 hsame, hempty⟩

end Tolerances

end ConvFlow.Comparison
