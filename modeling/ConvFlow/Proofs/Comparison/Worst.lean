/-
# Where a comparison points

A comparison goes through the elements once, with three accumulators: the largest difference so
far, its position, and the number of elements that are not close.  `Tally.Surveys` says what the
first two mean for the pairs of elements seen so far.  They begin as zero, although nothing has been
found at position zero; that does no harm, because in exact arithmetic elements that are not close
lie apart (`gap_pos`), so the first of them replaces both.

The main statement, `compare_points`, says what a comparison of tensors of one shape reports.
-/
import Mathlib.Data.List.Induction
import ConvFlow.Proofs.Comparison.Closeness

namespace ConvFlow.Comparison

variable {tol : Tolerance Rat} {pairs : List (Rat × Rat)} {p q : Rat × Rat} {t : Tally Rat}
  {i : Nat}

/-! ## Pairs of an expected and an actual element -/

/-- Whether the actual element is not close to the expected one. -/
def isFar (tol : Tolerance Rat) (p : Rat × Rat) : Bool := !tol.isClose p.2 p.1

/-- How far the elements lie apart. -/
def gap (p : Rat × Rat) : Rat := |p.2 - p.1|

lemma isFar_iff {x y : Rat} : isFar tol (x, y) = true ↔ tol.isClose y x = false := by
  rw [isFar, Bool.not_eq_true']

/-- Elements that are not close lie apart. -/
lemma gap_pos (hrtol : 0 ≤ tol.rtol) (hatol : 0 ≤ tol.atol) (hfar : isFar tol p = true) :
    0 < gap p := by
  refine abs_pos.2 fun hzero => ?_
  rw [isFar, sub_eq_zero.1 hzero, isClose_self hrtol hatol] at hfar
  exact Bool.noConfusion hfar

/-! ## The survey -/

namespace Tally

/-- What the tally says about the pairs seen so far: no two elements that are not close lie farther
apart than its largest difference, those in front of its position lie less far apart, and at its
position the largest difference is attained, unless it is still zero. -/
structure Surveys (tol : Tolerance Rat) (pairs : List (Rat × Rat)) (t : Tally Rat) : Prop where
  attained : t.maxAbsDiff = 0 ∨
    ∃ p, pairs[t.worstIndex]? = some p ∧ isFar tol p = true ∧ gap p = t.maxAbsDiff
  largest : ∀ i p, pairs[i]? = some p → isFar tol p = true →
    gap p ≤ t.maxAbsDiff ∧ (i < t.worstIndex → gap p < t.maxAbsDiff)

lemma surveys_zero : zero.Surveys tol [] where
  attained := Or.inl rfl
  largest := by simp

/-- What looking at one more pair does. -/
lemma add_cases (tol : Tolerance Rat) (t : Tally Rat) (p : Rat × Rat) (i : Nat) :
    (isFar tol p = false ∧ t.add tol p.1 p.2 i = t) ∨
    (isFar tol p = true ∧ t.maxAbsDiff < gap p ∧
      t.add tol p.1 p.2 i = ⟨gap p, i, t.mismatched + 1⟩) ∨
    (isFar tol p = true ∧ gap p ≤ t.maxAbsDiff ∧
      t.add tol p.1 p.2 i = { t with mismatched := t.mismatched + 1 }) := by
  have hgap : Element.abs (p.2 - p.1) = gap p := abs_eq _
  have hnumber : Element.isNaN (gap p) = false := rfl
  unfold add
  split
  · rename_i hclose
    exact Or.inl ⟨by simp [isFar, hclose], rfl⟩
  · rename_i hfar
    have hfar : isFar tol p = true := by simp [isFar, hfar]
    simp only [hgap, hnumber, Bool.or_false, decide_eq_true_eq]
    split
    · rename_i hlt
      exact Or.inr (Or.inl ⟨hfar, hlt, rfl⟩)
    · rename_i hle
      exact Or.inr (Or.inr ⟨hfar, not_lt.1 hle, rfl⟩)

lemma getElem?_snoc : (pairs ++ [p])[i]? = some q ↔
    pairs[i]? = some q ∨ i = pairs.length ∧ p = q := by
  rcases lt_trichotomy i pairs.length with hlt | rfl | hgt
  · simp [List.getElem?_append_left hlt, hlt.ne]
  · simp
  · rw [List.getElem?_append_right hgt.le, List.getElem?_eq_none hgt.le,
      List.getElem?_eq_none (by simp; omega)]
    simp [hgt.ne']

/-- A survey is continued by one more pair. -/
lemma Surveys.add (hrtol : 0 ≤ tol.rtol) (hatol : 0 ≤ tol.atol) (h : t.Surveys tol pairs)
    (p : Rat × Rat) : (t.add tol p.1 p.2 pairs.length).Surveys tol (pairs ++ [p]) := by
  -- What has been attained in the pairs so far is attained with one more pair behind them.
  have hattained : t.maxAbsDiff = 0 ∨ ∃ q, (pairs ++ [p])[t.worstIndex]? = some q ∧
      isFar tol q = true ∧ gap q = t.maxAbsDiff :=
    h.attained.imp_right fun ⟨q, hq, hrest⟩ => ⟨q, getElem?_snoc.2 (Or.inl hq), hrest⟩
  rcases add_cases tol t p pairs.length with ⟨hclose, hadd⟩ | ⟨hfar, hlt, hadd⟩ |
    ⟨hfar, hle, hadd⟩
  · rw [hadd]
    refine ⟨hattained, fun i q hq hqfar => ?_⟩
    rcases getElem?_snoc.1 hq with hq | ⟨-, rfl⟩
    · exact h.largest i q hq hqfar
    · exact absurd hqfar (by simp [hclose])
  · rw [hadd]
    refine ⟨Or.inr ⟨p, getElem?_snoc.2 (Or.inr ⟨rfl, rfl⟩), hfar, rfl⟩, fun i q hq hqfar => ?_⟩
    rcases getElem?_snoc.1 hq with hq | ⟨rfl, rfl⟩
    · have hbelow := lt_of_le_of_lt (h.largest i q hq hqfar).1 hlt
      exact ⟨hbelow.le, fun _ => hbelow⟩
    · exact ⟨le_refl _, fun hself => absurd hself (lt_irrefl _)⟩
  · rw [hadd]
    refine ⟨hattained, fun i q hq hqfar => ?_⟩
    rcases getElem?_snoc.1 hq with hq | ⟨rfl, rfl⟩
    · exact h.largest i q hq hqfar
    · refine ⟨hle, fun hfront => ?_⟩
      -- The new pair stands behind the position of the tally, which is one of the pairs so far.
      rcases h.attained with hzero | ⟨q, hq, -⟩
      · exact absurd (gap_pos hrtol hatol hfar) (by simp [← hzero, hle])
      · exact absurd (List.getElem?_eq_some_iff.1 hq).1 (by simpa using hfront.le)

/-- Going through all pairs surveys them. -/
lemma surveys_foldl (hrtol : 0 ≤ tol.rtol) (hatol : 0 ≤ tol.atol) (pairs : List (Rat × Rat)) :
    (pairs.zipIdx.foldl (fun t ((x, y), i) => t.add tol x y i) zero).Surveys tol pairs := by
  induction pairs using List.reverseRecOn with
  | nil => exact surveys_zero
  | append_singleton pairs p ih =>
    rw [List.zipIdx_append, List.foldl_append, Nat.zero_add]
    exact ih.add hrtol hatol p

/-- If there are elements that are not close, the largest difference is attained. -/
lemma Surveys.exists_attained (hrtol : 0 ≤ tol.rtol) (hatol : 0 ≤ tol.atol)
    (h : t.Surveys tol pairs) (hp : p ∈ pairs) (hfar : isFar tol p = true) :
    ∃ q, pairs[t.worstIndex]? = some q ∧ isFar tol q = true ∧ gap q = t.maxAbsDiff := by
  obtain ⟨i, hi⟩ := List.getElem?_of_mem hp
  have hpos : 0 < t.maxAbsDiff :=
    lt_of_lt_of_le (gap_pos hrtol hatol hfar) (h.largest i p hi hfar).1
  exact h.attained.resolve_left hpos.ne'

end Tally

/-! ## Tensors -/

variable {e a : Tensor Rat}

/-- The pair of elements that a comparison looks at when it comes to an index. -/
lemma getElem?_zip_ravel (hshape : e.shape = a.shape) {idx : List Nat} (hidx : e.shape.Holds idx) :
    (e.data.toList.zip a.data.toList)[e.shape.ravel idx]? = some (e.get idx, a.get idx) := by
  rw [Tensor.zip_data hshape, List.getElem?_map, List.getElem?_range (Shape.ravel_lt_size hidx),
    Option.map_some, Shape.unravel_ravel hidx]

/-- The pair of elements that a comparison looks at when it comes to a position. -/
lemma getElem?_zip_eq_some (hshape : e.shape = a.shape) {k : Nat}
    (h : (e.data.toList.zip a.data.toList)[k]? = some p) :
    ∃ idx, e.shape.Holds idx ∧ e.shape.ravel idx = k ∧ p = (e.get idx, a.get idx) := by
  rw [Tensor.zip_data hshape, List.getElem?_map] at h
  obtain ⟨k', hk', rfl⟩ := Option.map_eq_some_iff.1 h
  obtain ⟨hlt, rfl⟩ := List.getElem?_eq_some_iff.1 hk'
  rw [List.length_range] at hlt
  rw [List.getElem_range]
  exact ⟨e.shape.unravel k, Shape.holds_unravel hlt, Shape.ravel_unravel hlt, rfl⟩

/-- The number of indices at which the elements are not close. -/
lemma mismatched_eq_count (hshape : e.shape = a.shape) : (Tally.ofTensors tol e a).mismatched =
    (List.range e.size).countP fun k =>
      !tol.isClose (a.get (e.shape.unravel k)) (e.get (e.shape.unravel k)) := by
  rw [mismatched_ofTensors, Tensor.zip_data hshape, List.countP_map, Tensor.size, e.size_data]
  rfl

/-- **A comparison points at the worst mismatch.**  Between tensors of one shape it finds no
difference exactly if the elements at every index are close.  Otherwise it reports how many are not
close, out of how many, and the largest of their differences with its position: it is attained
there, at elements that are not close, and not at any such elements before. -/
theorem compare_points (hrtol : 0 ≤ tol.rtol) (hatol : 0 ≤ tol.atol) (hshape : e.shape = a.shape) :
    (compare tol e a = none ↔
      ∀ idx, e.shape.Holds idx → tol.isClose (a.get idx) (e.get idx) = true) ∧
    (compare tol e a ≠ none → ∃ worst, e.shape.Holds worst ∧
      tol.isClose (a.get worst) (e.get worst) = false ∧
      compare tol e a = some (.values |a.get worst - e.get worst| (e.shape.ravel worst)
        ((List.range e.size).countP fun k =>
          !tol.isClose (a.get (e.shape.unravel k)) (e.get (e.shape.unravel k))) e.size) ∧
      ∀ idx, e.shape.Holds idx → tol.isClose (a.get idx) (e.get idx) = false →
        |a.get idx - e.get idx| ≤ |a.get worst - e.get worst| ∧
        (e.shape.ravel idx < e.shape.ravel worst →
          |a.get idx - e.get idx| < |a.get worst - e.get worst|)) := by
  have hnone : compare tol e a = none ↔
      ∀ idx, e.shape.Holds idx → tol.isClose (a.get idx) (e.get idx) = true := by
    rw [compare_eq_none_iff_get, and_iff_right hshape]
  refine ⟨hnone, fun hdiffer => ?_⟩
  have hsurvey : (Tally.ofTensors tol e a).Surveys tol (e.data.toList.zip a.data.toList) :=
    Tally.surveys_foldl hrtol hatol _
  -- Some elements are not close, so the largest difference is attained.
  obtain ⟨idx, hidx, hfar⟩ : ∃ idx, e.shape.Holds idx ∧
      tol.isClose (a.get idx) (e.get idx) = false := by
    by_contra hall
    exact hdiffer (hnone.2 fun idx hidx => by_contra fun hfar =>
      hall ⟨idx, hidx, Bool.eq_false_of_not_eq_true hfar⟩)
  obtain ⟨q, hq, hqfar, hqgap⟩ := hsurvey.exists_attained hrtol hatol
    (Tensor.mem_zip_of_holds hshape hidx) (isFar_iff.2 hfar)
  obtain ⟨worst, hworst, hindex, rfl⟩ := getElem?_zip_eq_some hshape hq
  refine ⟨worst, hworst, isFar_iff.1 hqfar, ?_, fun idx hidx hfar => ?_⟩
  · rw [compare_eq_values hshape hdiffer, ← hqgap, ← hindex, mismatched_eq_count hshape]
    rfl
  · have hlargest := hsurvey.largest _ _ (getElem?_zip_ravel hshape hidx) (isFar_iff.2 hfar)
    rw [← hqgap, ← hindex] at hlargest
    exact hlargest

/-- Four measured values, given with one decimal place. -/
def measured : Tensor Rat := ⟨[2, 2], #[1, 2, 3, 5], rfl⟩

/-- The values of another measurement: two of them are wrong, both by the same amount. -/
def misread : Tensor Rat := ⟨[2, 2], #[1, 5, 0, 101 / 20], rfl⟩

/-- A tolerance of one tenth. -/
def tenth : Tolerance Rat := ⟨0, 1 / 10⟩

/-- The comparison of the two measurements points at the first of the two wrong values. -/
theorem misread_points : 0 ≤ tenth.rtol ∧ 0 ≤ tenth.atol ∧ measured.shape = misread.shape ∧
    compare tenth measured misread = some (.values 3 1 2 4) ∧
    ∃ worst, measured.shape.Holds worst ∧ measured.shape.ravel worst = 1 ∧
      tenth.isClose (misread.get worst) (measured.get worst) = false ∧
      |misread.get worst - measured.get worst| = 3 ∧
      ∀ idx, measured.shape.Holds idx → tenth.isClose (misread.get idx) (measured.get idx) = false →
        |misread.get idx - measured.get idx| ≤ 3 ∧
        (measured.shape.ravel idx < 1 → |misread.get idx - measured.get idx| < 3) := by
  have hrtol : 0 ≤ tenth.rtol := by decide +kernel
  have hatol : 0 ≤ tenth.atol := by decide +kernel
  have hshape : measured.shape = misread.shape := rfl
  have hdiffer : compare tenth measured misread ≠ none := by
    have hsome : (compare tenth measured misread).isSome = true := by decide +kernel
    exact Option.isSome_iff_ne_none.1 hsome
  have hreport : compare tenth measured misread = some (.values 3 1 2 4) := by
    have hmost : (Tally.ofTensors tenth measured misread).maxAbsDiff = 3 := by decide +kernel
    have hplace : (Tally.ofTensors tenth measured misread).worstIndex = 1 := by decide +kernel
    have hcount : (Tally.ofTensors tenth measured misread).mismatched = 2 := by decide +kernel
    rw [compare_eq_values hshape hdiffer, hmost, hplace, hcount]
    rfl
  obtain ⟨worst, hworst, hfar, hsame, hlargest⟩ := (compare_points hrtol hatol hshape).2 hdiffer
  rw [hreport, Option.some.injEq, Divergence.values.injEq] at hsame
  obtain ⟨hmax, hindex, -, -⟩ := hsame
  rw [← hmax, ← hindex] at hlargest
  exact ⟨hrtol, hatol, hshape, hreport, worst, hworst, hindex.symm, hfar, hmax.symm, hlargest⟩

end ConvFlow.Comparison
