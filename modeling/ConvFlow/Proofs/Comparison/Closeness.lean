/-
# What a comparison of tensors establishes

A comparison counts the elements that are not close, so it finds no difference exactly if the
shapes are equal and all pairs of elements are close (`compare_eq_none_iff`).

Over the rationals, and with an absolute tolerance alone, closeness is a bound on differences.
`Tensor.Within` states this bound for whole tensors.  Bounds add up along a row of tensors
(`Within.trans`), which closeness with a relative tolerance does not do.
-/
import Mathlib.Algebra.Order.Group.Abs
import Mathlib.Algebra.Order.Ring.Rat
import ConvFlow.Comparison.Tolerance
import ConvFlow.Proofs.Tensor

namespace ConvFlow

namespace Comparison

variable {α : Type} [Element α] {tol : Tolerance α} {e a : Tensor α}

/-! ## Counting the elements that are not close -/

lemma mismatched_add (t : Tally α) (x y : α) (i : Nat) :
    (t.add tol x y i).mismatched = t.mismatched + if tol.isClose y x then 0 else 1 := by
  unfold Tally.add
  split
  · rfl
  · dsimp only
    split <;> rfl

lemma mismatched_foldl (tol : Tolerance α) (pairs : List (α × α)) (start : Nat) (t : Tally α) :
    ((pairs.zipIdx start).foldl (fun t ((x, y), i) => t.add tol x y i) t).mismatched =
      t.mismatched + pairs.countP fun p => !tol.isClose p.2 p.1 := by
  induction pairs generalizing start t with
  | nil => rfl
  | cons p pairs ih =>
    rw [List.zipIdx_cons, List.foldl_cons, ih, mismatched_add, List.countP_cons]
    cases tol.isClose p.2 p.1
    · simp only [Bool.not_false, if_true, Bool.false_eq_true, if_false]
      omega
    · simp

lemma mismatched_ofTensors : (Tally.ofTensors tol e a).mismatched =
    (e.data.toList.zip a.data.toList).countP fun p => !tol.isClose p.2 p.1 := by
  have hcount := mismatched_foldl tol (e.data.toList.zip a.data.toList) 0 Tally.zero
  rw [Tally.zero, Nat.zero_add] at hcount
  exact hcount

/-- **No difference is found exactly between tensors of one shape whose elements are close.** -/
theorem compare_eq_none_iff : compare tol e a = none ↔
    e.shape = a.shape ∧ ∀ p ∈ e.data.toList.zip a.data.toList, tol.isClose p.2 p.1 = true := by
  have hcount : (Tally.ofTensors tol e a).mismatched = 0 ↔
      ∀ p ∈ e.data.toList.zip a.data.toList, tol.isClose p.2 p.1 = true := by
    simp [mismatched_ofTensors, List.countP_eq_zero]
  rw [← hcount, compare]
  by_cases hshape : e.shape = a.shape
  · simp [hshape]
  · simp [hshape]

/-- A difference between tensors of one shape is reported as the tally has it. -/
lemma compare_eq_values (hshape : e.shape = a.shape) (hdiffer : compare tol e a ≠ none) :
    compare tol e a = some (.values (Tally.ofTensors tol e a).maxAbsDiff
      (Tally.ofTensors tol e a).worstIndex (Tally.ofTensors tol e a).mismatched e.size) := by
  rw [compare, if_neg (not_not.2 hshape)] at hdiffer ⊢
  dsimp only at hdiffer ⊢
  split at hdiffer
  · exact absurd rfl hdiffer
  · rename_i hcount
    rw [if_neg hcount]

end Comparison

/-! ## Bounded differences -/

namespace Tensor

variable {α : Type} [Element α]

/-- The tensors have one shape, and at every index their elements differ by at most `d`. -/
structure Within (d : α) (a b : Tensor α) : Prop where
  shape : a.shape = b.shape
  elements : ∀ idx, a.shape.Holds idx → Element.abs (a.get idx - b.get idx) ≤ d

/-- The element at the index that belongs to a position is stored at this position. -/
lemma get_unravel {t : Tensor α} {k : Nat} (hk : k < t.data.size) :
    t.get (t.shape.unravel k) = t.data[k] := by
  have hlt : k < t.shape.size := t.size_data ▸ hk
  simp [get, Shape.ravel_unravel hlt, hk]

/-- The stored elements of two tensors of one shape, paired, are those at the same indices. -/
lemma zip_data {a b : Tensor α} (hshape : a.shape = b.shape) :
    a.data.toList.zip b.data.toList = (List.range a.shape.size).map fun k =>
      (a.get (a.shape.unravel k), b.get (a.shape.unravel k)) := by
  refine List.ext_getElem ?_ fun k hk _ => ?_
  · simp [a.size_data, b.size_data, hshape]
  · have ha : k < a.data.size := by simp at hk; omega
    have hb : k < b.data.size := by simp at hk; omega
    rw [List.getElem_zip, List.getElem_map, List.getElem_range, get_unravel ha, hshape,
      get_unravel hb, Array.getElem_toList, Array.getElem_toList]

/-- Elements at one index stand at one position of the stored elements. -/
lemma mem_zip_of_holds {a b : Tensor α} (hshape : a.shape = b.shape) {idx : List Nat}
    (hidx : a.shape.Holds idx) : (a.get idx, b.get idx) ∈ a.data.toList.zip b.data.toList := by
  rw [zip_data hshape, List.mem_map]
  refine ⟨a.shape.ravel idx, List.mem_range.2 (Shape.ravel_lt_size hidx), ?_⟩
  rw [Shape.unravel_ravel hidx]

/-- Elements at one position of the stored elements stand at one index. -/
lemma exists_index_of_mem_zip {a b : Tensor α} (hshape : a.shape = b.shape) {p : α × α}
    (hp : p ∈ a.data.toList.zip b.data.toList) :
    ∃ idx, a.shape.Holds idx ∧ p = (a.get idx, b.get idx) := by
  rw [zip_data hshape] at hp
  obtain ⟨k, hk, rfl⟩ := List.mem_map.1 hp
  exact ⟨a.shape.unravel k, Shape.holds_unravel (List.mem_range.1 hk), rfl⟩

end Tensor

/-- No difference is found exactly between tensors of one shape whose elements are close at every
index. -/
lemma Comparison.compare_eq_none_iff_get {α : Type} [Element α] {tol : Tolerance α}
    {e a : Tensor α} : compare tol e a = none ↔ e.shape = a.shape ∧
      ∀ idx, e.shape.Holds idx → tol.isClose (a.get idx) (e.get idx) = true := by
  rw [compare_eq_none_iff]
  refine and_congr_right fun hshape => ⟨fun hclose idx hidx => ?_, fun hclose p hp => ?_⟩
  · exact hclose _ (Tensor.mem_zip_of_holds hshape hidx)
  · obtain ⟨idx, hidx, rfl⟩ := Tensor.exists_index_of_mem_zip hshape hp
    exact hclose idx hidx

section Rational

lemma abs_eq (x : Rat) : Element.abs x = |x| := by
  show Rat.abs x = |x|
  rw [Rat.abs]
  split
  · rw [abs_of_nonneg (by assumption)]
  · rename_i hneg
    rw [abs_of_neg (not_le.1 hneg)]

namespace Comparison

/-- Without a relative tolerance closeness is a bound on the difference. -/
lemma isClose_absolute {tol : Tolerance Rat} (hrtol : tol.rtol = 0) {x y : Rat} :
    tol.isClose x y = true ↔ |x - y| ≤ tol.atol := by
  have hbound : tol.atol + tol.rtol * Element.abs y = tol.atol := by
    rw [hrtol]
    show tol.atol + 0 * Element.abs y = tol.atol
    rw [zero_mul, add_zero]
  rw [Tolerance.isClose, decide_eq_true_iff, hbound]
  exact abs_eq (x - y) ▸ Iff.rfl

/-- Every number is close to itself. -/
lemma isClose_self {tol : Tolerance Rat} (hrtol : 0 ≤ tol.rtol) (hatol : 0 ≤ tol.atol) (x : Rat) :
    tol.isClose x x = true := by
  have hzero : Element.abs (x - x) = (0 : Rat) := by
    rw [abs_eq, sub_self, abs_zero]
  have hbound : (0 : Rat) ≤ tol.atol + tol.rtol * Element.abs x := by
    rw [abs_eq]
    exact add_nonneg hatol (mul_nonneg hrtol (abs_nonneg x))
  rw [Tolerance.isClose, decide_eq_true_iff]
  exact hzero.symm ▸ hbound

lemma compare_self {tol : Tolerance Rat} (hrtol : 0 ≤ tol.rtol) (hatol : 0 ≤ tol.atol)
    (t : Tensor Rat) : compare tol t t = none := by
  refine compare_eq_none_iff.2 ⟨rfl, fun p hp => ?_⟩
  obtain ⟨i, hi⟩ := List.getElem?_of_mem hp
  obtain ⟨hfst, hsnd⟩ := List.getElem?_zip_eq_some.1 hi
  rw [Option.some.inj (hfst.symm.trans hsnd)]
  exact isClose_self hrtol hatol p.2

end Comparison

namespace Tensor

variable {a b c : Tensor Rat} {d d' : Rat}

/-- What a comparison without a relative tolerance lets pass. -/
lemma within_of_compare {tol : Comparison.Tolerance Rat} (hrtol : tol.rtol = 0)
    (h : Comparison.compare tol a b = none) : a.Within tol.atol b := by
  obtain ⟨hshape, hclose⟩ := Comparison.compare_eq_none_iff.1 h
  refine ⟨hshape, fun idx hidx => ?_⟩
  have hpair := hclose _ (mem_zip_of_holds hshape hidx)
  rw [Comparison.isClose_absolute hrtol, abs_sub_comm] at hpair
  rw [abs_eq]
  exact hpair

/-- Differences add up. -/
lemma Within.trans (hab : a.Within d b) (hbc : b.Within d' c) : a.Within (d + d') c := by
  refine ⟨hab.shape.trans hbc.shape, fun idx hidx => ?_⟩
  have hfirst := hab.elements idx hidx
  have hsecond := hbc.elements idx (hab.shape ▸ hidx)
  rw [abs_eq] at hfirst hsecond ⊢
  calc |a.get idx - c.get idx|
      ≤ |a.get idx - b.get idx| + |b.get idx - c.get idx| := abs_sub_le _ _ _
    _ ≤ d + d' := add_le_add hfirst hsecond

end Tensor

end Rational

end ConvFlow
