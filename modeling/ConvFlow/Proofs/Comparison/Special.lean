/-
# Special values in a comparison

The bound of a comparison grows with the expected element.  If that element is infinite, or so
large that its share overflows, the bound is infinite, and every number keeps to an infinite bound.
`Admits` says which pairs of floats a comparison lets pass, and `compare_eq_none_iff_admits` that it
lets pass no others: something that is no number is always reported, but an infinite element is let
pass in two cases in which the other one is finite, or infinite with the other sign.

Arithmetic on floats unpacks the operands, computes, and packs the result.  The proofs follow the
unpacked values (`kept`), where infinities and what is no number are constructors of their own.
-/
import Mathlib
import ConvFlow.Proofs.Comparison.Closeness

namespace ConvFlow

namespace Comparison

open Float.Model (Format UnpackedFloat)
open Float.Model.UnpackedFloat (Sign packComponents unpackMantissa_packComponents
  unpackExponent_packComponents unpackSign_packComponents)

/-! ## Unpacked values -/

lemma add_notANumber (u : UnpackedFloat) :
    UnpackedFloat.add Format.binary32 u .notANumber = .notANumber := by
  cases u <;> rfl

lemma notANumber_sub (u : UnpackedFloat) :
    UnpackedFloat.sub Format.binary32 .notANumber u = .notANumber := by
  cases u <;> rfl

lemma sub_notANumber (u : UnpackedFloat) :
    UnpackedFloat.sub Format.binary32 u .notANumber = .notANumber := by
  cases u <;> rfl

lemma infinity_sub {u : UnpackedFloat} (hu : u.isFinite = true) (s : Sign) :
    UnpackedFloat.sub Format.binary32 (.infinity s) u = .infinity s := by
  cases u with
  | zero | finite => rfl
  | infinity | notANumber => exact Bool.noConfusion hu

/-- The distance from an infinite value is infinite, except for what is no number and for the same
infinite value. -/
lemma sub_infinity (u : UnpackedFloat) (s : Sign) :
    (u.isNaN = false ∧ u.beq (.infinity s) = false ∧
        ∃ t, UnpackedFloat.sub Format.binary32 u (.infinity s) = .infinity t) ∨
      (¬(u.isNaN = false ∧ u.beq (.infinity s) = false) ∧
        UnpackedFloat.sub Format.binary32 u (.infinity s) = .notANumber) := by
  cases u with
  | notANumber => exact Or.inr ⟨fun h => Bool.noConfusion h.1, rfl⟩
  | zero t => cases s <;> exact Or.inl ⟨rfl, rfl, _, rfl⟩
  | finite t => cases s <;> cases t <;> exact Or.inl ⟨rfl, rfl, _, rfl⟩
  | infinity t =>
    cases s <;> cases t
    case negative.negative | positive.positive =>
      exact Or.inr ⟨fun h => Bool.noConfusion h.2, rfl⟩
    case negative.positive | positive.negative => exact Or.inl ⟨rfl, rfl, _, rfl⟩

/-- What is left of a result that is packed into 32 bits: it may have become infinite or zero. -/
def kept (u : UnpackedFloat) : UnpackedFloat := (Float32.Model.pack u).unpack

/-- The value is zero or lies above zero. -/
def NotBelowZero : UnpackedFloat → Prop
  | .notANumber => False
  | .infinity s => s = .positive
  | .zero _ => True
  | .finite s _ _ _ => s = .positive

@[simp] lemma kept_notANumber : kept .notANumber = .notANumber := rfl

@[simp] lemma kept_infinity (s : Sign) : kept (.infinity s) = .infinity s := by
  cases s <;> rfl

@[simp] lemma kept_zero (s : Sign) : kept (.zero s) = .zero s := by
  cases s <;> rfl

/-- The value is finite and has the given sign. -/
def FiniteWithSign (s : Sign) (u : UnpackedFloat) : Prop :=
  u = .zero s ∨ ∃ m e hm, u = .finite s m e hm

/-- Unless all bits of the exponent are set, bits stand for a finite number. -/
lemma unpack_packed {exponent : BitVec Format.binary32.exponentBits} (h : exponent ≠ -1#_)
    (s : Sign) (mantissa : BitVec Format.binary32.mantissaBitsWithoutImplicit) :
    FiniteWithSign s (.unpack Format.binary32 (packComponents _ s exponent mantissa)) := by
  unfold UnpackedFloat.unpack
  simp only [unpackMantissa_packComponents, unpackExponent_packComponents,
    unpackSign_packComponents, Sign.ofBitVec_toBitVec, if_neg h]
  split
  · split
    · exact Or.inl rfl
    · exact Or.inr ⟨_, _, _, rfl⟩
  · exact Or.inr ⟨_, _, _, rfl⟩

/-- A result with a large exponent becomes infinite, and every other one stays finite. -/
lemma kept_finite (s : Sign) (m : Nat) (e : Int) (hm : 0 < m) :
    if 105 ≤ e then kept (.finite s m e hm) = .infinity s
    else FiniteWithSign s (kept (.finite s m e hm)) := by
  have hbias : Format.binary32.exponentBias = 127 := rfl
  unfold kept Float32.Model.pack Float32.Model.unpack UnpackedFloat.pack
  dsimp only
  by_cases hlarge : 105 ≤ e
  · rw [if_pos hlarge, if_pos (by omega)]
    exact kept_infinity s
  · rw [if_neg hlarge, if_neg (by omega)]
    split
    · refine unpack_packed (fun hall => ?_) s _
      have hvalue := congrArg BitVec.toNat hall
      rw [BitVec.toNat_ofNat] at hvalue
      have hfull : (-1#(Format.binary32.exponentBits)).toNat = 255 := rfl
      omega
    · exact unpack_packed (by decide) s _

/-- The exponent of a stored number is not large. -/
lemma exponent_lt {bits : BitVec Format.binary32.numBits} {s : Sign} {m : Nat} {e : Int}
    {hm : 0 < m} (h : UnpackedFloat.unpack Format.binary32 bits = .finite s m e hm) : e < 105 := by
  have hbias : Format.binary32.exponentBias = 127 := rfl
  unfold UnpackedFloat.unpack at h
  dsimp only at h
  split at h
  · split at h <;> cases h
  · rename_i hnotfull
    have hne : (UnpackedFloat.unpackExponent bits).toNat ≠ 255 :=
      fun heq => hnotfull (BitVec.eq_of_toNat_eq heq)
    have hbits : (UnpackedFloat.unpackExponent bits).toNat < 256 :=
      (UnpackedFloat.unpackExponent bits).isLt
    split at h
    · rename_i hempty
      have hzero : (UnpackedFloat.unpackExponent bits).toNat = 0 := congrArg BitVec.toNat hempty
      split at h
      · cases h
      · obtain ⟨-, -, rfl⟩ := UnpackedFloat.finite.inj h
        omega
    · obtain ⟨-, -, rfl⟩ := UnpackedFloat.finite.inj h
      omega

/-- The absolute value of a finite number is finite. -/
lemma kept_abs {x : Float32} (hx : x.isFinite = true) :
    FiniteWithSign .positive (kept x.toModel.unpack.abs) := by
  have hfinite : x.toModel.unpack.isFinite = true := hx
  cases hvalue : x.toModel.unpack with
  | notANumber => simp [hvalue, UnpackedFloat.isFinite] at hfinite
  | infinity s => simp [hvalue, UnpackedFloat.isFinite] at hfinite
  | zero s => exact Or.inl (kept_zero .positive)
  | finite s m e hm =>
    have hkept := kept_finite .positive m e hm
    rwa [if_neg (not_le.2 (exponent_lt hvalue))] at hkept

/-- Packing keeps values from falling below zero. -/
lemma notBelowZero_kept {u : UnpackedFloat} (h : NotBelowZero u) : NotBelowZero (kept u) := by
  cases u with
  | notANumber => exact h
  | infinity s => rw [kept_infinity]; exact h
  | zero s => rw [kept_zero]; trivial
  | finite s m e hm =>
    obtain rfl : s = .positive := h
    have hkept := kept_finite .positive m e hm
    split at hkept
    · rw [hkept]
      exact rfl
    · rcases hkept with hzero | ⟨_, _, _, hfinite⟩
      · rw [hzero]
        trivial
      · rw [hfinite]
        exact rfl

lemma notBelowZero_round (m : Nat) (e : Int) (accuracy : UnpackedFloat.Accuracy) :
    NotBelowZero (.roundWithAccuracy Format.binary32 .positive m e accuracy) := by
  unfold UnpackedFloat.roundWithAccuracy
  dsimp only
  split
  · trivial
  · rfl

lemma notBelowZero_normalize {m : Int} (hm : 0 ≤ m) (e : Int) (s : Sign) :
    NotBelowZero (.normalize Format.binary32 m e s) := by
  unfold UnpackedFloat.normalize
  split
  · rename_i hless
    exact absurd (Int.compare_eq_lt.1 hless) (by omega)
  · trivial
  · exact notBelowZero_round _ _ _

/-- Products of finite values that are not below zero are not below zero. -/
lemma notBelowZero_mul {u v : UnpackedFloat} (hu : NotBelowZero u) (hv : NotBelowZero v)
    (hufin : u.isFinite = true) (hvfin : v.isFinite = true) :
    NotBelowZero (.mul Format.binary32 u v) := by
  cases u <;> cases v <;> try contradiction
  case zero.zero | zero.finite | finite.zero => trivial
  case finite.finite =>
    obtain rfl : _ = Sign.positive := hu
    obtain rfl : _ = Sign.positive := hv
    exact notBelowZero_round _ _ _

/-- Sums of values that are not below zero are not below zero. -/
lemma notBelowZero_add {u v : UnpackedFloat} (hu : NotBelowZero u) (hv : NotBelowZero v) :
    NotBelowZero (.add Format.binary32 u v) := by
  cases u <;> cases v <;> try contradiction
  case infinity.zero | infinity.finite => exact hu
  case zero.infinity | finite.infinity | zero.finite => exact hv
  case finite.zero => exact hu
  case zero.zero s t =>
    show NotBelowZero (if s == t then _ else _)
    split <;> trivial
  case infinity.infinity =>
    obtain rfl : _ = Sign.positive := hu
    obtain rfl : _ = Sign.positive := hv
    exact rfl
  case finite.finite =>
    obtain rfl : _ = Sign.positive := hu
    obtain rfl : _ = Sign.positive := hv
    exact notBelowZero_normalize (Int.add_nonneg (Int.natCast_nonneg _) (Int.natCast_nonneg _)) _ _

/-! ## Floats -/

section Floats

variable {x y : Float32}

lemma le_iff : x ≤ y ↔ UnpackedFloat.le x.toModel.unpack y.toModel.unpack = true :=
  decide_eq_true_iff (p := x.toModel ≤ y.toModel)

lemma lt_iff : x < y ↔ UnpackedFloat.lt x.toModel.unpack y.toModel.unpack = true :=
  decide_eq_true_iff (p := x.toModel < y.toModel)

lemma unpack_zero : (0 : Float32).toModel.unpack = .zero .positive := rfl

lemma nonneg_iff : 0 ≤ x ↔ NotBelowZero x.toModel.unpack := by
  rw [le_iff, unpack_zero]
  cases x.toModel.unpack with
  | notANumber => exact ⟨Bool.noConfusion, False.elim⟩
  | zero s => exact ⟨fun _ => trivial, fun _ => rfl⟩
  | infinity s => cases s <;> simp [UnpackedFloat.le, UnpackedFloat.compare, NotBelowZero]
  | finite s => cases s <;> simp [UnpackedFloat.le, UnpackedFloat.compare, NotBelowZero]

/-- A finite number that is not negative is positive or one of the two zeros. -/
lemma pos_or_zero (hfinite : x.isFinite = true) (hx : 0 ≤ x) :
    (0 < x ∧ ∃ m e hm, x.toModel.unpack = .finite .positive m e hm) ∨
      (¬0 < x ∧ ∃ s, x.toModel.unpack = .zero s) := by
  have hfinite : x.toModel.unpack.isFinite = true := hfinite
  rw [nonneg_iff] at hx
  rw [lt_iff, unpack_zero]
  generalize x.toModel.unpack = u at *
  cases u with
  | zero s => exact Or.inr ⟨Bool.noConfusion, s, rfl⟩
  | finite s m e hm =>
    obtain rfl : s = .positive := hx
    exact Or.inl ⟨rfl, m, e, hm, rfl⟩
  | notANumber => exact hx.elim
  | infinity s => exact Bool.noConfusion hfinite

/-- Only an infinite bound is met by an infinite difference. -/
lemma infinity_le_iff (u : UnpackedFloat) :
    UnpackedFloat.le (.infinity .positive) u = true ↔ u = .infinity .positive := by
  cases u with
  | infinity s => cases s <;> simp [UnpackedFloat.le, UnpackedFloat.compare] <;> decide
  | notANumber => simp [UnpackedFloat.le, UnpackedFloat.compare]
  | zero s => simp [UnpackedFloat.le, UnpackedFloat.compare]
  | finite s => simp [UnpackedFloat.le, UnpackedFloat.compare]

lemma isInf_iff : x.isInf = true ↔ ∃ s, x.toModel.unpack = .infinity s := by
  show x.toModel.unpack.isInf = true ↔ _
  cases x.toModel.unpack <;> simp [UnpackedFloat.isInf]

lemma isNaN_iff : x.isNaN = true ↔ x.toModel.unpack = .notANumber :=
  UnpackedFloat.isNaN_iff

/-- A float is finite, infinite or no number. -/
lemma finite_or_infinite_or_nan (x : Float32) :
    x.isFinite = true ∧ x.isInf = false ∧ x.isNaN = false ∨
      x.isFinite = false ∧ x.isInf = true ∧ x.isNaN = false ∨
        x.isFinite = false ∧ x.isInf = false ∧ x.isNaN = true := by
  show x.toModel.unpack.isFinite = true ∧ x.toModel.unpack.isInf = false ∧
    x.toModel.unpack.isNaN = false ∨ x.toModel.unpack.isFinite = false ∧
      x.toModel.unpack.isInf = true ∧ x.toModel.unpack.isNaN = false ∨
        x.toModel.unpack.isFinite = false ∧ x.toModel.unpack.isInf = false ∧
          x.toModel.unpack.isNaN = true
  cases x.toModel.unpack <;> simp [UnpackedFloat.isFinite, UnpackedFloat.isInf, UnpackedFloat.isNaN]

/-- The bound that an expected element sets. -/
def Tolerance.bound (tol : Tolerance Float32) (expected : Float32) : Float32 :=
  tol.atol + tol.rtol * expected.abs

lemma unpack_bound (tol : Tolerance Float32) (e : Float32) : (tol.bound e).toModel.unpack =
    kept (.add Format.binary32 tol.atol.toModel.unpack
      (kept (.mul Format.binary32 tol.rtol.toModel.unpack (kept e.toModel.unpack.abs)))) := rfl

/-- The distance of two floats, unpacked. -/
def distance (a e : Float32) : UnpackedFloat :=
  kept (kept (.sub Format.binary32 a.toModel.unpack e.toModel.unpack)).abs

lemma isClose_iff (tol : Tolerance Float32) (a e : Float32) : tol.isClose a e = true ↔
    UnpackedFloat.le (distance a e) (tol.bound e).toModel.unpack = true := by
  rw [Tolerance.isClose, decide_eq_true_iff]
  exact le_iff

end Floats

/-! ## What a comparison lets pass -/

/-- A tolerance of finite numbers that are not negative. -/
structure Tolerance.Usable (tol : Tolerance Float32) : Prop where
  rtol_finite : tol.rtol.isFinite = true
  rtol_nonneg : 0 ≤ tol.rtol
  atol_finite : tol.atol.isFinite = true
  atol_nonneg : 0 ≤ tol.atol

/-- The pairs of an expected and an actual element that a comparison lets pass. -/
inductive Admits (tol : Tolerance Float32) (expected actual : Float32) : Prop
  /-- Both are finite, and they are close. -/
  | close (expected_finite : expected.isFinite = true) (actual_finite : actual.isFinite = true)
      (isClose : tol.isClose actual expected = true)
  /-- The expected one is infinite, and so is its share in the bound; the actual one is any other
  number. -/
  | infinite (expected_infinite : expected.isInf = true) (rtol_pos : 0 < tol.rtol)
      (actual_number : actual.isNaN = false) (ne : (actual == expected) = false)
  /-- The expected one is finite, but its share in the bound overflows; the actual one is
  infinite. -/
  | overflow (expected_finite : expected.isFinite = true)
      (bound_infinite : (tol.bound expected).isInf = true) (actual_infinite : actual.isInf = true)

variable {tol : Tolerance Float32} {e a : Float32}

/-- The bound of a finite element is not below zero. -/
lemma notBelowZero_bound (htol : tol.Usable) (he : e.isFinite = true) :
    NotBelowZero (tol.bound e).toModel.unpack := by
  have habs : NotBelowZero (kept e.toModel.unpack.abs) ∧
      (kept e.toModel.unpack.abs).isFinite = true := by
    rcases kept_abs he with hzero | ⟨_, _, _, hfinite⟩
    · rw [hzero]
      exact ⟨trivial, rfl⟩
    · rw [hfinite]
      exact ⟨rfl, rfl⟩
  have hshare := notBelowZero_mul (nonneg_iff.1 htol.rtol_nonneg) habs.1 htol.rtol_finite habs.2
  rw [unpack_bound]
  exact notBelowZero_kept
    (notBelowZero_add (nonneg_iff.1 htol.atol_nonneg) (notBelowZero_kept hshare))

/-- The bound of an infinite element is infinite, unless the relative tolerance is zero; then it is
no number. -/
lemma bound_of_infinite (htol : tol.Usable) (he : e.isInf = true) :
    0 < tol.rtol ∧ (tol.bound e).toModel.unpack = .infinity .positive ∨
      ¬0 < tol.rtol ∧ (tol.bound e).toModel.unpack = .notANumber := by
  have habs : kept e.toModel.unpack.abs = .infinity .positive := by
    have hinf : e.toModel.unpack.isInf = true := he
    cases hvalue : e.toModel.unpack with
    | infinity s => exact kept_infinity .positive
    | _ => simp [hvalue, UnpackedFloat.isInf] at hinf
  have hatol : tol.atol.toModel.unpack.isFinite = true := htol.atol_finite
  rw [unpack_bound, habs]
  rcases pos_or_zero htol.rtol_finite htol.rtol_nonneg with
    ⟨hpos, m, e, hm, hrtol⟩ | ⟨hzero, s, hrtol⟩
  · refine Or.inl ⟨hpos, ?_⟩
    have hshare : UnpackedFloat.mul Format.binary32 (.finite .positive m e hm)
        (.infinity .positive) = .infinity .positive := rfl
    rw [hrtol, hshare, kept_infinity]
    cases hvalue : tol.atol.toModel.unpack with
    | zero | finite => exact kept_infinity .positive
    | notANumber | infinity => simp [hvalue, UnpackedFloat.isFinite] at hatol
  · refine Or.inr ⟨hzero, ?_⟩
    have hshare : UnpackedFloat.mul Format.binary32 (.zero s) (.infinity .positive) =
        .notANumber := rfl
    rw [hrtol, hshare, kept_notANumber, add_notANumber, kept_notANumber]

/-- What is no number is close to nothing. -/
lemma isClose_of_nan (tol : Tolerance Float32) (h : a.isNaN = true ∨ e.isNaN = true) :
    ¬tol.isClose a e = true := by
  have hdistance : distance a e = .notANumber := by
    rw [isNaN_iff, isNaN_iff] at h
    rcases h with ha | he
    · rw [distance, ha, notANumber_sub]
      rfl
    · rw [distance, he, sub_notANumber]
      rfl
  rw [isClose_iff, hdistance]
  exact Bool.noConfusion

/-- An infinite float keeps to the bound of a finite one if this bound has overflowed. -/
lemma isClose_of_finite (htol : tol.Usable) (he : e.isFinite = true) (ha : a.isInf = true) :
    tol.isClose a e = true ↔ (tol.bound e).isInf = true := by
  have hdistance : distance a e = .infinity .positive := by
    obtain ⟨s, hs⟩ := isInf_iff.1 ha
    have he : e.toModel.unpack.isFinite = true := he
    rw [distance, hs, infinity_sub he, kept_infinity, UnpackedFloat.abs, kept_infinity]
  have hbound := notBelowZero_bound htol he
  rw [isClose_iff, hdistance, infinity_le_iff, isInf_iff]
  constructor
  · exact fun h => ⟨_, h⟩
  · rintro ⟨s, hs⟩
    rw [hs] at hbound
    obtain rfl : s = .positive := hbound
    exact hs

/-- Any other number keeps to the bound of an infinite float, unless there is no such bound. -/
lemma isClose_of_infinite (htol : tol.Usable) (he : e.isInf = true) :
    tol.isClose a e = true ↔ 0 < tol.rtol ∧ a.isNaN = false ∧ (a == e) = false := by
  obtain ⟨s, hs⟩ := isInf_iff.1 he
  have hnan : a.isNaN = a.toModel.unpack.isNaN := rfl
  have hbeq : (a == e) = a.toModel.unpack.beq e.toModel.unpack := rfl
  rw [isClose_iff, distance, hnan, hbeq, hs]
  rcases sub_infinity a.toModel.unpack s with ⟨hnumber, hne, t, hsub⟩ | ⟨hsame, hsub⟩
  · rw [hsub, kept_infinity, UnpackedFloat.abs, kept_infinity, infinity_le_iff]
    rcases bound_of_infinite htol he with ⟨hpos, hbound⟩ | ⟨hzero, hbound⟩
    · exact iff_of_true hbound ⟨hpos, hnumber, hne⟩
    · refine iff_of_false (fun h => ?_) fun h => hzero h.1
      rw [hbound] at h
      cases h
  · rw [hsub, kept_notANumber, UnpackedFloat.abs, kept_notANumber]
    exact iff_of_false Bool.noConfusion fun h => hsame h.2

/-- **A pair passes exactly if it is admitted.** -/
theorem isClose_iff_admits (htol : tol.Usable) : tol.isClose a e = true ↔ Admits tol e a := by
  rcases finite_or_infinite_or_nan e with ⟨hefin, heinf, henan⟩ | ⟨hefin, heinf, henan⟩ |
    ⟨hefin, heinf, henan⟩
  · rcases finite_or_infinite_or_nan a with ⟨hafin, hainf, hanan⟩ | ⟨hafin, hainf, hanan⟩ |
      ⟨hafin, hainf, hanan⟩
    · exact ⟨.close hefin hafin, fun h => by cases h <;> simp_all⟩
    · rw [isClose_of_finite htol hefin hainf]
      exact ⟨fun h => .overflow hefin h hainf, fun h => by cases h <;> simp_all⟩
    · exact iff_of_false (isClose_of_nan tol (Or.inl hanan)) fun h => by cases h <;> simp_all
  · rw [isClose_of_infinite htol heinf]
    exact ⟨fun ⟨hpos, hnumber, hne⟩ => .infinite heinf hpos hnumber hne,
      fun h => by cases h <;> simp_all⟩
  · exact iff_of_false (isClose_of_nan tol (Or.inr henan)) fun h => by cases h <;> simp_all

lemma isNaN_of_number {x : Float32} (h : x.isFinite = true ∨ x.isInf = true) :
    x.isNaN = false := by
  rcases finite_or_infinite_or_nan x with ⟨-, -, hx⟩ | ⟨-, -, hx⟩ | ⟨hfin, hinf, -⟩
  · exact hx
  · exact hx
  · rw [hfin, hinf] at h
    exact (h.elim Bool.noConfusion Bool.noConfusion)

/-- Whatever is admitted is a number. -/
lemma Admits.isNaN_eq_false (h : Admits tol e a) : e.isNaN = false ∧ a.isNaN = false := by
  cases h with
  | close he ha _ => exact ⟨isNaN_of_number (Or.inl he), isNaN_of_number (Or.inl ha)⟩
  | infinite he _ ha _ => exact ⟨isNaN_of_number (Or.inr he), ha⟩
  | overflow he _ ha => exact ⟨isNaN_of_number (Or.inl he), isNaN_of_number (Or.inr ha)⟩

variable {expected actual : Tensor Float32}

/-- **A comparison finds no difference exactly if all pairs of elements are admitted.**  It lets an
infinite expected element pass for every other number, unless the relative tolerance is zero, and
an infinite actual element for a finite one whose bound overflows. -/
theorem compare_eq_none_iff_admits (htol : tol.Usable) (hshape : expected.shape = actual.shape) :
    compare tol expected actual = none ↔ ∀ idx, expected.shape.Holds idx →
      Admits tol (expected.get idx) (actual.get idx) := by
  rw [compare_eq_none_iff]
  constructor
  · rintro ⟨-, hclose⟩ idx hidx
    have hpair := hclose _ (Tensor.mem_zip_of_holds hshape hidx)
    exact (isClose_iff_admits htol).1 hpair
  · intro hadmits
    refine ⟨hshape, fun p hp => ?_⟩
    obtain ⟨idx, hidx, rfl⟩ := Tensor.exists_index_of_mem_zip hshape hp
    exact (isClose_iff_admits htol).2 (hadmits idx hidx)

lemma standard_usable : Tolerance.standard.Usable :=
  ⟨by decide +kernel, by decide +kernel, by decide +kernel, by decide +kernel⟩

/-- With the standard tolerance zero passes for an infinite element. -/
theorem standard_infinite_for_zero :
    compare Tolerance.standard (.fill [1] (1 / 0)) (.fill [1] 0) = none ∧
      (1 / 0 : Float32).isInf = true ∧ (0 : Float32).isFinite = true :=
  ⟨Option.isNone_iff_eq_none.1 (by decide +kernel), by decide +kernel, by decide +kernel⟩

/-- The standard tolerance admits zero for an infinite element. -/
theorem standard_admits : Tolerance.standard.Usable ∧ Admits Tolerance.standard (1 / 0) 0 := by
  have hnone : compare Tolerance.standard (.fill [1] (1 / 0)) (.fill [1] 0) = none :=
    Option.isNone_iff_eq_none.1 (by decide +kernel)
  have hshape : (Tensor.fill [1] (1 / 0 : Float32)).shape = (Tensor.fill [1] (0 : Float32)).shape :=
    rfl
  have hadmits := (compare_eq_none_iff_admits standard_usable hshape).1 hnone
  exact ⟨standard_usable, hadmits [0] ⟨Nat.one_pos, trivial⟩⟩

end Comparison

end ConvFlow
