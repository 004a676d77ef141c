/-
# Exact arithmetic of elements

Floats round after every operation, so the order of a sum matters and a product does not
distribute over it.  `Element.IsExact` collects the laws that hold without rounding; the rational
numbers satisfy them.  Under these laws the sums of this library may be rearranged: a factor may
be taken out of a sum, sums may be added term by term, and a sum in eight lanes is the plain sum.

`Element.EqualsItself` is the one law of comparisons that floats satisfy as well: a number is equal
to itself.
-/
import Mathlib.Tactic.Common
import ConvFlow.Conv.KernelSum

namespace ConvFlow.Element

/-- The laws of arithmetic without rounding. -/
class IsExact (α : Type) [Element α] : Prop where
  add_assoc (a b c : α) : a + b + c = a + (b + c)
  add_comm (a b : α) : a + b = b + a
  zero_add (a : α) : 0 + a = a
  mul_assoc (a b c : α) : a * b * c = a * (b * c)
  mul_comm (a b : α) : a * b = b * a
  add_mul (a b c : α) : (a + b) * c = a * c + b * c
  zero_mul (a : α) : 0 * a = 0
  negZero_eq : (negZero : α) = 0

instance : IsExact Rat where
  add_assoc := Rat.add_assoc
  add_comm := Rat.add_comm
  zero_add := Rat.zero_add
  mul_assoc := Rat.mul_assoc
  mul_comm := Rat.mul_comm
  add_mul := Rat.add_mul
  zero_mul := Rat.zero_mul
  negZero_eq := rfl

/-- A number is equal to itself; only what is no number may differ from itself. -/
class EqualsItself (α : Type) [Element α] : Prop where
  beq_self {a : α} (h : isNaN a = false) : (a == a) = true

instance : EqualsItself Rat := ⟨fun _ => beq_self_eq_true _⟩

open Float.Model in
instance : EqualsItself Float32 where
  beq_self {a} h := by
    have hnumber : a.toModel.unpack.isNaN = false := h
    show a.toModel.unpack.beq a.toModel.unpack = true
    generalize a.toModel.unpack = u at hnumber ⊢
    cases u with
    | notANumber => exact Bool.noConfusion hnumber
    | infinity s | zero s => cases s <;> rfl
    | finite s m e hm =>
      have hsame : (compare e e).then (compare m m) = .eq := by simp
      cases s with
      | negative =>
        show (some ((compare e e).then (compare m m)).swap == some .eq) = true
        rw [hsame]
        rfl
      | positive =>
        show (some ((compare e e).then (compare m m)) == some .eq) = true
        rw [hsame]
        rfl

section Exact

variable {α ι : Type} [Element α] [IsExact α]

instance : @Std.Associative α (· + ·) := ⟨IsExact.add_assoc⟩

instance : @Std.Commutative α (· + ·) := ⟨IsExact.add_comm⟩

lemma add_zero (a : α) : a + 0 = a := by
  rw [IsExact.add_comm, IsExact.zero_add]

lemma add_right_comm (a b c : α) : a + b + c = a + c + b := by
  ac_rfl

/-! ## Sums of lists -/

lemma sumFrom_eq (a : α) (l : List α) : sumFrom a l = a + sumFrom 0 l := by
  induction l generalizing a with
  | nil => exact (add_zero a).symm
  | cons b l ih =>
    have hstep (c : α) : sumFrom c (b :: l) = sumFrom (c + b) l := rfl
    rw [hstep, hstep, ih (a + b), ih (0 + b), IsExact.zero_add, IsExact.add_assoc]

lemma sum_cons (a : α) (l : List α) : sumFrom 0 (a :: l) = a + sumFrom 0 l := by
  have hstep : sumFrom 0 (a :: l) = sumFrom (0 + a) l := rfl
  rw [hstep, sumFrom_eq, IsExact.zero_add]

lemma sum_append (l₁ l₂ : List α) : sumFrom 0 (l₁ ++ l₂) = sumFrom 0 l₁ + sumFrom 0 l₂ := by
  induction l₁ with
  | nil => exact (IsExact.zero_add _).symm
  | cons a l₁ ih => rw [List.cons_append, sum_cons, sum_cons, ih, IsExact.add_assoc]

lemma sum_map_mul (f : ι → α) (c : α) (l : List ι) :
    sumFrom 0 (l.map fun i => f i * c) = sumFrom 0 (l.map f) * c := by
  induction l with
  | nil => exact (IsExact.zero_mul c).symm
  | cons i l ih => rw [List.map_cons, List.map_cons, sum_cons, sum_cons, ih, IsExact.add_mul]

lemma sum_mul (l : List α) (c : α) : sumFrom 0 (l.map (· * c)) = sumFrom 0 l * c := by
  rw [sum_map_mul (fun a => a) c l, List.map_id']

lemma sum_map_add (f g : ι → α) (l : List ι) :
    sumFrom 0 (l.map fun i => f i + g i) = sumFrom 0 (l.map f) + sumFrom 0 (l.map g) := by
  induction l with
  | nil => exact (IsExact.zero_add 0).symm
  | cons i l ih =>
    simp only [List.map_cons, sum_cons, ih]
    ac_rfl

lemma sum_flatMap (f : ι → List α) (l : List ι) :
    sumFrom 0 (l.flatMap f) = sumFrom 0 (l.map fun i => sumFrom 0 (f i)) := by
  induction l with
  | nil => rfl
  | cons i l ih => rw [List.flatMap_cons, List.map_cons, sum_append, sum_cons, ih]

/-- To skip a term is to add zero. -/
lemma sum_filterMap {κ : Type} (f : ι → Option κ) (g : κ → α) (l : List ι) :
    sumFrom 0 ((l.filterMap f).map g) = sumFrom 0 (l.map fun i => (f i).elim 0 g) := by
  induction l with
  | nil => rfl
  | cons i l ih =>
    rw [List.map_cons, sum_cons, ← ih]
    cases hi : f i with
    | none => rw [List.filterMap_cons_none hi, Option.elim_none, IsExact.zero_add]
    | some k => rw [List.filterMap_cons_some hi, List.map_cons, sum_cons, Option.elim_some]

/-- The lanes together hold the plain sum. -/
lemma sum_lanes (lanes : Conv.Lanes α) (l : List α) :
    lanes.sum l = lanes.total + sumFrom 0 l := by
  fun_induction Conv.Lanes.sum lanes l with
  | case1 lanes x0 x1 x2 x3 x4 x5 x6 x7 rest ih =>
    rw [ih]
    simp only [Conv.Lanes.total, sum_cons]
    ac_rfl
  | case2 lanes rest => rw [sumFrom_eq]

/-- Summing in eight lanes gives the plain sum. -/
theorem laneSum_eq (l : List α) : Conv.laneSum l = sumFrom 0 l := by
  rw [Conv.laneSum, sum_lanes]
  simp only [Conv.Lanes.total, Conv.Lanes.zero, IsExact.zero_add]

end Exact

end ConvFlow.Element
