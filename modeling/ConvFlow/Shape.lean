/-
# Shapes

A shape lists the extents of a tensor from the outermost axis to the innermost.  Elements are
stored in row-major order, so an index (one coordinate per axis) and a position in storage
determine each other: `ravel` and `unravel` convert between them and are inverse on indices that
lie within the shape.

`broadcast` is the rule by which element-wise operations join two shapes: axes are aligned from
the innermost one outwards, an extent of one stretches to any other, and missing axes count as
extent one.
-/

namespace ConvFlow

/-- The extents of a tensor, outermost axis first. -/
abbrev Shape := List Nat

namespace Shape

/-- The number of elements of a tensor of this shape; the empty shape holds one value. -/
def size : Shape → Nat
  | [] => 1
  | d :: ds => d * size ds

/-- The index has one coordinate for every axis, and each lies below the extent of its axis. -/
def Holds : Shape → List Nat → Prop
  | [], [] => True
  | d :: ds, i :: is => i < d ∧ Holds ds is
  | _, _ => False

/-- The row-major position of an index. -/
def ravel : Shape → List Nat → Nat
  | _ :: ds, i :: is => i * size ds + ravel ds is
  | _, _ => 0

/-- The index at a row-major position. -/
def unravel : Shape → Nat → List Nat
  | [], _ => []
  | _ :: ds, k => k / size ds :: unravel ds (k % size ds)

/-- An index within the shape has a position below its size. -/
theorem ravel_lt_size {s : Shape} {idx : List Nat} (h : s.Holds idx) : ravel s idx < s.size := by
  induction s generalizing idx with
  | nil => simp [ravel, size]
  | cons d ds ih =>
    cases idx with
    | nil => exact h.elim
    | cons i is =>
      have hrec := ih h.2
      have hmul : (i + 1) * size ds ≤ d * size ds := Nat.mul_le_mul_right _ h.1
      have hexp : (i + 1) * size ds = i * size ds + size ds := Nat.succ_mul i (size ds)
      simp only [ravel, size]
      omega

/-- Every position below the size belongs to an index within the shape. -/
theorem holds_unravel {s : Shape} {k : Nat} (h : k < s.size) : s.Holds (unravel s k) := by
  induction s generalizing k with
  | nil => trivial
  | cons d ds ih =>
    have hpos : 0 < size ds := by
      rcases Nat.eq_zero_or_pos (size ds) with h0 | h0
      · simp [size, h0] at h
      · exact h0
    exact ⟨(Nat.div_lt_iff_lt_mul hpos).2 h, ih (Nat.mod_lt _ hpos)⟩

/-- Going from an index to its position and back returns the index. -/
theorem unravel_ravel {s : Shape} {idx : List Nat} (h : s.Holds idx) :
    unravel s (ravel s idx) = idx := by
  induction s generalizing idx with
  | nil =>
    cases idx with
    | nil => rfl
    | cons i is => exact h.elim
  | cons d ds ih =>
    cases idx with
    | nil => exact h.elim
    | cons i is =>
      have hlt := ravel_lt_size h.2
      have hpos : 0 < size ds := by omega
      simp only [ravel, unravel, Nat.mul_comm i (size ds)]
      rw [Nat.mul_add_div hpos, Nat.div_eq_of_lt hlt, Nat.mul_add_mod, Nat.mod_eq_of_lt hlt,
        ih h.2, Nat.add_zero]

/-- Going from a position to its index and back returns the position. -/
theorem ravel_unravel {s : Shape} {k : Nat} (h : k < s.size) : ravel s (unravel s k) = k := by
  induction s generalizing k with
  | nil => simp only [size] at h; simp [ravel]; omega
  | cons d ds ih =>
    have hpos : 0 < size ds := by
      rcases Nat.eq_zero_or_pos (size ds) with h0 | h0
      · simp [size, h0] at h
      · exact h0
    simp only [ravel, unravel, ih (Nat.mod_lt k hpos)]
    exact Nat.div_add_mod' k (size ds)

/-! ## Broadcasting -/

/-- Join two lists of extents, innermost axis first. -/
def joinInner : List Nat → List Nat → Option (List Nat)
  | [], bs => some bs
  | as, [] => some as
  | a :: as, b :: bs =>
    if a = b ∨ b = 1 then (joinInner as bs).map (a :: ·)
    else if a = 1 then (joinInner as bs).map (b :: ·)
    else none

/-- The shape of an element-wise operation on tensors of shapes `a` and `b`, if there is one. -/
def broadcast (a b : Shape) : Option Shape :=
  (joinInner a.reverse b.reverse).map List.reverse

/-- The index at which a tensor of shape `s` is read when the result of an element-wise
operation is computed at `idx`: outer axes that `s` lacks are dropped, and an axis of extent one
is read at its only coordinate. -/
def align (s : Shape) (idx : List Nat) : List Nat :=
  List.zipWith (fun d i => if d = 1 then 0 else i) s (idx.drop (idx.length - s.length))

end Shape

end ConvFlow
