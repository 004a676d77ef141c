/-
# Joining shapes

What `Shape.broadcast` and `Shape.align` promise to element-wise operations: joining is
symmetric, the joined shape has the rank of the longer operand, an index of the joined shape is
aligned to an index of each operand, and it is aligned to itself in a tensor of the joined shape.
-/
import Mathlib.Data.List.Forall2
import Mathlib.Tactic.Common
import ConvFlow.Shape

namespace ConvFlow.Shape

variable {a b c s : Shape} {idx : List Nat}

lemma holds_iff_forall₂ : s.Holds idx ↔ List.Forall₂ (fun d i => i < d) s idx := by
  induction s generalizing idx with
  | nil => cases idx <;> simp [Holds]
  | cons d ds ih => cases idx <;> simp [Holds, ih]

/-- An index of a shape with four axes. -/
lemma exists_of_holds_four {d₀ d₁ d₂ d₃ : Nat} (h : Holds [d₀, d₁, d₂, d₃] idx) :
    ∃ i j k l, idx = [i, j, k, l] ∧ i < d₀ ∧ j < d₁ ∧ k < d₂ ∧ l < d₃ := by
  match idx, h with
  | [i, j, k, l], ⟨hi, hj, hk, hl, _⟩ => exact ⟨i, j, k, l, rfl, hi, hj, hk, hl⟩

lemma holds_four {d₀ d₁ d₂ d₃ i j k l : Nat} :
    Holds [d₀, d₁, d₂, d₃] [i, j, k, l] ↔ i < d₀ ∧ j < d₁ ∧ k < d₂ ∧ l < d₃ := by
  simp [Holds]

lemma size_eq_one_iff : s.size = 1 ↔ ∀ d ∈ s, d = 1 := by
  induction s with
  | nil => simp [size]
  | cons d ds ih =>
    rw [size, List.forall_mem_cons, ← ih]
    constructor
    · exact fun h => ⟨Nat.eq_one_of_mul_eq_one_right h, Nat.eq_one_of_mul_eq_one_left h⟩
    · rintro ⟨hd, hds⟩
      rw [hd, hds]

/-! ## The rank and the symmetry of joined shapes -/

lemma joinInner_comm (a b : List Nat) : joinInner a b = joinInner b a := by
  induction a generalizing b with
  | nil => cases b <;> simp [joinInner]
  | cons x xs ih =>
    cases b with
    | nil => simp [joinInner]
    | cons y ys =>
      rw [joinInner, joinInner, ih ys]
      by_cases hxy : x = y
      · subst hxy
        simp
      · by_cases hx : x = 1
        · subst hx
          by_cases hy : y = 1
          · exact absurd hy.symm hxy
          · simp [hxy, hy]
        · simp [hxy, hx, Ne.symm hxy]

theorem broadcast_comm (a b : Shape) : a.broadcast b = b.broadcast a := by
  rw [broadcast, broadcast, joinInner_comm]

lemma length_joinInner {a b c : List Nat} (h : joinInner a b = some c) :
    c.length = max a.length b.length := by
  induction a generalizing b c with
  | nil =>
    obtain rfl : b = c := by simpa [joinInner] using h
    simp
  | cons x xs ih =>
    cases b with
    | nil =>
      obtain rfl : x :: xs = c := by simpa [joinInner] using h
      simp
    | cons y ys =>
      have hcons {z : Nat} (hz : (joinInner xs ys).map (z :: ·) = some c) :
          c.length = max (x :: xs).length (y :: ys).length := by
        obtain ⟨zs, hzs, rfl⟩ := Option.map_eq_some_iff.1 hz
        simp [ih hzs]
      rw [joinInner] at h
      split at h
      · exact hcons h
      · split at h
        · exact hcons h
        · simp at h

lemma length_broadcast (h : a.broadcast b = some s) : s.length = max a.length b.length := by
  obtain ⟨c, hc, rfl⟩ := Option.map_eq_some_iff.1 h
  simpa using length_joinInner hc

lemma joinInner_ones {a b : List Nat} (hones : ∀ d ∈ b, d = 1) (hlen : b.length ≤ a.length) :
    joinInner a b = some a := by
  induction a generalizing b with
  | nil =>
    obtain rfl : b = [] := by simpa using hlen
    rfl
  | cons x xs ih =>
    cases b with
    | nil => rfl
    | cons y ys =>
      rw [joinInner, if_pos (Or.inr (hones y (by simp))),
        ih (fun d hd => hones d (by simp [hd])) (by simpa using hlen), Option.map_some]

/-- A single value of no higher rank leaves every shape as it is. -/
lemma broadcast_of_size_eq_one (hone : b.size = 1) (hlen : b.length ≤ a.length) :
    a.broadcast b = some a := by
  rw [size_eq_one_iff] at hone
  rw [broadcast, joinInner_ones (by simpa using hone) (by simpa using hlen)]
  simp

/-- One value for each channel leaves the shape of an image with these channels as it is. -/
lemma broadcast_channels (batch channels rows cols : Nat) :
    broadcast [batch, channels, rows, cols] [1, channels, 1, 1] =
      some [batch, channels, rows, cols] := by
  simp [broadcast, joinInner]

/-- One value for each of so many channels leaves the shape of an image as it is only if it has
these channels, or if there is a single value. -/
lemma eq_of_broadcast_channels {batch channels rows cols count : Nat}
    (h : broadcast [batch, channels, rows, cols] [1, count, 1, 1] =
      some [batch, channels, rows, cols]) : count = 1 ∨ count = channels := by
  by_contra hne
  rw [not_or] at hne
  simp [broadcast, joinInner, hne.1, Ne.symm hne.2] at h
  omega

/-! ## Aligned indices -/

/-- Aligning an index to a shape, seen from the innermost axis. -/
lemma reverse_align (hlen : s.length ≤ idx.length) : (s.align idx).reverse =
    List.zipWith (fun d i => if d = 1 then 0 else i) s.reverse (idx.reverse.take s.length) := by
  rw [align, List.reverse_zipWith (by simp; omega), List.reverse_drop]
  congr 2
  omega

lemma forall₂_of_joinInner {a b c is : List Nat} (h : joinInner a b = some c)
    (his : List.Forall₂ (fun d i => i < d) c is) : List.Forall₂ (fun d i => i < d) a
      (List.zipWith (fun d i => if d = 1 then 0 else i) a (is.take a.length)) := by
  induction a generalizing b c is with
  | nil => simp
  | cons x xs ih =>
    have hpick {z i : Nat} (hz : z = x ∨ x = 1) (hi : i < z) : (if x = 1 then 0 else i) < x := by
      split <;> omega
    cases b with
    | nil =>
      obtain rfl : x :: xs = c := by simpa [joinInner] using h
      obtain ⟨i, is, hi, hrest, rfl⟩ := List.forall₂_cons_left_iff.1 his
      have hnil : joinInner xs [] = some xs := by cases xs <;> rfl
      exact List.Forall₂.cons (hpick (Or.inl rfl) hi) (ih hnil hrest)
    | cons y ys =>
      have hcons {z : Nat} (hz : z = x ∨ x = 1) (hc : (joinInner xs ys).map (z :: ·) = some c) :
          List.Forall₂ (fun d i => i < d) (x :: xs)
            (List.zipWith (fun d i => if d = 1 then 0 else i) (x :: xs)
              (is.take (x :: xs).length)) := by
        obtain ⟨zs, hzs, rfl⟩ := Option.map_eq_some_iff.1 hc
        obtain ⟨i, is, hi, hrest, rfl⟩ := List.forall₂_cons_left_iff.1 his
        exact List.Forall₂.cons (hpick hz hi) (ih hzs hrest)
      rw [joinInner] at h
      split at h
      · exact hcons (Or.inl rfl) h
      · split at h
        · exact hcons (Or.inr ‹_›) h
        · simp at h

/-- An index of the joined shape is aligned to an index of the first operand. -/
lemma holds_align_left (h : a.broadcast b = some s) (hidx : s.Holds idx) :
    a.Holds (a.align idx) := by
  have hlen := length_broadcast h
  obtain ⟨c, hc, rfl⟩ := Option.map_eq_some_iff.1 h
  rw [holds_iff_forall₂] at hidx ⊢
  have hle : a.length ≤ idx.length := by
    rw [← hidx.length_eq, hlen]
    exact Nat.le_max_left _ _
  -- Axes are aligned from the innermost one outwards, so the lists are compared in reverse.
  rw [← List.forall₂_reverse_iff, reverse_align hle, ← List.length_reverse]
  refine forall₂_of_joinInner hc ?_
  rw [← List.forall₂_reverse_iff, List.reverse_reverse]
  exact hidx

/-- An index of the joined shape is aligned to an index of the second operand. -/
lemma holds_align_right (h : a.broadcast b = some s) (hidx : s.Holds idx) :
    b.Holds (b.align idx) :=
  holds_align_left (broadcast_comm a b ▸ h) hidx

/-- Within its own shape an index is aligned to itself. -/
lemma align_self (h : s.Holds idx) : s.align idx = idx := by
  rw [holds_iff_forall₂] at h
  rw [align, h.length_eq, Nat.sub_self, List.drop_zero]
  induction h with
  | nil => rfl
  | cons hi _ ih =>
    rw [List.zipWith_cons_cons, ih]
    split
    · congr 1
      omega
    · rfl

/-- Over an image, one value for each channel is read at the channel. -/
lemma align_channels {channels n ch y x : Nat} (hch : ch < channels) :
    align [1, channels, 1, 1] [n, ch, y, x] = [0, ch, 0, 0] := by
  by_cases hone : channels = 1
  · simp [align, hone]
    omega
  · simp [align, hone]

/-- In a tensor with a single element every index is aligned to that element. -/
lemma ravel_align_of_size_eq_one (hone : s.size = 1) (idx : List Nat) :
    s.ravel (s.align idx) = 0 := by
  rw [size_eq_one_iff] at hone
  rw [align]
  generalize idx.drop (idx.length - s.length) = is
  induction s generalizing is with
  | nil => rfl
  | cons d ds ih =>
    cases is with
    | nil => rfl
    | cons i is =>
      rw [List.zipWith_cons_cons, if_pos (hone d (by simp)), ravel, Nat.zero_mul,
        ih (fun e he => hone e (by simp [he])) is]

end ConvFlow.Shape
