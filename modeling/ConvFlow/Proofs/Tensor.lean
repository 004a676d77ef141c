/-
# Tensors read element by element

Tensors built from functions agree if the functions agree on the indices of the shape, every tensor
is built from its elements (`ofFn_get`), and an element-wise operation has a result exactly if the
shapes of its operands can be joined.  The last section says what the two kinds of constants that
stretch over an image contribute: a single value, and one value for each channel.
-/
import ConvFlow.Proofs.Shape
import ConvFlow.Tensor

namespace ConvFlow.Tensor

variable {α β γ : Type} {s : Shape}

lemma ofFn_congr {f g : List Nat → α} (h : ∀ idx, s.Holds idx → f idx = g idx) :
    ofFn s f = ofFn s g := by
  have hdata : (Array.ofFn fun k : Fin s.size => f (s.unravel k)) =
      Array.ofFn fun k : Fin s.size => g (s.unravel k) := by
    congr 1
    funext k
    exact h _ (Shape.holds_unravel k.isLt)
  simp only [ofFn, hdata]

lemma ext {a b : Tensor α} (hshape : a.shape = b.shape) (hdata : a.data = b.data) : a = b := by
  obtain ⟨shape, data, hsize⟩ := a
  cases hshape
  cases hdata
  rfl

/-- A tensor is built from its elements. -/
lemma ofFn_get [Zero α] (t : Tensor α) : ofFn t.shape t.get = t := by
  refine ext rfl (Array.ext ((ofFn _ _).size_data.trans t.size_data.symm) fun k hk hk' => ?_)
  have hlt : k < t.shape.size := t.size_data ▸ hk'
  simp [ofFn, get, Shape.ravel_unravel hlt, hk']

lemma getD_data [Zero α] {t : Tensor α} {count : Nat} (h : t.shape = [count]) (k : Nat) :
    t.data.getD k 0 = t.get [k] := by
  simp [get, h, Shape.ravel, Shape.size]

/-! ## Element-wise operations -/

variable [Zero α] [Zero β]

lemma zipBroadcast_eq_some_iff {op : α → β → γ} {a : Tensor α} {b : Tensor β} {t : Tensor γ} :
    zipBroadcast op a b = some t ↔ ∃ s, a.shape.broadcast b.shape = some s ∧
      t = ofFn s fun idx => op (a.get (a.shape.align idx)) (b.get (b.shape.align idx)) := by
  rw [zipBroadcast, Option.map_eq_some_iff]
  simp only [eq_comm]

lemma shape_zipBroadcast {op : α → β → γ} {a : Tensor α} {b : Tensor β} {t : Tensor γ}
    (h : zipBroadcast op a b = some t) : a.shape.broadcast b.shape = some t.shape := by
  obtain ⟨s, hs, rfl⟩ := zipBroadcast_eq_some_iff.1 h
  exact hs

/-- An operation that keeps the shape of its first operand reads it at the index of the result. -/
lemma get_zipBroadcast [Zero γ] {op : α → β → γ} {a : Tensor α} {b : Tensor β} {t : Tensor γ}
    (h : zipBroadcast op a b = some t) (hshape : t.shape = a.shape) {idx : List Nat}
    (hidx : t.shape.Holds idx) : t.get idx = op (a.get idx) (b.get (b.shape.align idx)) := by
  obtain ⟨s, hs, rfl⟩ := zipBroadcast_eq_some_iff.1 h
  rw [shape_ofFn] at hshape hidx
  rw [get_ofFn hidx, ← hshape, Shape.align_self hidx]

omit [Zero β] in
/-- The operands of a symmetric operation may be exchanged. -/
lemma zipBroadcast_comm {op : α → α → γ} (hop : ∀ x y, op x y = op y x) (a b : Tensor α) :
    zipBroadcast op a b = zipBroadcast op b a := by
  rw [zipBroadcast, zipBroadcast, Shape.broadcast_comm]
  congr 1
  funext s
  exact ofFn_congr fun idx _ => hop _ _

/-! ## Constants that stretch over an image -/

omit [Zero β] in
lemma get_align_of_size_eq_one {t : Tensor α} (hone : t.size = 1) (idx : List Nat) :
    t.get (t.shape.align idx) = t.data.getD 0 0 := by
  have hshape : t.shape.size = 1 := t.size_data ▸ hone
  rw [get, Shape.ravel_align_of_size_eq_one hshape]

omit [Zero β] in
lemma get_align_of_channels {t : Tensor α} {channels : Nat} (hshape : t.shape = [1, channels, 1, 1])
    {n c y x : Nat} (hc : c < channels) :
    t.get (t.shape.align [n, c, y, x]) = t.data.getD c 0 := by
  rw [get, hshape, Shape.align_channels hc]
  simp [Shape.ravel, Shape.size]

end ConvFlow.Tensor
