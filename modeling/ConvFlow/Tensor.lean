/-
# Tensors

A tensor is a shape together with its elements in row-major order; that the two fit is part of
the type.  `ofFn` builds a tensor from a function on indices, `get` reads one element, and
`get_ofFn` says that they belong together.  Element-wise operations broadcast their operands.
-/
import ConvFlow.Element
import ConvFlow.Shape

namespace ConvFlow

/-- A dense tensor with elements in row-major order. -/
structure Tensor (α : Type) where
  /-- The extents, outermost axis first. -/
  shape : Shape
  /-- The elements in row-major order. -/
  data : Array α
  /-- There are as many elements as the shape asks for. -/
  size_data : data.size = shape.size
  deriving DecidableEq

namespace Tensor

variable {α β γ : Type}

/-- The number of elements. -/
def size (t : Tensor α) : Nat := t.data.size

/-- The tensor of the given shape whose element at an index is the value of `f` there. -/
def ofFn (shape : Shape) (f : List Nat → α) : Tensor α where
  shape
  data := Array.ofFn fun k : Fin shape.size => f (shape.unravel k)
  size_data := Array.size_ofFn

/-- The tensor whose elements are all the same. -/
def fill (shape : Shape) (a : α) : Tensor α := ofFn shape fun _ => a

/-- The element at an index; zero outside the tensor. -/
def get [Zero α] (t : Tensor α) (idx : List Nat) : α := t.data.getD (t.shape.ravel idx) 0

/-- Apply a function to every element. -/
def map (f : α → β) (t : Tensor α) : Tensor β where
  shape := t.shape
  data := t.data.map f
  size_data := by rw [Array.size_map]; exact t.size_data

/-- The tensor of the given shape and elements, if their number is right. -/
def ofData? (shape : Shape) (data : Array α) : Option (Tensor α) :=
  if h : data.size = shape.size then some ⟨shape, data, h⟩ else none

/-- Apply an operation to corresponding elements of two tensors whose shapes can be joined. -/
def zipBroadcast [Zero α] [Zero β] (op : α → β → γ) (a : Tensor α) (b : Tensor β) :
    Option (Tensor γ) :=
  (a.shape.broadcast b.shape).map fun shape =>
    ofFn shape fun idx => op (a.get (a.shape.align idx)) (b.get (b.shape.align idx))

/-- Two tensors agree if they have the same shape and equal elements, where elements are
compared as numbers: a value that is no number agrees with nothing, and the two zeros agree. -/
def agrees [BEq α] (a b : Tensor α) : Bool := a.shape == b.shape && a.data == b.data

theorem shape_ofFn (shape : Shape) (f : List Nat → α) : (ofFn shape f).shape = shape := rfl

/-- Reading what was built from a function gives the value of the function. -/
theorem get_ofFn [Zero α] {shape : Shape} {f : List Nat → α} {idx : List Nat}
    (h : shape.Holds idx) : (ofFn shape f).get idx = f idx := by
  have hlt := Shape.ravel_lt_size h
  simp [get, ofFn, hlt, Shape.unravel_ravel h]

end Tensor

end ConvFlow
