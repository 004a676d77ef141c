/-
# Closeness of tensors

Two elements are close if they differ by no more than an absolute tolerance plus a relative one,
which counts in proportion to the expected element.  `compare` looks through two tensors of one
shape and reports how many elements are not close, and where the largest of their differences is.
-/
import ConvFlow.Tensor

namespace ConvFlow.Comparison

/-- How far an element may be from the expected one. -/
structure Tolerance (α : Type) where
  /-- The tolerance in proportion to the expected element. -/
  rtol : α
  /-- The tolerance that applies to all elements. -/
  atol : α

/-- The tolerance that applies if none is given. -/
def Tolerance.standard : Tolerance Float32 := ⟨1e-5, 1e-3⟩

/-- How two tensors differ. -/
inductive Divergence (α : Type) where
  /-- Their shapes are different. -/
  | shape (expected got : Shape)
  /-- Of `total` elements `mismatched` are not close; the largest difference among them stands at
  position `worstIndex`. -/
  | values (maxAbsDiff : α) (worstIndex mismatched total : Nat)

variable {α : Type} [Element α]

/-- Whether `a` is close to the expected `b`. -/
def Tolerance.isClose (tol : Tolerance α) (a b : α) : Bool :=
  Element.abs (a - b) ≤ tol.atol + tol.rtol * Element.abs b

/-- What has been found out about the elements up to some position. -/
structure Tally (α : Type) where
  /-- The largest difference among the elements that are not close. -/
  maxAbsDiff : α
  /-- Where it was found. -/
  worstIndex : Nat
  /-- The number of elements that are not close. -/
  mismatched : Nat

namespace Tally

/-- Nothing looked at yet. -/
def zero : Tally α := ⟨0, 0, 0⟩

/-- Look at the pair of elements at a position.  A difference that is no number replaces any
other, and after it only another one of its kind does. -/
def add (tol : Tolerance α) (t : Tally α) (expected actual : α) (index : Nat) : Tally α :=
  if tol.isClose actual expected then t
  else
    let diff := Element.abs (actual - expected)
    if t.maxAbsDiff < diff || Element.isNaN diff then ⟨diff, index, t.mismatched + 1⟩
    else { t with mismatched := t.mismatched + 1 }

/-- Look at all pairs of elements, in row-major order. -/
def ofTensors (tol : Tolerance α) (expected actual : Tensor α) : Tally α :=
  (expected.data.toList.zip actual.data.toList).zipIdx.foldl
    (fun t ((e, a), i) => t.add tol e a i) zero

end Tally

/-- How `actual` differs from `expected`, if it does. -/
def compare (tol : Tolerance α) (expected actual : Tensor α) : Option (Divergence α) :=
  if expected.shape ≠ actual.shape then some (.shape expected.shape actual.shape)
  else
    let t := Tally.ofTensors tol expected actual
    if t.mismatched = 0 then none
    else some (.values t.maxAbsDiff t.worstIndex t.mismatched expected.size)

end ConvFlow.Comparison
