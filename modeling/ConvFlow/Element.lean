/-
# Elements of tensors

The graphs of this library compute on tensors whose elements are 32-bit floats.  Everything
that is said about them is written over an arbitrary type of elements, so that the same
definitions can be read over the rationals, where arithmetic is exact.

`Element` collects what execution, rules and comparison use: addition, subtraction,
multiplication, the two zeros, the absolute value, the order, a test for being a number, the
comparison of stored values, and the fractions that random samples are made of.
-/

namespace ConvFlow

/-- The arithmetic of tensor elements. -/
class Element (α : Type) extends Add α, Sub α, Mul α, Zero α, LE α, LT α, BEq α where
  /-- Comparing with `≤` is decidable. -/
  decLe : DecidableLE α
  /-- Comparing with `<` is decidable. -/
  decLt : DecidableLT α
  /-- The zero that is neutral for addition also on the left of a negative zero. -/
  negZero : α
  /-- The absolute value. -/
  abs : α → α
  /-- Whether the value stands for "no number". -/
  isNaN : α → Bool
  /-- The fraction `k / 2 ^ 24`. -/
  fraction : Nat → α

attribute [reducible, instance] Element.decLe Element.decLt

namespace Element

/-- The positive part: everything that is not above zero becomes zero. -/
def positivePart {α : Type} [Element α] (a : α) : α := if 0 < a then a else 0

/-- The sum of a list from left to right, from a given start. -/
def sumFrom {α : Type} [Element α] (start : α) (terms : List α) : α := terms.foldl (· + ·) start

end Element

/-- Single precision floats, rounded after every operation. -/
instance : Element Float32 where
  toAdd := inferInstance
  toSub := inferInstance
  toMul := inferInstance
  toZero := ⟨0⟩
  toLE := inferInstance
  toLT := inferInstance
  toBEq := inferInstance
  decLe := inferInstance
  decLt := inferInstance
  negZero := -0.0
  abs := Float32.abs
  isNaN := Float32.isNaN
  fraction k := Float32.ofNat k / 16777216

/-- The rational numbers: every operation is exact, and every value is a number. -/
instance : Element Rat where
  toAdd := inferInstance
  toSub := inferInstance
  toMul := inferInstance
  toZero := ⟨0⟩
  toLE := inferInstance
  toLT := inferInstance
  toBEq := inferInstance
  decLe := inferInstance
  decLt := inferInstance
  negZero := 0
  abs := Rat.abs
  isNaN _ := false
  fraction k := (k : Rat) / 16777216

end ConvFlow
