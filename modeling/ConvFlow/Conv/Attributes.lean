/-
# Attributes of a convolution

Convolutions are two-dimensional: images have the axes batch, channel, row and column, and
weights the axes output channel, input channel of the group, kernel row and kernel column.
-/

namespace ConvFlow

/-- One number for each of the two spatial axes. -/
structure Plane where
  /-- The number for the vertical axis. -/
  rows : Nat
  /-- The number for the horizontal axis. -/
  cols : Nat
  deriving DecidableEq

/-- The two numbers, vertical axis first. -/
def Plane.toList (p : Plane) : List Nat := [p.rows, p.cols]

/-- How many rows and columns of zeros surround an image. -/
structure Padding where
  /-- Rows above the image. -/
  top : Nat
  /-- Columns left of the image. -/
  left : Nat
  /-- Rows below the image. -/
  bottom : Nat
  /-- Columns right of the image. -/
  right : Nat
  deriving DecidableEq

namespace Padding

/-- No zeros on any side. -/
def none : Padding := ⟨0, 0, 0, 0⟩

/-- The four numbers in the order top, left, bottom, right. -/
def toList (p : Padding) : List Nat := [p.top, p.left, p.bottom, p.right]

end Padding

/-- The attributes of a two-dimensional convolution. -/
structure Conv.Attributes where
  /-- The extents of the kernel. -/
  kernel : Plane
  /-- The zeros around the image. -/
  pads : Padding := Padding.none
  /-- The distance between neighbouring windows. -/
  strides : Plane := ⟨1, 1⟩
  /-- The distance between neighbouring kernel positions. -/
  dilations : Plane := ⟨1, 1⟩
  /-- The number of groups that the channels fall into. -/
  group : Nat := 1
  deriving DecidableEq

/-- Whether there are zeros on any side of the image. -/
def Conv.Attributes.isPadded (a : Attributes) : Bool := a.pads.toList.any (· != 0)

end ConvFlow
