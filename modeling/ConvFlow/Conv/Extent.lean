/-
# The extent of a convolution's output

Along each spatial axis the kernel is laid over the padded image at every multiple of the stride
at which it fits entirely.  `Axis` collects what this takes for one axis; `Axis.positions` counts
the places and `Axis.taps` lists the kernel positions that meet the image itself, and not its
padding, at one place.  `outputShape` joins both axes with the channel bookkeeping.
-/
import ConvFlow.Shape
import ConvFlow.Conv.Attributes
import ConvFlow.Text.Listing

namespace ConvFlow.Conv

/-- Why a convolution has no output shape. -/
inductive ShapeError where
  /-- The image does not have four axes. -/
  | inputRank (shape : Shape)
  /-- The weights do not have four axes. -/
  | weightsRank (shape : Shape)
  /-- The image has `got` channels, but the weights ask for `perGroup` in each group. -/
  | channels (got perGroup group : Nat)
  /-- The kernel has no position along the axis. -/
  | emptyKernel (axis : Nat)
  /-- The stride or the dilation along the axis is zero. -/
  | zeroStep (axis : Nat)
  /-- The kernel is larger than the padded image along the axis. -/
  | kernelTooLarge (span padded axis : Nat)
  deriving DecidableEq

/-- The wording of a shape error. -/
def ShapeError.message : ShapeError → String
  | inputRank shape => s!"expected NCHW input, got shape {Text.numbers shape}"
  | weightsRank shape => s!"expected rank-4 weights, got shape {Text.numbers shape}"
  | channels got perGroup group =>
    s!"input has {got} channels but weights expect {perGroup} x group {group}"
  | emptyKernel axis => s!"empty kernel on spatial axis {axis}"
  | zeroStep axis => s!"zero stride or dilation on spatial axis {axis}"
  | kernelTooLarge span padded axis =>
    s!"kernel span {span} exceeds padded extent {padded} on spatial axis {axis}"

/-- The kernel and the image along one spatial axis. -/
structure Axis where
  /-- The extent of the image. -/
  extent : Nat
  /-- The zeros before the image. -/
  before : Nat
  /-- The zeros after the image. -/
  after : Nat
  /-- The number of kernel positions. -/
  kernel : Nat
  /-- The distance between neighbouring windows. -/
  stride : Nat
  /-- The distance between neighbouring kernel positions. -/
  dilation : Nat

namespace Axis

/-- The vertical axis of an image with the given number of rows. -/
def rows (attrs : Attributes) (height : Nat) : Axis where
  extent := height
  before := attrs.pads.top
  after := attrs.pads.bottom
  kernel := attrs.kernel.rows
  stride := attrs.strides.rows
  dilation := attrs.dilations.rows

/-- The horizontal axis of an image with the given number of columns. -/
def cols (attrs : Attributes) (width : Nat) : Axis where
  extent := width
  before := attrs.pads.left
  after := attrs.pads.right
  kernel := attrs.kernel.cols
  stride := attrs.strides.cols
  dilation := attrs.dilations.cols

/-- The extent of the image with its padding. -/
def padded (a : Axis) : Nat := a.extent + a.before + a.after

/-- The distance from the first to the last kernel position, both included. -/
def span (a : Axis) : Nat := a.dilation * (a.kernel - 1) + 1

/-- The number of places at which the kernel fits into the padded image; `axis` is the number of
the axis that an error names. -/
def positions (a : Axis) (axis : Nat) : Except ShapeError Nat :=
  if a.kernel = 0 then .error (.emptyKernel axis)
  else if a.stride = 0 ∨ a.dilation = 0 then .error (.zeroStep axis)
  else if a.padded < a.span then .error (.kernelTooLarge a.span a.padded axis)
  else .ok ((a.padded - a.span) / a.stride + 1)

/-- The kernel positions that meet the image when the kernel lies at place `o`, each with the
coordinate of the image that it meets. -/
def taps (a : Axis) (o : Nat) : List (Nat × Nat) :=
  (List.range a.kernel).filterMap fun k =>
    let p := o * a.stride + k * a.dilation
    if a.before ≤ p ∧ p < a.before + a.extent then some (k, p - a.before) else none

end Axis

/-- The shape of the output for the shapes of the image and the weights. -/
def outputShape (input weights : Shape) (attrs : Attributes) : Except ShapeError Shape :=
  match input with
  | [batch, channels, height, width] =>
    match weights with
    | [outChannels, perGroup, _, _] =>
      if perGroup * attrs.group ≠ channels then
        .error (.channels channels perGroup attrs.group)
      else do
        let rows ← (Axis.rows attrs height).positions 0
        let cols ← (Axis.cols attrs width).positions 1
        return [batch, outChannels, rows, cols]
    | _ => .error (.weightsRank weights)
  | _ => .error (.inputRank input)

end ConvFlow.Conv
