/-
# Padding as zeros of the image

A convolution never stores its padding: it skips the kernel positions that lie there.  Without
rounding this comes to the same as extending the image by rows and columns of zeros
(`Tensor.padded`) and convolving without padding (`conv2d_padded`).  The places of the kernel are
the same in both convolutions, and the taps of the one are those taps of the other that lie in the
image (`Dims.taps_eq_filterMap`), so a term that was skipped becomes a term that is zero.
-/
import ConvFlow.Proofs.Conv.Window
import ConvFlow.Proofs.Element

namespace ConvFlow

/-- The image extended by rows and columns of zeros. -/
def Tensor.padded {α : Type} [Zero α] (x : Tensor α) (p : Padding) : Tensor α :=
  match x.shape with
  | [batch, channels, height, width] =>
    ofFn [batch, channels, height + p.top + p.bottom, width + p.left + p.right] fun idx =>
      match idx with
      | [n, c, iy, ix] =>
        if (p.top ≤ iy ∧ iy < p.top + height) ∧ p.left ≤ ix ∧ ix < p.left + width then
          x.get [n, c, iy - p.top, ix - p.left]
        else 0
      | _ => 0
  | _ => x

namespace Conv

open Outcome

/-- The same convolution of an image that has its padding stored. -/
def Attributes.unpadded (attrs : Attributes) : Attributes := { attrs with pads := Padding.none }

variable {attrs : Attributes}

/-! ## The taps in the image -/

namespace Axis

/-- The axis with the padding as part of the image. -/
def filled (a : Axis) : Axis := { a with extent := a.padded, before := 0, after := 0 }

/-- The tap of the image that a tap of the padded image is, unless it lies in the padding. -/
def inImage? (a : Axis) : Nat × Nat → Option (Nat × Nat)
  | (k, p) => if a.before ≤ p ∧ p < a.before + a.extent then some (k, p - a.before) else none

variable (a : Axis)

/-- The kernel fits at the same places. -/
lemma positions_filled (axis : Nat) : a.filled.positions axis = a.positions axis := rfl

/-- The kernel meets the padded image everywhere that it meets the image. -/
lemma taps_eq_filterMap (o : Nat) : a.taps o = (a.filled.taps o).filterMap a.inImage? := by
  rw [taps, taps, List.filterMap_filterMap]
  congr 1
  funext k
  simp only [filled, Nat.zero_le, true_and, Nat.zero_add, Nat.sub_zero]
  by_cases hp : o * a.stride + k * a.dilation < a.padded
  · rw [if_pos hp]
    rfl
  · have hout : ¬(a.before ≤ o * a.stride + k * a.dilation ∧
        o * a.stride + k * a.dilation < a.before + a.extent) := by
      rw [padded] at hp
      omega
    rw [if_neg hp, if_neg hout]
    rfl

end Axis

namespace Dims

variable (d : Dims)

/-- The extents of the convolution whose image has its padding stored. -/
def padded (p : Padding) : Dims :=
  { d with height := d.height + p.top + p.bottom, width := d.width + p.left + p.right }

variable {d}

lemma Fit.padded (h : d.Fit attrs) : (d.padded attrs.pads).Fit attrs.unpadded where
  channels := h.channels
  rows := (Axis.positions_filled (Axis.rows attrs d.height) 0).trans h.rows
  cols := (Axis.positions_filled (Axis.cols attrs d.width) 1).trans h.cols

variable (d attrs)

/-- The tap of the image that a tap of the padded image is, unless it lies in the padding. -/
def inImage? : Nat × (Nat × Nat) × (Nat × Nat) → Option (Nat × (Nat × Nat) × (Nat × Nat))
  | (ci, row, col) =>
    ((d.rowAxis attrs).inImage? row).bind fun row' =>
      ((d.colAxis attrs).inImage? col).map fun col' => (ci, row', col')

variable {d attrs} in
lemma inImage?_eq (ci ky iy kx ix : Nat) : d.inImage? attrs (ci, (ky, iy), (kx, ix)) =
    if (attrs.pads.top ≤ iy ∧ iy < attrs.pads.top + d.height) ∧
        attrs.pads.left ≤ ix ∧ ix < attrs.pads.left + d.width then
      some (ci, (ky, iy - attrs.pads.top), (kx, ix - attrs.pads.left))
    else none := by
  show ((if attrs.pads.top ≤ iy ∧ iy < attrs.pads.top + d.height then
      some (ky, iy - attrs.pads.top) else none).bind fun row =>
    (if attrs.pads.left ≤ ix ∧ ix < attrs.pads.left + d.width then
      some (kx, ix - attrs.pads.left) else none).map fun col => (ci, row, col)) = _
  split
  · split <;> simp [*]
  · simp [*]

/-- **The taps of a window are those taps of the window over the padded image that lie in the
image, in the same order.** -/
lemma taps_eq_filterMap (oy ox : Nat) : d.taps attrs oy ox =
    ((d.padded attrs.pads).taps attrs.unpadded oy ox).filterMap (d.inImage? attrs) := by
  have hrow : (d.padded attrs.pads).rowAxis attrs.unpadded = (d.rowAxis attrs).filled := rfl
  have hcol : (d.padded attrs.pads).colAxis attrs.unpadded = (d.colAxis attrs).filled := rfl
  rw [taps, taps, hrow, hcol, Axis.taps_eq_filterMap (d.rowAxis attrs),
    Axis.taps_eq_filterMap (d.colAxis attrs)]
  simp only [List.filterMap_flatMap, List.filterMap_map, List.map_filterMap,
    List.filterMap_eq_flatMap_toList (d.rowAxis attrs).inImage?, List.flatMap_assoc]
  congr 1
  funext ci
  congr 1
  funext row
  -- A row in the padding has no tap in the image, whatever the column.
  cases hin : (d.rowAxis attrs).inImage? row with
  | none => simp [inImage?, hin]
  | some row' => simp [inImage?, hin, Function.comp_def]

end Dims

/-! ## The windows over the padded image -/

variable {α : Type} [Element α] {x w : Tensor α} {bias : Option (Tensor α)} {d : Dims}

omit [Element α] in
lemma shape_padded [Zero α] {batch channels height width : Nat}
    (hx : x.shape = [batch, channels, height, width]) (p : Padding) : (x.padded p).shape =
      [batch, channels, height + p.top + p.bottom, width + p.left + p.right] := by
  simp only [Tensor.padded, hx]
  rfl

lemma get_padded (hx : x.shape = d.input) {p : Padding} {n c iy ix : Nat}
    (hin : (d.padded p).input.Holds [n, c, iy, ix]) : (x.padded p).get [n, c, iy, ix] =
      if (p.top ≤ iy ∧ iy < p.top + d.height) ∧ p.left ≤ ix ∧ ix < p.left + d.width then
        x.get [n, c, iy - p.top, ix - p.left]
      else 0 := by
  simp only [Tensor.padded, hx, Dims.input]
  exact Tensor.get_ofFn hin

variable [Element.IsExact α]

/-- A tap in the padding contributes zero. -/
lemma term_padded (hx : x.shape = d.input) {n co ci ky iy kx ix : Nat}
    (hin : (d.padded attrs.pads).input.Holds [n, d.firstChannel attrs co + ci, iy, ix]) :
    (d.padded attrs.pads).term attrs.unpadded (x.padded attrs.pads) w n co (ci, (ky, iy), (kx, ix))
      = (d.inImage? attrs (ci, (ky, iy), (kx, ix))).elim 0 (d.term attrs x w n co) := by
  show (x.padded attrs.pads).get [n, d.firstChannel attrs co + ci, iy, ix] * w.get [co, ci, ky, kx]
    = _
  rw [get_padded hx hin, Dims.inImage?_eq]
  split
  · rfl
  · exact Element.IsExact.zero_mul _

lemma window_padded (hx : x.shape = d.input) (hfit : d.Fit attrs) (hgroup : 0 < attrs.group)
    (hdvd : attrs.group ∣ d.outChannels) (offset : Nat → α) {idx : List Nat}
    (hidx : d.output.Holds idx) :
    (d.padded attrs.pads).window attrs.unpadded (x.padded attrs.pads) w offset idx =
      d.window attrs x w offset idx := by
  obtain ⟨n, co, oy, ox, rfl, -⟩ := Shape.exists_of_holds_four hidx
  rw [Dims.window, Dims.window, Dims.taps_eq_filterMap attrs d, Element.sum_filterMap]
  congr 2
  refine List.map_congr_left ?_
  rintro ⟨ci, ⟨ky, iy⟩, ⟨kx, ix⟩⟩ htap
  exact term_padded hx (Dims.tap_within hfit.padded hgroup hdvd hidx htap).1

/-! ## The convolution of the padded image -/

omit [Element.IsExact α] in
/-- With its padding stored, an image has the same places for the kernel. -/
lemma outputShape_padded (hx : x.shape.length = 4) (weights : Shape) :
    outputShape (x.padded attrs.pads).shape weights attrs.unpadded =
      outputShape x.shape weights attrs := by
  obtain ⟨batch, channels, height, width, hx⟩ := List.length_eq_four.1 hx
  rw [shape_padded hx, hx]
  rfl

/-- **Padding is zeros around the image.**  Without rounding, a convolution has the same outcome,
tensor or error, as the convolution without padding of the image that is extended by zeros. -/
theorem conv2d_padded (hx : x.shape.length = 4) (hgroup : 0 < attrs.group)
    (hdvd : attrs.group ∣ w.shape.getD 0 0) :
    conv2d (x.padded attrs.pads) w bias attrs.unpadded = conv2d x w bias attrs := by
  cases h : conv2d x w bias attrs with
  | ok y =>
    obtain ⟨d, offset, hd, hw, hfit, hoffset, rfl⟩ := conv2d_eq_ok_iff.1 h
    rw [hw] at hdvd
    refine conv2d_eq_ok_iff.2 ⟨d.padded attrs.pads, offset, shape_padded hd attrs.pads, hw,
      hfit.padded, hoffset, Tensor.ofFn_congr fun idx hidx => ?_⟩
    exact (window_padded hd hfit hgroup hdvd offset hidx).symm
  | error e =>
    -- Both convolutions look for the same output shape, so they fail for the same reason.
    have hpadded : (x.padded attrs.pads).shape.length = 4 := by
      obtain ⟨batch, channels, height, width, hx⟩ := List.length_eq_four.1 hx
      rw [shape_padded hx]
      rfl
    have hshapes : (conv2d (x.padded attrs.pads) w bias attrs.unpadded).map (·.shape) =
        (conv2d x w bias attrs).map (·.shape) := by
      rw [map_shape_conv2d hpadded, map_shape_conv2d hx, outputShape_padded hx]
    rw [h, map_error, map_eq_error_iff] at hshapes
    exact hshapes

/-- Two channels, each with a kernel of its own, and more zeros above and left than below and
right. -/
def lopsided : Attributes where
  kernel := ⟨2, 2⟩
  pads := ⟨2, 2, 0, 1⟩
  strides := ⟨1, 2⟩
  dilations := ⟨1, 2⟩
  group := 2

/-- An image with two channels of two rows and three columns. -/
def lopsidedImage : Tensor Rat := ⟨[1, 2, 2, 3], #[1, 2, 3, 4, 5, 6, 7, 8, 9, 10, 11, 12], rfl⟩

/-- The kernels of the two channels. -/
def lopsidedWeights : Tensor Rat := ⟨[2, 1, 2, 2], #[1, 2, 3, 4, 8, 7, 6, 5], rfl⟩

/-- In the first row of the output the kernels lie in the zeros with all of their positions, and
only the bias is left. -/
theorem lopsided_padded :
    conv2d (lopsidedImage.padded lopsided.pads) lopsidedWeights (some (.fill [2] 100))
        lopsided.unpadded =
      conv2d lopsidedImage lopsidedWeights (some (.fill [2] 100)) lopsided ∧
    (conv2d lopsidedImage lopsidedWeights (some (.fill [2] 100)) lopsided).toOption.map (·.data) =
      some #[100, 100, 104, 115, 118, 143, 100, 100, 135, 187, 199, 339] :=
  ⟨conv2d_padded rfl (by decide) (by decide), by decide +kernel⟩

end Conv

end ConvFlow
