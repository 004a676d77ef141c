/-
# The windows of a convolution

A convolution computes each output from one window: `Dims.taps` lists the kernel positions that
meet the image, and `Dims.window` is the sum over them.  `conv2d_eq_ok_iff` says when there is a
convolution and that its elements are these windows; `map_shape_conv2d` says which shape it has or
why there is none.  `Dims.tap_within` says that a window reads nothing outside the image and the
weights.
-/
import ConvFlow.Conv.Direct
import ConvFlow.Proofs.Conv.Extent
import ConvFlow.Proofs.Shape
import ConvFlow.Proofs.Tensor

namespace ConvFlow.Conv

open Outcome

namespace Dims

variable (d : Dims) (attrs : Attributes)

/-- The vertical axis with the rows of the weights. -/
def rowAxis : Axis := { Axis.rows attrs d.height with kernel := d.kernelRows }

/-- The horizontal axis with the columns of the weights. -/
def colAxis : Axis := { Axis.cols attrs d.width with kernel := d.kernelCols }

/-- The first input channel that an output channel sees. -/
def firstChannel (co : Nat) : Nat := co / (d.outChannels / attrs.group) * d.perGroup

/-- The taps of the window at a place: the input channel within the group, the kernel row with the
image row that it meets, and the kernel column with the image column that it meets. -/
def taps (oy ox : Nat) : List (Nat × (Nat × Nat) × (Nat × Nat)) :=
  (List.range d.perGroup).flatMap fun ci =>
    ((d.rowAxis attrs).taps oy).flatMap fun row =>
      ((d.colAxis attrs).taps ox).map fun col => (ci, row, col)

variable {α : Type} [Element α] (x w : Tensor α)

/-- What one tap contributes to output channel `co` of image `n`. -/
def term (n co : Nat) : Nat × (Nat × Nat) × (Nat × Nat) → α
  | (ci, (ky, iy), (kx, ix)) =>
    x.get [n, d.firstChannel attrs co + ci, iy, ix] * w.get [co, ci, ky, kx]

/-- The output at an index: the sum over the taps of the window, and the offset of the channel. -/
def window (offset : Nat → α) : List Nat → α
  | [n, co, oy, ox] =>
    Element.sumFrom 0 ((d.taps attrs oy ox).map (d.term attrs x w n co)) + offset co
  | _ => 0

end Dims

section Convolution

variable {α : Type} [Element α] {x w y : Tensor α} {bias : Option (Tensor α)}
  {attrs : Attributes} {d : Dims}

lemma products_eq_map_taps {n co oy ox : Nat} :
    products x w n (d.firstChannel attrs co) d.perGroup co ((d.rowAxis attrs).taps oy)
      ((d.colAxis attrs).taps ox) = (d.taps attrs oy ox).map (d.term attrs x w n co) := by
  simp only [products, Dims.taps, List.map_flatMap, List.map_map]
  rfl

/-- **A convolution exists exactly if the extents agree with the attributes and the bias has one
value for each output channel, and its elements are the windows.** -/
theorem conv2d_eq_ok_iff : conv2d x w bias attrs = .ok y ↔ ∃ (d : Dims) (offset : Nat → α),
    x.shape = d.input ∧ w.shape = d.weights ∧ d.Fit attrs ∧
      biasValues bias d.outChannels = .ok offset ∧
        y = Tensor.ofFn d.output (d.window attrs x w offset) := by
  have hwindow (d : Dims) (offset : Nat → α) (s : Shape) : (Tensor.ofFn s fun idx =>
      match idx with
      | [n, co, oy, ox] =>
        Element.sumFrom 0 (products x w n (d.firstChannel attrs co) d.perGroup co
          ((d.rowAxis attrs).taps oy) ((d.colAxis attrs).taps ox)) + offset co
      | _ => 0) = Tensor.ofFn s (d.window attrs x w offset) := by
    -- The products of the loops are the terms of the taps, in the same order.
    refine Tensor.ofFn_congr fun idx _ => ?_
    unfold Dims.window
    split
    · rw [products_eq_map_taps]
    · rfl
  constructor
  · intro h
    unfold conv2d at h
    split at h
    · rename_i height width hx
      split at h
      · rename_i outChannels perGroup kernelRows kernelCols hw
        simp only [bind_eq_ok_iff, mapError_eq_ok_iff, pure_eq_ok, Except.ok.injEq] at h
        obtain ⟨s, hs, offset, hoffset, rfl⟩ := h
        obtain ⟨d, hdx, hdw, hfit, rfl⟩ := outputShape_eq_ok_iff.1 hs
        obtain ⟨-, -, rfl, rfl⟩ : _ = d.batch ∧ _ = d.channels ∧ height = d.height ∧
            width = d.width := by simpa [Dims.input] using hx.symm.trans hdx
        obtain ⟨rfl, rfl, rfl, rfl⟩ : outChannels = d.outChannels ∧ perGroup = d.perGroup ∧
            kernelRows = d.kernelRows ∧ kernelCols = d.kernelCols := by
          simpa [Dims.weights] using hw.symm.trans hdw
        exact ⟨d, offset, hdx, hdw, hfit, hoffset, hwindow d offset _⟩
      · simp at h
    · simp at h
  · rintro ⟨d, offset, hx, hw, hfit, hoffset, rfl⟩
    have hshape := outputShape_eq_ok_iff.2 ⟨d, rfl, rfl, hfit, rfl⟩
    unfold conv2d
    simp only [hx, hw, Dims.input, Dims.weights] at hshape ⊢
    rw [hshape, hoffset, ← hwindow d offset]
    rfl

/-- The output has the shape that inference finds. -/
lemma outputShape_of_conv2d (h : conv2d x w bias attrs = .ok y) :
    outputShape x.shape w.shape attrs = .ok y.shape := by
  obtain ⟨d, offset, hx, hw, hfit, -, rfl⟩ := conv2d_eq_ok_iff.1 h
  exact outputShape_eq_ok_iff.2 ⟨d, hx, hw, hfit, rfl⟩

/-- What a convolution leaves if its elements are forgotten: a shape or an error.  The image and
the padding take part only through the output shape. -/
lemma map_shape_conv2d (hx : x.shape.length = 4) : (conv2d x w bias attrs).map (·.shape) =
    if w.shape.length = 4 then do
      let shape ← (outputShape x.shape w.shape attrs).mapError .shape
      (biasValues bias (w.shape.getD 0 0)).map fun _ => shape
    else .error .weightsRank := by
  obtain ⟨batch, channels, height, width, hx⟩ := List.length_eq_four.1 hx
  by_cases hlen : w.shape.length = 4
  · obtain ⟨outChannels, perGroup, kernelRows, kernelCols, hw⟩ := List.length_eq_four.1 hlen
    simp only [conv2d, hx, hw]
    cases outputShape [batch, channels, height, width] _ attrs with
    | error e => rfl
    | ok shape =>
      show Except.map _ (biasValues bias outChannels >>= _) = (biasValues bias outChannels).map _
      cases biasValues bias outChannels with
      | error e => rfl
      | ok offset => rfl
  · rw [if_neg hlen]
    simp only [conv2d, hx]
    split
    · rename_i hw
      exact absurd (congrArg List.length hw) hlen
    · rfl

/-- Whether there is a convolution depends on the image only by its shape. -/
lemma conv2d_of_shape_eq {t : Tensor α} (hshape : t.shape = x.shape)
    (hy : conv2d x w bias attrs = .ok y) :
    ∃ z, conv2d t w bias attrs = .ok z := by
  obtain ⟨d, offset, hx, hw, hfit, hoffset, -⟩ := conv2d_eq_ok_iff.1 hy
  exact ⟨_, conv2d_eq_ok_iff.2 ⟨d, offset, hshape.trans hx, hw, hfit, hoffset, rfl⟩⟩

/-- The output channels of one group see the channels of one group. -/
lemma Dims.firstChannel_add_lt (hfit : d.Fit attrs) (hgroup : 0 < attrs.group)
    (hdvd : attrs.group ∣ d.outChannels) {co ci : Nat} (hco : co < d.outChannels)
    (hci : ci < d.perGroup) : d.firstChannel attrs co + ci < d.channels := by
  have hpos : 0 < d.outChannels / attrs.group :=
    Nat.div_pos (Nat.le_of_dvd (by omega) hdvd) hgroup
  have hlt : co / (d.outChannels / attrs.group) < attrs.group := by
    rw [Nat.div_lt_iff_lt_mul hpos, Nat.mul_div_cancel' hdvd]
    exact hco
  have hmul : (co / (d.outChannels / attrs.group) + 1) * d.perGroup ≤ attrs.group * d.perGroup :=
    Nat.mul_le_mul_right _ hlt
  have hchannels := hfit.channels
  rw [Nat.mul_comm] at hchannels
  rw [Nat.succ_mul] at hmul
  rw [firstChannel]
  omega

/-- **A window reads only inside the image and the weights.** -/
theorem Dims.tap_within (hfit : d.Fit attrs) (hgroup : 0 < attrs.group)
    (hdvd : attrs.group ∣ d.outChannels) {n co oy ox ci ky iy kx ix : Nat}
    (hidx : d.output.Holds [n, co, oy, ox])
    (htap : (ci, (ky, iy), (kx, ix)) ∈ d.taps attrs oy ox) :
    d.input.Holds [n, d.firstChannel attrs co + ci, iy, ix] ∧
      d.weights.Holds [co, ci, ky, kx] := by
  obtain ⟨hn, hco, -, -⟩ := Shape.holds_four.1 hidx
  simp only [taps, List.mem_flatMap, List.mem_range, List.mem_map, Prod.mk.injEq] at htap
  obtain ⟨ci', hci, row, hrow, col, hcol, rfl, rfl, rfl⟩ := htap
  obtain ⟨hky, hiy, -⟩ := Axis.mem_taps_iff.1 hrow
  obtain ⟨hkx, hix, -⟩ := Axis.mem_taps_iff.1 hcol
  exact ⟨Shape.holds_four.2 ⟨hn, firstChannel_add_lt hfit hgroup hdvd hco hci, hiy, hix⟩,
    Shape.holds_four.2 ⟨hco, hci, hky, hkx⟩⟩

end Convolution

end ConvFlow.Conv
