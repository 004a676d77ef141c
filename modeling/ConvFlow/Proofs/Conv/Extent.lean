/-
# Places and taps along one axis

`Axis.positions` counts exactly the places at which the kernel fits into the padded image: the
kernel still fits at the last place (`fits_of_positions`).  So every tap lies in the padded image,
and without padding no tap is skipped (`taps_eq_of_unpadded`).

`Dims` names the numbers of a convolution, and `outputShape_eq_ok_iff` says which of them an
output shape needs.
-/
import Mathlib.Data.List.Basic
import Mathlib.Tactic.Common
import ConvFlow.Conv.Extent
import ConvFlow.Proofs.Outcome

namespace ConvFlow.Conv

open Outcome

namespace Attributes

/-- Neighbouring windows and neighbouring kernel positions lie apart on both axes. -/
structure PositiveSteps (attrs : Attributes) : Prop where
  stride_rows : 0 < attrs.strides.rows
  stride_cols : 0 < attrs.strides.cols
  dilation_rows : 0 < attrs.dilations.rows
  dilation_cols : 0 < attrs.dilations.cols

/-- Weights for `outChannels` output channels, each with `perGroup` kernels of the extents that
the attributes ask for, where the output channels fall into equal groups. -/
structure FitsWeights (attrs : Attributes) (weights : Shape) (outChannels perGroup : Nat) :
    Prop where
  shape : weights = [outChannels, perGroup, attrs.kernel.rows, attrs.kernel.cols]
  group_pos : 0 < attrs.group
  group_dvd : attrs.group ∣ outChannels

end Attributes

namespace Axis

variable {a : Axis} {axis count o k i : Nat}

lemma positions_eq_ok_iff : a.positions axis = .ok count ↔
    0 < a.kernel ∧ 0 < a.stride ∧ 0 < a.dilation ∧ a.span ≤ a.padded ∧
      count = (a.padded - a.span) / a.stride + 1 := by
  unfold positions
  split
  · simp
    omega
  · split
    · simp
      omega
    · split
      · simp
        omega
      · simp only [Except.ok.injEq]
        omega

/-- At every place that is counted the kernel fits into the padded image. -/
lemma fits_of_positions (h : a.positions axis = .ok count) (ho : o < count) :
    o * a.stride + a.span ≤ a.padded := by
  obtain ⟨-, hstride, -, hspan, rfl⟩ := positions_eq_ok_iff.1 h
  have hdiv : o ≤ (a.padded - a.span) / a.stride := by omega
  have hmul := (Nat.le_div_iff_mul_le hstride).1 hdiv
  omega

/-- A kernel position lies within the span of the kernel. -/
lemma tap_lt_padded (h : a.positions axis = .ok count) (ho : o < count) (hk : k < a.kernel) :
    o * a.stride + k * a.dilation < a.padded := by
  have hfits := fits_of_positions h ho
  have hle : k * a.dilation ≤ a.dilation * (a.kernel - 1) := by
    rw [Nat.mul_comm]
    exact Nat.mul_le_mul_left _ (by omega)
  rw [span] at hfits
  omega

lemma mem_taps_iff : (k, i) ∈ a.taps o ↔
    k < a.kernel ∧ i < a.extent ∧ o * a.stride + k * a.dilation = a.before + i := by
  simp only [taps, List.mem_filterMap, List.mem_range]
  constructor
  · rintro ⟨k', hk', hsome⟩
    split at hsome
    · rename_i hin
      simp only [Option.some.injEq, Prod.mk.injEq] at hsome
      obtain ⟨rfl, rfl⟩ := hsome
      omega
    · simp at hsome
  · rintro ⟨hk, hi, heq⟩
    refine ⟨k, hk, ?_⟩
    rw [if_pos (by omega), heq, Nat.add_sub_cancel_left]

/-- **Without padding every kernel position meets the image at every place.** -/
theorem taps_eq_of_unpadded (h : a.positions axis = .ok count) (hbefore : a.before = 0)
    (hafter : a.after = 0) (ho : o < count) :
    a.taps o = (List.range a.kernel).map fun k => (k, o * a.stride + k * a.dilation) := by
  have hpadded : a.padded = a.extent := by rw [padded, hbefore, hafter]; rfl
  rw [taps, List.filterMap_eq_map_iff_forall_eq_some]
  intro k hk
  have htap := tap_lt_padded h ho (List.mem_range.1 hk)
  rw [hpadded] at htap
  simp [hbefore, htap]

end Axis

/-! ## The numbers of a convolution -/

/-- The extents that take part in a convolution. -/
structure Dims where
  /-- The number of images. -/
  batch : Nat
  /-- The number of channels of an image. -/
  channels : Nat
  /-- The number of rows of an image. -/
  height : Nat
  /-- The number of columns of an image. -/
  width : Nat
  /-- The number of output channels. -/
  outChannels : Nat
  /-- The number of input channels that one output channel sees. -/
  perGroup : Nat
  /-- The number of rows of the kernel. -/
  kernelRows : Nat
  /-- The number of columns of the kernel. -/
  kernelCols : Nat
  /-- The number of rows of the output. -/
  rows : Nat
  /-- The number of columns of the output. -/
  cols : Nat

namespace Dims

/-- The shape of the image. -/
def input (d : Dims) : Shape := [d.batch, d.channels, d.height, d.width]

/-- The shape of the weights. -/
def weights (d : Dims) : Shape := [d.outChannels, d.perGroup, d.kernelRows, d.kernelCols]

/-- The shape of the output. -/
def output (d : Dims) : Shape := [d.batch, d.outChannels, d.rows, d.cols]

/-- The numbers agree with the attributes. -/
structure Fit (d : Dims) (attrs : Attributes) : Prop where
  channels : d.perGroup * attrs.group = d.channels
  rows : (Axis.rows attrs d.height).positions 0 = .ok d.rows
  cols : (Axis.cols attrs d.width).positions 1 = .ok d.cols

end Dims

/-- The numbers of weights that fit are those that the attributes ask for. -/
lemma Attributes.FitsWeights.numbers {attrs : Attributes} {weights : Shape}
    {outChannels perGroup : Nat} (h : attrs.FitsWeights weights outChannels perGroup) {d : Dims}
    (hd : weights = d.weights) : d.outChannels = outChannels ∧ d.perGroup = perGroup ∧
      d.kernelRows = attrs.kernel.rows ∧ d.kernelCols = attrs.kernel.cols := by
  simpa [Dims.weights] using hd.symm.trans h.shape

/-- There is an output shape exactly if the extents agree with the attributes. -/
theorem outputShape_eq_ok_iff {x w s : Shape} {attrs : Attributes} :
    outputShape x w attrs = .ok s ↔
      ∃ d : Dims, x = d.input ∧ w = d.weights ∧ d.Fit attrs ∧ s = d.output := by
  constructor
  · intro h
    unfold outputShape at h
    split at h
    · rename_i batch channels height width
      split at h
      · rename_i outChannels perGroup kernelRows kernelCols
        split at h
        · simp at h
        · rename_i hchannels
          simp only [bind_eq_ok_iff, pure_eq_ok, Except.ok.injEq] at h
          obtain ⟨rows, hrows, cols, hcols, rfl⟩ := h
          exact ⟨⟨batch, channels, height, width, outChannels, perGroup, kernelRows, kernelCols,
            rows, cols⟩, rfl, rfl, ⟨not_not.1 hchannels, hrows, hcols⟩, rfl⟩
      · simp at h
    · simp at h
  · rintro ⟨d, rfl, rfl, hfit, rfl⟩
    simp only [outputShape, Dims.input, Dims.weights]
    rw [if_neg (not_not.2 hfit.channels), hfit.rows, hfit.cols]
    rfl

end ConvFlow.Conv
