/-
# Convolution and constants, in exact arithmetic

A window is a sum of products, so without rounding a number that multiplies the image multiplies
the output (`conv2d_mul`).  A constant that is added to the image adds, at every place, the
constants of the input channels weighted by the kernels (`conv2d_add`); for this the window has to
meet the image with all of its kernel, which it does if there is no padding.
-/
import ConvFlow.Proofs.Conv.Window
import ConvFlow.Proofs.Element

namespace ConvFlow.Conv

open Outcome

variable {α : Type} [Element α] {x t w y a b : Tensor α} {bias : Option (Tensor α)}
  {attrs : Attributes} {d : Dims}

/-! ## Constants that stretch over the output -/

omit [Element α] in
/-- A single number that stretches over the image stretches over the output. -/
lemma broadcast_output_of_size_eq_one {image kernels out c : Shape}
    (h : outputShape image kernels attrs = .ok out) (hone : c.size = 1)
    (hjoin : image.broadcast c = some image) : out.broadcast c = some out := by
  have hrank := Shape.length_broadcast hjoin
  obtain ⟨d, rfl, -, -, rfl⟩ := outputShape_eq_ok_iff.1 h
  refine Shape.broadcast_of_size_eq_one hone ?_
  simp only [Dims.input, Dims.output, List.length_cons, List.length_nil] at hrank ⊢
  omega

/-- A constant behind the convolution has one number for each output channel. -/
lemma shape_foldThroughKernel {group : Nat}
    (h : foldThroughKernel a w group = some b) :
    b.shape = [1, w.shape.getD 0 0, 1, 1] := by
  unfold foldThroughKernel at h
  split at h
  · rename_i hw
    split at h
    · simp at h
    · obtain ⟨constant, -, rfl⟩ := Option.map_eq_some_iff.1 h
      rw [hw]
      rfl
  · simp at h

/-- The constants of the output channels stretch over the output. -/
lemma broadcast_output_of_fold {image out : Shape} {group : Nat}
    (h : outputShape image w.shape attrs = .ok out)
    (hb : foldThroughKernel a w group = some b) : out.broadcast b.shape = some out := by
  obtain ⟨d, -, hw, -, rfl⟩ := outputShape_eq_ok_iff.1 h
  rw [shape_foldThroughKernel hb, hw]
  exact Shape.broadcast_channels _ _ _ _

/-! ## Changing the image element by element -/

/-- If every window of `t` is obtained from the window of `x` by an operation with `b`, then so is
the convolution. -/
lemma conv2d_of_window {op : α → α → α} (hshape : t.shape = x.shape)
    (hy : conv2d t w bias attrs = .ok y) (hjoin : y.shape.broadcast b.shape = some y.shape)
    (hwindow : ∀ (d : Dims) (offset : Nat → α) (idx : List Nat), t.shape = d.input →
      w.shape = d.weights → d.Fit attrs → biasValues bias d.outChannels = .ok offset →
      d.output.Holds idx → d.window attrs t w offset idx =
        op (d.window attrs x w offset idx) (b.get (b.shape.align idx))) :
    ∃ z, conv2d x w bias attrs = .ok z ∧ z.shape = y.shape ∧
      Tensor.zipBroadcast op z b = some y := by
  obtain ⟨d, offset, ht, hw, hfit, hoffset, rfl⟩ := conv2d_eq_ok_iff.1 hy
  refine ⟨Tensor.ofFn d.output (d.window attrs x w offset), ?_, rfl, ?_⟩
  · exact conv2d_eq_ok_iff.2 ⟨d, offset, hshape ▸ ht, hw, hfit, hoffset, rfl⟩
  · refine Tensor.zipBroadcast_eq_some_iff.2 ⟨d.output, hjoin, Tensor.ofFn_congr fun idx hidx => ?_⟩
    rw [hwindow d offset idx ht hw hfit hoffset hidx, Tensor.shape_ofFn, Shape.align_self hidx,
      Tensor.get_ofFn hidx]

/-- The windows of an image that changes element by element, tap by tap. -/
lemma Dims.map_term_congr (hfit : d.Fit attrs) (hgroup : 0 < attrs.group)
    (hdvd : attrs.group ∣ d.outChannels) {n co oy ox : Nat} (hidx : d.output.Holds [n, co, oy, ox])
    {f : Nat × (Nat × Nat) × (Nat × Nat) → α}
    (hf : ∀ ci ky iy kx ix, d.input.Holds [n, d.firstChannel attrs co + ci, iy, ix] →
      d.term attrs t w n co (ci, (ky, iy), (kx, ix)) = f (ci, (ky, iy), (kx, ix))) :
    (d.taps attrs oy ox).map (d.term attrs t w n co) = (d.taps attrs oy ox).map f := by
  refine List.map_congr_left ?_
  rintro ⟨ci, ⟨ky, iy⟩, ⟨kx, ix⟩⟩ htap
  exact hf ci ky iy kx ix (tap_within hfit hgroup hdvd hidx htap).1

variable [Element.IsExact α]

/-! ## Multiplying the image -/

/-- **A number that multiplies the image multiplies the output of a convolution without bias.** -/
theorem conv2d_mul {outChannels perGroup : Nat}
    (hw : attrs.FitsWeights w.shape outChannels perGroup) (hone : a.size = 1)
    (ht : Tensor.zipBroadcast (· * ·) x a = some t) (hshape : t.shape = x.shape)
    (hy : conv2d t w none attrs = .ok y) :
    ∃ z, conv2d x w none attrs = .ok z ∧ z.shape = y.shape ∧
      Tensor.zipBroadcast (· * ·) z a = some y := by
  have hjoin : y.shape.broadcast a.shape = some y.shape := by
    refine broadcast_output_of_size_eq_one (outputShape_of_conv2d hy) (a.size_data ▸ hone) ?_
    rw [hshape, Tensor.shape_zipBroadcast ht, hshape]
  refine conv2d_of_window hshape hy hjoin fun d offset idx hd hdw hfit hoffset hidx => ?_
  obtain ⟨n, co, oy, ox, rfl, -⟩ := Shape.exists_of_holds_four hidx
  obtain rfl : (fun _ => 0) = offset := by simpa [biasValues] using hoffset
  obtain ⟨rfl, -⟩ := hw.numbers hdw
  -- The factor is the same in every term, so it comes out of the sum.
  have hterm : (d.taps attrs oy ox).map (d.term attrs t w n co) =
      (d.taps attrs oy ox).map fun tap => d.term attrs x w n co tap * a.data.getD 0 0 := by
    refine Dims.map_term_congr hfit hw.group_pos hw.group_dvd hidx fun ci ky iy kx ix hin => ?_
    rw [Dims.term, Dims.term, Tensor.get_zipBroadcast ht hshape (hd ▸ hin),
      Tensor.get_align_of_size_eq_one hone, Element.IsExact.mul_assoc, Element.IsExact.mul_assoc]
    congr 1
    exact Element.IsExact.mul_comm _ _
  rw [Dims.window, Dims.window, hterm, Element.sum_map_mul, Element.add_zero, Element.add_zero,
    Tensor.get_align_of_size_eq_one hone]

/-! ## Adding to the image -/

omit [Element α] [Element.IsExact α] in
lemma isPadded_eq_false_iff : attrs.isPadded = false ↔ attrs.pads.top = 0 ∧ attrs.pads.left = 0 ∧
    attrs.pads.bottom = 0 ∧ attrs.pads.right = 0 := by
  simp [Attributes.isPadded, Padding.toList]

omit [Element.IsExact α] in
/-- The constant of a channel is what the addend holds everywhere in that channel. -/
lemma get_align_of_channelConstants {channels : Nat} {constant : Nat → α}
    (h : channelConstants a channels = some constant) {n c iy ix : Nat} (hc : c < channels) :
    a.get (a.shape.align [n, c, iy, ix]) = constant c := by
  unfold channelConstants at h
  split at h
  · obtain rfl := Option.some.inj h
    exact Tensor.get_align_of_size_eq_one ‹_› _
  · split at h
    · obtain rfl := Option.some.inj h
      exact Tensor.get_align_of_channels ‹_› hc
    · simp at h

omit [Element α] [Element.IsExact α] in
/-- Without padding a window has one tap for each position of each kernel. -/
lemma Dims.taps_of_unpadded (hfit : d.Fit attrs) (hpad : attrs.isPadded = false)
    (hrows : d.kernelRows = attrs.kernel.rows) (hcols : d.kernelCols = attrs.kernel.cols)
    {oy ox : Nat} (hoy : oy < d.rows) (hox : ox < d.cols) :
    d.taps attrs oy ox = (List.range d.perGroup).flatMap fun ci =>
      (List.range d.kernelRows).flatMap fun ky => (List.range d.kernelCols).map fun kx =>
        (ci, (ky, oy * attrs.strides.rows + ky * attrs.dilations.rows),
          (kx, ox * attrs.strides.cols + kx * attrs.dilations.cols)) := by
  obtain ⟨htop, hleft, hbottom, hright⟩ := isPadded_eq_false_iff.1 hpad
  have hrow : d.rowAxis attrs = Axis.rows attrs d.height := by rw [rowAxis, hrows]; rfl
  have hcol : d.colAxis attrs = Axis.cols attrs d.width := by rw [colAxis, hcols]; rfl
  rw [taps, hrow, hcol, Axis.taps_eq_of_unpadded hfit.rows htop hbottom hoy,
    Axis.taps_eq_of_unpadded hfit.cols hleft hright hox]
  simp only [List.flatMap_map, List.map_map, hrows, hcols]
  rfl

/-- The constants of the input channels, each weighted by its kernel. -/
lemma sum_taps_constants (hfit : d.Fit attrs) (hpad : attrs.isPadded = false)
    (hrows : d.kernelRows = attrs.kernel.rows) (hcols : d.kernelCols = attrs.kernel.cols)
    {co oy ox : Nat} (hoy : oy < d.rows) (hox : ox < d.cols) (constant : Nat → α) :
    Element.sumFrom 0 ((d.taps attrs oy ox).map fun tap =>
        constant (d.firstChannel attrs co + tap.1) * w.get [co, tap.1, tap.2.1.1, tap.2.2.1]) =
      Element.sumFrom Element.negZero ((List.range d.perGroup).map fun ci =>
        constant (d.firstChannel attrs co + ci) *
          kernelSum w d.kernelRows d.kernelCols co ci) := by
  rw [Dims.taps_of_unpadded hfit hpad hrows hcols hoy hox, List.map_flatMap, Element.sum_flatMap,
    Element.IsExact.negZero_eq]
  congr 1
  refine List.map_congr_left fun ci _ => ?_
  rw [kernelSum, Element.laneSum_eq, Element.IsExact.mul_comm, ← Element.sum_mul]
  simp only [List.map_flatMap, List.map_map, Function.comp_def,
    Element.IsExact.mul_comm (constant _)]

/-- **A constant that is added to the image adds the constants pushed through the kernel to the
output of a convolution without padding.** -/
theorem conv2d_add {outChannels perGroup : Nat}
    (hw : attrs.FitsWeights w.shape outChannels perGroup) (hpad : attrs.isPadded = false)
    (hb : foldThroughKernel a w attrs.group = some b)
    (ht : Tensor.zipBroadcast (· + ·) x a = some t) (hshape : t.shape = x.shape)
    (hy : conv2d t w bias attrs = .ok y) :
    ∃ z, conv2d x w bias attrs = .ok z ∧ z.shape = y.shape ∧
      Tensor.zipBroadcast (· + ·) z b = some y := by
  have hjoin := broadcast_output_of_fold (outputShape_of_conv2d hy) hb
  obtain ⟨constant, hconst, rfl⟩ : ∃ constant,
      channelConstants a (perGroup * attrs.group) = some constant ∧
      (Tensor.ofFn [1, outChannels, 1, 1] fun idx =>
        Element.sumFrom Element.negZero ((List.range perGroup).map fun ci =>
          constant (idx.getD 1 0 / (outChannels / attrs.group) * perGroup + ci) *
            kernelSum w attrs.kernel.rows attrs.kernel.cols (idx.getD 1 0) ci)) = b := by
    simp only [foldThroughKernel, hw.shape] at hb
    split at hb
    · simp at hb
    · exact Option.map_eq_some_iff.1 hb
  refine conv2d_of_window hshape hy hjoin fun d offset idx hd hdw hfit hoffset hidx => ?_
  obtain ⟨n, co, oy, ox, rfl, -, hco, hoy, hox⟩ := Shape.exists_of_holds_four hidx
  obtain ⟨rfl, rfl, hrows, hcols⟩ := hw.numbers hdw
  -- Each term splits into the term of the image and the weighted constant of its channel.
  have hterm : (d.taps attrs oy ox).map (d.term attrs t w n co) =
      (d.taps attrs oy ox).map fun tap => d.term attrs x w n co tap +
        constant (d.firstChannel attrs co + tap.1) * w.get [co, tap.1, tap.2.1.1, tap.2.2.1] := by
    refine Dims.map_term_congr hfit hw.group_pos hw.group_dvd hidx fun ci ky iy kx ix hin => ?_
    have hchannel : d.firstChannel attrs co + ci < d.perGroup * attrs.group := by
      rw [hfit.channels]
      exact (Shape.holds_four.1 hin).2.1
    rw [Dims.term, Dims.term, Tensor.get_zipBroadcast ht hshape (hd ▸ hin),
      get_align_of_channelConstants hconst hchannel, Element.IsExact.add_mul]
  rw [Dims.window, Dims.window, hterm, Element.sum_map_add,
    sum_taps_constants hfit hpad hrows hcols hoy hox, Tensor.shape_ofFn, Shape.align_channels hco,
    Tensor.get_ofFn (Shape.holds_four.2 ⟨by omega, hco, by omega, by omega⟩), ← hrows, ← hcols]
  exact Element.add_right_comm _ _ _

end ConvFlow.Conv
