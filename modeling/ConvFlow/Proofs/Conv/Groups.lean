/-
# Groups as convolutions of their own

The channels of a grouped convolution fall into equal parts, and each part of the output is the
convolution without groups of one part of the image with one part of the weights and of the bias
(`conv2d_part`).  The terms of a window are the same in both, and in the same order, so this holds
of floats as well.
-/
import ConvFlow.Proofs.Conv.Window

namespace ConvFlow

namespace Tensor

variable {α : Type}

/-- Part `j` of a tensor that is cut along an axis into so many equal parts. -/
def part [Zero α] (t : Tensor α) (axis parts j : Nat) : Tensor α :=
  ofFn (t.shape.set axis (t.shape.getD axis 0 / parts)) fun idx =>
    t.get (idx.modify axis (j * (t.shape.getD axis 0 / parts) + ·))

/-- The tensor of the given shape whose channels are those of so many tensors, one after another. -/
def joinChannels [Zero α] (shape : Shape) (parts : Nat) (t : Nat → Tensor α) : Tensor α :=
  ofFn shape fun idx =>
    (t (idx.getD 1 0 / (shape.getD 1 0 / parts))).get
      (idx.modify 1 (· % (shape.getD 1 0 / parts)))

/-- The elements as a list of numbers, in row-major order. -/
def flatten (t : Tensor α) : Tensor α where
  shape := [t.size]
  data := t.data
  size_data := (Nat.mul_one _).symm

end Tensor

namespace Conv

open Outcome

/-- The same convolution without groups. -/
def Attributes.ungrouped (attrs : Attributes) : Attributes := { attrs with group := 1 }

/-- The bias of one group. -/
def biasPart {α : Type} [Zero α] (bias : Option (Tensor α)) (parts j : Nat) : Option (Tensor α) :=
  bias.map fun b => b.flatten.part 0 parts j

variable {attrs : Attributes}

namespace Dims

variable {d : Dims}

/-- The extents of the convolution for one of so many groups. -/
def part (d : Dims) (parts : Nat) : Dims :=
  { d with channels := d.channels / parts, outChannels := d.outChannels / parts }

lemma Fit.part (h : d.Fit attrs) (hgroup : 0 < attrs.group) :
    (d.part attrs.group).Fit attrs.ungrouped where
  channels := by
    show d.perGroup * 1 = d.channels / attrs.group
    rw [← h.channels, Nat.mul_div_cancel _ hgroup, Nat.mul_one]
  rows := h.rows
  cols := h.cols

/-- Of a single group all channels are seen. -/
lemma firstChannel_part {co : Nat} (hco : co < d.outChannels / attrs.group) :
    (d.part attrs.group).firstChannel attrs.ungrouped co = 0 := by
  show co / (d.outChannels / attrs.group / 1) * d.perGroup = 0
  rw [Nat.div_one, Nat.div_eq_of_lt hco, Nat.zero_mul]

/-- The output channels of group `j` see the input channels of group `j`. -/
lemma firstChannel_of_group (hfit : d.Fit attrs) (hgroup : 0 < attrs.group) {co j : Nat}
    (hco : co < d.outChannels / attrs.group) :
    d.firstChannel attrs (j * (d.outChannels / attrs.group) + co) =
      j * (d.channels / attrs.group) := by
  rw [firstChannel, Nat.mul_comm j, Nat.mul_add_div (by omega), Nat.div_eq_of_lt hco,
    Nat.add_zero, ← hfit.channels, Nat.mul_div_cancel _ hgroup]

end Dims

variable {α : Type} [Element α] {x w y : Tensor α} {bias : Option (Tensor α)} {d : Dims} {j : Nat}

/-! ## The parts of the operands -/

lemma shape_part_input (hx : x.shape = d.input) (parts j : Nat) :
    (x.part 1 parts j).shape = (d.part parts).input := by
  rw [Tensor.part, hx]
  rfl

lemma shape_part_weights (hw : w.shape = d.weights) (parts j : Nat) :
    (w.part 0 parts j).shape = (d.part parts).weights := by
  rw [Tensor.part, hw]
  rfl

lemma get_part_input (hx : x.shape = d.input) {parts n c iy ix : Nat}
    (hin : (d.part parts).input.Holds [n, c, iy, ix]) :
    (x.part 1 parts j).get [n, c, iy, ix] = x.get [n, j * (d.channels / parts) + c, iy, ix] := by
  rw [Tensor.part, hx]
  exact Tensor.get_ofFn hin

lemma get_part_weights (hw : w.shape = d.weights) {parts co ci ky kx : Nat}
    (hin : (d.part parts).weights.Holds [co, ci, ky, kx]) :
    (w.part 0 parts j).get [co, ci, ky, kx] =
      w.get [j * (d.outChannels / parts) + co, ci, ky, kx] := by
  rw [Tensor.part, hw]
  exact Tensor.get_ofFn hin

/-- The bias of a group is the bias of its output channels. -/
lemma biasValues_biasPart {count : Nat} {offset : Nat → α}
    (h : biasValues bias count = .ok offset) (parts j : Nat) :
    ∃ offset', biasValues (biasPart bias parts j) (count / parts) = .ok offset' ∧
      ∀ co < count / parts, offset' co = offset (j * (count / parts) + co) := by
  cases bias with
  | none =>
    obtain rfl := Except.ok.inj h
    exact ⟨_, rfl, fun co _ => rfl⟩
  | some b =>
    rw [biasValues] at h
    split at h
    · rename_i hsize
      subst hsize
      obtain rfl := Except.ok.inj h
      refine ⟨_, if_pos ((Tensor.size_data _).trans (Nat.mul_one _)), fun co hco => ?_⟩
      have hshape : (b.flatten.part 0 parts j).shape = [b.size / parts] := rfl
      show (b.flatten.part 0 parts j).data.getD co 0 =
        b.flatten.data.getD (j * (b.size / parts) + co) 0
      rw [Tensor.getD_data hshape, Tensor.getD_data rfl]
      exact Tensor.get_ofFn ⟨hco, trivial⟩
    · simp at h

lemma window_part (hx : x.shape = d.input) (hw : w.shape = d.weights) (hfit : d.Fit attrs)
    (hgroup : 0 < attrs.group) {offset offset' : Nat → α}
    (hoffset : ∀ co < d.outChannels / attrs.group,
      offset' co = offset (j * (d.outChannels / attrs.group) + co))
    {n co oy ox : Nat} (hidx : (d.part attrs.group).output.Holds [n, co, oy, ox]) :
    (d.part attrs.group).window attrs.ungrouped (x.part 1 attrs.group j) (w.part 0 attrs.group j)
        offset' [n, co, oy, ox] =
      d.window attrs x w offset [n, j * (d.outChannels / attrs.group) + co, oy, ox] := by
  obtain ⟨-, hco, -⟩ := Shape.holds_four.1 hidx
  have htaps : (d.part attrs.group).taps attrs.ungrouped oy ox = d.taps attrs oy ox := rfl
  rw [Dims.window, Dims.window, hoffset co hco, ← htaps]
  congr 2
  refine List.map_congr_left ?_
  rintro ⟨ci, ⟨ky, iy⟩, ⟨kx, ix⟩⟩ htap
  obtain ⟨himage, hweights⟩ := Dims.tap_within (hfit.part hgroup) Nat.one_pos (Nat.one_dvd _)
    hidx htap
  rw [Dims.term, Dims.term, get_part_input hx himage, get_part_weights hw hweights,
    Dims.firstChannel_part hco, Dims.firstChannel_of_group hfit hgroup hco, Nat.zero_add]

/-! ## The parts of the output -/

lemma mul_add_lt_of_part {count parts co : Nat} (hj : j < parts) (hco : co < count / parts) :
    j * (count / parts) + co < count := by
  have hnext : (j + 1) * (count / parts) ≤ parts * (count / parts) := Nat.mul_le_mul_right _ hj
  have hall := Nat.mul_div_le count parts
  rw [Nat.succ_mul] at hnext
  omega

/-- **Each part of the output is the convolution of a part of the image.** -/
lemma conv2d_part (hgroup : 0 < attrs.group) (hy : conv2d x w bias attrs = .ok y)
    (hj : j < attrs.group) :
    conv2d (x.part 1 attrs.group j) (w.part 0 attrs.group j) (biasPart bias attrs.group j)
      attrs.ungrouped = .ok (y.part 1 attrs.group j) := by
  obtain ⟨d, offset, hx, hw, hfit, hoffset, rfl⟩ := conv2d_eq_ok_iff.1 hy
  obtain ⟨offset', hoffset', hsame⟩ := biasValues_biasPart hoffset attrs.group j
  refine conv2d_eq_ok_iff.2 ⟨d.part attrs.group, offset', shape_part_input hx _ _,
    shape_part_weights hw _ _, hfit.part hgroup, hoffset', Tensor.ofFn_congr fun idx hidx => ?_⟩
  obtain ⟨n, co, oy, ox, rfl, hn, hco, hoy, hox⟩ := Shape.exists_of_holds_four hidx
  rw [window_part hx hw hfit hgroup hsame hidx]
  exact Tensor.get_ofFn (Shape.holds_four.2 ⟨hn, mul_add_lt_of_part hj hco, hoy, hox⟩)

/-- Cut into equal parts, the channels of an image can be joined again. -/
lemma joinChannels_part {parts : Nat} (hy : y.shape = d.output) (hdvd : parts ∣ d.outChannels)
    (hparts : 0 < parts) : Tensor.joinChannels y.shape parts (y.part 1 parts) = y := by
  conv_rhs => rw [← Tensor.ofFn_get y]
  refine Tensor.ofFn_congr fun idx hidx => ?_
  rw [hy] at hidx
  obtain ⟨n, co, oy, ox, rfl, hn, hco, hoy, hox⟩ := Shape.exists_of_holds_four hidx
  have hpos : 0 < d.outChannels / parts := Nat.div_pos (Nat.le_of_dvd (by omega) hdvd) hparts
  rw [hy, Tensor.part, hy]
  refine (Tensor.get_ofFn (Shape.holds_four.2 ⟨hn, Nat.mod_lt co hpos, hoy, hox⟩)).trans ?_
  show y.get [n, co / (d.outChannels / parts) * (d.outChannels / parts) +
    co % (d.outChannels / parts), oy, ox] = y.get [n, co, oy, ox]
  rw [Nat.div_add_mod']

/-- **A grouped convolution joins the convolutions of its groups.** -/
theorem conv2d_groups (hgroup : 0 < attrs.group) (hdvd : attrs.group ∣ w.shape.getD 0 0)
    (hy : conv2d x w bias attrs = .ok y) :
    ∃ z : Nat → Tensor α, y = Tensor.joinChannels y.shape attrs.group z ∧
      ∀ j < attrs.group, z j = y.part 1 attrs.group j ∧
        conv2d (x.part 1 attrs.group j) (w.part 0 attrs.group j) (biasPart bias attrs.group j)
          attrs.ungrouped = .ok (z j) ∧
        ∀ t : Tensor α, t.shape = x.shape → t.part 1 attrs.group j = x.part 1 attrs.group j →
          ∃ u, conv2d t w bias attrs = .ok u ∧ u.part 1 attrs.group j = z j := by
  refine ⟨y.part 1 attrs.group, ?_, fun j hj => ⟨rfl, conv2d_part hgroup hy hj, ?_⟩⟩
  · obtain ⟨d, offset, -, hw, -, -, rfl⟩ := conv2d_eq_ok_iff.1 hy
    rw [hw] at hdvd
    exact (joinChannels_part rfl hdvd hgroup).symm
  · intro t hshape hsame
    obtain ⟨u, hu⟩ := conv2d_of_shape_eq hshape hy
    have hpart := conv2d_part hgroup hu hj
    rw [hsame, conv2d_part hgroup hy hj] at hpart
    exact ⟨u, hu, (Except.ok.inj hpart).symm⟩

/-- An image of two columns with two channels in each of two groups. -/
def fourChannels : Tensor Rat := ⟨[1, 4, 1, 2], #[1, 2, 3, 4, 5, 6, 7, 8], rfl⟩

/-- The same image, where the channels of the first group are empty. -/
def twoChannels : Tensor Rat := ⟨[1, 4, 1, 2], #[0, 0, 0, 0, 5, 6, 7, 8], rfl⟩

/-- Two output channels for each group. -/
def fourKernels : Tensor Rat := ⟨[4, 2, 1, 1], #[1, 2, 3, 4, 5, 6, 7, 8], rfl⟩

/-- The output of the second group is that of its own kernels and bias, and it stays when the
channels of the first group are emptied. -/
theorem fourChannels_groups :
    ∃ (y u : Tensor Rat) (z : Nat → Tensor Rat),
      conv2d fourChannels fourKernels (some ⟨[4], #[10, 20, 30, 40], rfl⟩)
        { kernel := ⟨1, 1⟩, group := 2 } = .ok y ∧
      conv2d twoChannels fourKernels (some ⟨[4], #[10, 20, 30, 40], rfl⟩)
        { kernel := ⟨1, 1⟩, group := 2 } = .ok u ∧
      y = Tensor.joinChannels [1, 4, 1, 2] 2 z ∧ z 1 = y.part 1 2 1 ∧ z 1 = u.part 1 2 1 ∧
      conv2d (fourChannels.part 1 2 1) (fourKernels.part 0 2 1)
        (some ⟨[2], #[30, 40], rfl⟩) { kernel := ⟨1, 1⟩ } = .ok (z 1) ∧
      (z 1).data = #[97, 108, 131, 146] := by
  obtain ⟨y, hy⟩ : ∃ y, conv2d fourChannels fourKernels (some ⟨[4], #[10, 20, 30, 40], rfl⟩)
      { kernel := ⟨1, 1⟩, group := 2 } = .ok y := ⟨_, rfl⟩
  obtain ⟨z, hjoin, hz⟩ := conv2d_groups (by decide) (by decide) hy
  obtain ⟨hpart, hown, halone⟩ := hz 1 (by decide)
  obtain ⟨u, hu, hsame⟩ := halone twoChannels rfl (by decide +kernel)
  have hshape : y.shape = [1, 4, 1, 2] := (Except.ok.inj (outputShape_of_conv2d hy)).symm
  rw [hshape] at hjoin
  have hdata : (conv2d (fourChannels.part 1 2 1) (fourKernels.part 0 2 1)
      (some ⟨[2], #[30, 40], rfl⟩) { kernel := ⟨1, 1⟩ }).toOption.map (·.data) =
        some #[97, 108, 131, 146] := by
    decide +kernel
  have hown' : conv2d (fourChannels.part 1 2 1) (fourKernels.part 0 2 1)
      (some ⟨[2], #[30, 40], rfl⟩) { kernel := ⟨1, 1⟩ } = .ok (z 1) := hown
  rw [hown'] at hdata
  exact ⟨y, u, z, hy, hu, hjoin, hpart, hsame.symm, hown, Option.some.inj hdata⟩

end Conv

end ConvFlow
