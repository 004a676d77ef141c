/-
# Graphs that can be written down

Written graphs hold extents as words of 32 bits, the numbers of an option as signed words of
64 bits, and tensors whose elements can be counted.  A graph is `Storable` if its own extents and
numbers fit.  Every graph that has been read is storable (`storable_of_toGraph`), and moving
operations past convolutions keeps it so (`Advances.storable`): the only new tensors are pushed
constants, which are as long as the weights have output channels.
-/
import ConvFlow.Proofs.Graph.Order
import ConvFlow.Proofs.Rules.Preservation
import ConvFlow.Proofs.Wire.Attributes

namespace ConvFlow

open Outcome

variable {α : Type}

/-- The extents can be written as words of 32 bits. -/
def Shape.FitsWords (s : Shape) : Prop := ∀ d ∈ s, d < UInt32.size

/-- The extents can be written, and the elements can be counted. -/
structure Tensor.Storable (t : Tensor α) : Prop where
  extents : t.shape.FitsWords
  count : Shape.size (t.shape.filter (· ≠ 0)) ≤ Wire.maxElements

/-- The numbers of the attributes can be written. -/
structure Conv.Attributes.Storable (a : Conv.Attributes) : Prop where
  kernel : Wire.FitsSigned a.kernel.toList
  pads : Wire.FitsSigned a.pads.toList
  strides : Wire.FitsSigned a.strides.toList
  dilations : Wire.FitsSigned a.dilations.toList

/-- The graph can be written down. -/
structure Graph.Storable (g : Graph α) : Prop where
  inputs : ∀ d ∈ g.inputs, d.shape.FitsWords
  constants : ∀ (v : String) (t : Tensor α), g.initializers[v]? = some t → t.Storable
  attributes : ∀ n ∈ g.nodes, ∀ attrs, n.op = .conv attrs → attrs.Storable

namespace Wire

/-! ## Tensors that are read -/

lemma fitsWords_toShape (s : List UInt32) : (toShape s).FitsWords := by
  intro d hd
  obtain ⟨w, -, rfl⟩ := List.mem_map.1 hd
  exact w.toNat_lt_size

lemma storable_of_toTensor {w : Tensor α} {t : ConvFlow.Tensor α} (h : w.toTensor = .ok t) :
    t.Storable := by
  rw [Tensor.toTensor] at h
  split at h
  · simp at h
  · rename_i hcount
    split at h
    · obtain rfl := Except.ok.inj h
      exact ⟨fitsWords_toShape w.shape, not_lt.1 hcount⟩
    · split at h <;> simp at h

/-- All constants of the table are storable. -/
def AllStorable (constants : NameMap (ConvFlow.Tensor α)) : Prop :=
  ∀ (v : String) (t : ConvFlow.Tensor α), constants[v]? = some t → t.Storable

lemma AllStorable.insert {constants : NameMap (ConvFlow.Tensor α)} (h : AllStorable constants)
    {t : ConvFlow.Tensor α} (ht : t.Storable) (name : String) :
    AllStorable (constants.insert name t) := by
  intro v u hv
  rw [NameMap.getElem?_insert] at hv
  split at hv
  · obtain rfl := Option.some.inj hv
    exact ht
  · exact h v u hv

lemma storable_of_toConstants {initializers : NameMap (Tensor α)}
    {constants : NameMap (ConvFlow.Tensor α)} (h : toConstants initializers = .ok constants) :
    AllStorable constants := by
  have hempty : AllStorable (∅ : NameMap (ConvFlow.Tensor α)) := by
    intro v t hv
    simp at hv
  refine foldlM_invariant (fun m c m' hm hstep => ?_) hempty h
  obtain ⟨t, ht, hinsert⟩ := bind_eq_ok_iff.1 hstep
  obtain rfl := Except.ok.inj hinsert
  exact hm.insert (storable_of_toTensor (mapError_eq_ok_iff.1 ht)) c.1

/-! ## Attributes that are read -/

section Attributes

variable {constants : NameMap (ConvFlow.Tensor α)} {n : Node} {node : String}

lemma Gives.fitsSigned {options : Json.Members} {attr : String} {usual : List Nat → Prop}
    {ns : List Nat} (h : Gives options attr usual ns) (husual : ∀ ms, usual ms → FitsSigned ms) :
    FitsSigned ns := by
  rcases h with ⟨-, hfits⟩ | ⟨-, hns⟩
  · exact hfits
  · exact husual ns hns

/-- The extents of weights that have been read are words. -/
lemma fitsSigned_weightsExtents (hconstants : AllStorable constants) {ns : List Nat}
    (h : WeightsExtents constants n ns) : FitsSigned ns := by
  obtain ⟨v, weights, outChannels, perGroup, -, hconstant, hshape⟩ := h
  intro d hd
  have hword : d < UInt32.size := (hconstants v weights hconstant).extents d (by simp [hshape, hd])
  exact hword.trans (by decide)

lemma storable_of_readAttributes (hconstants : AllStorable constants) {attrs : Conv.Attributes}
    (h : readAttributes constants n node = .ok attrs) : attrs.Storable := by
  obtain ⟨hdescribes, -⟩ := readAttributes_eq_ok_iff.1 h
  -- Where an option is missing, the numbers are zero or one.
  have hones : ∀ ms, ms = [1, 1] → FitsSigned ms := by
    rintro ms rfl
    decide
  have hzeros : ∀ ms, ms = [0, 0, 0, 0] → FitsSigned ms := by
    rintro ms rfl
    decide
  exact ⟨hdescribes.kernel.fitsSigned fun _ => fitsSigned_weightsExtents hconstants,
    hdescribes.pads.fitsSigned hzeros, hdescribes.strides.fitsSigned hones,
    hdescribes.dilations.fitsSigned hones⟩

end Attributes

/-! ## Graphs that are read -/

lemma storable_of_readOp {constants : NameMap (ConvFlow.Tensor α)} {n : Node} {node : String}
    (hconstants : AllStorable constants) {attrs : Conv.Attributes}
    (h : readOp constants n node = .ok (.conv attrs)) : attrs.Storable := by
  unfold readOp at h
  split at h
  · simp at h
  · simp at h
  · simp at h
  · simp at h
  · obtain ⟨attrs', hattrs, heq⟩ := map_eq_ok_iff.1 h
    obtain rfl := Op.conv.inj heq
    exact storable_of_readAttributes hconstants hattrs

lemma storable_of_toUnchecked {j : Graph α} {g : ConvFlow.Graph α}
    (h : j.toUnchecked = .ok g) : g.Storable := by
  simp only [Graph.toUnchecked, bind_eq_ok_iff, mapM_eq_ok_iff] at h
  obtain ⟨inputs, hinputs, constants, hconstants, nodes, hnodes, h⟩ := h
  obtain rfl := Except.ok.inj h
  have hstorable := storable_of_toConstants hconstants
  refine ⟨fun d hd => ?_, hstorable, fun n hn attrs hop => ?_⟩
  · obtain ⟨o, -, ho⟩ := exists_of_mem_forall₂ hinputs hd
    unfold Operand.toDecl at ho
    split at ho
    · obtain rfl := Except.ok.inj ho
      exact fitsWords_toShape o.shape
    · simp at ho
  · obtain ⟨⟨w, i⟩, -, hw⟩ := exists_of_mem_forall₂ hnodes hn
    obtain ⟨op, hread, heq⟩ := bind_eq_ok_iff.1 hw
    obtain rfl := Except.ok.inj heq
    obtain rfl : op = .conv attrs := hop
    exact storable_of_readOp hstorable hread

/-- **What has been read can be written down.** -/
theorem storable_of_toGraph {j : Graph α} {g : ConvFlow.Graph α} (h : j.toGraph = .ok g) :
    g.IsChecked ∧ g.Storable := by
  obtain ⟨unchecked, hread, hchecked⟩ := bind_eq_ok_iff.1 h
  rw [mapError_eq_ok_iff] at hchecked
  have hstorable := storable_of_toUnchecked hread
  refine ⟨ConvFlow.Graph.isChecked_of_checked hchecked, ?_⟩
  simp only [ConvFlow.Graph.checked, bind_eq_ok_iff, mapError_eq_ok_iff] at hchecked
  obtain ⟨sorted, hsorted, -, -, hinfer⟩ := hchecked
  obtain ⟨hperm, heq⟩ := ConvFlow.Graph.perm_of_sorted hsorted
  rw [ConvFlow.Graph.eq_of_inferShapes hinfer, heq]
  exact ⟨hstorable.inputs, hstorable.constants, fun n hn => hstorable.attributes n
    (hperm.mem_iff.1 hn)⟩

end Wire

/-! ## Moves -/

namespace Graph

variable [Element α] {g h k : Graph α}

/-- A pushed constant has one element for each output channel of the weights. -/
lemma storable_of_fold {addend weights folded : Tensor α} {group : Nat}
    (hfold : Conv.foldThroughKernel addend weights group = some folded)
    (hweights : weights.Storable) : folded.Storable := by
  have hshape := Conv.shape_foldThroughKernel hfold
  have hout : weights.shape.getD 0 0 < UInt32.size := by
    cases hw : weights.shape with
    | nil => decide
    | cons d rest => exact hweights.extents d (by simp [hw])
  generalize weights.shape.getD 0 0 = outChannels at hshape hout
  constructor
  · intro d hd
    simp only [hshape, List.mem_cons, List.not_mem_nil, or_false] at hd
    rcases hd with rfl | rfl | rfl | rfl
    · decide
    · exact hout
    · decide
    · decide
  · rw [hshape]
    by_cases hzero : outChannels = 0
    · subst hzero
      decide
    · have hsize : Shape.size ([1, outChannels, 1, 1].filter (· ≠ 0)) = outChannels := by
        simp [hzero, Shape.size]
      rw [hsize]
      exact Nat.le_of_lt (hout.trans (by decide))

/-- The constant that an operation reads after it has moved can be written. -/
lemma Pair.Legal.storable {p : Pair g} {value : Tensor α} (hlegal : p.Legal value)
    (hg : g.Storable) : value.Storable := by
  cases hlegal with
  | add _ _ _ hweights hfold => exact storable_of_fold hfold (hg.constants _ _ hweights)
  | mul _ _ hfactor _ => exact hg.constants _ _ hfactor

/-- A move keeps a graph storable. -/
lemma Advances.storable (hadvances : g.Advances k) (hchecked : g.IsChecked) (hg : g.Storable) :
    k.Storable := by
  have hkept := hadvances.preserves hchecked
  obtain ⟨h, ⟨p, name, value, hfree, hlegal, rfl⟩, hinfer⟩ := hadvances
  refine ⟨hkept.inputs ▸ hg.inputs, ?_, fun n hn attrs hop => ?_⟩
  · rw [eq_of_inferShapes hinfer]
    exact Wire.AllStorable.insert hg.constants (hlegal.storable hg) name
  · -- The same attributes stand at a node of `g`.
    have hmem : (n.name, n.op) ∈ g.nodes.map fun n => (n.name, n.op) :=
      hkept.operations.mem_iff.1 (List.mem_map.2 ⟨n, hn, rfl⟩)
    obtain ⟨m, hm, heq⟩ := List.mem_map.1 hmem
    obtain ⟨-, hsame⟩ := Prod.mk.inj heq
    exact hg.attributes m hm attrs (hsame.trans hop)

end Graph

end ConvFlow
