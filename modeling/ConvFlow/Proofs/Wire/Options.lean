/-
# Which convolutions can be read

A written convolution is read exactly if its options describe one and do not name a way of
automatic padding that is not supported.  Whoever leaves an option out could as well have written
its usual value (`Usual`): the outcome is the same, also where reading fails.

The main statement is `toNode_conv`.  It asks of `auto_pad` only that a name given there is one of
two.  A value that is no name passes, whatever it is, as if the option were missing
(`numberedPadding_accepted`).
-/
import ConvFlow.Proofs.Wire.Storable

namespace ConvFlow.Wire

open Outcome

variable {α : Type} {constants : NameMap (ConvFlow.Tensor α)} {n : Node} {attr node : String}
  {value : Json}

/-- The usual value of each option. -/
inductive Usual (constants : NameMap (ConvFlow.Tensor α)) (n : Node) : String → Json → Prop
  | kernel {k : Plane} (extents : WeightsExtents constants n k.toList) :
      Usual constants n "kernel_shape" (Json.ofNats k.toList)
  | autoPad : Usual constants n "auto_pad" (.string "NOTSET")
  | pads : Usual constants n "pads" (Json.ofNats [0, 0, 0, 0])
  | strides : Usual constants n "strides" (Json.ofNats [1, 1])
  | dilations : Usual constants n "dilations" (Json.ofNats [1, 1])
  | group : Usual constants n "group" (Json.ofNat 1)

/-- The node with one of its options set. -/
def Node.setOption (n : Node) (attr : String) (value : Json) : Node :=
  { n with options := n.options.set attr value }

/-! ## Writing a missing option -/

section Set

variable {options : Json.Members} {key : String}

lemma get?_set_of_ne (h : key ≠ attr) : (options.set attr value).get? key = options.get? key := by
  rw [Json.Members.get?_set, if_neg h]

lemma get?_set_self : (options.set attr value).get? attr = some value := by
  rw [Json.Members.get?_set, if_pos rfl]

lemma readIntegers_set_of_ne (h : key ≠ attr) :
    readIntegers (options.set attr value) key node = readIntegers options key node := by
  simp only [readIntegers, get?_set_of_ne h]

lemma readPlane_set_of_ne (h : key ≠ attr) :
    readPlane (options.set attr value) key node = readPlane options key node := by
  simp only [readPlane, readIntegers_set_of_ne h]

lemma readPadding_set_of_ne (h : "pads" ≠ attr) :
    readPadding (options.set attr value) node = readPadding options node := by
  simp only [readPadding, readIntegers_set_of_ne h]

lemma checkAutoPad_set_of_ne (h : "auto_pad" ≠ attr) :
    checkAutoPad (options.set attr value) node = checkAutoPad options node := by
  simp only [checkAutoPad, get?_set_of_ne h]

lemma readGroup_set_of_ne (h : "group" ≠ attr) :
    readGroup (options.set attr value) node = readGroup options node := by
  simp only [readGroup, get?_set_of_ne h]

end Set

section Missing

variable (husual : Usual constants n attr value) (hmissing : n.options.get? attr = none)

include husual hmissing

lemma readKernel_setOption (hconstants : AllStorable constants) :
    readKernel constants (n.setOption attr value) node = readKernel constants n node := by
  cases husual with
  | kernel extents =>
    have hfits := fitsSigned_weightsExtents hconstants extents
    rw [readKernel_eq_ok_iff.2 (Or.inr ⟨hmissing, extents⟩)]
    exact readKernel_eq_ok_iff.2 (Or.inl ⟨get?_set_self, hfits⟩)
  | _ => simp (disch := decide) only [readKernel, Node.setOption, readPlane_set_of_ne]

lemma checkAutoPad_setOption :
    checkAutoPad (n.setOption attr value).options node = checkAutoPad n.options node := by
  cases husual with
  | autoPad =>
    simp only [checkAutoPad, Node.setOption, get?_set_self, hmissing, true_or, if_true]
  | _ => exact checkAutoPad_set_of_ne (by decide)

lemma readPadding_setOption :
    (readPadding (n.setOption attr value).options node).map (·.getD Padding.none) =
      (readPadding n.options node).map (·.getD Padding.none) := by
  cases husual with
  | pads =>
    have hread : readPadding n.options node = .ok none := readNumbers_eq_ok_none_iff.2 hmissing
    have hwritten : readPadding (n.setOption "pads" (Json.ofNats [0, 0, 0, 0])).options node =
        .ok (some Padding.none) :=
      (readNumbers_eq_ok_some_iff lists_paddingOf).2 ⟨get?_set_self, by decide⟩
    rw [hread, hwritten]
    rfl
  | _ =>
    rw [Node.setOption, readPadding_set_of_ne (by decide)]

lemma readPlane_setOption {key : String} (hkey : key = "strides" ∨ key = "dilations") :
    (readPlane (n.setOption attr value).options key node).map (·.getD ⟨1, 1⟩) =
      (readPlane n.options key node).map (·.getD ⟨1, 1⟩) := by
  have hcases : key ≠ attr ∨ value = Json.ofNats [1, 1] := by
    cases husual with
    | strides | dilations => exact Or.inr rfl
    | _ =>
      rcases hkey with rfl | rfl
      all_goals exact Or.inl (by decide)
  by_cases hne : key = attr
  · obtain rfl := hcases.resolve_left (not_not.2 hne)
    subst hne
    have hread : readPlane n.options key node = .ok none := readNumbers_eq_ok_none_iff.2 hmissing
    have hwritten : readPlane (n.setOption key (Json.ofNats [1, 1])).options key node =
        .ok (some ⟨1, 1⟩) :=
      (readNumbers_eq_ok_some_iff lists_planeOf).2 ⟨get?_set_self, by decide⟩
    rw [hread, hwritten]
    rfl
  · rw [Node.setOption, readPlane_set_of_ne hne]

lemma readGroup_setOption :
    readGroup (n.setOption attr value).options node = readGroup n.options node := by
  cases husual with
  | group =>
    simp only [readGroup, Node.setOption, get?_set_self, hmissing]
    rfl
  | _ => exact readGroup_set_of_ne (by decide)

omit husual hmissing in
/-- Attributes are put together from what each option stands for. -/
lemma readAttributes_eq : readAttributes constants n node = (do
    let kernel ← readKernel constants n node
    checkAutoPad n.options node
    let pads ← (readPadding n.options node).map (·.getD Padding.none)
    let strides ← (readPlane n.options "strides" node).map (·.getD ⟨1, 1⟩)
    let dilations ← (readPlane n.options "dilations" node).map (·.getD ⟨1, 1⟩)
    let group ← readGroup n.options node
    if 0 ∈ strides.toList ∨ 0 ∈ dilations.toList then
      throw (.invalidAttribute "strides/dilations" node .zeroStep)
    return { kernel, pads, strides, dilations, group }) := by
  simp only [readAttributes, map_bind]

/-- **Writing the usual value of a missing option changes nothing.** -/
lemma readAttributes_setOption (hconstants : AllStorable constants) :
    readAttributes constants (n.setOption attr value) node = readAttributes constants n node := by
  rw [readAttributes_eq, readAttributes_eq, readKernel_setOption husual hmissing hconstants,
    checkAutoPad_setOption husual hmissing, readPadding_setOption husual hmissing,
    readPlane_setOption husual hmissing (Or.inl rfl),
    readPlane_setOption husual hmissing (Or.inr rfl), readGroup_setOption husual hmissing]

end Missing

/-! ## Convolutions -/

lemma readOp_conv (hop : n.op = "Conv") :
    readOp constants n node = (readAttributes constants n node).map .conv := by
  have hkind : OpKind.ofName? n.op = some .conv := by rw [hop]; rfl
  rw [readOp, hkind]

/-- **Which convolutions are read, and as what.**  A written convolution is read exactly if its
options describe attributes and do not name an unsupported way of automatic padding, and it is read
as the convolution with these attributes.  Writing the usual value of a missing option changes
nothing. -/
theorem toNode_conv {initializers : NameMap (Tensor α)}
    (hconstants : toConstants initializers = .ok constants) (hop : n.op = "Conv")
    (position : Nat) :
    (∀ m, n.toNode constants position = .ok m ↔ ∃ attrs, Describes constants n attrs ∧
      NamesNoPadding n.options ∧ m =
        { name := n.name.getD s!"{n.op}_{position}"
          op := .conv attrs
          inputs := n.inputs
          outputs := n.outputs }) ∧
    ∀ attr value, Usual constants n attr value → n.options.get? attr = none →
      (n.setOption attr value).toNode constants position = n.toNode constants position := by
  constructor
  · intro m
    rw [Node.toNode, readOp_conv hop, bind_eq_ok_iff]
    constructor
    · rintro ⟨op, hread, h⟩
      obtain ⟨attrs, hattrs, rfl⟩ := map_eq_ok_iff.1 hread
      obtain ⟨hdescribes, hpadding⟩ := readAttributes_eq_ok_iff.1 hattrs
      exact ⟨attrs, hdescribes, hpadding, (Except.ok.inj h).symm⟩
    · rintro ⟨attrs, hdescribes, hpadding, rfl⟩
      refine ⟨.conv attrs, map_eq_ok_iff.2 ⟨attrs, ?_, rfl⟩, rfl⟩
      exact readAttributes_eq_ok_iff.2 ⟨hdescribes, hpadding⟩
  · intro attr value husual hmissing
    have hop' : (n.setOption attr value).op = "Conv" := hop
    have hread : readAttributes constants (n.setOption attr value)
        (n.name.getD s!"{n.op}_{position}") =
          readAttributes constants n (n.name.getD s!"{n.op}_{position}") :=
      readAttributes_setOption husual hmissing (storable_of_toConstants hconstants)
    rw [Node.toNode, Node.toNode, readOp_conv hop', readOp_conv hop, ← hread]
    rfl

/-- One constant: weights for a kernel of three rows and two columns. -/
def kernelOnly : NameMap (Tensor Rat) :=
  Std.ExtTreeMap.ofList ([("w", ⟨[1, 1, 3, 2], #[1, 2, 3, 4, 5, 6]⟩)] : List (String × Tensor Rat))
    compare

/-- A convolution that leaves its kernel to the weights and names its padding. -/
def namedPadding : Node where
  name := none
  op := "Conv"
  inputs := ["x", "w"]
  outputs := ["y"]
  options := [("auto_pad", .string "VALID"), ("strides", Json.ofNats [2, 1])]

/-- The convolution is read with the extents of its weights as its kernel, and without padding; so
it is if these are written down. -/
theorem namedPadding_read : ∃ constants, toConstants kernelOnly = .ok constants ∧
    (∃ m, namedPadding.toNode constants 4 = .ok m ∧ m.name = "Conv_4" ∧
      m.op = .conv { kernel := ⟨3, 2⟩, strides := ⟨2, 1⟩ }) ∧
    ∀ attr value, Usual constants namedPadding attr value →
      namedPadding.options.get? attr = none →
      (namedPadding.setOption attr value).toNode constants 4 =
        namedPadding.toNode constants 4 := by
  obtain ⟨constants, hconstants, hweights⟩ : ∃ constants, toConstants kernelOnly = .ok constants ∧
      ∃ t, constants["w"]? = some t ∧ t.shape = [1, 1, 3, 2] := ⟨_, rfl, _, rfl, rfl⟩
  obtain ⟨weights, hget, hshape⟩ := hweights
  obtain ⟨hread, hset⟩ := toNode_conv hconstants (rfl : namedPadding.op = "Conv") 4
  refine ⟨constants, hconstants, ⟨_, (hread _).2 ⟨{ kernel := ⟨3, 2⟩, strides := ⟨2, 1⟩ }, ?_, ?_,
    rfl⟩, rfl, rfl⟩, hset⟩
  · constructor
    case kernel => exact Or.inr ⟨rfl, "w", weights, 1, 1, rfl, hget, hshape⟩
    case pads => exact Or.inr ⟨rfl, rfl⟩
    case strides => exact Or.inl ⟨rfl, by decide⟩
    case dilations => exact Or.inr ⟨rfl, rfl⟩
    case group => exact Or.inr ⟨rfl, rfl⟩
    case group_pos => decide
    case steps => exact ⟨by decide, by decide, by decide, by decide⟩
  · intro mode hmode
    exact Or.inr (Json.string.inj (Option.some.inj hmode)).symm

/-- Automatic padding is not mentioned, or has one of the two names that mean none. -/
def StatesNoPadding (options : Json.Members) : Prop :=
  options.get? "auto_pad" = none ∨ options.get? "auto_pad" = some (.string "NOTSET") ∨
    options.get? "auto_pad" = some (.string "VALID")

/-- A convolution with a number for its way of automatic padding. -/
def numberedPadding : Node :=
  { namedPadding with options := [("auto_pad", Json.ofNat 1)] }

/-- The number is no name, and yet the convolution is read. -/
theorem numberedPadding_accepted : ∃ constants, toConstants kernelOnly = .ok constants ∧
    ¬((∃ m, numberedPadding.toNode constants 0 = .ok m) ↔
      ∃ attrs, Describes constants numberedPadding attrs ∧
        StatesNoPadding numberedPadding.options) := by
  refine ⟨_, rfl, fun hiff => ?_⟩
  obtain ⟨attrs, -, hstates⟩ := hiff.1 ⟨_, rfl⟩
  have hget : numberedPadding.options.get? "auto_pad" = some (Json.ofNat 1) := rfl
  rw [StatesNoPadding, hget] at hstates
  simp [Json.ofNat] at hstates

end ConvFlow.Wire
