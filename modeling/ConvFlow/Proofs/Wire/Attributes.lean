/-
# Which attributes the options of a convolution describe

The options of a written convolution are a JSON object.  Lists of numbers for the kernel, the
padding, the strides and the dilations and the number of groups are read from it one by one, and
what is missing gets its usual value; the kernel gets the extents of the constant weights.

`Describes` says which attributes an object stands for, without mentioning the readers.  The main
statement is `readAttributes_eq_ok_iff`: attributes are read exactly if the options describe them and
do not name a way of automatic padding that is not supported.
-/
import ConvFlow.Proofs.Graph.WellFormed
import ConvFlow.Wire.Conversion

namespace ConvFlow.Wire

open Outcome

variable {α : Type}

/-- The numbers can be written as signed words of 64 bits. -/
def FitsSigned (ns : List Nat) : Prop := ∀ n ∈ ns, n < 0x8000000000000000

instance (ns : List Nat) : Decidable (FitsSigned ns) :=
  inferInstanceAs (Decidable (∀ n ∈ ns, n < 0x8000000000000000))

/-! ## What options describe -/

/-- The option is the list of these numbers, and they fit into signed words; or it is missing, and
they are the numbers that are usual then. -/
def Gives (options : Json.Members) (attr : String) (usual : List Nat → Prop) (ns : List Nat) :
    Prop :=
  options.get? attr = some (Json.ofNats ns) ∧ FitsSigned ns ∨ options.get? attr = none ∧ usual ns

/-- The numbers are the spatial extents of the constant that the node reads as its weights. -/
def WeightsExtents (constants : NameMap (ConvFlow.Tensor α)) (n : Node) (ns : List Nat) : Prop :=
  ∃ v weights outChannels perGroup, n.inputs[1]? = some v ∧ constants[v]? = some weights ∧
    weights.shape = outChannels :: perGroup :: ns

/-- The options of the node describe a convolution with these attributes. -/
structure Describes (constants : NameMap (ConvFlow.Tensor α)) (n : Node)
    (attrs : Conv.Attributes) : Prop where
  kernel : Gives n.options "kernel_shape" (WeightsExtents constants n) attrs.kernel.toList
  pads : Gives n.options "pads" (· = [0, 0, 0, 0]) attrs.pads.toList
  strides : Gives n.options "strides" (· = [1, 1]) attrs.strides.toList
  dilations : Gives n.options "dilations" (· = [1, 1]) attrs.dilations.toList
  group : n.options.get? "group" = some (Json.ofNat attrs.group) ∨
    n.options.get? "group" = none ∧ attrs.group = 1
  group_pos : 0 < attrs.group
  steps : attrs.PositiveSteps

/-- The options do not name a way of automatic padding other than the two that mean none. -/
def NamesNoPadding (options : Json.Members) : Prop :=
  ∀ mode, options.get? "auto_pad" = some (.string mode) → mode = "NOTSET" ∨ mode = "VALID"

variable {options : Json.Members} {attr node : String} {ns : List Nat} {ks : List Int}
  {value : Json}

/-! ## Lists of numbers -/

lemma signedWord?_eq_some_iff {k : Int} : signedWord? value = some k ↔
    value = .number (.integer k) ∧ -0x8000000000000000 ≤ k ∧ k < 0x8000000000000000 := by
  unfold signedWord?
  split
  · rename_i m
    simp only [Option.ite_none_right_eq_some, Option.some.injEq, Json.number.injEq,
      Json.Number.integer.injEq]
    constructor
    · rintro ⟨hrange, rfl⟩
      exact ⟨rfl, hrange⟩
    · rintro ⟨rfl, hrange⟩
      exact ⟨hrange, rfl⟩
  · rename_i hother
    exact iff_of_false (by simp) fun h => hother k h.1

lemma signedWords?_eq_some_iff : signedWords? value = some ks ↔
    value = .array (ks.map fun k => .number (.integer k)) ∧
      ∀ k ∈ ks, -0x8000000000000000 ≤ k ∧ k < 0x8000000000000000 := by
  unfold signedWords?
  split
  · rename_i items
    rw [mapM_eq_some_iff, Json.array.injEq]
    constructor
    · intro h
      refine ⟨?_, fun k hk => ?_⟩
      · rw [← List.forall₂_eq_eq_eq, List.forall₂_map_right_iff]
        exact h.imp fun _ _ hword => (signedWord?_eq_some_iff.1 hword).1
      · obtain ⟨item, -, hitem⟩ := exists_of_mem_forall₂ h hk
        exact (signedWord?_eq_some_iff.1 hitem).2
    · rintro ⟨rfl, hrange⟩
      rw [List.forall₂_map_left_iff, List.forall₂_same]
      exact fun k hk => signedWord?_eq_some_iff.2 ⟨rfl, hrange k hk⟩
  · rename_i hother
    exact iff_of_false (by simp) fun h => hother _ h.1

lemma readIntegers_eq_ok_none_iff :
    readIntegers options attr node = .ok none ↔ options.get? attr = none := by
  unfold readIntegers
  split
  · simp [*]
  · split <;> simp [*]

lemma readIntegers_eq_ok_some_iff : readIntegers options attr node = .ok (some ks) ↔
    ∃ value, options.get? attr = some value ∧ signedWords? value = some ks := by
  unfold readIntegers
  split
  · simp [*]
  · split <;> simp [*]

lemma checkIntegers_eq_ok_iff {length : Nat} : checkIntegers length attr node ks = .ok ns ↔
    ks.length = length ∧ (∀ k ∈ ks, 0 ≤ k) ∧ ns = ks.map Int.toNat := by
  unfold checkIntegers
  split
  · rename_i hlen
    simp [hlen]
  · rename_i hlen
    rw [not_not] at hlen
    split
    · rename_i k hk
      have hneg : k < 0 := by simpa using List.find?_some hk
      refine iff_of_false (by simp) fun h => ?_
      exact absurd (h.2.1 k (List.mem_of_find?_eq_some hk)) (by omega)
    · rename_i hnone
      have hpos : ∀ k ∈ ks, 0 ≤ k := by simpa using List.find?_eq_none.1 hnone
      simp only [hlen, true_and, Except.ok.injEq, and_iff_right hpos]
      exact eq_comm

/-! ## Options that are lists of numbers

The readers of the kernel, the padding, the strides and the dilations differ in the number of the
entries and in what is made of them: `readPlane` and `readPadding` are `readNumbers`, by
definition. -/

/-- An option with so many numbers, made into a value, if it is given. -/
def readNumbers {β : Type} (length : Nat) (build : List Nat → β) (options : Json.Members)
    (attr node : String) : Except Error (Option β) := do
  match ← readIntegers options attr node with
  | none => return none
  | some ks => return some (build (← checkIntegers length attr node ks))

/-- Values that stand for the lists of so many numbers. -/
structure Lists {β : Type} (length : Nat) (build : List Nat → β) (toList : β → List Nat) :
    Prop where
  length_toList : ∀ b, (toList b).length = length
  build_toList : ∀ b, build (toList b) = b
  toList_build : ∀ ns, ns.length = length → toList (build ns) = ns

lemma lists_planeOf : Lists 2 planeOf Plane.toList where
  length_toList _ := rfl
  build_toList _ := rfl
  toList_build ns hlen := by
    obtain ⟨a, b, rfl⟩ := List.length_eq_two.1 hlen
    rfl

lemma lists_paddingOf : Lists 4 paddingOf Padding.toList where
  length_toList _ := rfl
  build_toList _ := rfl
  toList_build ns hlen := by
    obtain ⟨a, b, c, d, rfl⟩ := List.length_eq_four.1 hlen
    rfl

section Numbers

variable {β : Type} {length : Nat} {build : List Nat → β} {toList : β → List Nat} {b usual : β}

lemma readNumbers_eq_ok_none_iff :
    readNumbers length build options attr node = .ok none ↔ options.get? attr = none := by
  constructor
  · intro h
    obtain ⟨read, hread, h⟩ := bind_eq_ok_iff.1 h
    cases read with
    | none => exact readIntegers_eq_ok_none_iff.1 hread
    | some ks => simp [bind_eq_ok_iff] at h
  · intro h
    rw [readNumbers, readIntegers_eq_ok_none_iff.2 h]
    rfl

/-- A list of so many numbers that are not negative is read, and nothing else is. -/
lemma readNumbers_eq_ok_some_iff (hlists : Lists length build toList) :
    readNumbers length build options attr node = .ok (some b) ↔
      options.get? attr = some (Json.ofNats (toList b)) ∧ FitsSigned (toList b) := by
  constructor
  · intro h
    obtain ⟨read, hread, h⟩ := bind_eq_ok_iff.1 h
    cases read with
    | none => simp at h
    | some ks =>
      obtain ⟨ns, hcheck, h⟩ := bind_eq_ok_iff.1 h
      obtain rfl := Option.some.inj (Except.ok.inj h)
      obtain ⟨value, hget, hwords⟩ := readIntegers_eq_ok_some_iff.1 hread
      obtain ⟨rfl, hrange⟩ := signedWords?_eq_some_iff.1 hwords
      obtain ⟨hlen, hpos, rfl⟩ := checkIntegers_eq_ok_iff.1 hcheck
      rw [hlists.toList_build _ (by rw [List.length_map, hlen])]
      refine ⟨?_, fun n hn => ?_⟩
      · rw [hget, Json.ofNats, List.map_map]
        refine congrArg (fun items => some (Json.array items)) (List.map_congr_left ?_)
        intro k hk
        simp only [Function.comp_apply, Json.ofNat, Int.toNat_of_nonneg (hpos k hk)]
      · obtain ⟨k, hk, rfl⟩ := List.mem_map.1 hn
        have hk := hrange k hk
        omega
  · rintro ⟨hget, hfits⟩
    have hwords : signedWords? (Json.ofNats (toList b)) = some ((toList b).map Nat.cast) := by
      rw [signedWords?_eq_some_iff, Json.ofNats, List.map_map]
      refine ⟨rfl, fun k hk => ?_⟩
      obtain ⟨n, hn, rfl⟩ := List.mem_map.1 hk
      have hn := hfits n hn
      omega
    have hcheck : checkIntegers length attr node ((toList b).map Nat.cast) = .ok (toList b) := by
      rw [checkIntegers_eq_ok_iff, List.map_map, List.length_map]
      refine ⟨hlists.length_toList b, fun k hk => ?_, (List.map_id'' (fun _ => rfl) _).symm⟩
      obtain ⟨n, -, rfl⟩ := List.mem_map.1 hk
      exact Int.natCast_nonneg n
    rw [readNumbers, readIntegers_eq_ok_some_iff.2 ⟨_, hget, hwords⟩, ok_bind]
    simp only [hcheck, ok_bind, hlists.build_toList]
    rfl

/-- The numbers are read as given, or are the usual ones. -/
lemma exists_readNumbers_iff (hlists : Lists length build toList) :
    (∃ read, readNumbers length build options attr node = .ok read ∧ read.getD usual = b) ↔
      Gives options attr (· = toList usual) (toList b) := by
  constructor
  · rintro ⟨read, hread, rfl⟩
    cases read with
    | none => exact Or.inr ⟨readNumbers_eq_ok_none_iff.1 hread, rfl⟩
    | some b => exact Or.inl ((readNumbers_eq_ok_some_iff hlists).1 hread)
  · rintro (hgiven | ⟨hmissing, hb⟩)
    · exact ⟨some b, (readNumbers_eq_ok_some_iff hlists).2 hgiven, rfl⟩
    · refine ⟨none, readNumbers_eq_ok_none_iff.2 hmissing, ?_⟩
      rw [Option.getD_none, ← hlists.build_toList usual, ← hb, hlists.build_toList]

end Numbers

/-! ## The other options -/

lemma checkAutoPad_eq_ok_iff : checkAutoPad options node = .ok () ↔ NamesNoPadding options := by
  unfold checkAutoPad NamesNoPadding
  split
  · rename_i mode hget
    simp only [hget, Option.some.injEq, Json.string.injEq, forall_eq']
    split <;> simp [*]
  · rename_i hother
    exact iff_of_true rfl fun mode hget => absurd hget (hother mode)

lemma readGroup_eq_ok_iff {group : Nat} : readGroup options node = .ok group ↔
    (options.get? "group" = some (Json.ofNat group) ∨
      options.get? "group" = none ∧ group = 1) ∧ 0 < group := by
  unfold readGroup
  split
  · rename_i hmissing
    simp only [hmissing, Except.ok.injEq]
    simp
    omega
  · rename_i value hget
    rw [hget]
    split
    · rename_i k
      simp only [Json.ofNat, Option.some.injEq, Json.number.injEq, Json.Number.integer.injEq,
        reduceCtorEq, false_and, or_false]
      split
      · rw [Except.ok.injEq]
        omega
      · simp only [reduceCtorEq, false_iff]
        omega
    · rename_i hother
      refine iff_of_false (by simp) ?_
      rintro ⟨hvalue | ⟨hvalue, -⟩, -⟩
      · exact hother group (Option.some.inj hvalue)
      · simp at hvalue

variable {constants : NameMap (ConvFlow.Tensor α)} {n : Node} {attrs : Conv.Attributes}

lemma kernelOfShape_eq_ok_iff {shape : Shape} {k : Plane} : kernelOfShape node shape = .ok k ↔
    ∃ outChannels perGroup, shape = outChannels :: perGroup :: k.toList := by
  constructor
  · intro h
    unfold kernelOfShape at h
    split at h
    · rename_i outChannels perGroup rows cols
      obtain rfl := Except.ok.inj h
      exact ⟨outChannels, perGroup, rfl⟩
    · simp at h
  · rintro ⟨outChannels, perGroup, rfl⟩
    rfl

lemma readKernel_eq_ok_iff {k : Plane} : readKernel constants n node = .ok k ↔
    Gives n.options "kernel_shape" (WeightsExtents constants n) k.toList := by
  rw [readKernel, bind_eq_ok_iff]
  constructor
  · rintro ⟨read, hread, h⟩
    cases read with
    | some p =>
      obtain rfl := Except.ok.inj h
      exact Or.inl ((readNumbers_eq_ok_some_iff lists_planeOf).1 hread)
    | none =>
      refine Or.inr ⟨readNumbers_eq_ok_none_iff.1 hread, ?_⟩
      simp only at h
      split at h
      · rename_i weights hweights
        obtain ⟨v, hv, hconstant⟩ := Option.bind_eq_some_iff.1 hweights
        obtain ⟨outChannels, perGroup, hshape⟩ := kernelOfShape_eq_ok_iff.1 h
        exact ⟨v, weights, outChannels, perGroup, hv, hconstant, hshape⟩
      · simp at h
  · rintro (hgiven | ⟨hmissing, v, weights, outChannels, perGroup, hv, hconstant, hshape⟩)
    · exact ⟨some k, (readNumbers_eq_ok_some_iff lists_planeOf).2 hgiven, rfl⟩
    · refine ⟨none, readNumbers_eq_ok_none_iff.2 hmissing, ?_⟩
      simp only [hv, Option.bind_some, hconstant]
      exact kernelOfShape_eq_ok_iff.2 ⟨outChannels, perGroup, hshape⟩

/-- **Attributes are read exactly if the options describe them**, unless the options name a way of
automatic padding that is not supported. -/
theorem readAttributes_eq_ok_iff : readAttributes constants n node = .ok attrs ↔
    Describes constants n attrs ∧ NamesNoPadding n.options := by
  have hsteps : attrs.PositiveSteps ↔
      ¬(0 ∈ attrs.strides.toList ∨ 0 ∈ attrs.dilations.toList) := by
    rw [not_or]
    exact ConvFlow.Graph.positiveSteps_iff
  simp only [readAttributes, bind_eq_ok_iff]
  constructor
  · rintro ⟨kernel, hkernel, ⟨⟩, hauto, pads, hpads, strides, hstrides, dilations, hdilations,
      group, hgroup, h⟩
    split at h
    · simp at h
    · rename_i hnonzero
      obtain rfl := Except.ok.inj h
      obtain ⟨hgroup, hpos⟩ := readGroup_eq_ok_iff.1 hgroup
      exact ⟨⟨readKernel_eq_ok_iff.1 hkernel,
        (exists_readNumbers_iff lists_paddingOf).1 ⟨pads, hpads, rfl⟩,
        (exists_readNumbers_iff lists_planeOf).1 ⟨strides, hstrides, rfl⟩,
        (exists_readNumbers_iff lists_planeOf).1 ⟨dilations, hdilations, rfl⟩, hgroup, hpos,
        hsteps.2 hnonzero⟩, checkAutoPad_eq_ok_iff.1 hauto⟩
  · rintro ⟨h, hauto⟩
    obtain ⟨pads, hpads, heqp⟩ : ∃ read, readPadding n.options node = .ok read ∧
        read.getD Padding.none = attrs.pads := (exists_readNumbers_iff lists_paddingOf).2 h.pads
    obtain ⟨strides, hstrides, heqs⟩ : ∃ read, readPlane n.options "strides" node = .ok read ∧
        read.getD ⟨1, 1⟩ = attrs.strides := (exists_readNumbers_iff lists_planeOf).2 h.strides
    obtain ⟨dilations, hdilations, heqd⟩ : ∃ read,
        readPlane n.options "dilations" node = .ok read ∧ read.getD ⟨1, 1⟩ = attrs.dilations :=
      (exists_readNumbers_iff lists_planeOf).2 h.dilations
    refine ⟨_, readKernel_eq_ok_iff.2 h.kernel, (), checkAutoPad_eq_ok_iff.2 hauto, pads, hpads,
      strides, hstrides, dilations, hdilations, _,
      readGroup_eq_ok_iff.2 ⟨h.group, h.group_pos⟩, ?_⟩
    rw [heqp, heqs, heqd, if_neg (hsteps.1 h.steps)]
    rfl

end ConvFlow.Wire
