/-
# What the names of the sources stand for

Inference and execution start from the same two collections, the declared inputs and the
constants, but where a name is both, inference takes the constant (`getElem?_sourceShapes`) and
execution takes the tensor that is given for the input (`shape_of_start`).

The two agree on a name exactly if every declaration of it has the shape of the constant under it,
as far as there is one (`start_agrees_iff`).  Nothing that is checked ensures this: the graph at
the end of this file is accepted, and its input is recorded with the shape of a constant
(`preset_disagrees`).
-/
import ConvFlow.Proofs.Execution.Run

namespace ConvFlow

open Outcome

/-- Two optional values that replace each other leave the same value in either order exactly if
they are equal where both are present. -/
lemma or_eq_or_iff {β : Type} {x y : Option β} :
    x.or y = y.or x ↔ ∀ a b, x = some a → y = some b → b = a := by
  cases x with
  | none => simp
  | some a =>
    cases y with
    | none => simp
    | some b => simp [eq_comm]

namespace Graph

variable {α : Type} {g : Graph α} {v : String}

lemma declaredShapes_eq_none_iff : g.declaredShapes[v]? = none ↔ g.isInput v = false := by
  rw [getElem?_declaredShapes, Option.map_eq_none_iff, List.find?_eq_none, isInput,
    List.any_eq_false]
  simp only [List.mem_reverse]

lemma exists_declaredShape (hv : g.isInput v = true) : ∃ s, g.declaredShapes[v]? = some s := by
  rw [← Option.ne_none_iff_exists']
  intro hnone
  rw [declaredShapes_eq_none_iff.1 hnone] at hv
  exact Bool.noConfusion hv

lemma exists_declaration {s : Shape} (hs : g.declaredShapes[v]? = some s) :
    ∃ d ∈ g.inputs, d.name = v ∧ d.shape = s := by
  rw [getElem?_declaredShapes, Option.map_eq_some_iff] at hs
  obtain ⟨d, hd, hshape⟩ := hs
  have hmem : d ∈ g.inputs := List.mem_reverse.1 (List.mem_of_find?_eq_some hd)
  have hname : d.name = v := by simpa using List.find?_some hd
  exact ⟨d, hmem, hname, hshape⟩

/-- No declaration of the name contradicts a constant under the same name. -/
def DeclaredConsistently (g : Graph α) (v : String) : Prop :=
  ∀ d ∈ g.inputs, d.name = v → ∀ t, g.initializers[v]? = some t → t.shape = d.shape

end Graph

namespace Execution

open ConvFlow.Graph

variable {α : Type} {g₀ g : Graph α} {given : NameMap (Tensor α)} {start : Context α} {v : String}

/-! ## The two tables -/

/-- The tensor given for an input has the shape that inference reads off the declarations.  Of
several declarations inference records the last one; the given tensor suits all of them. -/
lemma shape_of_given (hgiven : Supplies given g.inputs) (hv : g.isInput v = true) :
    given[v]?.map Tensor.shape = g.declaredShapes[v]? := by
  obtain ⟨s, hs⟩ := exists_declaredShape hv
  obtain ⟨d, hd, hname, rfl⟩ := exists_declaration hs
  rw [hs, ← hname]
  exact hgiven d hd

/-- A run starts from tensors of the declared shapes, which take precedence over the constants. -/
lemma shape_of_start (hgiven : Supplies given g.inputs) (hstart : IsStart g given start)
    (v : String) : start[v]?.map Tensor.shape =
      g.declaredShapes[v]?.or (g.initializers[v]?.map Tensor.shape) := by
  rw [hstart v]
  cases hv : g.isInput v with
  | true =>
    obtain ⟨s, hs⟩ := exists_declaredShape hv
    rw [if_pos rfl, shape_of_given hgiven hv, hs, Option.some_or]
  | false =>
    rw [if_neg (by simp), declaredShapes_eq_none_iff.2 hv, Option.none_or]

/-- Every source has a tensor before the first node runs. -/
lemma exists_of_source (hgiven : Supplies given g.inputs) (hstart : IsStart g given start)
    (hv : v ∈ g.sources) : ∃ t, start[v]? = some t := by
  have hshape := shape_of_start hgiven hstart v
  rcases mem_sources_iff.1 hv with hinput | hconst
  · obtain ⟨s, hs⟩ := exists_declaredShape hinput
    rw [hs, Option.some_or] at hshape
    obtain ⟨t, ht, -⟩ := Option.map_eq_some_iff.1 hshape
    exact ⟨t, ht⟩
  · obtain ⟨c, hc⟩ := isInitializer_iff_exists.1 (isInitializer_iff.2 hconst)
    have hsome : start[v]?.isSome = true := by
      rw [← Option.isSome_map (f := Tensor.shape), hshape, hc, Option.isSome_or,
        Option.isSome_map, Option.isSome_some, Bool.or_true]
    exact Option.isSome_iff_exists.1 hsome

/-! ## Where they agree -/

/-- If all inputs are supplied, the declarations of a name are of one shape. -/
lemma declaredConsistently_iff (hgiven : Supplies given g.inputs) :
    g.DeclaredConsistently v ↔ ∀ s s', g.declaredShapes[v]? = some s →
      g.initializers[v]?.map Tensor.shape = some s' → s' = s := by
  constructor
  · intro hdeclared s s' hs hs'
    obtain ⟨d, hd, hname, rfl⟩ := exists_declaration hs
    obtain ⟨t, ht, rfl⟩ := Option.map_eq_some_iff.1 hs'
    exact hdeclared d hd hname t ht
  · intro hagree d hd hname t ht
    have hinput : g.isInput v = true := List.any_eq_true.2 ⟨d, hd, by simpa using hname⟩
    have hshape : g.declaredShapes[v]? = some d.shape := by
      rw [← shape_of_given hgiven hinput, ← hname, hgiven d hd]
    exact hagree d.shape t.shape hshape (by rw [ht, Option.map_some])

/-- **Inference and execution agree on a source exactly if its declaration does not contradict a
constant of the same name.**  On inputs of the declared shapes every source of a checked graph has
a tensor before the first node runs and a recorded shape; the shape is that of the tensor unless
the name is both an input and a constant of another shape. -/
theorem start_agrees_iff (hchecked : g₀.checked = .ok g) (hgiven : Supplies given g.inputs) :
    ∃ start, initialContext g given = .ok start ∧ ∀ v ∈ g.sources, ∃ t s,
      start[v]? = some t ∧ g.valueShapes[v]? = some s ∧
        (t.shape = s ↔ g.DeclaredConsistently v) := by
  have hg : g.IsChecked := isChecked_of_checked hchecked
  obtain ⟨start, hinitial, hstart⟩ := initialContext_of_supplies hgiven
  refine ⟨start, hinitial, fun v hv => ?_⟩
  obtain ⟨t, ht⟩ := exists_of_source hgiven hstart hv
  have htensor : g.declaredShapes[v]?.or (g.initializers[v]?.map Tensor.shape) =
      some t.shape := by
    rw [← shape_of_start hgiven hstart v, ht, Option.map_some]
  have hrecorded : g.valueShapes[v]? =
      (g.initializers[v]?.map Tensor.shape).or g.declaredShapes[v]? := by
    rw [hg.shapes.frame v (hg.wellFormed.source_notMem_written hv), getElem?_sourceShapes]
  obtain ⟨s, hs⟩ : ∃ s, g.valueShapes[v]? = some s := by
    rw [← Option.isSome_iff_exists, hrecorded, Option.isSome_or, Bool.or_comm,
      ← Option.isSome_or, htensor, Option.isSome_some]
  refine ⟨t, s, ht, hs, ?_⟩
  -- Both shapes are made of the same two, one replacing the other in either order.
  calc t.shape = s
      ↔ some t.shape = some s := by rw [Option.some.injEq]
    _ ↔ g.declaredShapes[v]?.or (g.initializers[v]?.map Tensor.shape) =
          (g.initializers[v]?.map Tensor.shape).or g.declaredShapes[v]? := by
        rw [htensor, ← hrecorded, hs]
    _ ↔ g.DeclaredConsistently v := by
        rw [or_eq_or_iff, declaredConsistently_iff hgiven]

/-- A graph with a constant under the name of its input. -/
def preset : Graph Rat where
  name := "preset"
  inputs := [⟨"x", [2]⟩, ⟨"u", [2]⟩]
  outputs := ["y"]
  nodes := [⟨"clip", .relu, ["x"], ["y"]⟩]
  initializers := Std.ExtTreeMap.ofList ([
    ("x", .fill [1] 5),
    ("u", .fill [2] 5)] : List (String × Tensor Rat)) compare
  valueShapes := ∅

/-- Inputs of the declared shapes. -/
def presetInput : NameMap (Tensor Rat) :=
  ((∅ : NameMap (Tensor Rat)).insert "x" (.fill [2] 1)).insert "u" (.fill [2] 1)

lemma preset_checked : ∃ g, preset.checked = .ok g ∧ Supplies presetInput g.inputs ∧
    g.sources = ["x", "u", "u", "x"] :=
  ⟨_, rfl, by decide +kernel, rfl⟩

/-- The preset graph starts with tensors for its inputs, and inference agrees on one of them. -/
theorem preset_starts : ∃ g start, preset.checked = .ok g ∧ Supplies presetInput g.inputs ∧
    initialContext g presetInput = .ok start ∧ ∀ v ∈ ["x", "u"], ∃ t s,
      start[v]? = some t ∧ g.valueShapes[v]? = some s ∧
        (t.shape = s ↔ g.DeclaredConsistently v) := by
  obtain ⟨g, hchecked, hgiven, hsources⟩ := preset_checked
  obtain ⟨start, hstart, hagrees⟩ := start_agrees_iff hchecked hgiven
  refine ⟨g, start, hchecked, hgiven, hstart, fun v hv => hagrees v ?_⟩
  rw [hsources]
  exact List.mem_append_left ["u", "x"] hv

/-- On the other input they do not agree: a run starts with two elements under its name, and the
recorded shape has one. -/
theorem preset_disagrees : ∃ g start t, preset.checked = .ok g ∧ Supplies presetInput g.inputs ∧
    initialContext g presetInput = .ok start ∧ start["x"]? = some t ∧ t.shape = [2] ∧
    g.valueShapes["x"]? = some [1] :=
  ⟨_, _, _, rfl, by decide +kernel, rfl, rfl, rfl, by decide +kernel⟩

end Execution

end ConvFlow
