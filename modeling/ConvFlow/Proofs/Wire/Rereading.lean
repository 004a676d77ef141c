/-
# Reading written graphs again

Every record of the written form is read as it was written: names and options that are left out are
found missing, extents are natural numbers, and options that have been read once fit into the room
and have different names.  Only the elements of constants may get lost.  A number beyond single
precision is read as an infinite element, and an infinite element is written as null, which is not
read as an element.

So a graph that has been read survives being written and read again exactly if its constants are
finite (`decode_encode`).  The numbers inside options and the finite elements are assumed to be read
as they are written, which depends on their digits alone (`Graph.NumbersReadBack`).
-/
import ConvFlow.Proofs.Graph.Shapes
import ConvFlow.Proofs.Json.ReadBack
import ConvFlow.Wire.Codec

namespace ConvFlow

open Outcome

namespace Wire

open Json (Decoder Fields Legible Problem ReadsBack)

/-! ## Extents and names -/

lemma readsBack_shape (shape : List UInt32) :
    ReadsBack decodeShape (encodeShape shape) (.ok shape) := by
  have hword (d : UInt32) : ReadsBack Decoder.word32 (Json.ofNat d.toNat) (.ok d) := by
    have h := Json.readsBack_below d.toNat_lt (by decide)
    refine ⟨h.legible, ?_⟩
    rw [Decoder.word32, h.decoded, map_ok, UInt32.ofNat_toNat]
  rw [encodeShape, Json.ofNats, List.map_map]
  exact Json.readsBack_listOf_self fun d _ => hword d

lemma readsBack_names (names : List String) :
    ReadsBack decodeNames (Json.ofStrings names) (.ok names) :=
  Json.readsBack_listOf_self fun s _ => Json.readsBack_text s

/-! ## Inputs and tensors -/

lemma readsBack_dataType (d : DataType) :
    ReadsBack (Decoder.oneOf DataType.named) (.string d.name) (.ok d) := by
  refine ⟨(Json.readsBack_text d.name).legible, ?_⟩
  cases d <;> rfl

lemma readsBack_operand (o : Operand) : ReadsBack Operand.decode o.encode (.ok o) := by
  have hname := Json.readsBack_text o.name
  have htype := readsBack_dataType o.dataType
  have hshape := readsBack_shape o.shape
  refine Json.readsBack_record (by decide) (List.Sublist.refl _) ?_ ?_
  · simp only [List.forall_mem_cons]
    exact ⟨hname.legible, htype.legible, hshape.legible, fun _ hm => nomatch hm⟩
  · rw [Json.required_ofPrinted rfl hname, Json.required_ofPrinted rfl htype,
      Json.required_ofPrinted rfl hshape]
    rfl

/-- All elements of a tensor are finite. -/
def Tensor.isFinite (t : Tensor Float32) : Bool := t.data.toList.all Float32.isFinite

/-- The text of a finite element is read as that element. -/
def ElementReadsBack (x : Float32) : Prop :=
  x.isFinite = true → Decoder.ofText Decoder.single (Json.Number.single x).text = .ok x

/-- An element that is no finite number is written as null, which is no number. -/
lemma readsBack_element {x : Float32} (hx : ElementReadsBack x) :
    ReadsBack Decoder.single (Json.ofSingle x) (if x.isFinite then .ok x else .error .unfit) := by
  rw [Json.ofSingle]
  split
  · next hfinite => exact Json.readsBack_single (hx hfinite)
  · exact ⟨fun _ hn => (nomatch hn), rfl⟩

/-- The members of a written tensor. -/
def Tensor.members (t : Tensor Float32) : Json.Members :=
  [("shape", encodeShape t.shape), ("data", .array (t.data.toList.map Json.ofSingle))]

lemma readsBack_tensor {t : Tensor Float32} (ht : ∀ x ∈ t.data.toList, ElementReadsBack x) :
    ReadsBack Tensor.decode t.encode (if t.isFinite then .ok t else .error .unfit) := by
  have hshape := readsBack_shape t.shape
  have hdata := Json.readsBack_listOf_ite fun x hx => readsBack_element (ht x hx)
  have hlegible : ∀ m ∈ t.members, Legible m.2 := by
    simp only [Tensor.members, List.forall_mem_cons]
    exact ⟨hshape.legible, hdata.legible, fun _ hm => nomatch hm⟩
  have hshape' : (Fields.ofPrinted t.members).required "shape" decodeShape = .ok t.shape :=
    Json.required_ofPrinted rfl hshape
  show ReadsBack Tensor.decode (.object t.members) _
  rw [Tensor.isFinite]
  cases hfinite : t.data.toList.all Float32.isFinite with
  | true =>
    rw [hfinite, if_pos rfl] at hdata
    have hdata' : (Fields.ofPrinted t.members).required "data" (Decoder.listOf Decoder.single)
        = .ok t.data.toList := Json.required_ofPrinted rfl hdata
    refine Json.readsBack_record (by decide) (List.Sublist.refl _) hlegible ?_
    rw [hshape', hdata']
    rfl
  | false =>
    rw [hfinite, if_neg Bool.false_ne_true] at hdata
    obtain ⟨place, hdata'⟩ : ∃ place, (Fields.ofPrinted t.members).required "data"
        (Decoder.listOf Decoder.single) = .error (place, .unfit) :=
      Json.required_ofPrinted_error rfl hdata
    refine Json.readsBack_record_error (by decide) (List.Sublist.refl _) hlegible ⟨place, ?_⟩
    rw [hshape', hdata']
    rfl

/-! ## Nodes -/

/-- A name that is not given is found missing. -/
lemma optional_name {rest : Json.Members} (name : Option String)
    (hrest : rest.get? "name" = none) :
    (Fields.ofPrinted (nameField name ++ rest)).optional "name" none
      (Decoder.nullable Decoder.text) = .ok name := by
  cases name with
  | none => exact Json.optional_ofPrinted_missing hrest
  | some s =>
    have hname : ReadsBack (Decoder.nullable Decoder.text) (.string s) (.ok (some s)) :=
      ⟨(Json.readsBack_text s).legible, rfl⟩
    exact Json.optional_ofPrinted rfl hname

lemma legible_nameField (name : Option String) : ∀ m ∈ nameField name, Legible m.2 := by
  intro m hm
  cases name with
  | none => cases hm
  | some s =>
    obtain rfl := List.mem_singleton.1 hm
    exact (Json.readsBack_text s).legible

/-- The field for options, if there are any. -/
def optionsField (options : Json.Members) : Json.Members :=
  if options.isEmpty then [] else [("options", .object options)]

/-- The members of a written node. -/
def Node.members (n : Node) : Json.Members :=
  nameField n.name ++ ([("op", .string n.op), ("inputs", Json.ofStrings n.inputs),
    ("outputs", Json.ofStrings n.outputs)] ++ optionsField n.options)

lemma Node.encode_eq (n : Node) : n.encode = .object n.members := by
  rw [Node.encode, Node.members, List.append_assoc, optionsField]

lemma Node.names_sublist (n : Node) :
    (Json.Members.names n.members).Sublist ["name", "op", "inputs", "outputs", "options"] := by
  have hname : (Json.Members.names (nameField n.name)).Sublist ["name"] := by
    cases n.name with
    | none => exact List.nil_sublist _
    | some s => exact List.Sublist.refl _
  have hoptions : (Json.Members.names (optionsField n.options)).Sublist ["options"] := by
    rw [optionsField]
    split
    · exact List.nil_sublist _
    · exact List.Sublist.refl _
  simp only [Node.members, Json.Members.names, List.map_append]
  exact hname.append ((List.Sublist.refl ["op", "inputs", "outputs"]).append hoptions)

lemma readsBack_node {n : Node} {t : Json.Tree}
    (hoptions : Decoder.members optionsRoom t = .ok n.options)
    (hnumbers : ∀ m ∈ Json.memberNumbers n.options,
      Decoder.ofText Decoder.json m.text = .ok (.number m)) :
    ReadsBack Node.decode n.encode (.ok n) := by
  have hop := Json.readsBack_text n.op
  have hinputs := readsBack_names n.inputs
  have houtputs := readsBack_names n.outputs
  have hoptions := Json.readsBack_members hoptions hnumbers
  have hlegible : ∀ m ∈ n.members, Legible m.2 := by
    simp only [Node.members, List.forall_mem_append, List.forall_mem_cons]
    refine ⟨legible_nameField n.name,
      ⟨hop.legible, hinputs.legible, houtputs.legible, fun _ hm => nomatch hm⟩, ?_⟩
    rw [optionsField]
    split
    · exact fun _ hm => nomatch hm
    · exact List.forall_mem_singleton.2 hoptions.legible
  have hname' : (Fields.ofPrinted n.members).optional "name" none
      (Decoder.nullable Decoder.text) = .ok n.name := by
    refine optional_name n.name ?_
    rw [optionsField]
    split <;> rfl
  have hop' : (Fields.ofPrinted n.members).required "op" Decoder.text = .ok n.op :=
    Json.required_ofPrinted (by rw [Node.members]; cases n.name <;> rfl) hop
  have hinputs' : (Fields.ofPrinted n.members).required "inputs" decodeNames = .ok n.inputs :=
    Json.required_ofPrinted (by rw [Node.members]; cases n.name <;> rfl) hinputs
  have houtputs' : (Fields.ofPrinted n.members).required "outputs" decodeNames = .ok n.outputs :=
    Json.required_ofPrinted (by rw [Node.members]; cases n.name <;> rfl) houtputs
  have hoptions' : (Fields.ofPrinted n.members).optional "options" []
      (Decoder.members optionsRoom) = .ok n.options := by
    cases hempty : n.options.isEmpty with
    | true =>
      have hmissing : n.members.get? "options" = none := by
        rw [Node.members, optionsField, hempty]
        cases n.name <;> rfl
      rw [Json.optional_ofPrinted_missing hmissing, List.isEmpty_iff.1 hempty]
    | false =>
      have hpresent : n.members.get? "options" = some (.object n.options) := by
        rw [Node.members, optionsField, hempty]
        cases n.name <;> rfl
      exact Json.optional_ofPrinted hpresent hoptions
  rw [Node.encode_eq]
  refine Json.readsBack_record (by decide) n.names_sublist hlegible ?_
  rw [hname', hop', hinputs', houtputs', hoptions']
  rfl

/-! ## Graphs -/

/-- All elements of the constants are finite. -/
def Graph.isFinite (g : Graph Float32) : Bool :=
  g.initializers.toList.all fun c => c.2.isFinite

/-- The texts of the numbers of a graph are read as those numbers. -/
structure Graph.NumbersReadBack (g : Graph Float32) : Prop where
  /-- The finite elements of the constants. -/
  elements : ∀ c ∈ g.initializers.toList, ∀ x ∈ c.2.data.toList, ElementReadsBack x
  /-- The numbers in the options of the nodes. -/
  options : ∀ n ∈ g.nodes, ∀ m ∈ Json.memberNumbers n.options,
    Decoder.ofText Decoder.json m.text = .ok (.number m)

/-- The members of a written graph. -/
def Graph.members (g : Graph Float32) : Json.Members :=
  nameField g.name ++ [("inputs", .array (g.inputs.map Operand.encode)),
    ("outputs", Json.ofStrings g.outputs),
    ("initializers", .object (g.initializers.toList.map fun c => (c.1, c.2.encode))),
    ("nodes", .array (g.nodes.map Node.encode))]

lemma readsBack_constants {g : Graph Float32} (hg : g.NumbersReadBack) :
    ReadsBack (Decoder.mapOf Tensor.decode)
      (.object (g.initializers.toList.map fun c => (c.1, c.2.encode)))
      (if g.isFinite then .ok g.initializers else .error .unfit) := by
  have hentries := Json.readsBack_entriesOf (f := Tensor.encode)
    (r := fun t => if t.isFinite then .ok t else .error .unfit)
    fun c hc => readsBack_tensor (hg.elements c hc)
  have houtcome : (g.initializers.toList.mapM fun c =>
      (if c.2.isFinite then Except.ok c.2 else .error Problem.unfit).map fun t => (c.1, t))
        = if g.isFinite then .ok g.initializers.toList else .error .unfit := by
    have hsame : ∀ c ∈ g.initializers.toList,
        (if c.2.isFinite then Except.ok c.2 else .error Problem.unfit).map (fun t => (c.1, t))
          = if c.2.isFinite then .ok c else .error .unfit := fun c _ => by
      split <;> rfl
    rw [mapM_congr hsame, mapM_ite, List.map_id', Graph.isFinite]
  rw [houtcome] at hentries
  refine ⟨hentries.legible, ?_⟩
  rw [Decoder.mapOf, hentries.decoded]
  split
  · rw [map_ok, Std.ExtTreeMap.ofList_eq_foldl, NameMap.foldl_insert_toList]
  · rfl

lemma readsBack_graph {g : Graph Float32} (hg : g.NumbersReadBack)
    (hoptions : ∀ n ∈ g.nodes, ∃ t, Decoder.members optionsRoom t = .ok n.options) :
    ReadsBack Graph.decode g.encode (if g.isFinite then .ok g else .error .unfit) := by
  have hinputs := Json.readsBack_listOf_self (l := g.inputs) fun o _ => readsBack_operand o
  have houtputs := readsBack_names g.outputs
  have hconstants := readsBack_constants hg
  have hnodes := Json.readsBack_listOf_self (l := g.nodes) fun n hn =>
    let ⟨_, ht⟩ := hoptions n hn
    readsBack_node ht (hg.options n hn)
  have hlegible : ∀ m ∈ g.members, Legible m.2 := by
    simp only [Graph.members, List.forall_mem_append, List.forall_mem_cons]
    exact ⟨legible_nameField g.name, hinputs.legible, houtputs.legible, hconstants.legible,
      hnodes.legible, fun _ hm => nomatch hm⟩
  have hsublist : (Json.Members.names g.members).Sublist
      ["name", "inputs", "outputs", "initializers", "nodes"] := by
    rw [Graph.members]
    cases g.name with
    | none => exact List.sublist_cons_self _ _
    | some s => exact List.Sublist.refl _
  have hname' : (Fields.ofPrinted g.members).optional "name" none
      (Decoder.nullable Decoder.text) = .ok g.name := optional_name g.name rfl
  have hinputs' : (Fields.ofPrinted g.members).required "inputs"
      (Decoder.listOf Operand.decode) = .ok g.inputs :=
    Json.required_ofPrinted (by rw [Graph.members]; cases g.name <;> rfl) hinputs
  have houtputs' : (Fields.ofPrinted g.members).required "outputs" decodeNames = .ok g.outputs :=
    Json.required_ofPrinted (by rw [Graph.members]; cases g.name <;> rfl) houtputs
  have hnodes' : (Fields.ofPrinted g.members).required "nodes"
      (Decoder.listOf Node.decode) = .ok g.nodes :=
    Json.required_ofPrinted (by rw [Graph.members]; cases g.name <;> rfl) hnodes
  have hplace : g.members.get? "initializers"
      = some (.object (g.initializers.toList.map fun c => (c.1, c.2.encode))) := by
    rw [Graph.members]
    cases g.name <;> rfl
  show ReadsBack Graph.decode (.object g.members) _
  cases hfinite : g.isFinite with
  | true =>
    rw [hfinite, if_pos rfl] at hconstants
    have hconstants' : (Fields.ofPrinted g.members).optional "initializers" ∅
        (Decoder.mapOf Tensor.decode) = .ok g.initializers :=
      Json.optional_ofPrinted hplace hconstants
    refine Json.readsBack_record (by decide) hsublist hlegible ?_
    rw [hname', hinputs', houtputs', hconstants', hnodes']
    rfl
  | false =>
    rw [hfinite, if_neg Bool.false_ne_true] at hconstants
    obtain ⟨place, hconstants'⟩ : ∃ place, (Fields.ofPrinted g.members).optional "initializers" ∅
        (Decoder.mapOf Tensor.decode) = .error (place, .unfit) :=
      Json.optional_ofPrinted_error hplace hconstants
    refine Json.readsBack_record_error (by decide) hsublist hlegible ⟨place, ?_⟩
    rw [hname', hinputs', houtputs', hconstants', hnodes']
    rfl

/-! ## Graphs that have been read -/

lemma Node.options_of_decode {t : Json.Tree} {n : Node} (h : Node.decode t = .ok n) :
    ∃ t, Decoder.members optionsRoom t = .ok n.options := by
  obtain ⟨f, hf⟩ := Decoder.exists_of_record h
  obtain ⟨_, options, hf₄, hoptions, rfl⟩ := Json.Located.seq_eq_ok_iff.1 hf
  obtain ⟨_, outputs, hf₃, -, rfl⟩ := Json.Located.seq_eq_ok_iff.1 hf₄
  obtain ⟨_, inputs, hf₂, -, rfl⟩ := Json.Located.seq_eq_ok_iff.1 hf₃
  obtain ⟨_, op, hf₁, -, rfl⟩ := Json.Located.seq_eq_ok_iff.1 hf₂
  obtain ⟨name, -, rfl⟩ := Json.Located.map_eq_ok_iff.1 hf₁
  obtain rfl | hoptions := Fields.exists_of_optional hoptions
  · exact ⟨.object [] (.ok ()), rfl⟩
  · exact hoptions

lemma Graph.options_of_decode {t : Json.Tree} {g : Graph Float32} (h : Graph.decode t = .ok g) :
    ∀ n ∈ g.nodes, ∃ t, Decoder.members optionsRoom t = .ok n.options := by
  intro n hn
  obtain ⟨f, hf⟩ := Decoder.exists_of_record h
  obtain ⟨_, nodes, hf₄, hnodes, rfl⟩ := Json.Located.seq_eq_ok_iff.1 hf
  obtain ⟨_, constants, hf₃, -, rfl⟩ := Json.Located.seq_eq_ok_iff.1 hf₄
  obtain ⟨_, outputs, hf₂, -, rfl⟩ := Json.Located.seq_eq_ok_iff.1 hf₃
  obtain ⟨_, inputs, hf₁, -, rfl⟩ := Json.Located.seq_eq_ok_iff.1 hf₂
  obtain ⟨name, -, rfl⟩ := Json.Located.map_eq_ok_iff.1 hf₁
  obtain ⟨t, hlist⟩ := Fields.exists_of_required hnodes
  obtain ⟨t, ht⟩ := Decoder.exists_of_listOf hlist hn
  exact Node.options_of_decode ht

variable {text : String} {g : Graph Float32}

/-- **What is written of a graph that has been read can be read again exactly if all elements of
its constants are finite.** -/
theorem decode_encode (hread : Decoder.ofText Graph.decode text = .ok g)
    (hg : g.NumbersReadBack) :
    Decoder.ofText Graph.decode g.encode.pretty
        = (if g.isFinite then .ok g else .error .unfit)
      ∧ Decoder.ofText Graph.decode g.encode.compact
        = (if g.isFinite then .ok g else .error .unfit) := by
  obtain ⟨g', hdecode, h⟩ := bind_eq_ok_iff.1 hread
  obtain ⟨-, h⟩ := check_bind_eq_ok_iff.1 h
  cases h
  have h := readsBack_graph hg (Graph.options_of_decode hdecode)
  exact ⟨h.pretty, h.compact⟩

/-- A graph with a constant whose element lies beyond single precision. -/
def overflowingText : String :=
  "\x7b\"inputs\":[],\"outputs\":[],\"initializers\":"
    ++ "\x7b\"w\":\x7b\"shape\":[1],\"data\":[1e39]\x7d\x7d,\"nodes\":[]\x7d"

/-- The element is read as infinite and written as null, and the text that is written is refused. -/
theorem overflowing_unreadable : ∃ g, Decoder.ofText Graph.decode overflowingText = .ok g ∧
    Decoder.ofText Graph.decode g.encode.pretty = .error .unfit ∧
    Decoder.ofText Graph.decode g.encode.compact = .error .unfit := by
  have hpretty : (Decoder.ofText Graph.decode overflowingText).toOption.map
      (fun g => (Decoder.ofText Graph.decode g.encode.pretty).map fun _ => ())
        = some (.error .unfit) := by decide +kernel
  have hcompact : (Decoder.ofText Graph.decode overflowingText).toOption.map
      (fun g => (Decoder.ofText Graph.decode g.encode.compact).map fun _ => ())
        = some (.error .unfit) := by decide +kernel
  obtain ⟨g, hg, hpretty⟩ := Option.map_eq_some_iff.1 hpretty
  rw [hg, Option.map_some, Option.some.injEq] at hcompact
  exact ⟨g, toOption_eq_some_iff.1 hg, map_eq_error_iff.1 hpretty, map_eq_error_iff.1 hcompact⟩

/-- Options with numbers of both kinds. -/
def scaledOptions : Json.Members :=
  [("axis", .number (.integer (-1))), ("by", .array [.number (.double 0.25), .null])]

/-- A graph with a constant and with an unnamed node that has options. -/
def scaledGraph : Graph Float32 where
  name := some "scaled"
  inputs := [⟨"x", .float32, [3]⟩]
  outputs := ["y"]
  initializers := (∅ : NameMap (Tensor Float32)).insert "w" ⟨[3], #[0.1, -3, 1e-45]⟩
  nodes := [⟨none, "Mul", ["x", "w"], ["y"], scaledOptions⟩]

/-- The text of the graph. -/
def scaledText : String :=
  "\x7b\"name\":\"scaled\","
    ++ "\"inputs\":[\x7b\"name\":\"x\",\"dataType\":\"float32\",\"shape\":[3]\x7d],"
    ++ "\"outputs\":[\"y\"],"
    ++ "\"initializers\":\x7b\"w\":\x7b\"shape\":[3],\"data\":[0.1,-3.0,1e-45]\x7d\x7d,"
    ++ "\"nodes\":[\x7b\"op\":\"Mul\",\"inputs\":[\"x\",\"w\"],\"outputs\":[\"y\"],"
    ++ "\"options\":\x7b\"axis\":-1,\"by\":[0.25,null]\x7d\x7d]\x7d"

lemma scaledGraph_numbersReadBack : scaledGraph.NumbersReadBack where
  elements := by
    have hread : ∀ c ∈ scaledGraph.initializers.toList, ∀ x ∈ c.2.data.toList,
        (Decoder.ofText Decoder.single (Json.Number.single x).text).toOption = some x := by
      decide +kernel
    exact fun c hc x hx _ => toOption_eq_some_iff.1 (hread c hc x hx)
  options := by
    have hquarter : (Json.Number.double 0.25).text = "0.25" := by decide +kernel
    intro n hn m hm
    obtain rfl := List.mem_singleton.1 hn
    obtain rfl | hm := List.mem_cons.1 hm
    · rfl
    · obtain rfl := List.mem_singleton.1 hm
      rw [hquarter]
      rfl

/-- The graph is read from its text, and again from what is written of it. -/
theorem scaledGraph_reread : Decoder.ofText Graph.decode scaledText = .ok scaledGraph ∧
    scaledGraph.NumbersReadBack ∧
    Decoder.ofText Graph.decode scaledGraph.encode.pretty = .ok scaledGraph ∧
    Decoder.ofText Graph.decode scaledGraph.encode.compact = .ok scaledGraph := by
  have hnumbers := scaledGraph_numbersReadBack
  have hfinite : scaledGraph.isFinite = true := by decide +kernel
  have htext : scaledGraph.encode.compact = scaledText := by decide +kernel
  have hoptions : ∀ n ∈ scaledGraph.nodes, ∃ t, Decoder.members optionsRoom t = .ok n.options := by
    intro n hn
    obtain rfl := List.mem_singleton.1 hn
    exact ⟨Json.Tree.ofJson (.object scaledOptions), rfl⟩
  have hread := (readsBack_graph hnumbers hoptions).compact
  rw [hfinite, if_pos rfl, htext] at hread
  have hreread := decode_encode hread hnumbers
  rw [hfinite, if_pos rfl] at hreread
  exact ⟨hread, hnumbers, hreread⟩

end Wire

end ConvFlow
