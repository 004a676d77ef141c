/-
# Layers of a folding configuration

A folding configuration is a JSON object with one member for each layer.  The name of a layer
begins with the kind of its operation and ends with its number, separated by underscores, as in
`MatrixVectorActivation_12` or `MVAU_hls_3`.  Members of other kinds, for instance defaults, are
not layers.
-/

namespace ConvFlow.Folding

/-- The categories that layers are set up by. -/
inductive Category where
  | matrixVector
  | vectorVector
  deriving DecidableEq

/-- The category of an operation of the given kind. -/
def Category.ofKind? : String → Option Category
  | "MatrixVectorActivation" | "MVAU" => some .matrixVector
  | "VectorVectorActivation" | "VVAU" => some .vectorVector
  | _ => none

/-- What the name of a layer says. -/
structure Layer where
  /-- The category. -/
  category : Category
  /-- The number of the layer. -/
  index : Nat
  deriving DecidableEq

/-- Why a layer cannot be set up. -/
inductive LayerError where
  /-- The name does not end with a number. -/
  | invalidIndex (layer : String)
  /-- The entry is not a JSON object. -/
  | invalidEntry (layer : String)
  deriving DecidableEq

/-- The wording of an error. -/
def LayerError.message : LayerError → String
  | invalidIndex layer => s!"layer '{layer}' has no numeric index suffix"
  | invalidEntry layer => s!"entry for layer '{layer}' is not a JSON object"

/-- The part of a name before its first underscore. -/
def firstPart (name : List Char) : List Char := name.takeWhile (· != '_')

/-- The part of a name behind its last underscore. -/
def lastPart (name : List Char) : List Char :=
  (name.reverse.takeWhile (· != '_')).reverse

/-- Append decimal digits to a number. -/
def appendDigits (n : Nat) : List Char → Option Nat
  | [] => some n
  | c :: cs =>
    if '0' ≤ c ∧ c ≤ '9' then appendDigits (n * 10 + (c.toNat - '0'.toNat)) cs else none

/-- The number that decimal digits spell, of which there has to be one; a plus sign may precede
them. -/
def parseIndex? (cs : List Char) : Option Nat :=
  let ds := match cs with
    | '+' :: rest => rest
    | _ => cs
  if ds.isEmpty then none
  else (appendDigits 0 ds).filter (· < UInt32.size)

/-- What the name of a member says, if it names a layer. -/
def Layer.parse (name : String) : Except LayerError (Option Layer) :=
  let cs := name.toList
  match Category.ofKind? (String.ofList (firstPart cs)) with
  | none => .ok none
  | some category =>
    if '_' ∈ cs then
      match parseIndex? (lastPart cs) with
      | some index => .ok (some ⟨category, index⟩)
      | none => .error (.invalidIndex name)
    else .error (.invalidIndex name)

end ConvFlow.Folding
