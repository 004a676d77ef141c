/-
# Folding rules

For each category of layers, rules say from which number on a layer gets which style of memory,
which kind of resources and which mode of memory.
-/
import ConvFlow.Folding.Layer
import ConvFlow.Json.Decoder

namespace ConvFlow.Folding

open Json (Decoder)

/-- The memory that weights are kept in. -/
inductive RamStyle where
  | auto
  | block
  | distributed
  | ultra
  deriving DecidableEq

namespace RamStyle

/-- The name that texts use. -/
def name : RamStyle → String
  | auto => "auto"
  | block => "block"
  | distributed => "distributed"
  | ultra => "ultra"

/-- All styles by their names. -/
def named : List (String × RamStyle) := [auto, block, distributed, ultra].map fun s => (s.name, s)

end RamStyle

/-- The resources that compute. -/
inductive ResType where
  | auto
  | lut
  | dsp
  deriving DecidableEq

namespace ResType

/-- The name that texts use. -/
def name : ResType → String
  | auto => "auto"
  | lut => "lut"
  | dsp => "dsp"

/-- All kinds of resources by their names. -/
def named : List (String × ResType) := [auto, lut, dsp].map fun s => (s.name, s)

end ResType

/-- How the memory for weights is attached. -/
inductive MemMode where
  | const
  | decoupled
  | external
  deriving DecidableEq

namespace MemMode

/-- The name that texts use. -/
def name : MemMode → String
  | const => "const"
  | decoupled => "decoupled"
  | external => "external"

/-- All modes by their names. -/
def named : List (String × MemMode) := [const, decoupled, external].map fun s => (s.name, s)

end MemMode

/-- A value for all layers from some number on. -/
structure Threshold (β : Type) where
  /-- The number of the first layer that gets the value. -/
  fromIndex : Nat
  /-- The value. -/
  value : β
  deriving DecidableEq

/-- Whether a layer with this number gets the value. -/
def Threshold.reaches {β : Type} (t : Threshold β) (index : Nat) : Bool := t.fromIndex ≤ index

/-- The rules for the layers of one category. -/
structure CategoryRules where
  /-- The style of memory. -/
  ramStyle : Threshold RamStyle
  /-- The kind of resources. -/
  resType : Threshold ResType
  /-- The mode of memory. -/
  memMode : Threshold MemMode
  deriving DecidableEq

/-- The rules for all layers. -/
structure Rules where
  /-- The rules for products of a matrix and a vector. -/
  matrixVector : CategoryRules
  /-- The rules for products of two vectors. -/
  vectorVector : CategoryRules
  deriving DecidableEq

namespace Rules

/-- The rules that apply if none are given. -/
def standard : Rules where
  matrixVector := ⟨⟨33, .auto⟩, ⟨0, .dsp⟩, ⟨33, .external⟩⟩
  vectorVector := ⟨⟨0, .auto⟩, ⟨0, .dsp⟩, ⟨0, .const⟩⟩

/-- The rules for a category. -/
def category (r : Rules) : Category → CategoryRules
  | .matrixVector => r.matrixVector
  | .vectorVector => r.vectorVector

end Rules

/-! ## Reading and writing -/

/-- Read a threshold. -/
def Threshold.decode {β : Type} (d : Decoder β) : Decoder (Threshold β) :=
  Decoder.record ["from_idx", "value"] fun f =>
    Threshold.mk <$> f.required "from_idx" (Decoder.below UInt32.size) <*> f.required "value" d

/-- Write a threshold. -/
def Threshold.encode {β : Type} (name : β → String) (t : Threshold β) : Json :=
  .object [("from_idx", Json.ofNat t.fromIndex), ("value", .string (name t.value))]

/-- Read the rules of a category. -/
def CategoryRules.decode : Decoder CategoryRules :=
  Decoder.record ["ram_style", "res_type", "mem_mode"] fun f =>
    CategoryRules.mk
      <$> f.required "ram_style" (Threshold.decode (Decoder.oneOf RamStyle.named))
      <*> f.required "res_type" (Threshold.decode (Decoder.oneOf ResType.named))
      <*> f.required "mem_mode" (Threshold.decode (Decoder.oneOf MemMode.named))

/-- Write the rules of a category. -/
def CategoryRules.encode (r : CategoryRules) : Json :=
  .object [("ram_style", r.ramStyle.encode RamStyle.name),
    ("res_type", r.resType.encode ResType.name),
    ("mem_mode", r.memMode.encode MemMode.name)]

/-- Read rules. -/
def Rules.decode : Decoder Rules :=
  Decoder.record ["matrix_vector", "vector_vector"] fun f =>
    Rules.mk <$> f.optional "matrix_vector" standard.matrixVector CategoryRules.decode
      <*> f.optional "vector_vector" standard.vectorVector CategoryRules.decode

/-- Write rules. -/
def Rules.encode (r : Rules) : Json :=
  .object [("matrix_vector", r.matrixVector.encode), ("vector_vector", r.vectorVector.encode)]

end ConvFlow.Folding
