/-
# The written form of a graph

A graph is exchanged as a JSON text.  The types of this file are what such a text holds: the names
of operations and their options are kept as they are, and nothing is checked beyond the types of
the fields.  Extents are words of 32 bits.
-/
import ConvFlow.Json.Value
import ConvFlow.NameMap

namespace ConvFlow.Wire

/-- The type of the elements of a value. -/
inductive DataType where
  | float32
  | float16
  | int32
  | uint32
  | int64
  | uint64
  | int8
  | uint8
  deriving DecidableEq

namespace DataType

/-- All types of elements, with the names that texts use. -/
def named : List (String × DataType) :=
  [("float32", float32), ("float16", float16), ("int32", int32), ("uint32", uint32),
    ("int64", int64), ("uint64", uint64), ("int8", int8), ("uint8", uint8)]

/-- The name that texts use. -/
def name : DataType → String
  | float32 => "float32"
  | float16 => "float16"
  | int32 => "int32"
  | uint32 => "uint32"
  | int64 => "int64"
  | uint64 => "uint64"
  | int8 => "int8"
  | uint8 => "uint8"

/-- The name that messages use. -/
def title : DataType → String
  | float32 => "Float32"
  | float16 => "Float16"
  | int32 => "Int32"
  | uint32 => "Uint32"
  | int64 => "Int64"
  | uint64 => "Uint64"
  | int8 => "Int8"
  | uint8 => "Uint8"

end DataType

/-- The written form of an input's declaration. -/
structure Operand where
  /-- The name of the input. -/
  name : String
  /-- The type of its elements. -/
  dataType : DataType
  /-- Its extents. -/
  shape : List UInt32
  deriving DecidableEq

/-- The written form of a tensor. -/
structure Tensor (α : Type) where
  /-- The extents. -/
  shape : List UInt32
  /-- The elements in row-major order. -/
  data : Array α
  deriving DecidableEq

/-- The written form of a node. -/
structure Node where
  /-- The name, if one is given. -/
  name : Option String
  /-- The name of the operation. -/
  op : String
  /-- The names of the operands. -/
  inputs : List String
  /-- The names of the results. -/
  outputs : List String
  /-- The options, in order. -/
  options : Json.Members

/-- The written form of a graph. -/
structure Graph (α : Type) where
  /-- The name, if one is given. -/
  name : Option String
  /-- The declarations of the inputs. -/
  inputs : List Operand
  /-- The names of the outputs. -/
  outputs : List String
  /-- The constant tensors. -/
  initializers : NameMap (Tensor α)
  /-- The nodes. -/
  nodes : List Node

end ConvFlow.Wire
