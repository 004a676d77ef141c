/-
# JSON texts as far as they can be read

A text need not be well-formed JSON, and what is wrong with it depends on what is wanted of it: a
number that is too large does no harm where nobody looks at it.  So a text is first laid out as a
`Tree`, which follows the text up to the first place where it breaks the grammar.  Everything that
reads values out of a tree goes through it from left to right and reports the first problem that
it meets.

A scalar is held as a `Lexeme`: what comes of using it, and what comes of passing over it.
-/
import ConvFlow.Json.Value

namespace ConvFlow.Json

/-- What can be wrong with a text. -/
inductive Problem where
  /-- The text breaks the rules of JSON. -/
  | malformed
  /-- The text ends early. -/
  | truncated
  /-- The text is JSON, but not of the kind that is wanted. -/
  | unfit
  deriving DecidableEq

/-- The wording of a problem. -/
def Problem.message : Problem → String
  | malformed => "the text is not well-formed JSON"
  | truncated => "the text ends before its value is complete"
  | unfit => "the value is not of the expected kind"

/-- A scalar in a text. -/
structure Lexeme (β : Type) where
  /-- What comes of using the scalar. -/
  value : Except Problem β
  /-- What comes of passing over it. -/
  passing : Except Problem Unit

/-- The scalars that are not strings. -/
inductive Scalar where
  | null
  | bool (b : Bool)
  | number (n : Number)

/-- A JSON text as far as it can be read.  Items and fields end with the first one that cannot be
read to its end, and the ending of an array or an object is a problem if its bracket is missing.
A field without a name is one in which something other than a string stands in its place. -/
inductive Tree where
  /-- No value begins here. -/
  | absent (p : Problem)
  | scalar (lexeme : Lexeme Scalar)
  | string (lexeme : Lexeme String)
  | array (items : List Tree) (ending : Except Problem Unit)
  | object (fields : List (Option (Lexeme String) × Tree)) (ending : Except Problem Unit)

/-- A whole text: its value, and whether anything else follows. -/
structure Document where
  /-- The value. -/
  root : Tree
  /-- What comes of looking for the end behind the value. -/
  ending : Except Problem Unit

/-- A scalar that can be used. -/
def Lexeme.ofValue {β : Type} (b : β) : Lexeme β := ⟨.ok b, .ok ()⟩

/-- The problem with a scalar where a value of another kind is wanted. -/
def Lexeme.misfit {β : Type} (l : Lexeme β) : Problem :=
  match l.value with
  | .error p => p
  | .ok _ => .unfit

namespace Tree

/-- The problem with a tree where a value of another kind is wanted. -/
def misfit : Tree → Problem
  | absent p => p
  | scalar l => l.misfit
  | string l => l.misfit
  | array .. => .unfit
  | object .. => .unfit

/-- The problem with what stands in the place of a name: a name that is missing altogether is
missing because the text ends. -/
def noName : Tree → Problem
  | absent p => p
  | _ => .malformed

/-! ## Passing over a value -/

mutual

/-- What comes of passing over a value. -/
def pass : Tree → Except Problem Unit
  | absent p => .error p
  | scalar l => l.passing
  | string l => l.passing
  | array items ending => do
    passItems items
    ending
  | object fields ending => do
    passFields fields
    ending

/-- What comes of passing over the items of an array. -/
def passItems : List Tree → Except Problem Unit
  | [] => .ok ()
  | t :: ts => do
    pass t
    passItems ts

/-- What comes of passing over the fields of an object. -/
def passFields : List (Option (Lexeme String) × Tree) → Except Problem Unit
  | [] => .ok ()
  | (none, t) :: _ => .error t.noName
  | (some name, t) :: rest => do
    name.passing
    pass t
    passFields rest

end

/-! ## Using a value as it is -/

mutual

/-- The JSON value of a tree in which at most `room` brackets may be open at a time.  A name that
occurs again in an object replaces the value and keeps the place. -/
def toJson (room : Nat) : Tree → Except Problem Json
  | absent p => .error p
  | scalar l => do
    match ← l.value with
    | .null => return .null
    | .bool b => return .bool b
    | .number n => return .number n
  | string l => l.value.map .string
  | array items ending =>
    match room with
    | 0 => .error .malformed
    | room + 1 => do
      let items ← itemsToJson room items
      ending
      return .array items
  | object fields ending =>
    match room with
    | 0 => .error .malformed
    | room + 1 => do
      let pairs ← fieldsToJson room fields
      ending
      return .object (Members.ofPairs pairs)

/-- The JSON values of the items of an array. -/
def itemsToJson (room : Nat) : List Tree → Except Problem (List Json)
  | [] => .ok []
  | t :: ts => do
    let j ← toJson room t
    let js ← itemsToJson room ts
    return j :: js

/-- The JSON values of the fields of an object, with their names. -/
def fieldsToJson (room : Nat) :
    List (Option (Lexeme String) × Tree) → Except Problem (List (String × Json))
  | [] => .ok []
  | (none, t) :: _ => .error t.noName
  | (some name, t) :: rest => do
    let name ← name.value
    let j ← toJson room t
    let pairs ← fieldsToJson room rest
    return (name, j) :: pairs

end

/-! ## The tree of a value -/

mutual

/-- The tree of a text that spells out a JSON value. -/
def ofJson : Json → Tree
  | .null => scalar (.ofValue .null)
  | .bool b => scalar (.ofValue (.bool b))
  | .number n => scalar (.ofValue (.number n))
  | .string s => string (.ofValue s)
  | .array items => array (itemsOfJson items) (.ok ())
  | .object members => object (fieldsOfJson members) (.ok ())

/-- The trees of the items of an array. -/
def itemsOfJson : List Json → List Tree
  | [] => []
  | j :: js => ofJson j :: itemsOfJson js

/-- The fields of an object. -/
def fieldsOfJson : List (String × Json) → List (Option (Lexeme String) × Tree)
  | [] => []
  | (k, j) :: rest => (some (.ofValue k), ofJson j) :: fieldsOfJson rest

end

end Tree

/-- How many brackets may be open at a time in a text. -/
def nestingLimit : Nat := 127

end ConvFlow.Json
