/-
# JSON values

An object keeps its members in the order in which their names were first set; setting a name
again keeps its place.  Numbers are whole numbers or floats.  A number that is read from a text is
never of single precision; such numbers occur only in values that are going to be written.
-/

namespace ConvFlow

namespace Json

/-- A number in a JSON value. -/
inductive Number where
  /-- A whole number, written without a point. -/
  | integer (n : Int)
  /-- A double precision float. -/
  | double (x : Float)
  /-- A single precision float, written with the digits that read back in single precision. -/
  | single (x : Float32)

end Json

/-- A JSON value. -/
inductive Json where
  | null
  | bool (b : Bool)
  | number (n : Json.Number)
  | string (s : String)
  | array (items : List Json)
  | object (members : List (String × Json))

namespace Json

/-- The members of an object, in order. -/
abbrev Members := List (String × Json)

namespace Members

/-- The value under a name. -/
def get? (name : String) : Members → Option Json
  | [] => none
  | (k, v) :: rest => if k = name then some v else get? name rest

/-- Set the value under a name: in its place if the name is there, at the end if it is not. -/
def set (name : String) (value : Json) : Members → Members
  | [] => [(name, value)]
  | (k, v) :: rest => if k = name then (k, value) :: rest else (k, v) :: set name value rest

theorem get?_set (name : String) (value : Json) (ms : Members) (key : String) :
    get? key (set name value ms) = if key = name then some value else get? key ms := by
  induction ms with
  | nil => grind [set, get?]
  | cons m rest ih =>
    obtain ⟨k, v⟩ := m
    grind [set, get?]

/-- The members set one after another. -/
def ofPairs (pairs : List (String × Json)) : Members :=
  pairs.foldl (fun ms (k, v) => ms.set k v) []

end Members

/-- The member of an object under a name. -/
def member? (j : Json) (name : String) : Option Json :=
  match j with
  | object ms => Members.get? name ms
  | _ => none

/-- The whole number that a natural number is written as. -/
def ofNat (n : Nat) : Json := number (.integer n)

/-- A list of whole numbers. -/
def ofNats (ns : List Nat) : Json := array (ns.map ofNat)

/-- A list of strings. -/
def ofStrings (ss : List String) : Json := array (ss.map string)

end Json

end ConvFlow
