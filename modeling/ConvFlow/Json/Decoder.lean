/-
# Reading typed values

A decoder reads a value of some type out of a tree and reports the first problem that it meets on
its way from left to right.  A record may be given as an object, with its fields in any order and
among others, or as an array of its fields in their order.

The fields of a record are decoded each on their own, so which problem comes first is decided by
the places of the fields in the text: a `Located` result carries the place of its problem, and of
two problems the earlier one counts.  A field that is missing is missed at the end of the record.
-/
import ConvFlow.Decimal.Dyadic
import ConvFlow.Json.Reader
import ConvFlow.NameMap

namespace ConvFlow.Json

/-- The single precision float nearest to a number. -/
def Number.toSingle : Number → Float32
  | .integer n => Float32.ofInt n
  | .double x => Decimal.nearestSingle x
  | .single x => x

/-- How a value of a type is read out of a tree. -/
abbrev Decoder (β : Type) := Tree → Except Problem β

namespace Decoder

variable {β γ : Type}

/-- Read a text, which has to hold one value and nothing else. -/
def ofText (d : Decoder β) (text : String) : Except Problem β := do
  let document := Document.read text
  let b ← d document.root
  document.ending
  return b

/-- Read a JSON value; all that can be wrong with it is that it is of another kind. -/
def ofJson (d : Decoder β) (j : Json) : Except Problem β :=
  (d (Tree.ofJson j)).mapError fun _ => .unfit

/-- A JSON value as it is. -/
def json : Decoder Json := Tree.toJson nestingLimit

/-! ## Scalars -/

/-- A string. -/
def text : Decoder String
  | .string l => l.value
  | t => .error t.misfit

/-- A scalar that is not a string. -/
def scalar : Decoder Scalar
  | .scalar l => l.value
  | t => .error t.misfit

/-- A whole number below a bound. -/
def below (bound : Nat) : Decoder Nat := fun t => do
  match ← scalar t with
  | .number (.integer n) => if 0 ≤ n ∧ n < bound then return n.toNat else throw .unfit
  | _ => throw .unfit

/-- A whole number of 32 bits. -/
def word32 : Decoder UInt32 := fun t => (below UInt32.size t).map UInt32.ofNat

/-- A whole number of 64 bits. -/
def word64 : Decoder UInt64 := fun t => (below UInt64.size t).map UInt64.ofNat

/-- A number, in single precision. -/
def single : Decoder Float32 := fun t => do
  match ← scalar t with
  | .number n => return n.toSingle
  | _ => throw .unfit

/-- A value, or null in its place. -/
def nullable (d : Decoder β) : Decoder (Option β) := fun t =>
  match t with
  | .scalar ⟨.ok .null, _⟩ => .ok none
  | t => (d t).map some

/-- Null. -/
def null : Decoder Unit := fun t => do
  match ← scalar t with
  | .null => return ()
  | _ => throw .unfit

/-- The value of a name in a list of alternatives. -/
def choose (alternatives : List (String × β)) (name : String) : Except Problem β :=
  match alternatives.lookup name with
  | some b => .ok b
  | none => .error .unfit

/-- One of several named alternatives: its name, or an object with null under its name. -/
def oneOf (alternatives : List (String × β)) : Decoder β
  | .string l => do choose alternatives (← l.value)
  | .object ((some name, t) :: rest) ending => do
    let b ← choose alternatives (← name.value)
    null t
    if !rest.isEmpty then throw .malformed
    ending
    return b
  | .object ((none, t) :: _) _ => .error t.noName
  | .object [] (.error p) => .error p
  | .absent p => .error p
  | _ => .error .malformed

/-! ## Lists and maps -/

/-- A list. -/
def listOf (d : Decoder β) : Decoder (List β)
  | .array items ending => do
    let bs ← items.mapM d
    ending
    return bs
  | t => .error t.misfit

/-- A field of a map. -/
def entry (d : Decoder β) : Option (Lexeme String) × Tree → Except Problem (String × β)
  | (none, t) => .error t.noName
  | (some name, t) => do
    let k ← name.value
    let b ← d t
    return (k, b)

/-- An object with any names, as a list of its names and values. -/
def entriesOf (d : Decoder β) : Decoder (List (String × β))
  | .object fields ending => do
    let pairs ← fields.mapM (entry d)
    ending
    return pairs
  | t => .error t.misfit

/-- An object with any names; of several values under a name the last one counts. -/
def mapOf (d : Decoder β) : Decoder (NameMap β) := fun t =>
  (entriesOf d t).map fun pairs => Std.ExtTreeMap.ofList pairs compare

/-- An object with any names and values, of which at most `room` brackets may be open at a time
inside its own. -/
def members (room : Nat) : Decoder Members := fun t =>
  (entriesOf (Tree.toJson room) t).map Members.ofPairs

end Decoder

/-! ## Records -/

/-- A result whose problem, if it has one, stands at some place of a record. -/
def Located (β : Type) : Type := Except (Nat × Problem) β

namespace Located

variable {β γ : Type}

/-- A function and its argument, each of which may have a problem: the earlier one counts. -/
def apply (f : Located (β → γ)) (x : Located β) : Located γ :=
  match f, x with
  | .ok f, .ok b => .ok (f b)
  | .error e, .ok _ => .error e
  | .ok _, .error e => .error e
  | .error e, .error e' => .error (if e.1 ≤ e'.1 then e else e')

instance : Applicative Located where
  pure b := .ok b
  seq f x := apply f (x ())

end Located

/-- The fields of a record that is being read. -/
structure Fields where
  /-- The fields with known names, with their places. -/
  known : List (String × Nat × Tree)
  /-- The fields with other names, with their places. -/
  others : List (String × Nat × Tree)
  /-- Where the record itself goes wrong, and how. -/
  flaw : Option (Nat × Problem)
  /-- The place behind the record's last field. -/
  last : Nat

namespace Fields

variable {β γ : Type}

/-- A record that goes wrong at a place. -/
def flawed (place : Nat) (p : Problem) : Fields := ⟨[], [], some (place, p), place⟩

/-- The fields of an object from some place on, when the fields with the names `seen` have come
before.  A known name may not come twice; a field with another name has to stand the test
`check`. -/
def ofObject (names : List String) (check : Tree → Except Problem Unit)
    (ending : Except Problem Unit) : (place : Nat) → (seen : List String) →
    List (Option (Lexeme String) × Tree) → Fields
  | place, _, [] =>
    match ending with
    | .ok () => ⟨[], [], none, place⟩
    | .error p => flawed place p
  | place, _, (none, t) :: _ => flawed place t.noName
  | place, seen, (some name, t) :: rest =>
    match name.value with
    | .error p => flawed place p
    | .ok k =>
      if k ∈ seen then flawed place .unfit
      else if k ∈ names then
        let f := ofObject names check ending (place + 1) (k :: seen) rest
        { f with known := (k, place, t) :: f.known }
      else
        match check t with
        | .error p => flawed place p
        | .ok () =>
          let f := ofObject names check ending (place + 1) seen rest
          { f with others := (k, place, t) :: f.others }

/-- The fields of an array, in the order of the names. -/
def ofArray (names : List String) (items : List Tree) (ending : Except Problem Unit) : Fields where
  known := (names.zip items.zipIdx).map fun (k, t, place) => (k, place, t)
  others := []
  flaw :=
    if names.length < items.length then some (names.length, .malformed)
    else
      match ending with
      | .ok () => none
      | .error p => some (items.length, p)
  last := items.length

/-- A field that has to be there. -/
def required (f : Fields) (name : String) (d : Decoder β) : Located β :=
  match f.known.lookup name with
  | some (place, t) => (d t).mapError fun p => (place, p)
  | none => .error (f.last + 1, .unfit)

/-- A field with a value that it has if it is not there. -/
def optional (f : Fields) (name : String) (default : β) (d : Decoder β) : Located β :=
  match f.known.lookup name with
  | some (place, t) => (d t).mapError fun p => (place, p)
  | none => .ok default

/-- A field that is looked for among the others once the record has been read to its end, with a
value that it has if it is not there. -/
def late (f : Fields) (name : String) (default : β) (d : Decoder β) : Located β :=
  match f.others.filter (·.1 == name) with
  | [] => .ok default
  | [(_, _, t)] => (d t).mapError fun p => (f.last + 1, p)
  | _ => .error (f.last + 1, .unfit)

/-- The record made of its fields, unless the record itself goes wrong before. -/
def finish (f : Fields) (r : Located β) : Except Problem β :=
  match f.flaw, r with
  | none, .ok b => .ok b
  | none, .error (_, p) => .error p
  | some (_, p), .ok _ => .error p
  | some (place, p), .error (place', p') => .error (if place' < place then p' else p)

end Fields

namespace Decoder

variable {β : Type}

/-- A record with the given names of fields, as an object or as an array; other fields of the
object are passed over. -/
def record (names : List String) (build : Fields → Located β) : Decoder β
  | .object fields ending =>
    let f := Fields.ofObject names Tree.pass ending 0 [] fields
    f.finish (build f)
  | .array items ending =>
    let f := Fields.ofArray names items ending
    f.finish (build f)
  | t => .error t.misfit

/-- A record that has to be an object and whose other fields are kept, as values in which at most
`room` brackets may be open at a time. -/
def openRecord (names : List String) (room : Nat) (build : Fields → Located β) : Decoder β
  | .object fields ending =>
    let check (t : Tree) : Except Problem Unit := (t.toJson room).map fun _ => ()
    let f := Fields.ofObject names check ending 0 [] fields
    f.finish (build f)
  | t => .error t.misfit

end Decoder

end ConvFlow.Json
