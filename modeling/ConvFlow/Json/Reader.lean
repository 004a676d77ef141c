/-
# Laying out a text

`Document.read` turns a text into the tree that follows it.  Strings and numerals are gone through
twice, once for what they mean and once for where they end, because a value that nobody uses only
has to be passed over.

The recursion is counted by the characters of the text: between two calls that go through the
same step at least one character is consumed.
-/
import ConvFlow.Json.Numeral

namespace ConvFlow.Json

/-- Whether a character may stand between the parts of a text. -/
def isBlank (c : Char) : Bool := c == ' ' || c == '\n' || c == '\t' || c == '\r'

/-- A text without the blanks at its beginning. -/
def skipBlanks (cs : List Char) : List Char := cs.dropWhile isBlank

/-! ## Strings -/

/-- The value of a hexadecimal digit. -/
def hexDigit? (c : Char) : Option Nat :=
  if '0' ≤ c ∧ c ≤ '9' then some (c.toNat - '0'.toNat)
  else if 'a' ≤ c ∧ c ≤ 'f' then some (c.toNat - 'a'.toNat + 10)
  else if 'A' ≤ c ∧ c ≤ 'F' then some (c.toNat - 'A'.toNat + 10)
  else none

/-- The number that four hexadecimal digits spell. -/
def hexNumber? (a b c d : Char) : Option Nat := do
  return (((← hexDigit? a) * 16 + (← hexDigit? b)) * 16 + (← hexDigit? c)) * 16 + (← hexDigit? d)

/-- The character that a short escape stands for. -/
def shortEscape? : Char → Option Char
  | '"' => some '"'
  | '\\' => some '\\'
  | '/' => some '/'
  | 'b' => some '\x08'
  | 'f' => some '\x0c'
  | 'n' => some '\n'
  | 'r' => some '\r'
  | 't' => some '\t'
  | _ => none

/-- The problem with a numbered escape in front of a rest in which four characters are missing:
the text ends early if fewer than four bytes follow. -/
def cutEscape (rest : List Char) : Problem :=
  if (String.ofList rest).utf8ByteSize < 4 then .truncated else .malformed

/-- Whether a number is the first half of a pair of numbers for one character. -/
def isHighHalf (n : Nat) : Bool := 0xD800 ≤ n && n ≤ 0xDBFF

/-- Whether a number is the second half of a pair of numbers for one character. -/
def isLowHalf (n : Nat) : Bool := 0xDC00 ≤ n && n ≤ 0xDFFF

/-- The character that a pair of numbers stands for. -/
def joinHalves (high low : Nat) : Char :=
  Char.ofNat (0x10000 + (high - 0xD800) * 0x400 + (low - 0xDC00))

/-- The rest of a string behind its opening quote: `before` holds the characters so far, last one
first, and `high` the first half of a character whose second half has to follow.  The result is
the string and the text behind its closing quote. -/
def unquote (before : List Char) (high : Option Nat) :
    List Char → Except Problem (String × List Char)
  | [] => .error .truncated
  | ['\\'] => .error .truncated
  | '\\' :: 'u' :: a :: b :: c :: d :: rest =>
    match hexNumber? a b c d, high with
    | none, _ => .error .malformed
    | some n, some h =>
      if isLowHalf n then unquote (joinHalves h n :: before) none rest else .error .malformed
    | some n, none =>
      if isLowHalf n then .error .malformed
      else if isHighHalf n then unquote before (some n) rest
      else unquote (Char.ofNat n :: before) none rest
  | '\\' :: c :: rest =>
    if c = 'u' then .error (cutEscape rest)
    else
      match shortEscape? c, high with
      | some e, none => unquote (e :: before) none rest
      | _, _ => .error .malformed
  | c :: rest =>
    if high.isSome then .error .malformed
    else if c = '"' then .ok (String.ofList before.reverse, rest)
    else if c < ' ' then .error .malformed
    else unquote (c :: before) none rest

/-- The text behind the closing quote of a string that is passed over. -/
def passString : List Char → Except Problem (List Char)
  | [] => .error .truncated
  | ['\\'] => .error .truncated
  | '\\' :: 'u' :: a :: b :: c :: d :: rest =>
    if (hexNumber? a b c d).isSome then passString rest else .error .malformed
  | '\\' :: c :: rest =>
    if c = 'u' then .error (cutEscape rest)
    else if (shortEscape? c).isSome then passString rest
    else .error .malformed
  | c :: rest =>
    if c = '"' then .ok rest
    else if c < ' ' then .error .malformed
    else passString rest

/-- What comes of reading one part of a text: the part, and the text behind it unless reading
ends in it. -/
abbrev Reading (β : Type) := β × Except Problem (List Char)

/-- A string behind its opening quote. -/
def readString (cs : List Char) : Reading (Lexeme String) :=
  let behind := passString cs
  (⟨(unquote [] none cs).map (·.1), behind.map fun _ => ()⟩, behind)

/-! ## Other scalars -/

/-- The text behind a word. -/
def readWord (word : List Char) : List Char → Except Problem (List Char) :=
  match word with
  | [] => .ok
  | w :: ws => fun
    | [] => .error .truncated
    | c :: cs => if c = w then readWord ws cs else .error .malformed

/-- A word that stands for a scalar, behind its first letter. -/
def readLiteral (word : String) (s : Scalar) (cs : List Char) : Reading Tree :=
  let behind := readWord word.toList cs
  (.scalar ⟨behind.map fun _ => s, behind.map fun _ => ()⟩, behind)

/-- A numeral behind its sign. -/
def readNumeral (negative : Bool) (cs : List Char) : Reading Tree :=
  let value := do
    let (n, _) ← Numeral.read .truncated negative cs
    return Scalar.number (← n.value)
  let behind := (Numeral.read .malformed negative cs).map (·.2)
  (.scalar ⟨value, behind.map fun _ => ()⟩, behind)

/-- A scalar that begins with the character `c`. -/
def readScalar (c : Char) (rest : List Char) : Reading Tree :=
  if c = 'n' then readLiteral "ull" .null rest
  else if c = 't' then readLiteral "rue" (.bool true) rest
  else if c = 'f' then readLiteral "alse" (.bool false) rest
  else if c = '"' then let (l, behind) := readString rest; (.string l, behind)
  else if c = '-' then readNumeral true rest
  else if (Numeral.digit? c).isSome then readNumeral false (c :: rest)
  else (.absent .malformed, .error .malformed)

/-! ## Arrays and objects -/

mutual

/-- A value. -/
def readValue : (fuel : Nat) → List Char → Reading Tree
  | 0, _ => (.absent .truncated, .error .truncated)
  | fuel + 1, cs =>
    match skipBlanks cs with
    | [] => (.absent .truncated, .error .truncated)
    | c :: rest =>
      if c = '[' then
        let (items, behind) := readItems fuel (skipBlanks rest)
        (.array items (behind.map fun _ => ()), behind)
      else if c = '{' then
        let (fields, behind) := readFields fuel (skipBlanks rest)
        (.object fields (behind.map fun _ => ()), behind)
      else readScalar c rest

/-- The items of an array behind its opening bracket. -/
def readItems : (fuel : Nat) → List Char → Reading (List Tree)
  | 0, _ => ([], .error .truncated)
  | _ + 1, [] => ([], .error .truncated)
  | _ + 1, ']' :: rest => ([], .ok rest)
  | fuel + 1, cs => readItem fuel cs

/-- An item of an array and the items behind it. -/
def readItem : (fuel : Nat) → List Char → Reading (List Tree)
  | 0, _ => ([], .error .truncated)
  | fuel + 1, cs =>
    match readValue fuel cs with
    | (t, .error p) => ([t], .error p)
    | (t, .ok rest) =>
      match skipBlanks rest with
      | [] => ([t], .error .truncated)
      | ']' :: rest => ([t], .ok rest)
      | ',' :: rest =>
        match skipBlanks rest with
        | ']' :: _ => ([t], .error .malformed)
        | rest => let (ts, behind) := readItem fuel rest; (t :: ts, behind)
      | _ :: _ => ([t], .error .malformed)

/-- The fields of an object behind its opening bracket. -/
def readFields : (fuel : Nat) → List Char → Reading (List (Option (Lexeme String) × Tree))
  | 0, _ => ([], .error .truncated)
  | _ + 1, [] => ([], .error .truncated)
  | _ + 1, '}' :: rest => ([], .ok rest)
  | fuel + 1, cs => readField fuel cs

/-- A field of an object and the fields behind it. -/
def readField : (fuel : Nat) → List Char → Reading (List (Option (Lexeme String) × Tree))
  | 0, _ => ([], .error .truncated)
  | fuel + 1, '"' :: cs =>
    let (name, behind) := readString cs
    match behind with
    | .error p => ([(some name, .absent p)], .error p)
    | .ok rest =>
      match skipBlanks rest with
      | [] => ([(some name, .absent .truncated)], .error .truncated)
      | ':' :: rest =>
        match readValue fuel rest with
        | (t, .error p) => ([(some name, t)], .error p)
        | (t, .ok rest) =>
          match skipBlanks rest with
          | [] => ([(some name, t)], .error .truncated)
          | '}' :: rest => ([(some name, t)], .ok rest)
          | ',' :: rest =>
            let (fields, behind) := readField fuel (skipBlanks rest)
            ((some name, t) :: fields, behind)
          | _ :: _ => ([(some name, t)], .error .malformed)
      | _ :: _ => ([(some name, .absent .malformed)], .error .malformed)
  | fuel + 1, cs =>
    let (t, _) := readValue fuel cs
    ([(none, t)], .error t.noName)

end

/-- Lay out a text. -/
def Document.read (text : String) : Document :=
  let cs := text.toList
  let (root, behind) := readValue (3 * cs.length + 3) cs
  { root
    ending := do
      match skipBlanks (← behind) with
      | [] => return ()
      | _ :: _ => throw .malformed }

end ConvFlow.Json
