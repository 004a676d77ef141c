/-
# Writing JSON

A value is written either without any blanks (`compact`) or with one member or item to a line
(`pretty`).  Strings escape the double quote, the backslash and control characters, and nothing
else.  A float is written with the fewest digits that read back in its own precision; a whole float
keeps a zero behind its point, so that it does not turn into a whole number.  What is no finite
number is written as null.
-/
import ConvFlow.Decimal.Style
import ConvFlow.Json.Value
import ConvFlow.Text.Listing

namespace ConvFlow.Json

/-- Single precision floats are written positionally from a millionth up to thirteen digits. -/
def singleStyle : Decimal.Style where
  positional e := -6 ≤ e && e ≤ 12
  wholeMark := ".0"
  tieUp := false

/-- Double precision floats are written positionally from five places up to sixteen digits. -/
def doubleStyle : Decimal.Style where
  positional e := -5 ≤ e && e ≤ 15
  wholeMark := ".0"
  tieUp := false

/-- The text of a number. -/
def Number.text : Number → String
  | integer n => Text.integer n
  | double x => ((Decimal.Dyadic.ofDouble? x).map doubleStyle.text).getD "null"
  | single x => ((Decimal.Dyadic.ofSingle? x).map singleStyle.text).getD "null"

/-- The digits of a number below 256 in base sixteen. -/
def twoHexDigits (n : Nat) : String :=
  String.ofList [Nat.digitChar (n / 16), Nat.digitChar (n % 16)]

/-- How a character is written in a string. -/
def escapeChar (c : Char) : String :=
  match c with
  | '"' => "\\\""
  | '\\' => "\\\\"
  | '\n' => "\\n"
  | '\r' => "\\r"
  | '\t' => "\\t"
  | '\x08' => "\\b"
  | '\x0c' => "\\f"
  | c => if c < ' ' then "\\u00" ++ twoHexDigits c.toNat else c.toString

/-- A string between double quotes. -/
def quoteString (s : String) : String := "\"" ++ String.join (s.toList.map escapeChar) ++ "\""

mutual

/-- A value without blanks. -/
def compact : Json → String
  | null => "null"
  | bool b => if b then "true" else "false"
  | number n => n.text
  | string s => quoteString s
  | array items => "[" ++ ",".intercalate (compactItems items) ++ "]"
  | object members => "\x7b" ++ ",".intercalate (compactMembers members) ++ "\x7d"

/-- The items of an array. -/
def compactItems : List Json → List String
  | [] => []
  | j :: js => compact j :: compactItems js

/-- The members of an object. -/
def compactMembers : List (String × Json) → List String
  | [] => []
  | (k, j) :: rest => (quoteString k ++ ":" ++ compact j) :: compactMembers rest

end

/-- The beginning of a line at some depth. -/
def indent (depth : Nat) : String := String.ofList ('\n' :: List.replicate (2 * depth) ' ')

/-- Parts between brackets, each on a line of its own; no parts leave the brackets together. -/
def block (opening closing : String) (depth : Nat) (parts : List String) : String :=
  if parts.isEmpty then opening ++ closing
  else
    opening ++ ",".intercalate (parts.map (indent (depth + 1) ++ ·)) ++ indent depth ++ closing

mutual

/-- A value that begins at some depth, with one part to a line. -/
def prettyAt (depth : Nat) : Json → String
  | null => "null"
  | bool b => if b then "true" else "false"
  | number n => n.text
  | string s => quoteString s
  | array items => block "[" "]" depth (prettyItems (depth + 1) items)
  | object members => block "\x7b" "\x7d" depth (prettyMembers (depth + 1) members)

/-- The items of an array. -/
def prettyItems (depth : Nat) : List Json → List String
  | [] => []
  | j :: js => prettyAt depth j :: prettyItems depth js

/-- The members of an object. -/
def prettyMembers (depth : Nat) : List (String × Json) → List String
  | [] => []
  | (k, j) :: rest => (quoteString k ++ ": " ++ prettyAt depth j) :: prettyMembers depth rest

end

/-- A value with one part to a line. -/
def pretty (j : Json) : String := prettyAt 0 j

/-- A single precision float as a value: what is no finite number has no numeral. -/
def ofSingle (x : Float32) : Json := if x.isFinite then number (.single x) else null

end ConvFlow.Json
