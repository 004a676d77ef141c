/-
# Quoted names in messages

A list of names is shown with every name between double quotes.  Inside the quotes, a double
quote and a backslash are preceded by a backslash, line breaks, tabulators and the null character
have short escapes, and every character that cannot be seen on its own is shown by its number.
-/
import ConvFlow.Text.Invisible

namespace ConvFlow.Text

/-- The number of a character in lower-case hexadecimal digits. -/
def hexDigits (n : Nat) : String := String.ofList (Nat.toDigits 16 n)

/-- How a character is shown between double quotes. -/
def quotedChar (c : Char) : String :=
  match c with
  | '"' => "\\\""
  | '\\' => "\\\\"
  | '\n' => "\\n"
  | '\r' => "\\r"
  | '\t' => "\\t"
  | '\x00' => "\\0"
  | c => if isInvisible c then s!"\\u\x7b{hexDigits c.toNat}\x7d" else c.toString

/-- A name between double quotes. -/
def quoted (name : String) : String :=
  "\"" ++ String.join (name.toList.map quotedChar) ++ "\""

end ConvFlow.Text
