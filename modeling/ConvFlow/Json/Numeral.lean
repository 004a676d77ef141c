/-
# Numerals

A numeral is taken apart into its digits first and given a value afterwards.  A numeral without
fraction and exponent that fits into 64 bits, signed or unsigned, is a whole number; all others
are floats.

The value of a float is not always the nearest one.  As many digits as fit into 64 bits make up
the significand, the remaining ones count for their place only, and the significand is then
multiplied or divided by a power of ten in double precision arithmetic.  A value beyond the range
of double precision is a problem.
-/
import ConvFlow.Json.Tree

namespace ConvFlow.Json

/-- The parts of a numeral. -/
structure Numeral where
  /-- Whether there is a minus sign. -/
  negative : Bool
  /-- The digits before the point. -/
  whole : List Nat
  /-- The digits behind the point, if there is one. -/
  fraction : Option (List Nat)
  /-- The exponent, whether it is negative and its digits, if there is one. -/
  exponent : Option (Bool × List Nat)

namespace Numeral

/-! ## Grammar -/

/-- The value of a digit. -/
def digit? (c : Char) : Option Nat :=
  if '0' ≤ c ∧ c ≤ '9' then some (c.toNat - '0'.toNat) else none

/-- The digits that a text begins with, and the rest. -/
def digits : List Char → List Nat × List Char
  | [] => ([], [])
  | c :: cs =>
    match digit? c with
    | some d => let (ds, rest) := digits cs; (d :: ds, rest)
    | none => ([], c :: cs)

/-- The digits that a text begins with; there has to be one.  A text that ends instead has the
problem `atEnd`. -/
def someDigits (atEnd : Problem) (cs : List Char) : Except Problem (List Nat × List Char) :=
  match digits cs with
  | ([], []) => .error atEnd
  | ([], _ :: _) => .error .malformed
  | (ds, rest) => .ok (ds, rest)

/-- The digits before the point, which begin with a zero only if there is no other. -/
def wholePart (atEnd : Problem) (cs : List Char) : Except Problem (List Nat × List Char) := do
  match ← someDigits atEnd cs with
  | (0 :: _ :: _, _) => throw .malformed
  | part => return part

/-- The digits behind a point, if there is one. -/
def fractionPart (atEnd : Problem) (cs : List Char) :
    Except Problem (Option (List Nat) × List Char) :=
  match cs with
  | '.' :: cs => (someDigits atEnd cs).map fun (ds, rest) => (some ds, rest)
  | _ => .ok (none, cs)

/-- The sign of an exponent. -/
def exponentSign : List Char → Bool × List Char
  | '+' :: cs => (false, cs)
  | '-' :: cs => (true, cs)
  | cs => (false, cs)

/-- The exponent, if there is one. -/
def exponentPart (atEnd : Problem) (cs : List Char) :
    Except Problem (Option (Bool × List Nat) × List Char) :=
  match cs with
  | c :: rest =>
    if c = 'e' ∨ c = 'E' then
      let (negative, rest) := exponentSign rest
      (someDigits atEnd rest).map fun (ds, rest) => (some (negative, ds), rest)
    else .ok (none, cs)
  | [] => .ok (none, [])

/-- The numeral that a text begins with, behind its sign, and the rest. -/
def read (atEnd : Problem) (negative : Bool) (cs : List Char) :
    Except Problem (Numeral × List Char) := do
  let (whole, cs) ← wholePart atEnd cs
  let (fraction, cs) ← fractionPart atEnd cs
  let (exponent, cs) ← exponentPart atEnd cs
  return (⟨negative, whole, fraction, exponent⟩, cs)

/-! ## Value -/

/-- The largest significand. -/
def maxSignificand : Nat := UInt64.size - 1

/-- The largest exponent that is counted exactly. -/
def maxExponent : Nat := 0x7FFFFFFF

/-- Append digits to a significand as long as it does not become too large: the significand, and
the number of digits appended. -/
def append (significand : Nat) : List Nat → Nat × Nat
  | [] => (significand, 0)
  | d :: ds =>
    if maxSignificand < significand * 10 + d then (significand, 0)
    else
      let (s, count) := append (significand * 10 + d) ds
      (s, count + 1)

/-- The number that digits spell. -/
def spelled (ds : List Nat) : Nat := ds.foldl (fun n d => n * 10 + d) 0

/-- The largest power of ten in one step of scaling. -/
def maxPower : Nat := 308

/-- The float nearest to a power of ten. -/
def tenTo (power : Nat) : Float := Float.ofNat (Nat.pow 10 power)

/-- Divide by a power of ten, in steps of `10 ^ maxPower` while the quotient is not zero. -/
def divide (x : Float) (power : Nat) : (steps : Nat) → Float
  | 0 => x / tenTo power
  | steps + 1 =>
    if power ≤ maxPower then x / tenTo power
    else if x == 0 then x
    else divide (x / tenTo maxPower) (power - maxPower) steps

/-- A significand multiplied by a power of ten. -/
def scale (significand : Nat) (power : Int) : Except Problem Float :=
  let x := significand.toUInt64.toFloat
  match power with
  | .ofNat p =>
    if p ≤ maxPower then
      let y := x * tenTo p
      if y.isInf then .error .malformed else .ok y
    else if significand = 0 then .ok x
    else .error .malformed
  | .negSucc p => .ok (divide x (p + 1) (p / maxPower + 1))

/-- A magnitude with the sign of the numeral. -/
def signed (n : Numeral) (x : Float) : Number := .double (if n.negative then -x else x)

/-- The largest magnitude of a negative whole number. -/
def maxNegated : Nat := 0x8000000000000000

/-- The value of a numeral without fraction and exponent that fits into a significand.  A minus
sign in front of zero, or in front of a number below the least signed one, makes a float. -/
def wholeValue (n : Numeral) (significand : Nat) : Number :=
  if !n.negative then .integer significand
  else if significand = 0 ∨ maxNegated < significand then n.signed significand.toUInt64.toFloat
  else .integer (-significand)

/-- The value of a numeral. -/
def value (n : Numeral) : Except Problem Number :=
  let (s, used) := append 0 n.whole
  let (significand, places) := append s (n.fraction.getD [])
  let power : Int := (n.whole.length - used : Nat) - (places : Int)
  match n.fraction, n.exponent with
  | none, none =>
    if used = n.whole.length then .ok (n.wholeValue s) else (scale s power).map n.signed
  | _, none => (scale significand power).map n.signed
  | _, some (negative, ds) =>
    let e := spelled ds
    if maxExponent < e then
      if significand ≠ 0 ∧ !negative then .error .malformed else .ok (n.signed 0)
    else (scale significand (if negative then power - e else power + e)).map n.signed

end Numeral

end ConvFlow.Json
