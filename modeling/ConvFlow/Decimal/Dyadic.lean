/-
# Floats as exact numbers

A finite float is a whole number times a power of two.  `Dyadic` holds both, together with what
the rounding of numbers near the float depends on: whether the next float below is at half the
distance of the next one above.
-/

namespace ConvFlow.Decimal

/-- A finite float: `mantissa * 2 ^ exponent`, negative or not. -/
structure Dyadic where
  /-- Whether the sign is set. -/
  negative : Bool
  /-- The whole number. -/
  mantissa : Nat
  /-- The power of two. -/
  exponent : Int
  /-- Whether the next float below is at half the distance of the next one above. -/
  narrowBelow : Bool

/-- The float with the given bits, for a format with so many bits for the fraction and the
exponent; none for infinities and values that are no numbers. -/
def Dyadic.ofBits? (fractionBits exponentBits bits : Nat) : Option Dyadic :=
  let fraction := bits % Nat.pow 2 fractionBits
  let field := bits / Nat.pow 2 fractionBits % Nat.pow 2 exponentBits
  let bias : Nat := Nat.pow 2 (exponentBits - 1) - 1 + fractionBits
  if field = Nat.pow 2 exponentBits - 1 then none
  else some {
    negative := bits / Nat.pow 2 (fractionBits + exponentBits) % 2 == 1
    mantissa := if field = 0 then fraction else fraction + Nat.pow 2 fractionBits
    exponent := (max field 1 : Int) - bias
    narrowBelow := fraction == 0 && 1 < field }

/-- A single precision float as an exact number. -/
def Dyadic.ofSingle? (x : Float32) : Option Dyadic := ofBits? 23 8 x.toBits.toNat

/-- A double precision float as an exact number. -/
def Dyadic.ofDouble? (x : Float) : Option Dyadic := ofBits? 52 11 x.toBits.toNat

/-- The single precision float nearest to a double precision float; what lies beyond the largest
becomes infinite. -/
def nearestSingle (x : Float) : Float32 :=
  match Dyadic.ofDouble? x with
  | none => if x.isNaN then 0 / 0 else if x < 0 then -1 / 0 else 1 / 0
  | some d =>
    let magnitude :=
      match d.exponent with
      | .ofNat k => Float32.ofScientific (d.mantissa * Nat.pow 2 k) false 0
      | .negSucc k => Float32.ofScientific (d.mantissa * Nat.pow 5 (k + 1)) true (k + 1)
    if d.negative then -magnitude else magnitude

end ConvFlow.Decimal
