/-
# Writing decimals

A decimal is written either positionally or with an exponent.  A `Style` says which, and what
marks a whole number.
-/
import ConvFlow.Decimal.Shortest

namespace ConvFlow.Decimal

/-- How decimals are written. -/
structure Style where
  /-- Whether a number with this power of ten of its leading digit is written positionally. -/
  positional : Int → Bool
  /-- What follows the digits of a whole number that is written positionally. -/
  wholeMark : String
  /-- Which of two equally near decimals is taken: the upper one, or the even one. -/
  tieUp : Bool

/-- So many zeros. -/
def zeros (n : Nat) : List Char := List.replicate n '0'

/-- The digits with a point behind the ones, where `top` is the power of ten of the first digit.  A
number without a fraction ends with the mark for whole numbers instead. -/
def positionalText (wholeMark : String) (ds : List Char) (top : Int) : String :=
  match top with
  | .negSucc k => String.ofList ('0' :: '.' :: zeros k ++ ds)
  | .ofNat k =>
    if ds.length ≤ k + 1 then String.ofList (ds ++ zeros (k + 1 - ds.length)) ++ wholeMark
    else String.ofList (ds.take (k + 1) ++ '.' :: ds.drop (k + 1))

/-- The digits with a point behind the first one, followed by the power of ten with its sign. -/
def exponentText (ds : List Char) (top : Int) : String :=
  let point := if ds.length ≤ 1 then [] else ['.']
  let sign := if top < 0 then '-' else '+'
  String.ofList (ds.take 1 ++ point ++ ds.drop 1 ++ ['e', sign]) ++ top.natAbs.repr

/-- The text of a decimal. -/
def Style.digits (s : Style) (d : Digits) : String :=
  let ds := Nat.toDigits 10 d.digits
  let top := d.exponent + ds.length - 1
  if s.positional top then positionalText s.wholeMark ds top else exponentText ds top

/-- The text of a finite float. -/
def Style.text (s : Style) (d : Dyadic) : String :=
  let sign := if d.negative then "-" else ""
  if d.mantissa = 0 then sign ++ "0" ++ s.wholeMark else sign ++ s.digits (shortest s.tieUp d)

end ConvFlow.Decimal
