/-
# The shortest decimal that reads back

Every float is the nearest float to all numbers of an interval around it.  Among the decimals in
this interval with the fewest digits, `shortest` picks the one nearest to the float.  The search
goes through the grids of decimals with one digit, with two digits and so on; on each grid only
the two neighbours of the float can be in the interval if any point of the grid is.

All comparisons are between whole numbers.
-/
import ConvFlow.Decimal.Dyadic

namespace ConvFlow.Decimal

/-- A decimal number: `digits * 10 ^ exponent`. -/
structure Digits where
  /-- All digits as one whole number. -/
  digits : Nat
  /-- The power of ten of the last digit. -/
  exponent : Int

/-- The decimal without zeros at its end. -/
def Digits.trim (d : Digits) : Nat → Digits
  | 0 => d
  | n + 1 => if d.digits % 10 = 0 then trim ⟨d.digits / 10, d.exponent + 1⟩ n else d

/-- A positive number `value / unit` with the distances, in the same unit, to the ends of the
interval that rounds to it. -/
structure Interval where
  /-- The number, counted in units. -/
  value : Nat
  /-- The distance to the lower end. -/
  below : Nat
  /-- The distance to the upper end. -/
  above : Nat
  /-- How many units make one. -/
  unit : Nat
  /-- Whether the ends belong to the interval. -/
  closed : Bool

namespace Interval

/-- The interval of a float, counted in quarters of the distance to the next float. -/
def ofDyadic (d : Dyadic) : Interval :=
  let up := (d.exponent - 2).toNat
  let down := (2 - d.exponent).toNat
  { value := 4 * d.mantissa * Nat.pow 2 up
    below := (if d.narrowBelow then 1 else 2) * Nat.pow 2 up
    above := 2 * Nat.pow 2 up
    unit := Nat.pow 2 down
    closed := d.mantissa % 2 == 0 }

/-- The power of ten of the leading digit, for numbers from `10 ^ -limit` on. -/
def leading (i : Interval) (limit : Nat) : Int :=
  if i.unit ≤ i.value then ((Nat.toDigits 10 (i.value / i.unit)).length : Int) - 1
  else
    match (List.range limit).find? fun k => i.unit ≤ i.value * Nat.pow 10 (k + 1) with
    | some k => -(k + 1 : Int)
    | none => -limit

/-- The point of the grid `10 ^ exponent` that is in the interval; of two, the nearer one, and of
two equally near ones the upper one if `tieUp` is set and the even one otherwise. -/
def onGrid (i : Interval) (tieUp : Bool) (exponent : Int) : Option Nat :=
  let scale := Nat.pow 10 (-exponent).toNat
  let step := i.unit * Nat.pow 10 exponent.toNat
  let low := i.value * scale / step
  let toLow := i.value * scale % step
  let toHigh := step - toLow
  let within (distance limit : Nat) : Bool :=
    if i.closed then distance ≤ limit else distance < limit
  match within toLow (i.below * scale), within toHigh (i.above * scale) with
  | false, false => none
  | true, false => some low
  | false, true => some (low + 1)
  | true, true =>
    if toLow < toHigh then some low
    else if toHigh < toLow then some (low + 1)
    else if tieUp || low % 2 == 1 then some (low + 1)
    else some low

end Interval

/-- The largest number of digits that any float needs. -/
def maxDigits : Nat := 17

/-- The shortest decimal that reads back as the given float, which is not zero. -/
def shortest (tieUp : Bool) (d : Dyadic) : Digits :=
  let i := Interval.ofDyadic d
  let top := i.leading 400
  let hit := (List.range maxDigits).findSome? fun (n : Nat) =>
    (i.onGrid tieUp (top - n)).map fun c => (⟨c, top - n⟩ : Digits)
  (hit.getD ⟨i.value / i.unit, 0⟩).trim (maxDigits + 1)

end ConvFlow.Decimal
