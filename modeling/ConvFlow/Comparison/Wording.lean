/-
# Reports in words

A report without findings says how much was compared; any other report lists its findings.
Differences are written positionally however large or small they are.
-/
import ConvFlow.Decimal.Style
import ConvFlow.Comparison.Check

namespace ConvFlow.Comparison

/-- Differences are never written with an exponent, and a whole number has no point. -/
def differenceStyle : Decimal.Style where
  positional _ := true
  wholeMark := ""
  tieUp := true

/-- The text of a difference. -/
def differenceText (x : Float32) : String :=
  match Decimal.Dyadic.ofSingle? x with
  | some d => differenceStyle.text d
  | none => if x.isNaN then "NaN" else if x < 0 then "-inf" else "inf"

/-- How an output differs, in words. -/
def Divergence.message : Divergence Float32 → String
  | shape expected got => s!"shape {Text.numbers got} != {Text.numbers expected}"
  | values maxAbsDiff worstIndex mismatched total =>
    s!"{mismatched}/{total} elements differ, "
      ++ s!"max |diff| {differenceText maxAbsDiff} at index {worstIndex}"

/-- A finding in words. -/
def Finding.message (f : Finding Float32) : String :=
  s!"output '{f.output}' (sample {f.sample}): {f.divergence.message}"

/-- A report in words. -/
def Report.message (r : Report Float32) : String :=
  if r.isEquivalent then s!"{r.outputsCompared} output(s) match over {r.samples} sample(s)"
  else "; ".intercalate (r.findings.map Finding.message)

end ConvFlow.Comparison
