/-
# Lists in messages

Messages show a list between square brackets with its entries separated by a comma and a blank,
for instance `[1, 3, 5, 5]`.
-/

namespace ConvFlow.Text

/-- The entries between square brackets, separated by a comma and a blank. -/
def listing (entries : List String) : String := "[" ++ ", ".intercalate entries ++ "]"

/-- A list of numbers in decimal notation. -/
def numbers (ns : List Nat) : String := listing (ns.map Nat.repr)

/-- A whole number in decimal notation. -/
def integer (n : Int) : String := if n < 0 then "-" ++ n.natAbs.repr else n.natAbs.repr

/-- A list of whole numbers in decimal notation. -/
def integers (ns : List Int) : String := listing (ns.map integer)

end ConvFlow.Text
