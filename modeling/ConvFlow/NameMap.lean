/-
# Maps keyed by names

Values of a graph, initializers and inputs are found by name.  A `NameMap` is determined by what
it holds under each name, and lists its entries in the order of their names.
-/
import Std.Data.ExtTreeMap

namespace ConvFlow

/-- A finite map from names. -/
abbrev NameMap (β : Type) := Std.ExtTreeMap String β compare

namespace NameMap

variable {β : Type}

/-- Two maps agree if they hold the same names and the values under each name agree. -/
def agrees (same : β → β → Bool) (a b : NameMap β) : Bool :=
  a.size == b.size && (a.toList.zip b.toList).all fun (x, y) => x.1 == y.1 && same x.2 y.2

end NameMap

end ConvFlow
