/-!
Sets of characters given by ranges of code points.
-/

namespace Ecma3.Unicode

/-- Inclusive ranges of code points, in ascending order. -/
abbrev RangeTable := List (Nat × Nat)

/-- Some range of the table holds the character. -/
def RangeTable.contains (table : RangeTable) (c : Char) : Bool :=
  table.any fun (first, last) => first ≤ c.toNat && c.toNat ≤ last

end Ecma3.Unicode
