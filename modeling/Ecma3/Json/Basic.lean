import Ecma3.Decimal.Layout

/-!
JSON values, with object members in the order they are written in.
-/

namespace Ecma3

inductive Json where
  | null
  | bool (value : Bool)
  | int (value : Int)
  | float (value : Binary64)
  | str (value : String)
  | arr (elements : List Json)
  | obj (members : List (String × Json))

namespace Json

def ofNat (n : Nat) : Json := .int n

/-- A value that may be absent, which is written as null. -/
def ofOption {α : Type} (f : α → Json) : Option α → Json
  | none => .null
  | some a => f a

def strings (texts : List String) : Json := .arr (texts.map .str)

end Json
end Ecma3
