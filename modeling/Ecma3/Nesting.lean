/-!
The nesting limit, and the stack that a recursive pass needs to reach it.
-/

namespace Ecma3.Nesting

/-- The limit where none is given. -/
def defaultLimit : Nat := 512

/-- Bytes of stack for one level. -/
def stackPerLevel : Nat := 64 * 1024

/-- Bytes of stack for everything around the levels. -/
def baseStack : Nat := 1024 * 1024

/-- The greatest size in bytes, and the greatest limit. -/
def maxSize : Nat := Nat.pow 2 64 - 1

/-- Bytes of stack for a pass that goes as deep as the limit, or the greatest size if that is less. -/
def stackSize (limit : Nat) : Nat := min maxSize (min maxSize (limit * stackPerLevel) + baseStack)

end Ecma3.Nesting
