import Ecma3.Unicode.Letter
import Ecma3.Unicode.Mark
import Ecma3.Unicode.Number
import Ecma3.Unicode.Alphabetic

/-!
Which characters make up names, and which are alphanumeric. ASCII is decided without the tables.
-/

namespace Ecma3.Unicode

def isAscii (c : Char) : Bool := c.toNat < 128

/-- A letter of any script, the low line or the dollar sign. -/
def isNameStart (c : Char) : Bool :=
  if isAscii c then c.isAlpha || c == '_' || c == '$'
  else letters.contains c || letterNumbers.contains c

/-- A character that can begin a name, a digit of any script, a combining mark or a connector. -/
def isNamePart (c : Char) : Bool :=
  if isAscii c then c.isAlphanum || c == '_' || c == '$'
  else isNameStart c || combiningMarks.contains c || decimalDigits.contains c || connectors.contains c

/-- An alphabetic character or a number of any kind. -/
def isAlphanumeric (c : Char) : Bool :=
  if isAscii c then c.isAlphanum
  else letters.contains c || letterNumbers.contains c || decimalDigits.contains c ||
    otherNumbers.contains c || otherAlphabetic.contains c

end Ecma3.Unicode
