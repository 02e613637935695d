import Ecma3.Unicode.Printable

/-!
Texts between double quotes, as they are shown in messages. Quotes and backslashes are escaped, and so is
whatever cannot be seen or would join the character before it.
-/

namespace Ecma3.Text.Quoted

/-- The escape with the code point in hexadecimal. -/
def codePoint (c : Char) : List Char :=
  ['\\', 'u', '\x7b'] ++ Nat.toDigits 16 c.toNat ++ ['\x7d']

/-- The character stands for itself. -/
def isShown (c : Char) : Bool :=
  if c.toNat < 0x7F then 0x20 ≤ c.toNat
  else !(Unicode.unprintables.contains c || Unicode.graphemeExtenders.contains c)

def escape (c : Char) : List Char :=
  if c = '"' then ['\\', '"']
  else if c = '\\' then ['\\', '\\']
  else if c = '\n' then ['\\', 'n']
  else if c = '\r' then ['\\', 'r']
  else if c = '\t' then ['\\', 't']
  else if c = '\x00' then ['\\', '0']
  else if isShown c then [c]
  else codePoint c

def quote (text : String) : String := String.ofList ('"' :: text.toList.flatMap escape ++ ['"'])

end Ecma3.Text.Quoted
