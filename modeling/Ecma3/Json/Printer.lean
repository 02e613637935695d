import Ecma3.Json.Basic

/-!
JSON texts: a compact one without spaces, and a pretty one with every member and element on a line of
its own, two spaces deeper than what holds it.
-/

namespace Ecma3.Json

/-- Floats are written out from 0.00001 up to sixteen digits before the point, and have a signed
exponent elsewhere. There is no text for infinities, so they become null. -/
def floatLayout : Decimal.Layout where
  leadingZeros := 4
  wholeDigits := 16
  plusSign := true
  tie := .toEven
  infinity := "null"

def floatText (x : Binary64) : String :=
  if x.isInfinite then floatLayout.infinity else floatLayout.render x

def hexDigit (n : Nat) : Char := (Nat.toDigits 16 n).headD '0'

/-- A character inside a string. Quotes, backslashes and control characters are escaped. -/
def escape (c : Char) : List Char :=
  if c = '"' then ['\\', '"']
  else if c = '\\' then ['\\', '\\']
  else if c = '\x08' then ['\\', 'b']
  else if c = '\x0c' then ['\\', 'f']
  else if c = '\n' then ['\\', 'n']
  else if c = '\r' then ['\\', 'r']
  else if c = '\t' then ['\\', 't']
  else if c.toNat < 0x20 then
    ['\\', 'u', '0', '0', hexDigit (c.toNat / 16), hexDigit (c.toNat % 16)]
  else [c]

def quote (text : String) : String := String.ofList ('"' :: text.toList.flatMap escape ++ ['"'])

/-- Line breaks and spaces of a printed value. -/
inductive Spacing where
  | compact
  | pretty

namespace Spacing

/-- What stands before each element or member, and before the closing bracket. -/
def lineBreak : Spacing → Nat → String
  | compact, _ => ""
  | pretty, depth => String.ofList ('\n' :: List.replicate (2 * depth) ' ')

def colon : Spacing → String
  | compact => ":"
  | pretty => ": "

/-- Entries between brackets. No line is broken when there are none. -/
def enclose (s : Spacing) (depth : Nat) (opening closing : String) : List String → String
  | [] => opening ++ closing
  | entries =>
    let separator := "," ++ s.lineBreak (depth + 1)
    opening ++ s.lineBreak (depth + 1) ++ separator.intercalate entries ++ s.lineBreak depth ++ closing

end Spacing

mutual

def render (s : Spacing) (depth : Nat) : Json → String
  | null => "null"
  | bool b => if b then "true" else "false"
  | int n => toString n
  | float x => floatText x
  | str text => quote text
  | arr elements => s.enclose depth "[" "]" (renderAll s (depth + 1) elements)
  | obj members => s.enclose depth "\x7b" "\x7d" (renderMembers s (depth + 1) members)

def renderAll (s : Spacing) (depth : Nat) : List Json → List String
  | [] => []
  | j :: rest => render s depth j :: renderAll s depth rest

def renderMembers (s : Spacing) (depth : Nat) : List (String × Json) → List String
  | [] => []
  | (key, j) :: rest => (quote key ++ s.colon ++ render s depth j) :: renderMembers s depth rest

end

def compact (j : Json) : String := render .compact 0 j

def pretty (j : Json) : String := render .pretty 0 j

end Ecma3.Json
