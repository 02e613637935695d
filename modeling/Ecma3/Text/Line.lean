import Ecma3.Text.Search
import Ecma3.Text.Span
import Ecma3.Text.Utf8

/-!
Lines of a text, and the line and column of a byte offset. A line ends after LF, CR LF, a CR that
no LF follows, U+2028 or U+2029.
-/

namespace Ecma3.Text

def isLineTerminator (c : Char) : Bool :=
  c == '\n' || c == '\r' || c == '\u2028' || c == '\u2029'

/-- Line and column, both counted from zero; the column counts bytes. -/
structure Position where
  line : Nat
  column : Nat
deriving DecidableEq, Repr, Inhabited

namespace Position

/-- Earlier lines come first, then earlier columns. -/
def le (a b : Position) : Bool :=
  a.line < b.line || (a.line == b.line && a.column ≤ b.column)

/-- The text `line:column`. -/
def render (p : Position) : String := toString p.line ++ ":" ++ toString p.column

/-- The text `line:column` for readers, who count from one. -/
def renderFromOne (p : Position) : String := render ⟨p.line + 1, p.column + 1⟩

end Position

/-- The offsets just past each line terminator, for a text that begins at `offset`. -/
def lineBreakEnds (offset : Nat) : List Char → List Nat
  | [] => []
  | '\r' :: '\n' :: rest => (offset + 2) :: lineBreakEnds (offset + 2) rest
  | c :: rest =>
    let next := offset + c.utf8Size
    if isLineTerminator c then next :: lineBreakEnds next rest else lineBreakEnds next rest

/-- Where the lines of a text begin, the first one included, and where the text ends. -/
structure LineIndex where
  starts : Array Nat
  size : Nat
  first : starts[0]? = some 0
deriving Repr

namespace LineIndex

def ofString (source : String) : LineIndex where
  starts := (0 :: lineBreakEnds 0 source.toList).toArray
  size := byteLength source.toList
  first := rfl

def lineCount (ix : LineIndex) : Nat := ix.starts.size

def lineStart? (ix : LineIndex) (line : Nat) : Option Nat := ix.starts[line]?

/-- The line that begins at a place, or else the one before the first that begins behind it. There
is one before, since the first line begins at zero. -/
def line (ix : LineIndex) (place : Nat) : Fin ix.starts.size :=
  match h : search ix.starts place with
  | .ok i => i
  | .error i => i.pred (search_ne_zero ix.first (Nat.zero_le place) h)

/-- The position of an offset. An offset past the end has the position of the end. -/
def position (ix : LineIndex) (offset : Nat) : Position :=
  let place := min offset ix.size
  let line := ix.line place
  ⟨line, place - ix.starts[line]⟩

/-- The positions of both ends. -/
def positions (ix : LineIndex) (span : Span) : Position × Position :=
  (ix.position span.start, ix.position span.stop)

end LineIndex
end Ecma3.Text
