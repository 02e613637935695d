import Ecma3.Token.Pattern

/-!
Lexemes, and the cursor that cuts a text into them. Every step of the cursor moves it forward, so
that what is left of the text bounds the number of steps.
-/

namespace Ecma3

/-- A token with its text and place. -/
structure Lexeme where
  token : Token
  text : String
  span : Span
deriving DecidableEq, Repr

/-- A line terminator stands inside the lexeme. -/
def Lexeme.breaksLine (l : Lexeme) : Bool := l.text.toList.any Text.isLineTerminator

/-- Text that begins with no token. -/
structure LexicalError where
  text : String
  span : Span
deriving DecidableEq, Repr

def LexicalError.message (e : LexicalError) : String :=
  "Unexpected character '" ++ e.text ++ "' at byte " ++ toString e.span.start

/-- One piece of a text: a lexeme, or text that is none. -/
abbrev Lexeme.Item := Except LexicalError Lexeme

/-- A place in a text: its byte offset and the characters from there on. -/
structure Cursor where
  offset : Nat
  rest : List Char
deriving DecidableEq, Repr

namespace Cursor

/-- Characters between tokens that are part of none. -/
def isBlank (c : Char) : Bool :=
  c == ' ' || c == '\t' || c == '\x0b' || c == '\x0c' || c == '\u00A0' || c == '\uFEFF'

def ofString (source : String) : Cursor := ⟨0, source.toList⟩

/-- The place `n` characters further on. -/
def advance (c : Cursor) (n : Nat) : Cursor :=
  ⟨c.offset + Text.byteLength (c.rest.take n), c.rest.drop n⟩

def skipBlanks (c : Cursor) : Cursor := c.advance (Token.Pattern.run isBlank c.rest)

/-- The text of the next `n` characters. -/
def text (c : Cursor) (n : Nat) : String := String.ofList (c.rest.take n)

/-- The range of the next `n` characters. -/
def span (c : Cursor) (n : Nat) : Span := ⟨c.offset, (c.advance n).offset⟩

/-- The piece that begins here, and the place after it. -/
def item (c : Cursor) : Lexeme.Item × Cursor :=
  match Token.Pattern.longest? c.rest with
  | some (token, n) => (.ok ⟨token, c.text n, c.span n⟩, c.advance n)
  | none =>
    let n := Token.Pattern.errorLength c.rest
    (.error ⟨c.text n, c.span n⟩, c.advance n)

/-- The next piece past any blanks, or nothing at the end of the text. -/
def next? (c : Cursor) : Option (Lexeme.Item × Cursor) :=
  let c := c.skipBlanks
  if c.rest.isEmpty then none else some c.item

theorem skipBlanks_rest_length_le (c : Cursor) : c.skipBlanks.rest.length ≤ c.rest.length := by
  simp [skipBlanks, advance]

/-- Each piece takes at least one character. -/
theorem item_rest_length_lt {c : Cursor} (h : c.rest ≠ []) :
    c.item.2.rest.length < c.rest.length := by
  have hpos := List.length_pos_iff.2 h
  unfold item
  split
  · rename_i token n hn
    have := Token.Pattern.longest?_pos hn
    simp only [advance, List.length_drop]
    omega
  · have := Token.Pattern.errorLength_pos h
    simp only [advance, List.length_drop]
    omega

theorem next?_rest_length_lt {c d : Cursor} {i : Lexeme.Item} (h : c.next? = some (i, d)) :
    d.rest.length < c.rest.length := by
  simp only [next?, List.isEmpty_iff, Option.ite_none_left_eq_some, Option.some.injEq] at h
  have := item_rest_length_lt h.1
  rw [h.2] at this
  exact Nat.lt_of_lt_of_le this c.skipBlanks_rest_length_le

/-- All pieces from here on. -/
def items (c : Cursor) : List Lexeme.Item :=
  match _h : c.next? with
  | none => []
  | some (item, d) => item :: items d
termination_by c.rest.length
decreasing_by exact next?_rest_length_lt ‹_›

/-- The next piece that is no trivia, whether a line ends in the trivia before it, and the place
after it. Line breaks that were seen earlier are passed in. -/
def nextSignificant (lineBreak : Bool) (c : Cursor) : Option Lexeme.Item × Bool × Cursor :=
  match _h : c.next? with
  | none => (none, lineBreak, c)
  | some (.error e, d) => (some (.error e), lineBreak, d)
  | some (.ok l, d) =>
    if l.token.isTrivia then nextSignificant (lineBreak || l.breaksLine) d
    else (some (.ok l), lineBreak, d)
termination_by c.rest.length
decreasing_by exact next?_rest_length_lt ‹_›

theorem nextSignificant_eq (lineBreak : Bool) (c : Cursor) :
    c.nextSignificant lineBreak = match c.next? with
      | none => (none, lineBreak, c)
      | some (.error e, d) => (some (.error e), lineBreak, d)
      | some (.ok l, d) =>
        if l.token.isTrivia then d.nextSignificant (lineBreak || l.breaksLine)
        else (some (.ok l), lineBreak, d) := by
  rw [nextSignificant]
  split <;> simp_all

theorem nextSignificant_nil {lineBreak : Bool} {c : Cursor} (h : c.rest = []) :
    c.nextSignificant lineBreak = (none, lineBreak, c) := by
  have hnext : c.next? = none := by simp [next?, skipBlanks, advance, h]
  rw [nextSignificant_eq, hnext]

/-- The place `n` bytes further on, if a character begins or the text ends there. -/
def skipBytes? (c : Cursor) (n : Nat) : Option Cursor :=
  (Text.dropBytes? n c.rest).map fun rest => ⟨c.offset + n, rest⟩

end Cursor

namespace Lexeme

/-- Everything in a text but the blanks, errors included. -/
def scan (source : String) : List Item := (Cursor.ofString source).items

/-- All lexemes of a text, or its first error. -/
def tokenize (source : String) : Except LexicalError (List Lexeme) := (scan source).mapM id

/-- The lexemes without line terminators and comments. -/
def significant (lexemes : List Lexeme) : List Lexeme := lexemes.filter (!·.token.isTrivia)

end Lexeme
end Ecma3
