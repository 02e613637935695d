import Ecma3.Text.Digit
import Ecma3.Text.Line
import Ecma3.Token.Basic
import Ecma3.Unicode.Name

/-!
What each class of tokens matches at the start of a text. A pattern gives the number of characters
of its longest match, and the longest match of all classes is the next token.
-/

namespace Ecma3.Token.Pattern

open Text (isDigit isHexDigit)

/-- Length of the longest run of characters that satisfy `p`. -/
def run (p : Char → Bool) (cs : List Char) : Nat := (cs.takeWhile p).length

def lineTerminator? : List Char → Option Nat
  | '\r' :: '\n' :: _ => some 2
  | c :: _ => if Text.isLineTerminator c then some 1 else none
  | [] => none

def lineComment? : List Char → Option Nat
  | '/' :: '/' :: rest => some (2 + run (!Text.isLineTerminator ·) rest)
  | _ => none

/-- Length up to and including the first `*/`. -/
def commentClose? : List Char → Option Nat
  | [] => none
  | '*' :: '/' :: _ => some 2
  | _ :: rest => (commentClose? rest).map (· + 1)

def blockComment? : List Char → Option Nat
  | '/' :: '*' :: rest => (commentClose? rest).map (· + 2)
  | _ => none

/-- Names, reserved words included. -/
def name? : List Char → Option Nat
  | [] => none
  | c :: rest => if Unicode.isNameStart c then some (1 + run Unicode.isNamePart rest) else none

/-- Length of a sign, if there is one. -/
def sign : List Char → Nat
  | '+' :: _ => 1
  | '-' :: _ => 1
  | _ => 0

/-- Length of an exponent with at least one digit, or zero. -/
def exponent : List Char → Nat
  | [] => 0
  | c :: rest =>
    if c == 'e' || c == 'E' then
      let digits := run isDigit (rest.drop (sign rest))
      if digits = 0 then 0 else 1 + sign rest + digits
    else 0

/-- Length of a point and the digits after it, or zero if there is no point. -/
def fraction : List Char → Nat
  | '.' :: rest => 1 + run isDigit rest
  | _ => 0

/-- Digits with an optional fraction, or a point and at least one digit; then an optional exponent. -/
def decimal? (cs : List Char) : Option Nat :=
  let whole := run isDigit cs
  let part := fraction (cs.drop whole)
  if whole = 0 && part < 2 then none
  else some (whole + part + exponent (cs.drop (whole + part)))

def hex? : List Char → Option Nat
  | '0' :: x :: rest =>
    let digits := run isHexDigit rest
    if (x == 'x' || x == 'X') && digits ≠ 0 then some (2 + digits) else none
  | _ => none

/-- What ends a line inside a string. The separators U+2028 and U+2029 do not. -/
def breaksString (c : Char) : Bool := c == '\n' || c == '\r'

/-- How far a string that `quote` opened goes on, and whether `quote` closes it there. -/
def stringBody (quote : Char) : List Char → Nat × Bool
  | [] => (0, false)
  | ['\\'] => (1, false)
  | '\\' :: c :: rest =>
    if breaksString c then (1, false)
    else
      let (length, closed) := stringBody quote rest
      (length + 2, closed)
  | c :: rest =>
    if c = quote then (1, true)
    else if breaksString c then (0, false)
    else
      let (length, closed) := stringBody quote rest
      (length + 1, closed)

def isQuote (c : Char) : Bool := c == '"' || c == '\''

def string? : List Char → Option Nat
  | [] => none
  | c :: rest =>
    if isQuote c then
      let (length, closed) := stringBody c rest
      if closed then some (1 + length) else none
    else none

/-- Length of a spelling that the text begins with. -/
def spelled? (spelling : String) (cs : List Char) : Option Nat :=
  if spelling.toList.isPrefixOf cs then some spelling.length else none

/-- The reserved word or identifier that these characters spell. -/
def wordToken (cs : List Char) : Token :=
  match ReservedWord.ofSpelling? (String.ofList cs) with
  | some word => .reserved word
  | none => .identifier

/-- What each class matches at the start of the text. -/
def candidates (cs : List Char) : List (Token × Nat) :=
  [(lineTerminator? cs).map (lineTerminator, ·),
    (lineComment? cs).map (lineComment, ·),
    (blockComment? cs).map (blockComment, ·),
    (name? cs).map fun n => (wordToken (cs.take n), n),
    (decimal? cs).map (decimalLiteral, ·),
    (hex? cs).map (hexLiteral, ·),
    (string? cs).map (stringLiteral, ·)].filterMap id ++
  Punctuator.all.filterMap fun p => (spelled? p.spelling cs).map (punctuator p, ·)

/-- The longer of two matches, the first one if they are equally long. -/
def longer (a b : Token × Nat) : Token × Nat := if a.2 < b.2 then b else a

/-- The token at the start of the text and its length. -/
def longest? (cs : List Char) : Option (Token × Nat) :=
  match candidates cs with
  | [] => none
  | first :: rest => some (rest.foldl longer first)

/-- How much of a text that begins with no token is passed over as one error: an unclosed string up
to what cannot be part of it, and otherwise one character. -/
def errorLength : List Char → Nat
  | [] => 0
  | c :: rest => if isQuote c then 1 + (stringBody c rest).1 else 1

theorem errorLength_pos {cs : List Char} (h : cs ≠ []) : 0 < errorLength cs := by
  cases cs with
  | nil => exact absurd rfl h
  | cons c rest => simp only [errorLength]; split <;> omega

theorem lineTerminator?_pos {cs : List Char} {n : Nat} (h : lineTerminator? cs = some n) : 0 < n := by
  unfold lineTerminator? at h
  grind

theorem lineComment?_pos {cs : List Char} {n : Nat} (h : lineComment? cs = some n) : 0 < n := by
  unfold lineComment? at h
  grind

theorem blockComment?_pos {cs : List Char} {n : Nat} (h : blockComment? cs = some n) : 0 < n := by
  unfold blockComment? at h
  grind [Option.map_eq_some_iff]

theorem name?_pos {cs : List Char} {n : Nat} (h : name? cs = some n) : 0 < n := by
  unfold name? at h
  grind

theorem decimal?_pos {cs : List Char} {n : Nat} (h : decimal? cs = some n) : 0 < n := by
  unfold decimal? at h
  grind

theorem hex?_pos {cs : List Char} {n : Nat} (h : hex? cs = some n) : 0 < n := by
  unfold hex? at h
  grind

theorem string?_pos {cs : List Char} {n : Nat} (h : string? cs = some n) : 0 < n := by
  unfold string? at h
  grind

theorem spelled?_pos (p : Punctuator) {cs : List Char} {n : Nat}
    (h : spelled? p.spelling cs = some n) : 0 < n := by
  simp only [spelled?, Option.ite_none_right_eq_some, Option.some.injEq] at h
  rw [← h.2]
  cases p <;> decide

theorem candidates_pos {cs : List Char} {m : Token × Nat} (h : m ∈ candidates cs) : 0 < m.2 := by
  simp only [candidates, List.mem_append, List.mem_filterMap, List.mem_cons, List.not_mem_nil,
    or_false, id_eq, exists_eq_right, Option.map_eq_some_iff] at h
  rcases h with h | ⟨p, -, n, hn, rfl⟩
  · rcases h with h | h | h | h | h | h | h <;>
      obtain ⟨n, hn, rfl⟩ := Option.map_eq_some_iff.1 h.symm
    · exact lineTerminator?_pos hn
    · exact lineComment?_pos hn
    · exact blockComment?_pos hn
    · exact name?_pos hn
    · exact decimal?_pos hn
    · exact hex?_pos hn
    · exact string?_pos hn
  · exact spelled?_pos p hn

theorem longer_eq (a b : Token × Nat) : longer a b = a ∨ longer a b = b := by
  unfold longer
  split
  · exact Or.inr rfl
  · exact Or.inl rfl

theorem foldl_longer_mem (first : Token × Nat) (rest : List (Token × Nat)) :
    rest.foldl longer first ∈ first :: rest := by
  induction rest generalizing first with
  | nil => exact List.mem_cons_self
  | cons next rest ih =>
    rw [List.foldl_cons]
    rcases List.mem_cons.1 (ih (longer first next)) with h | h
    · rw [h]
      rcases longer_eq first next with heq | heq
      · rw [heq]
        exact List.mem_cons_self
      · rw [heq]
        exact List.mem_cons_of_mem _ List.mem_cons_self
    · exact List.mem_cons_of_mem _ (List.mem_cons_of_mem _ h)

/-- A token takes at least one character. -/
theorem longest?_pos {cs : List Char} {m : Token × Nat} (h : longest? cs = some m) : 0 < m.2 := by
  unfold longest? at h
  split at h
  · simp at h
  · rename_i first rest hc
    cases h
    exact candidates_pos (hc ▸ foldl_longer_mem first rest)

end Ecma3.Token.Pattern
