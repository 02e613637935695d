import Ecma3.Text.Digit
import Ecma3.Yaml.Reader

/-!
Scalars: plain ones, quoted ones, and blocks of lines. A scalar may go on over several lines, which are
joined by a space, or by as many line feeds as there are empty lines between them.
-/

namespace Ecma3.Yaml

/-- What joins two lines with so many line breaks between them. -/
def joint (breaks : Nat) : List Char :=
  if breaks ≤ 1 then [' '] else List.replicate (breaks - 1) '\n'

/-- The number of blanks and line breaks at the start, and how many of them are line breaks. -/
def whiteRun : List Char → Nat × Nat
  | [] => (0, 0)
  | c :: rest =>
    let (length, breaks) := whiteRun rest
    if c == '\n' then (length + 1, breaks + 1)
    else if isBlank c then (length + 1, breaks)
    else (0, 0)

/-- Passes the white space at the reader and gives what it stands for in a scalar. -/
def fold : YamlM (List Char) := do
  let r ← get
  let (length, breaks) := whiteRun r.rest
  set (r.skip length)
  return if breaks = 0 then r.rest.take length else joint breaks

namespace Plain

/-- A plain scalar can begin here. -/
def begins (flow : Bool) (r : Reader) : Bool :=
  match r.peek 0 with
  | none => false
  | some c =>
    if c == '-' then !(r.peek 1).any isBlank
    else if c == '?' || c == ':' then !flow && !endsWord (r.peek 1)
    else !(isBlank c || c == '\n' || isFlowMark c ||
      ['#', '&', '*', '!', '|', '>', '\'', '"', '%', '@', '\u0060'].contains c)

/-- A plain scalar ends before this character. -/
def endsBefore (flow : Bool) (c : Char) (next : Option Char) : Bool :=
  isBlank c || c == '\n' || (c == ':' && endsWord next) || (flow && isFlowMark c)

/-- Length of the word at the start. -/
def word (flow : Bool) : List Char → Nat
  | [] => 0
  | c :: rest => if endsBefore flow c rest.head? then 0 else word flow rest + 1

/-- The words of a plain scalar. In a block, lines that go on with it begin to the right of `indent`. -/
def words (flow : Bool) (indent : Int) : Nat → YamlM (List Char)
  | 0 => failure
  | bound + 1 => do
    let r ← get
    let text := r.rest.take (word flow r.rest)
    let after := r.skip text.length
    -- a colon before a mark would be a key without a value
    if flow && after.peek 0 == some ':' && (after.peek 1).any isFlowMark then failure
    set after
    let white ← fold
    let next ← get
    let goesOn := !white.isEmpty && !next.atDocumentEnd && next.peek 0 != some '#' &&
      word flow next.rest ≠ 0 && (flow || next.line == after.line || indent < next.column)
    if goesOn then return text ++ white ++ (← words flow indent bound)
    else
      set after
      return text

end Plain

namespace Quoted

def single : Nat → YamlM (List Char)
  | 0 => failure
  | bound + 1 => do
    let r ← get
    if r.atDocumentEnd then failure
    match r.rest with
    | '\'' :: '\'' :: _ =>
      set (r.skip 2)
      return '\'' :: (← single bound)
    | '\'' :: _ =>
      set (r.skip 1)
      return []
    | c :: _ =>
      if isBlank c || c == '\n' then
        let white ← fold
        return white ++ (← single bound)
      else
        set (r.skip 1)
        return c :: (← single bound)
    | [] => failure

/-- The characters that stand for others after a backslash. -/
def escapes : List (Char × Char) :=
  [('0', '\x00'), ('a', '\x07'), ('b', '\x08'), ('t', '\t'), ('\t', '\t'), ('n', '\n'),
    ('v', '\x0b'), ('f', '\x0c'), ('r', '\r'), ('e', '\x1b'), (' ', ' '), ('"', '"'), ('/', '/'),
    ('\\', '\\'), ('N', '\u0085'), ('_', '\u00a0'), ('L', '\u2028'), ('P', '\u2029')]

/-- How many hexadecimal digits follow the letter of a code point. -/
def codeLength? (c : Char) : Option Nat :=
  if c == 'x' then some 2 else if c == 'u' then some 4 else if c == 'U' then some 8 else none

/-- The character with these hexadecimal digits. -/
def codePoint? (digits : List Char) : Option Char :=
  let n := Text.valueOf 16 digits
  if digits.all Text.isHexDigit && n.isValidChar then some (Char.ofNat n) else none

/-- The character after a backslash, and how many characters it took. -/
def escape? : List Char → Option (Char × Nat)
  | [] => none
  | c :: rest =>
    match codeLength? c with
    | some n =>
      let digits := rest.take n
      if digits.length = n then (codePoint? digits).map (·, n + 1) else none
    | none => (escapes.lookup c).map (·, 1)

def double : Nat → YamlM (List Char)
  | 0 => failure
  | bound + 1 => do
    let r ← get
    if r.atDocumentEnd then failure
    match r.rest with
    | '"' :: _ =>
      set (r.skip 1)
      return []
    | '\\' :: '\n' :: rest =>
      set (r.skip (2 + (rest.takeWhile isBlank).length))
      double bound
    | '\\' :: rest =>
      let (c, length) ← escape? rest
      set (r.skip (1 + length))
      return c :: (← double bound)
    | c :: _ =>
      if isBlank c || c == '\n' then
        let white ← fold
        return white ++ (← double bound)
      else
        set (r.skip 1)
        return c :: (← double bound)
    | [] => failure

end Quoted

namespace BlockText

/-- The width after `|` or `>`: zero if none is given. A sign may stand on either side of it. -/
def width? (header : List Char) : Option Nat :=
  match header.filter fun c => !(c == '+' || c == '-') with
  | [] => if header.length ≤ 1 then some 0 else none
  | [c] =>
    if header.length ≤ 2 && Text.isDigit c && c != '0' then some (Text.digitValue c) else none
  | _ => none

/-- What may stand after the header on its line. -/
def isEmptyLine (cs : List Char) : Bool :=
  match cs.dropWhile isBlank with
  | [] => true
  | c :: _ => c == '#' && cs.head? != some '#'

/-- The first of the lines that has something on it begins here. -/
def firstIndent : List (List Char) → Nat
  | [] => 0
  | line :: rest =>
    let spaces := (line.takeWhile (· == ' ')).length
    if spaces = line.length then firstIndent rest else spaces

/-- The line belongs to a block of this indentation: it begins there or further on, or is empty. -/
def belongs (indent : Nat) (line : List Char) : Bool :=
  let spaces := (line.takeWhile (· == ' ')).length
  indent ≤ spaces || spaces = line.length

def linesOf (cs : List Char) : List (List Char) := cs.splitOn '\n'

end BlockText

/-- A block of lines after `|` or `>`, which stands inside a block whose indentation is `parent`. -/
def blockText (parent : Int) : YamlM Value := do
  let r ← get
  let headerLine := (r.rest.drop 1).takeWhile (· != '\n')
  let header := headerLine.takeWhile (!isBlank ·)
  let width ← BlockText.width? header
  if !BlockText.isEmptyLine (headerLine.drop header.length) then failure
  let body := r.skip (headerLine.length + 2)
  let lines := BlockText.linesOf body.rest
  let indent :=
    if width = 0 then max (parent + 1).toNat (BlockText.firstIndent lines)
    else parent.toNat + width
  let own := lines.takeWhile (BlockText.belongs indent)
  set (body.skip (own.foldl (fun length line => length + (line.length + 1)) 0))
  return .scalar .block (String.ofList (['\n'].intercalate (own.map (·.drop indent))))

end Ecma3.Yaml
