/-!
YAML values, and the place of a reader in a text. Lines and columns matter: what stands further to the
right stands further inside.
-/

namespace Ecma3.Yaml

/-- How a scalar is written. Only a plain one can be anything but text. -/
inductive Style where
  | plain
  | quoted
  | block
deriving DecidableEq, Repr

inductive Value where
  | scalar (style : Style) (text : String)
  | sequence (items : List Value)
  | mapping (entries : List (Value × Value))

/-- What stands where nothing is written. -/
def Value.absent : Value := .scalar .plain ""

structure Reader where
  rest : List Char
  line : Nat
  column : Nat
  /-- Values that aliases can refer to, the latest first. -/
  anchors : List (String × Value)

/-- Reading fails without a reason: all that is known of a bad text is that it is one. -/
abbrev YamlM := StateT Reader Option

def isBlank (c : Char) : Bool := c == ' ' || c == '\t'

/-- A word ends at a blank, at a line break and at the end of the text. -/
def endsWord : Option Char → Bool
  | none => true
  | some c => isBlank c || c == '\n'

/-- Marks that have a meaning inside brackets. -/
def isFlowMark (c : Char) : Bool := c == ',' || c == '[' || c == ']' || c == '\x7b' || c == '\x7d'

/-- All line breaks as line feeds. -/
def normalizeBreaks : List Char → List Char
  | [] => []
  | '\r' :: '\n' :: rest => '\n' :: normalizeBreaks rest
  | c :: rest =>
    (if c == '\r' || c == '\u0085' || c == '\u2028' || c == '\u2029' then '\n' else c) ::
      normalizeBreaks rest

/-- A character that may stand in a text at all. -/
def isAllowed (c : Char) : Bool :=
  let n := c.toNat
  n == 0x09 || n == 0x0A || n == 0x0D || (0x20 ≤ n && n ≤ 0x7E) || n == 0x85 ||
    (0xA0 ≤ n && n ≤ 0xFFFD && n ≠ 0xFEFF) || 0x10000 ≤ n

namespace Reader

def ofChars (cs : List Char) : Reader := ⟨cs, 0, 0, []⟩

/-- The character at a distance. -/
def peek (r : Reader) (distance : Nat) : Option Char := r.rest[distance]?

def atEnd (r : Reader) : Bool := r.rest.isEmpty

def startsWith (r : Reader) (word : List Char) : Bool := word.isPrefixOf r.rest

/-- A mark with nothing attached to it. -/
def atMark (r : Reader) (mark : Char) : Bool := r.peek 0 == some mark && endsWord (r.peek 1)

/-- The three characters that begin or end a document, at the start of a line. -/
def atMarker (r : Reader) (marker : List Char) : Bool :=
  r.column == 0 && r.startsWith marker && endsWord (r.peek 3)

def startMarker : List Char := ['-', '-', '-']

def endMarker : List Char := ['.', '.', '.']

/-- Nothing of the document follows. -/
def atDocumentEnd (r : Reader) : Bool := r.atEnd || r.atMarker startMarker || r.atMarker endMarker

/-- The next character is passed. -/
def step (r : Reader) : Reader :=
  match r.rest with
  | [] => r
  | '\n' :: rest => { r with rest, line := r.line + 1, column := 0 }
  | _ :: rest => { r with rest, column := r.column + 1 }

def skip (r : Reader) : Nat → Reader
  | 0 => r
  | n + 1 => r.step.skip n

/-- Passes blanks, comments and line breaks. Tabs are blanks inside brackets and after something on the
same line, and nowhere else. -/
def gapFrom (flow : Bool) (line column : Nat) (tabs comment : Bool) :
    List Char → Nat × Nat × List Char
  | [] => (line, column, [])
  | c :: rest =>
    if c == '\n' then gapFrom flow (line + 1) 0 flow false rest
    else if comment || c == '#' then gapFrom flow line (column + 1) tabs true rest
    else if c == ' ' || (tabs && c == '\t') then gapFrom flow line (column + 1) tabs false rest
    else (line, column, c :: rest)

def gap (r : Reader) (flow tabs : Bool) : Reader :=
  let (line, column, rest) := gapFrom flow r.line r.column tabs false r.rest
  { r with line, column, rest }

end Reader

namespace YamlM

def skip (n : Nat) : YamlM Unit := modify (·.skip n)

/-- Passes what stands between two pieces of a block; tells whether a line ended in it. -/
def blockGap (tabs : Bool) : YamlM Bool := do
  let r ← get
  let after := r.gap false tabs
  set after
  return r.line < after.line

/-- Passes what stands between two pieces inside brackets. -/
def flowGap : YamlM Unit := modify (·.gap true true)

def lookup (name : String) : YamlM Value := do
  match (← get).anchors.lookup name with
  | some v => return v
  | none => failure

/-- Remembers a value under its anchor, if it has one. -/
def define (anchor : Option String) (v : Value) : YamlM Value := do
  if let some name := anchor then modify fun r => { r with anchors := (name, v) :: r.anchors }
  return v

end YamlM
end Ecma3.Yaml
