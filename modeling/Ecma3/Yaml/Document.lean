import Ecma3.Yaml.Scalar

/-!
Nodes and documents. Blocks are read by their indentation, brackets by their marks. A number bounds how
far the reading goes in and on; the length of the text is enough.
-/

namespace Ecma3.Yaml
open YamlM

/-- Names of anchors and of what aliases refer to. -/
def anchorName : YamlM String := do
  let r ← get
  let name := (r.rest.drop 1).takeWhile fun c => c.isAlphanum || c == '_' || c == '-'
  if name.isEmpty then failure
  set (r.skip (1 + name.length))
  let ended := (← get).peek 0
  if endsWord ended || ended.any fun c => isFlowMark c || ['?', ':', '%', '@', '\u0060'].contains c then
    return String.ofList name
  else failure

/-- Tags are passed over. -/
def tag : YamlM Unit := do
  let r ← get
  let length := (r.rest.takeWhile fun c => !(isBlank c || c == '\n' || isFlowMark c)).length
  set (r.skip length)

/-- Anchors and tags before a node; the last anchor counts. -/
def properties (flow : Bool) : Nat → Option String → YamlM (Option String)
  | 0, _ => failure
  | bound + 1, anchor => do
    match (← get).peek 0 with
    | some '&' =>
      let name ← anchorName
      modify fun r => if flow then r.gap true true else r.skip (r.rest.takeWhile isBlank).length
      properties flow bound (some name)
    | some '!' =>
      tag
      modify fun r => if flow then r.gap true true else r.skip (r.rest.takeWhile isBlank).length
      properties flow bound anchor
    | _ => return anchor

/-- Passes a mark if it is there. -/
def accept (mark : Char) : YamlM Bool := do
  if (← get).peek 0 == some mark then
    skip 1
    return true
  else return false

/-- Scalars and aliases. -/
def word (flow : Bool) (indent : Int) : YamlM Value := do
  let r ← get
  let bound := r.rest.length + 1
  match r.peek 0 with
  | some '\'' =>
    skip 1
    return .scalar .quoted (String.ofList (← Quoted.single bound))
  | some '"' =>
    skip 1
    return .scalar .quoted (String.ofList (← Quoted.double bound))
  | some '*' => lookup (← anchorName)
  | _ =>
    if Plain.begins flow r then
      return .scalar .plain (String.ofList (← Plain.words flow indent bound))
    else failure

mutual

/-- A node inside brackets, in a block that is indented by `indent`. -/
def flowNode (flow : Bool) (indent : Int) : Nat → YamlM Value
  | 0 => failure
  | bound + 1 => do
    match (← get).peek 0 with
    | some '[' =>
      skip 1
      return .sequence (← flowItems bound)
    | some '\x7b' =>
      skip 1
      return .mapping (← flowEntries bound)
    | _ => word flow indent

/-- A node inside brackets that may be left out before a mark. -/
def flowValue : Nat → YamlM Value
  | 0 => failure
  | bound + 1 => do
    flowGap
    let anchor ← properties true bound none
    let next := (← get).peek 0
    if next.any fun c => c == ',' || c == ']' || c == '\x7d' || c == ':' then define anchor .absent
    else define anchor (← flowNode true 0 bound)

/-- A key and its value, and whether there was a colon between them. -/
def flowPair : Nat → YamlM (Value × Value × Bool)
  | 0 => failure
  | bound + 1 => do
    let start ← get
    let isExplicit := start.atMark '?'
    if isExplicit then skip 1
    let key ← flowValue bound
    flowGap
    let after ← get
    if after.peek 0 == some ':' then
      if !isExplicit && start.line != after.line then failure
      skip 1
      return (key, ← flowValue bound, true)
    else if after.rest.length = start.rest.length then failure
    else return (key, .absent, isExplicit)

def flowItems : Nat → YamlM (List Value)
  | 0 => failure
  | bound + 1 => do
    flowGap
    if ← accept ']' then return []
    let (key, value, isPair) ← flowPair bound
    let item := if isPair then .mapping [(key, value)] else key
    flowGap
    if ← accept ',' then return item :: (← flowItems bound)
    else if ← accept ']' then return [item]
    else failure

def flowEntries : Nat → YamlM (List (Value × Value))
  | 0 => failure
  | bound + 1 => do
    flowGap
    if ← accept '\x7d' then return []
    let (key, value, _) ← flowPair bound
    flowGap
    if ← accept ',' then return (key, value) :: (← flowEntries bound)
    else if ← accept '\x7d' then return [(key, value)]
    else failure

end

/-- Passes the colon after a key, which must stand on the key's line. -/
def colonAfterKey (line : Nat) : YamlM Bool := do
  let r ← get
  let after := r.skip (r.rest.takeWhile isBlank).length
  if after.atMark ':' then
    if after.line != line then failure
    set (after.skip 1)
    return true
  else return false

mutual

/-- A node inside a block at column `parent`. A block can begin where no other node precedes it on its
line, which `fresh` tells. Dashes may stand right below a key. -/
def blockNode (parent : Int) (fresh underKey : Bool) : Nat → YamlM Value
  | 0 => failure
  | bound + 1 => do
    let fresh := (← blockGap (!fresh)) || fresh
    let r ← get
    if r.atDocumentEnd then return .absent
    else if parent < r.column then blockContent parent fresh bound
    else if underKey && parent = r.column && r.atMark '-' then
      return .sequence (← blockItems r.column true bound)
    else return .absent

/-- A node that begins here. -/
def blockContent (parent : Int) (fresh : Bool) : Nat → YamlM Value
  | 0 => failure
  | bound + 1 => do
    let start ← get
    if start.atMark '-' then
      if !fresh then failure
      return .sequence (← blockItems start.column false bound)
    else if start.atMark '?' || start.atMark ':' then
      if !fresh then failure
      return .mapping (← blockEntries start.column bound)
    else if start.peek 0 == some '|' || start.peek 0 == some '>' then blockText parent
    else
      let anchor ← properties false bound none
      let named ← get
      if start.rest.length ≠ named.rest.length && endsWord (named.peek 0) then
        define anchor (← blockNode parent false true bound)
      else
        let node ← define anchor (← flowNode false parent bound)
        if ← colonAfterKey start.line then
          if !fresh then failure
          let value ← blockNode start.column false true bound
          return .mapping ((node, value) :: (← blockEntries start.column bound))
        else return node

/-- The further entries of a mapping at a column. -/
def blockEntries (column : Nat) : Nat → YamlM (List (Value × Value))
  | 0 => failure
  | bound + 1 => do
    _ ← blockGap true
    let r ← get
    if r.atDocumentEnd || r.column < column then return []
    else if column < r.column then failure
    else if r.atMark '?' then
      skip 1
      let key ← blockNode column true true bound
      _ ← blockGap true
      let after ← get
      if after.column = column && after.atMark ':' then
        skip 1
        let value ← blockNode column true true bound
        return (key, value) :: (← blockEntries column bound)
      else return (key, .absent) :: (← blockEntries column bound)
    else if r.atMark ':' then
      skip 1
      let value ← blockNode column true true bound
      return (.absent, value) :: (← blockEntries column bound)
    else
      let anchor ← properties false bound none
      let key ← define anchor (← flowNode false column bound)
      if ← colonAfterKey r.line then
        let value ← blockNode column false true bound
        return (key, value) :: (← blockEntries column bound)
      else failure

/-- The items of a sequence at a column. Under a key of the same column it ends before the next key. -/
def blockItems (column : Nat) (underKey : Bool) : Nat → YamlM (List Value)
  | 0 => failure
  | bound + 1 => do
    _ ← blockGap true
    let r ← get
    if r.atDocumentEnd || r.column < column then return []
    else if r.column = column && r.atMark '-' then
      skip 1
      let item ← blockNode column true false bound
      return item :: (← blockItems column underKey bound)
    else if r.column = column && underKey then return []
    else failure

end

/-- The versions of YAML that a text may be said to be written in. -/
def knownVersions : List (List Char) := [['1', '.', '1'], ['1', '.', '2']]

/-- Passes a line that gives the version; tells whether there was one. -/
def versionLine : YamlM Bool := do
  let r ← get
  if r.startsWith ['%', 'Y', 'A', 'M', 'L', ' '] then
    let line := r.rest.takeWhile (· != '\n')
    let version := ((line.drop 6).dropWhile isBlank).takeWhile (!isBlank ·)
    if !knownVersions.contains version then failure
    set (r.skip line.length)
    _ ← blockGap true
    return true
  else return false

/-- A text with at most one document. -/
def document : YamlM Value := do
  let bound := 4 * ((← get).rest.length + 2)
  _ ← blockGap false
  let hasVersion ← versionLine
  let isMarked := (← get).atMarker Reader.startMarker
  if hasVersion && !isMarked then failure
  if isMarked then skip 3
  let v ← blockNode (-1) (!isMarked) false bound
  _ ← blockGap true
  if (← get).atMarker Reader.endMarker then
    skip 3
    _ ← blockGap true
  if (← get).atEnd then return v else failure

/-- Reads a whole text. -/
def parse? (text : String) : Option Value := do
  let cs := match text.toList with
    | '\uFEFF' :: rest => rest
    | cs => cs
  if !cs.all isAllowed then none
  (document.run (.ofChars (normalizeBreaks cs))).map (·.1)

end Ecma3.Yaml
