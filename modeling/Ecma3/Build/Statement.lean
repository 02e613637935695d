import Ecma3.Build.Part

/-!
Statements. The ones that take a label hand it to their node and to none of the nodes inside.
-/

namespace Ecma3.Build
open Log

variable {m : Type → Type} [Monad m] [MonadExcept BuildError m]
variable (build : ParseTree → Option String → m Node)

/-- Brackets around an expression leave no node, and a label goes on to what they hold. -/
def grouping (tree : ParseTree) (label : Option String) : m Node := do
  build (← child tree 0 .expression) label

def declarator (tree : ParseTree) : m Node := do
  match tree.kind with
  | .identifier => return .identifier tree.text true tree.span
  | .assign =>
    let target ← child tree 0 .target
    let value ← child tree 1 .value
    let target ←
      if target.kind = .identifier then pure (Node.identifier target.text true target.span)
      else build target none
    let value ← build value none
    return .assign target value tree.span
  | _ => build tree none

def declarators : List ParseTree → m (List Node)
  | [] => pure []
  | tree :: rest => do
    let node ← declarator build tree
    return node :: (← declarators rest)

def var (tree : ParseTree) : m Node := do
  match ← declarators build tree.children with
  | [] => throw (.malformedNode .var .declarator tree.span)
  | [only] => return only
  | nodes => return .assignmentBlock nodes true tree.span

/-- `if` statements, and conditional expressions, which must have an alternate. -/
def conditional (tree : ParseTree) (label : Option String) : m Node := do
  let isTernary := tree.kind = .conditional
  let test ← build (← child tree 0 .test) none
  let consequent ← build (← child tree 1 .consequent) none
  let alternate ←
    if isTernary then some <$> build (← child tree 2 .alternate) none
    else match tree.children[2]? with
      | some alternate => some <$> build alternate none
      | none => pure none
  return .«if» test consequent alternate isTernary label tree.span

/-- Loops with a test alone. The body of a `do` comes before its test. -/
def whileLoop (tree : ParseTree) (label : Option String) : m Node := do
  let (first, second) ← pair build tree
  if tree.kind = .«do» then return .«while» second first .postTest label tree.span
  else return .«while» first second .preTest label tree.span

def withStatement (tree : ParseTree) (label : Option String) : m Node := do
  let (object, body) ← pair build tree
  return .«with» object body label tree.span

def jump (tree : ParseTree) : m Node := do
  match tree.kind with
  | .«return» =>
    match tree.children[0]? with
    | some value => return .«return» (← build value none) tree.span
    | none => return .«return» (.null tree.span) tree.span
  | .«throw» => return .«throw» (← build (← child tree 0 .value) none) tree.span
  | .«break» => return .«break» (tree.children[0]?.map (·.text)) tree.span
  | _ => return .«continue» (tree.children[0]?.map (·.text)) tree.span

/-- The clauses of a `switch`, after the cases and the default before them. -/
def clauses (whole : ParseTree) (cases : List SwitchCase) (default : Option Node) :
    List ParseTree → m (List SwitchCase × Option Node)
  | [] => pure (cases, default)
  | clause :: rest => do
    match clause.kind with
    | .«case» =>
      let test ← build (← child clause 0 .caseTest) none
      let statements ← all build (clause.children.drop 1)
      clauses whole (cases ++ [⟨test, ⟨statements, none, clause.span⟩, clause.span⟩]) default rest
    | .«default» =>
      if default.isSome then throw (.malformedNode whole.kind .onlyDefault clause.span)
      let statements ← all build clause.children
      clauses whole cases (some (.block ⟨statements, none, clause.span⟩)) rest
    | _ => unsupported clause

def switch (tree : ParseTree) (label : Option String) : m Node := do
  let discriminant ← build (← child tree 0 .discriminant) none
  let (cases, default) ← clauses build tree [] none (tree.children.drop 1)
  return .switch discriminant cases (default.getD (.null tree.span)) label tree.span

/-- The clauses of a `try`. Of two of one kind the later one counts. -/
def handlers (handler : Option Catch) (cleanup : Option Block) :
    List ParseTree → m (Option Catch × Option Block)
  | [] => pure (handler, cleanup)
  | clause :: rest => do
    match clause.kind with
    | .«catch» =>
      let binding ← child clause 0 .catchBinding
      let body ← block build (← child clause 1 .catchBlock) none
      handlers (some ⟨binding.text, body, clause.span⟩) cleanup rest
    | .«finally» =>
      let body ← block build (← child clause 0 .finallyBlock) none
      handlers handler (some body) rest
    | _ => unsupported clause

def tryStatement (tree : ParseTree) (label : Option String) : m Node := do
  let body ← block build (← child tree 0 .protectedBlock) none
  let (handler, cleanup) ← handlers build none none (tree.children.drop 1)
  return .«try» body handler cleanup label tree.span

/-- A clause of a loop head; an empty one stands for `missing` in its place. -/
def clause (missing : Span → Node) (tree : ParseTree) : m Node :=
  if tree.kind = .expression then
    match tree.children[0]? with
    | some expression => build expression none
    | none => pure (missing tree.span)
  else build tree none

def forLoop (tree : ParseTree) (label : Option String) : m Node := do
  let head ← child tree 0 .loopHead
  let body ← child tree 1 .loopBody
  match head.kind with
  | .forStep =>
    let init ← clause build .null (← child head 0 .initClause)
    let test ← clause build (.boolean true) (← child head 1 .testClause)
    let increment ← clause build .null (← child head 2 .incrementClause)
    let body ← build body none
    return .forStep init test increment body label tree.span
  | .forIn =>
    let target ← clause build .null (← child head 0 .target)
    let object ← clause build .null (← child head 1 .object)
    let body ← build body none
    return .forIn target object body label tree.span
  | _ => unsupported head

variable [MonadLog m]

/-- A statement keeps its innermost label. -/
def labelled (tree : ParseTree) (outer : Option String) : m Node := do
  let name ← child tree 0 .label
  let target ← child tree 1 .statement
  if let some outer := outer then note (.droppedLabel outer name.text)
  build target (some name.text)

end Ecma3.Build
