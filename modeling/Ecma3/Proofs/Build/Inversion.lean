import Mathlib.Data.List.Basic
import Ecma3.Proofs.Build.Construct
import Ecma3.Proofs.Build.Outcome
import Ecma3.Proofs.ParseTree.Detached

/-!
What a construction has built once it has made a node. Each lemma takes one construction apart into
the trees that it looks at, what these are built into and the node around that, whatever tree it is
given. What is proved about the nodes that are made starts from here and unfolds none of them again.
-/
namespace Ecma3.Build

variable {tree t a b : ParseTree} {trees : List ParseTree} {node x y : Node} {nodes : List Node}
  {label : Option String} {text : String} {span : Span}

/-! Children. -/

theorem child_eq_ok {i : Nat} {part : Part}
    (h : (child tree i part : Except BuildError ParseTree) = .ok t) :
    tree.children[i]? = some t := by
  unfold child at h
  split at h
  · rename_i hchild
    cases h
    exact hchild
  · cases h

theorem cons_of_getElem? (ha : trees[0]? = some a) : ∃ rest, trees = a :: rest :=
  List.head?_eq_some_iff.1 (List.head?_eq_getElem?.trans ha)

theorem cons_cons_of_getElem? (ha : trees[0]? = some a) (hb : trees[1]? = some b) :
    ∃ rest, trees = a :: b :: rest := by
  obtain ⟨tail, rfl⟩ := cons_of_getElem? ha
  rw [List.getElem?_cons_succ] at hb
  obtain ⟨rest, rfl⟩ := cons_of_getElem? hb
  exact ⟨rest, rfl⟩

theorem cons_cons_cons_of_getElem? {c : ParseTree} (ha : trees[0]? = some a)
    (hb : trees[1]? = some b) (hc : trees[2]? = some c) : ∃ rest, trees = a :: b :: c :: rest := by
  obtain ⟨tail, rfl⟩ := cons_of_getElem? ha
  rw [List.getElem?_cons_succ] at hb hc
  obtain ⟨rest, rfl⟩ := cons_cons_of_getElem? hb hc
  exact ⟨rest, rfl⟩

/-! Literals. -/

theorem decimal?_eq_some (h : Literal.decimal? text span = some node) :
    (∃ value, node = .float value span) ∨ ∃ value, node = .integer value span := by
  simp only [Literal.decimal?, Option.bind_eq_bind, Option.bind_eq_some_iff] at h
  obtain ⟨literal, -, h⟩ := h
  split at h
  · cases h
    exact Or.inl ⟨_, rfl⟩
  · split at h
    · cases h
    · simp only [Option.bind_eq_some_iff, Option.pure_def, Option.some.injEq] at h
      obtain ⟨n, -, rfl⟩ := h
      exact Or.inr ⟨_, rfl⟩

theorem hex?_eq_some (h : Literal.hex? text span = some node) :
    ∃ value, node = .integer value span := by
  unfold Literal.hex? at h
  split at h <;> simp only [Option.bind_eq_bind, Option.bind_some, Option.bind_none,
    Option.bind_eq_some_iff, Option.pure_def, Option.some.injEq, reduceCtorEq] at h
  all_goals
    obtain ⟨n, -, k, -, rfl⟩ := h
    exact ⟨_, rfl⟩

/-- A string stands between two quotes of one kind. -/
theorem string?_eq_some (h : Literal.string? text span = some node) :
    ∃ content quote, Literal.isQuote quote = true ∧
      text.toList = quote :: (content.toList ++ [quote]) ∧ node = .string content quote span := by
  unfold Literal.string? at h
  split at h
  · cases h
  · rename_i quote rest htext
    split at h
    · rename_i hquotes
      cases h
      simp only [Bool.and_eq_true, beq_iff_eq] at hquotes
      refine ⟨_, quote, hquotes.1, ?_, rfl⟩
      rw [htext, String.toList_ofList, List.dropLast_append_getLast? quote hquotes.2]
    · cases h

/-- A pattern without a character is no pattern. -/
theorem regex?_eq_some (h : Literal.regex? text span = some node) :
    ∃ pattern flags, pattern ≠ "" ∧ node = .regex pattern flags span := by
  unfold Literal.regex? at h
  split at h
  · extract_lets flags pattern at h
    split at h
    · cases h
    · rename_i hpattern
      cases h
      refine ⟨_, _, fun hempty => hpattern ?_, rfl⟩
      have hnil : pattern = [] := by simpa using congrArg String.toList hempty
      simp [hnil]
  · cases h

theorem literal_eq_ok {what : LiteralClass} {node? : Option Node}
    (h : (literal what tree node? : Except BuildError Node) = .ok node) : node? = some node := by
  cases node? with
  | none => cases h
  | some node' =>
    cases h
    rfl

/-- The nodes that names and literals are built into. -/
inductive IsLeaf (span : Span) : Node → Prop where
  | identifier {name : String} : IsLeaf span (.identifier name false span)
  | integer {value : Int32} : IsLeaf span (.integer value span)
  | float {value : Binary64} : IsLeaf span (.float value span)
  | string {content : String} {quote : Char} (hquote : Literal.isQuote quote = true) :
    IsLeaf span (.string content quote span)
  | regex {pattern flags : String} (hpattern : pattern ≠ "") :
    IsLeaf span (.regex pattern flags span)
  | null : IsLeaf span (.null span)
  | boolean {value : Bool} : IsLeaf span (.boolean value span)

theorem leaf_eq_ok (h : (leaf tree : Except BuildError Node) = .ok node) :
    IsLeaf tree.span node := by
  unfold leaf at h
  cases hkind : tree.kind <;> rw [hkind] at h
  case decimalLiteral =>
    rcases decimal?_eq_some (literal_eq_ok h) with ⟨_, rfl⟩ | ⟨_, rfl⟩
    · exact .float
    · exact .integer
  case hexLiteral =>
    obtain ⟨_, rfl⟩ := hex?_eq_some (literal_eq_ok h)
    exact .integer
  case stringLiteral =>
    obtain ⟨_, _, hquote, -, rfl⟩ := string?_eq_some (literal_eq_ok h)
    exact .string hquote
  case regexLiteral =>
    obtain ⟨_, _, hpattern, rfl⟩ := regex?_eq_some (literal_eq_ok h)
    exact .regex hpattern
  all_goals
    cases h
    constructor

/-- The error is about the text of a literal. -/
theorem leaf_eq_error {e : BuildError} (h : (leaf tree : Except BuildError Node) = .error e) :
    ∃ what, e = .invalidLiteral what tree.text tree.span := by
  have hliteral : ∀ {what : LiteralClass} {node? : Option Node},
      (literal what tree node? : Except BuildError Node) = .error e →
        e = .invalidLiteral what tree.text tree.span := by
    intro what node? h
    cases node? <;> cases h
    rfl
  unfold leaf at h
  cases hkind : tree.kind <;> rw [hkind] at h
  case decimalLiteral | hexLiteral | stringLiteral | regexLiteral => exact ⟨_, hliteral h⟩
  all_goals cases h

variable {build : ParseTree → Option String → Except BuildError Node}

/-! What the constructions share. -/

theorem all_cons_eq_ok (h : all build (t :: trees) = .ok nodes) : ∃ x rest,
    build t none = .ok x ∧ all build trees = .ok rest ∧ nodes = x :: rest := by
  obtain ⟨x, hx, h⟩ := bind_eq_ok h
  obtain ⟨rest, hrest, h⟩ := bind_eq_ok h
  cases h
  exact ⟨x, rest, hx, hrest, rfl⟩

theorem pair_eq_ok (h : pair build tree = .ok (x, y)) : ∃ first second rest,
    tree.children = first :: second :: rest ∧ build first none = .ok x ∧
      build second none = .ok y := by
  obtain ⟨first, hfirst, h⟩ := bind_eq_ok h
  obtain ⟨second, hsecond, h⟩ := bind_eq_ok h
  obtain ⟨_, hx, h⟩ := bind_eq_ok h
  obtain ⟨_, hy, h⟩ := bind_eq_ok h
  cases h
  obtain ⟨rest, hchildren⟩ := cons_cons_of_getElem? (child_eq_ok hfirst) (child_eq_ok hsecond)
  exact ⟨first, second, rest, hchildren, hx, hy⟩

/-- The operand of a construct with a single one. -/
theorem operand_eq_ok {part : Part} {r : Node → Except BuildError Node}
    (h : (do let operand ← build (← child tree 0 part) none; r operand) = .ok node) :
    ∃ operand rest x, tree.children = operand :: rest ∧ build operand none = .ok x ∧
      r x = .ok node := by
  obtain ⟨operand, hoperand, h⟩ := bind_eq_ok h
  obtain ⟨x, hx, h⟩ := bind_eq_ok h
  obtain ⟨rest, hchildren⟩ := cons_of_getElem? (child_eq_ok hoperand)
  exact ⟨operand, rest, x, hchildren, hx, h⟩

/-- The statements between braces, or the one statement that stands for them. -/
theorem block_eq_ok {content : Block} (h : block build tree label = .ok content) :
    ∃ nodes, content = ⟨nodes, label, tree.span⟩ ∧
      (tree.kind = .block ∧ all build tree.children = .ok nodes ∨
        tree.kind ≠ .block ∧ ∃ x, build tree none = .ok x ∧ nodes = [x]) := by
  unfold block at h
  split at h <;> rename_i hkind
  · obtain ⟨nodes, hnodes, h⟩ := bind_eq_ok h
    cases h
    exact ⟨nodes, rfl, .inl ⟨hkind, hnodes⟩⟩
  · obtain ⟨x, hx, h⟩ := bind_eq_ok h
    cases h
    exact ⟨[x], rfl, .inr ⟨hkind, x, hx, rfl⟩⟩

/-- A block has the label that it is given, braces or not. -/
theorem label_of_block {content : Block} (h : block build tree label = .ok content) :
    content.label = label := by
  obtain ⟨_, rfl, -⟩ := block_eq_ok h
  rfl

/-! Expressions. -/

theorem properties_cons_eq_ok {entry : ParseTree} {known found : List Property}
    (h : properties build known (entry :: trees) = .ok found) : ∃ name content rest value,
      entry.kind = .namedValue ∧ entry.children = name :: content :: rest ∧
      build content none = .ok value ∧
      properties build (Property.put (Literal.propertyName name.text) value known) trees =
        .ok found := by
  unfold properties at h
  split at h
  · cases h
  · rename_i hkind
    obtain ⟨name, hname, h⟩ := bind_eq_ok h
    obtain ⟨content, hcontent, h⟩ := bind_eq_ok h
    obtain ⟨value, hvalue, h⟩ := bind_eq_ok h
    obtain ⟨rest, hchildren⟩ := cons_cons_of_getElem? (child_eq_ok hname) (child_eq_ok hcontent)
    exact ⟨name, content, rest, value, by simpa using hkind, hchildren, hvalue, h⟩

theorem object_eq_ok (h : object build tree = .ok node) : ∃ found,
    properties build [] tree.children = .ok found ∧ node = .object found tree.span := by
  rw [object_eq_properties] at h
  obtain ⟨found, hfound, h⟩ := bind_eq_ok h
  cases h
  exact ⟨found, hfound, rfl⟩

/-- An item without anything in it is a hole, and what is no item stands for itself. -/
theorem elements_cons_eq_ok {item : ParseTree} {found : List (Option Node)}
    (h : elements build (item :: trees) = .ok found) : ∃ element rest,
      found = element :: rest ∧ elements build trees = .ok rest ∧
      (item.kind = .item ∧ item.children = [] ∧ element = none ∨
        ∃ content x, (item.kind = .item ∧ content ∈ item.children.head? ∨
            item.kind ≠ .item ∧ content = item) ∧
          build content none = .ok x ∧ element = some x) := by
  simp only [elements] at h
  split at h
  · rename_i content hcontent
    obtain ⟨element, helement, h⟩ := bind_eq_ok h
    obtain ⟨x, hx, rfl⟩ := map_eq_ok helement
    obtain ⟨rest, hrest, h⟩ := bind_eq_ok h
    cases h
    refine ⟨some x, rest, rfl, hrest, .inr ⟨content, x, ?_, hx, rfl⟩⟩
    split at hcontent
    · exact .inl ⟨‹_›, by rwa [List.head?_eq_getElem?]⟩
    · cases hcontent
      exact .inr ⟨‹_›, rfl⟩
  · rename_i hcontent
    obtain ⟨_, helement, h⟩ := bind_eq_ok h
    obtain ⟨rest, hrest, h⟩ := bind_eq_ok h
    cases helement
    cases h
    refine ⟨none, rest, rfl, hrest, .inl ?_⟩
    split at hcontent
    · exact ⟨‹_›, by simpa using hcontent, rfl⟩
    · cases hcontent

/-- The parameters and the body stand behind the name, if there is one. -/
theorem function_eq_ok (h : function build tree = .ok node) : ∃ called i parameters body content,
    i = (if 2 < tree.children.length then 1 else 0) ∧ tree.children[i]? = some parameters ∧
      tree.children[i + 1]? = some body ∧ block build body none = .ok content ∧
      node = .function called (parameters.children.map (·.text)) content tree.span := by
  unfold function at h
  extract_lets named first rest at h
  have hrest : ∀ name, rest name = .ok node → ∃ called i parameters body content,
      i = (if 2 < tree.children.length then 1 else 0) ∧ tree.children[i]? = some parameters ∧
        tree.children[i + 1]? = some body ∧ block build body none = .ok content ∧
        node = .function called (parameters.children.map (·.text)) content tree.span := by
    intro name h
    obtain ⟨parameters, hparameters, h⟩ := bind_eq_ok h
    obtain ⟨body, hbody, h⟩ := bind_eq_ok h
    obtain ⟨content, hcontent, h⟩ := bind_eq_ok h
    cases h
    exact ⟨_, first, parameters, body, content, rfl, child_eq_ok hparameters, child_eq_ok hbody,
      hcontent, rfl⟩
  split at h
  all_goals
    obtain ⟨name, -, h⟩ := bind_eq_ok h
    exact hrest name h

/-- With or without a name, the last part of a function is its body. -/
theorem function_body_eq_ok {name : List ParseTree} {parameters body : ParseTree}
    (hchildren : tree.children = name ++ [parameters, body]) (hlength : name.length ≤ 1)
    (h : function build tree = .ok node) : ∃ called taken content,
      block build body none = .ok content ∧ node = .function called taken content tree.span := by
  obtain ⟨called, i, _, last, content, hi, -, hlast, hcontent, rfl⟩ := function_eq_ok h
  have hbody : last = body := by
    rcases ParseTree.nil_or_singleton hlength with rfl | ⟨first, rfl⟩ <;>
      simpa [hi, hchildren, eq_comm] using hlast
  exact ⟨called, _, content, hbody ▸ hcontent, rfl⟩

theorem arguments_eq_ok (h : arguments build tree = .ok nodes) :
    tree.kind = .arguments ∧ all build tree.children = .ok nodes ∨
      ∃ x, build tree none = .ok x ∧ nodes = [x] := by
  unfold arguments at h
  split at h
  · exact .inl ⟨‹_›, h⟩
  · obtain ⟨x, hx, h⟩ := bind_eq_ok h
    cases h
    exact .inr ⟨x, hx, rfl⟩

/-- A tree stays as it is, or loses the `new` at its base. -/
theorem detach_eq_ok {bare : ParseTree} {moved : Bool}
    (h : (detach tree : Except BuildError (ParseTree × Bool)) = .ok (bare, moved)) :
    bare = tree ∧ moved = false ∨ ∃ d, tree.withoutNew? = some d ∧ bare = d.tree ∧ moved = true := by
  rw [ParseTree.detach_eq_withoutNew?] at h
  split at h
  · cases h
    exact .inl ⟨rfl, rfl⟩
  · rename_i d hd
    cases h
    exact .inr ⟨d, hd, rfl, rfl⟩

/-- A call that has a `new` in front of its callee is built into that. -/
theorem call_eq_ok (h : call build tree = .ok node) : ∃ callee rest bare moved x nodes,
    tree.children = callee :: rest ∧
      (rest = [] ∧ nodes = [] ∨
        ∃ list more, rest = list :: more ∧ arguments build list = .ok nodes) ∧
      (detach callee : Except BuildError (ParseTree × Bool)) = .ok (bare, moved) ∧
      build bare none = .ok x ∧
      node = (if moved then .new x (some nodes) tree.span else .call x nodes tree.span) := by
  obtain ⟨callee, hcallee, h⟩ := bind_eq_ok h
  obtain ⟨rest, hchildren⟩ := cons_of_getElem? (child_eq_ok hcallee)
  extract_lets finish at h
  have hfinish : ∀ nodes, finish nodes = .ok node → ∃ bare moved x,
      (detach callee : Except BuildError (ParseTree × Bool)) = .ok (bare, moved) ∧
      build bare none = .ok x ∧
      node = (if moved then .new x (some nodes) tree.span else .call x nodes tree.span) := by
    intro nodes h
    obtain ⟨⟨bare, moved⟩, hdetach, h⟩ := bind_eq_ok h
    obtain ⟨x, hx, h⟩ := bind_eq_ok h
    refine ⟨bare, moved, x, hdetach, hx, ?_⟩
    split at h <;> cases h <;> simp_all
  rw [hchildren, List.getElem?_cons_succ] at h
  cases rest with
  | nil =>
    obtain ⟨bare, moved, x, hdetach, hx, hnode⟩ := hfinish [] h
    exact ⟨callee, [], bare, moved, x, [], hchildren, .inl ⟨rfl, rfl⟩, hdetach, hx, hnode⟩
  | cons list more =>
    obtain ⟨nodes, hnodes, h⟩ := bind_eq_ok h
    obtain ⟨bare, moved, x, hdetach, hx, hnode⟩ := hfinish nodes h
    exact ⟨callee, list :: more, bare, moved, x, nodes, hchildren,
      .inr ⟨list, more, rfl, hnodes⟩, hdetach, hx, hnode⟩

theorem access_eq_ok (h : access build tree = .ok node) :
    ∃ object member rest bare moved x access,
      tree.children = object :: member :: rest ∧
      (detach object : Except BuildError (ParseTree × Bool)) = .ok (bare, moved) ∧
      build bare none = .ok x ∧
      (tree.kind = .byField ∧ access = .memberAccess x member.text tree.span ∨
        tree.kind ≠ .byField ∧
          ∃ y, build member none = .ok y ∧ access = .indexAccess x y tree.span) ∧
      node = (if moved then .new access none tree.span else access) := by
  obtain ⟨object, hobject, h⟩ := bind_eq_ok h
  obtain ⟨member, hmember, h⟩ := bind_eq_ok h
  obtain ⟨⟨bare, moved⟩, hdetach, h⟩ := bind_eq_ok h
  obtain ⟨x, hx, h⟩ := bind_eq_ok h
  obtain ⟨rest, hchildren⟩ := cons_cons_of_getElem? (child_eq_ok hobject) (child_eq_ok hmember)
  extract_lets finish at h
  have hfinish : ∀ access, finish access = .ok node →
      node = (if moved then .new access none tree.span else access) := by
    intro access h
    simp only [finish] at h
    split at h <;> cases h <;> simp_all
  split at h
  · exact ⟨object, member, rest, bare, moved, x, _, hchildren, hdetach, hx, .inl ⟨‹_›, rfl⟩,
      hfinish _ h⟩
  · obtain ⟨y, hy, h⟩ := bind_eq_ok h
    exact ⟨object, member, rest, bare, moved, x, _, hchildren, hdetach, hx,
      .inr ⟨‹_›, y, hy, rfl⟩, hfinish _ h⟩

/-! Operators. -/

/-- A node with two operands in their order. -/
inductive Joins (x y : Node) (span : Span) : Node → Prop where
  | binary {operator : BinaryOperator} : Joins x y span (.binary operator x y span)
  | unsignedRightShift : Joins x y span (.unsignedRightShift x y span)
  | logical {operator : LogicalOperator} : Joins x y span (.logical operator x y span)
  | strictCompare {operator : StrictOperator} : Joins x y span (.strictCompare operator x y span)
  | membership : Joins x y span (.membership x y span)
  | instanceOf : Joins x y span (.instanceOf x y span)

theorem binary_eq_ok (h : binary build tree = .ok node) : ∃ x y,
    pair build tree = .ok (x, y) ∧ Joins x y tree.span node := by
  obtain ⟨⟨x, y⟩, hpair, h⟩ := bind_eq_ok h
  refine ⟨x, y, hpair, ?_⟩
  dsimp only at h
  split at h
  all_goals first
    | cases h
      constructor
    | split at h <;> cases h
      constructor

/-- A compound assignment gives its target a node with the target in front of the value. -/
theorem assignedValue_eq_ok (h : (assignedValue tree x y : Except BuildError Node) = .ok node) :
    tree.kind = .assign ∧ node = y ∨ tree.kind ≠ .assign ∧ Joins x y tree.span node := by
  by_cases hassign : tree.kind = .assign
  · simp only [assignedValue, hassign] at h
    cases h
    exact .inl ⟨hassign, rfl⟩
  · refine .inr ⟨hassign, ?_⟩
    unfold assignedValue at h
    split at h
    · contradiction
    · cases h
      exact .unsignedRightShift
    · split at h <;> cases h
      exact .binary

theorem assignment_eq_ok (h : assignment build tree = .ok node) : ∃ x y z,
    pair build tree = .ok (x, y) ∧ (assignedValue tree x y : Except BuildError Node) = .ok z ∧
      node = .assign x z tree.span := by
  obtain ⟨⟨x, y⟩, hpair, h⟩ := bind_eq_ok h
  obtain ⟨z, hz, h⟩ := bind_eq_ok h
  cases h
  exact ⟨x, y, z, hpair, hz, rfl⟩

end Ecma3.Build
