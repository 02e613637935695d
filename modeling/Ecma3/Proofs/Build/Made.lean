import Mathlib.Data.List.Perm.Subperm
import Ecma3.Proofs.Ast.Piece
import Ecma3.Proofs.Build.Inversion
import Ecma3.Proofs.ParseTree.Targets

/-!
What the constructions make. Each makes a node of a few pieces of its own around what the trees inside
are built into, and the relations here say which pieces, and around what.
-/
namespace Ecma3.Build

open List (Forall₂)
open ParseTree (withoutNew?)

theorem forall_mem_right {α β : Type} {R : α → β → Prop} {P : β → Prop} {as : List α} {bs : List β}
    (h : Forall₂ R as bs) (hP : ∀ a b, R a b → P b) : ∀ b ∈ bs, P b := by
  induction h with
  | nil => simp
  | cons hab _ ih => exact List.forall_mem_cons.2 ⟨hP _ _ hab, ih⟩

section Relations

-- `B` says what a tree inside is built into.
variable (B : ParseTree → Node → Prop)

/-- A block of the statements between braces, or of the one statement that stands for it. -/
inductive MadeBlock (tree : ParseTree) : Block → Prop where
  | braces {nodes : List Node} {label : Option String} (h : Forall₂ B tree.children nodes) :
    MadeBlock tree ⟨nodes, label, tree.span⟩
  | single {node : Node} {label : Option String} (h : B tree node) :
    MadeBlock tree ⟨[node], label, tree.span⟩

inductive MadeElement (item : ParseTree) : Option Node → Prop where
  | hole : MadeElement item none
  | item {content : ParseTree} {node : Node} (hcontent : content ∈ item.children)
    (h : B content node) : MadeElement item (some node)
  | bare {node : Node} (h : B item node) : MadeElement item (some node)

/-- Properties that are put on top of known ones. -/
inductive MadeProperties : List Property → List ParseTree → List Property → Prop where
  | nil {known : List Property} : MadeProperties known [] known
  | cons {known found : List Property} {entry content : ParseTree} {entries : List ParseTree}
    {name : String} {value : Node} (hcontent : content ∈ entry.children) (h : B content value)
    (hrest : MadeProperties (Property.put name value known) entries found) :
    MadeProperties known (entry :: entries) found

/-- The arguments of a call, from its second child if it has one. -/
inductive MadeArguments : Option ParseTree → List Node → Prop where
  | none : MadeArguments none []
  | list {list : ParseTree} {nodes : List Node} (h : Forall₂ B list.children nodes) :
    MadeArguments (some list) nodes
  | single {tree : ParseTree} {node : Node} (h : B tree node) : MadeArguments (some tree) [node]

/-- A tree with or without the `new` at its base. -/
inductive Detaches (tree : ParseTree) : ParseTree → Bool → Prop where
  | stays : Detaches tree tree false
  | moves {d : ParseTree.Detached} (h : tree.withoutNew? = some d) : Detaches tree d.tree true

inductive MadeDeclarator (tree : ParseTree) : Node → Prop where
  | name {name : String} {span : Span} : MadeDeclarator tree (.identifier name true span)
  | named {target value : ParseTree} {rest : List ParseTree} {name : String} {place span : Span}
    {x : Node} (hchildren : tree.children = target :: value :: rest) (h : B value x) :
    MadeDeclarator tree (.assign (.identifier name true place) x span)
  | assign {target value : ParseTree} {rest : List ParseTree} {span : Span} {x y : Node}
    (hchildren : tree.children = target :: value :: rest) (hx : B target x) (hy : B value y) :
    MadeDeclarator tree (.assign x y span)
  | other {node : Node} (h : B tree node) : MadeDeclarator tree node

/-- Cases and a default, on top of those from the clauses before. -/
inductive MadeClauses : List SwitchCase → Option Node → List ParseTree →
    List SwitchCase × Option Node → Prop where
  | nil {cases : List SwitchCase} {default : Option Node} :
    MadeClauses cases default [] (cases, default)
  | case {cases : List SwitchCase} {default : Option Node} {clause test : ParseTree}
    {body clauses : List ParseTree} {found : List SwitchCase × Option Node} {node : Node}
    {nodes : List Node} {span : Span} (hchildren : clause.children = test :: body)
    (htest : B test node) (hbody : Forall₂ B body nodes)
    (hrest : MadeClauses (cases ++ [⟨node, ⟨nodes, none, span⟩, span⟩]) default clauses found) :
    MadeClauses cases default (clause :: clauses) found
  | default {cases : List SwitchCase} {clause : ParseTree} {clauses : List ParseTree}
    {found : List SwitchCase × Option Node} {nodes : List Node} {span : Span}
    (h : Forall₂ B clause.children nodes)
    (hrest : MadeClauses cases (some (.block ⟨nodes, none, span⟩)) clauses found) :
    MadeClauses cases none (clause :: clauses) found

/-- A handler and a cleanup, in place of those from the clauses before. -/
inductive MadeHandlers : Option Catch → Option Block → List ParseTree →
    Option Catch × Option Block → Prop where
  | nil {handler : Option Catch} {cleanup : Option Block} :
    MadeHandlers handler cleanup [] (handler, cleanup)
  | catch {handler : Option Catch} {cleanup : Option Block} {clause block : ParseTree}
    {clauses : List ParseTree} {found : Option Catch × Option Block} {binding : String}
    {body : Block} {span : Span} (hblock : block ∈ clause.children) (hbody : MadeBlock B block body)
    (hrest : MadeHandlers (some ⟨binding, body, span⟩) cleanup clauses found) :
    MadeHandlers handler cleanup (clause :: clauses) found
  | finally {handler : Option Catch} {cleanup : Option Block} {clause block : ParseTree}
    {clauses : List ParseTree} {found : Option Catch × Option Block} {body : Block}
    (hblock : block ∈ clause.children) (hbody : MadeBlock B block body)
    (hrest : MadeHandlers handler (some body) clauses found) :
    MadeHandlers handler cleanup (clause :: clauses) found

/-- A clause of the head of a loop, which may be left out. -/
inductive MadeClause (tree : ParseTree) : Node → Prop where
  | missing {node : Node} (h : node.Holds []) : MadeClause tree node
  | inner {content : ParseTree} {node : Node} (hcontent : content ∈ tree.children)
    (h : B content node) : MadeClause tree node
  | bare {node : Node} (h : B tree node) : MadeClause tree node

/-- The node is what a construction makes of the tree. -/
inductive Made (tree : ParseTree) : Node → Prop where
  | leaf {node : Node} (h : node.Holds []) : Made tree node
  | inner {content : ParseTree} {node : Node} (hcontent : content ∈ tree.children)
    (h : B content node) : Made tree node
  | nodes {trees : List ParseTree} {nodes : List Node} {node : Node}
    (htrees : trees.Subperm tree.children) (h : Forall₂ B trees nodes)
    (hnode : node.Holds (nodes.map .node)) : Made tree node
  | block {nodes : List Node} {label : Option String} (hkind : tree.kind = .block)
    (h : Forall₂ B tree.children nodes) : Made tree (.block ⟨nodes, label, tree.span⟩)
  | object {found : List Property} (h : MadeProperties B [] tree.children found) :
    Made tree (.object found tree.span)
  | array {elements : List (Option Node)} (h : Forall₂ (MadeElement B) tree.children elements) :
    Made tree (.array elements tree.span)
  | function {parameters body : ParseTree} {name : Option String} {params : List String}
    {content : Block} (htrees : [parameters, body].Sublist tree.children)
    (h : MadeBlock B body content) : Made tree (.function name params content tree.span)
  | call {callee bare : ParseTree} {list : Option ParseTree} {moved : Bool} {x : Node}
    {arguments : List Node} {node : Node} (htrees : (callee :: list.toList).Sublist tree.children)
    (hdetach : Detaches callee bare moved) (hx : B bare x) (h : MadeArguments B list arguments)
    (hnode : node.Holds (.node x :: arguments.map .node)) : Made tree node
  | access {object member bare : ParseTree} {moved : Bool} {x access node : Node}
    (htrees : [object, member].Sublist tree.children) (hdetach : Detaches object bare moved)
    (hx : B bare x)
    (haccess : access.Holds [.node x] ∨ ∃ y, B member y ∧ access.Holds [.node x, .node y])
    (hnode : node = if moved then .new access none tree.span else access) : Made tree node
  | compound {target value : ParseTree} {rest : List ParseTree} {x y z : Node}
    (hkind : tree.kind.copiesTarget = true) (hchildren : tree.children = target :: value :: rest)
    (hx : B target x) (hy : B value y) (hz : z.Holds [.node x, .node y]) :
    Made tree (.assign x z tree.span)
  | step {operand : ParseTree} {rest : List ParseTree} {operator : BinaryOperator} {x : Node}
    (hkind : tree.kind.copiesTarget = true)
    (hchildren : tree.children = operand :: rest) (hx : B operand x) :
    Made tree (.assign x (.binary operator x (.integer 1 tree.span) tree.span) tree.span)
  | declarator {content : ParseTree} {node : Node} (hcontent : content ∈ tree.children)
    (h : MadeDeclarator B content node) : Made tree node
  | declarators {nodes : List Node} (h : Forall₂ (MadeDeclarator B) tree.children nodes) :
    Made tree (.assignmentBlock nodes true tree.span)
  | returnNothing (hkind : tree.kind = .«return») :
    Made tree (.«return» (.null tree.span) tree.span)
  | switch {discriminant : ParseTree} {clauses : List ParseTree} {x : Node}
    {cases : List SwitchCase} {default : Option Node} {label : Option String}
    (hkind : tree.kind = .switch) (hchildren : tree.children = discriminant :: clauses)
    (hx : B discriminant x) (h : MadeClauses B [] none clauses (cases, default)) :
    Made tree (.switch x cases (default.getD (.null tree.span)) label tree.span)
  | tryStatement {block : ParseTree} {clauses : List ParseTree} {body : Block}
    {handler : Option Catch} {cleanup : Option Block} {label : Option String}
    (hkind : tree.kind = .«try») (hchildren : tree.children = block :: clauses)
    (hbody : MadeBlock B block body) (h : MadeHandlers B none none clauses (handler, cleanup)) :
    Made tree (.«try» body handler cleanup label tree.span)
  | loop {head body : ParseTree} {clauses : List ParseTree} {made : List Node} {x node : Node}
    (htrees : [head, body].Sublist tree.children) (hclauses : clauses.Sublist head.children)
    (h : Forall₂ (MadeClause B) clauses made) (hx : B body x)
    (hnode : node.Holds (made.map .node ++ [.node x])) : Made tree node

section

-- What the trees inside are built into has some property.
variable {B} {P : Node → Prop} (hB : ∀ t node, B t node → P node)
include hB

theorem MadeElement.forall_mem {item : ParseTree} {element : Option Node}
    (h : MadeElement B item element) : ∀ x ∈ element, P x := by
  rintro x ⟨⟩
  cases h with
  | item _ h => exact hB _ _ h
  | bare h => exact hB _ _ h

theorem MadeProperties.forall_value {known found : List Property} {entries : List ParseTree}
    (h : MadeProperties B known entries found) (hknown : ∀ p ∈ known, P p.value) :
    ∀ p ∈ found, P p.value := by
  induction h with
  | nil => exact hknown
  | cons _ h _ ih =>
    apply ih
    intro p hp
    rcases Property.mem_put hp with hvalue | hp
    · rw [hvalue]
      exact hB _ _ h
    · exact hknown p hp

theorem MadeArguments.forall_mem {list : Option ParseTree} {nodes : List Node}
    (h : MadeArguments B list nodes) : ∀ x ∈ nodes, P x := by
  cases h with
  | none => simp
  | list h => exact forall_mem_right h hB
  | single h => exact List.forall_mem_singleton.2 (hB _ _ h)

end

end Relations

/-- The tree is built into the node, with a label or without. -/
def Builds (build : ParseTree → Option String → Except BuildError Node) (tree : ParseTree)
    (node : Node) : Prop :=
  ∃ label, build tree label = .ok node

variable {tree a b : ParseTree} {node x y : Node} {nodes : List Node} {label : Option String}
  {B : ParseTree → Node → Prop}

theorem pair_sublist {trees : List ParseTree} {i : Nat} (ha : trees[i]? = some a)
    (hb : trees[i + 1]? = some b) : [a, b].Sublist trees := by
  obtain ⟨rest, hrest⟩ : ∃ rest, trees.drop i = a :: b :: rest := by
    refine cons_cons_of_getElem? ?_ ?_ <;> rwa [List.getElem?_drop]
  refine List.Sublist.trans ?_ (List.drop_sublist i trees)
  rw [hrest]
  exact List.sublist_append_left [a, b] rest

/-- A name or literal has nothing inside. -/
theorem holds_leaf (h : (leaf tree : Except BuildError Node) = .ok node) : node.Holds [] := by
  cases leaf_eq_ok h <;> exact ⟨rfl, nofun⟩

theorem made_detach {bare : ParseTree} {moved : Bool}
    (h : (detach tree : Except BuildError (ParseTree × Bool)) = .ok (bare, moved)) :
    Detaches tree bare moved := by
  rcases detach_eq_ok h with ⟨rfl, rfl⟩ | ⟨d, hd, rfl, rfl⟩
  · exact .stays
  · exact .moves hd

variable {build : ParseTree → Option String → Except BuildError Node}

theorem made_all {trees : List ParseTree} (h : all build trees = .ok nodes) :
    Forall₂ (Builds build) trees nodes := by
  induction trees generalizing nodes with
  | nil =>
    cases h
    exact .nil
  | cons t trees ih =>
    obtain ⟨node, rest, hnode, hrest, rfl⟩ := all_cons_eq_ok h
    exact .cons ⟨none, hnode⟩ (ih hrest)

theorem made_block {content : Block} (h : block build tree label = .ok content) :
    MadeBlock (Builds build) tree content := by
  obtain ⟨nodes, rfl, ⟨-, hnodes⟩ | ⟨-, x, hx, rfl⟩⟩ := block_eq_ok h
  · exact .braces (made_all hnodes)
  · exact .single ⟨none, hx⟩

/-! A node around what some of the children are built into. -/

theorem Made.ofFirst {rest : List ParseTree} (hchildren : tree.children = a :: rest) (hx : B a x)
    (hnode : node.Holds [.node x]) : Made B tree node :=
  .nodes (by rw [hchildren]; exact (List.sublist_append_left [a] rest).subperm)
    (.cons hx .nil) hnode

theorem Made.ofPair {rest : List ParseTree} (hchildren : tree.children = a :: b :: rest)
    (hx : B a x) (hy : B b y) (hnode : node.Holds [.node x, .node y]) : Made B tree node :=
  .nodes (by rw [hchildren]; exact (List.sublist_append_left [a, b] rest).subperm)
    (.cons hx (.cons hy .nil)) hnode

end Ecma3.Build
