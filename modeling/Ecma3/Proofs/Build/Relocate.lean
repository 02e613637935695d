import Ecma3.Proofs.Ast.Relocate
import Ecma3.Proofs.Build.Construct
import Ecma3.Proofs.Build.Properties
import Ecma3.Proofs.ParseTree.Detached
import Ecma3.Proofs.ParseTree.Nodes

/-!
What is built of a tree whose places are moved: what is built of the tree itself, with the places
in it moved too, or the same error at the place where it moves to. So the builder never looks at a place.
-/
namespace Ecma3.Build
open ParseTree (withoutNew?)

/-- The second outcome is the first one with its places moved: by `d` in a value. -/
inductive Moved {α : Type} (f : Nat → Nat) (d : α → α) :
    Except BuildError α → Except BuildError α → Prop where
  | ok (a : α) : Moved f d (.ok a) (.ok (d a))
  | error (e : BuildError) : Moved f d (.error e) (.error (e.relocate f))

namespace Moved

variable {α β : Type} {f : Nat → Nat} {d : α → α} {d' : β → β}

theorem pure {a b : α} (h : b = d a) : Moved f d (pure a) (pure b) :=
  h ▸ .ok a

theorem throw {e e' : BuildError} (h : e' = e.relocate f) : Moved f d (throw e) (throw e') :=
  h ▸ .error e

theorem bind {p p' : Except BuildError α} {k k' : α → Except BuildError β} (h : Moved f d p p')
    (hk : ∀ a, Moved f d' (k a) (k' (d a))) : Moved f d' (p >>= k) (p' >>= k') := by
  cases h with
  | ok a => exact hk a
  | error e => exact .error e

theorem map {g g' : α → β} {p p' : Except BuildError α} (h : Moved f d p p')
    (hg : ∀ a, g' (d a) = d' (g a)) : Moved f d' (g <$> p) (g' <$> p') := by
  rw [map_eq_pure_bind, map_eq_pure_bind]
  exact bind h fun a => pure (hg a)

theorem ite {c : Prop} [Decidable c] {p q p' q' : Except BuildError α} (h : c → Moved f d p p')
    (hq : ¬c → Moved f d q q') : Moved f d (if c then p else q) (if c then p' else q') := by
  split
  · exact h ‹_›
  · exact hq ‹_›

end Moved

variable {α : Type} {f : Nat → Nat} {d : α → α} {tree : ParseTree} {label : Option String}

/-! What is done without building a tree inside. -/

theorem moved_child (i : Nat) (part : Part) :
    Moved f (ParseTree.relocate f) (child tree i part) (child (tree.relocate f) i part) := by
  unfold child
  rw [ParseTree.relocate_children, List.getElem?_map]
  cases tree.children[i]? with
  | none => exact .throw (by simp)
  | some t => exact .pure rfl

theorem moved_unsupported :
    Moved f d (unsupported tree) (unsupported (tree.relocate f)) :=
  .throw (by simp)

theorem moved_literal (what : LiteralClass) {node : Option Node} :
    Moved f (Node.relocate f) (literal what tree node)
      (literal what (tree.relocate f) (node.map (Node.relocate f))) := by
  cases node with
  | none => exact .throw (by simp)
  | some node => exact .pure rfl

theorem decimal?_relocate (text : String) (span : Span) :
    Literal.decimal? text (span.relocate f) =
      (Literal.decimal? text span).map (Node.relocate f) := by
  unfold Literal.decimal?
  cases Decimal.Literal.parse? text.toList with
  | none => rfl
  | some literal =>
    simp only [Option.bind_eq_bind, Option.bind_some]
    split
    · rfl
    · split
      · rfl
      · cases Literal.int32? (Text.valueOf 10 literal.whole) <;> rfl

theorem hex?_relocate (text : String) (span : Span) :
    Literal.hex? text (span.relocate f) = (Literal.hex? text span).map (Node.relocate f) := by
  have hread : ∀ digits : List Char,
      (do return .integer (← Literal.int32? (← Literal.signedHex? digits)) (span.relocate f)) =
        (do return Node.integer (← Literal.int32? (← Literal.signedHex? digits)) span).map
          (Node.relocate f) := fun digits => by
    cases Literal.signedHex? digits with
    | none => rfl
    | some n =>
      simp only [Option.bind_eq_bind, Option.bind_some]
      cases Literal.int32? n <;> rfl
  unfold Literal.hex?
  split
  · exact hread _
  · exact hread _
  · rfl

theorem string?_relocate (text : String) (span : Span) :
    Literal.string? text (span.relocate f) =
      (Literal.string? text span).map (Node.relocate f) := by
  unfold Literal.string?
  split
  · rfl
  · split <;> rfl

theorem regex?_relocate (text : String) (span : Span) :
    Literal.regex? text (span.relocate f) = (Literal.regex? text span).map (Node.relocate f) := by
  unfold Literal.regex?
  split
  · dsimp only
    split <;> rfl
  · rfl

theorem moved_leaf : Moved f (Node.relocate f) (leaf tree) (leaf (tree.relocate f)) := by
  have hspan : (tree.relocate f).span = tree.span.relocate f := ParseTree.relocate_span
  unfold leaf
  rw [ParseTree.relocate_kind, ParseTree.relocate_text, hspan, decimal?_relocate, hex?_relocate,
    string?_relocate, regex?_relocate]
  split
  all_goals first | exact moved_literal _ | exact .pure (by simp)

theorem moved_assignedValue (target value : Node) :
    Moved f (Node.relocate f) (assignedValue tree target value)
      (assignedValue (tree.relocate f) (target.relocate f) (value.relocate f)) := by
  unfold assignedValue
  rw [ParseTree.relocate_kind]
  split
  · exact .pure rfl
  · exact .pure (by simp)
  · split
    · exact .pure (by simp)
    · exact moved_unsupported

/-- What is left of a chain when its places are moved; the place of its `new` moves too. -/
theorem withoutNew?_relocate : ∀ t : ParseTree, withoutNew? (t.relocate f) =
    (withoutNew? t).map fun d => ⟨d.tree.relocate f, d.newSpan.relocate f, d.accesses⟩
  | ⟨kind, text, span, []⟩ => by simp [withoutNew?]
  | ⟨kind, text, span, first :: rest⟩ => by
    have ih := withoutNew?_relocate first
    simp only [ParseTree.relocate_mk, List.map_cons, withoutNew?]
    split
    · rw [ih]
      cases withoutNew? first <;> simp
    · split <;> rfl

theorem moved_detach : Moved f (Prod.map (ParseTree.relocate f) id) (detach tree)
    (detach (tree.relocate f)) := by
  rw [ParseTree.detach_eq_withoutNew?, ParseTree.detach_eq_withoutNew?, withoutNew?_relocate]
  cases withoutNew? tree with
  | none => exact .pure rfl
  | some d => exact .pure rfl

/-! The constructions, around trees for which it is known. -/

variable {build build' : ParseTree → Option String → Except BuildError Node}
  (h : ∀ t label, Moved f (Node.relocate f) (build t label) (build' (t.relocate f) label))
include h

theorem moved_all (trees : List ParseTree) : Moved f (List.map (Node.relocate f))
    (all build trees) (all build' (trees.map (ParseTree.relocate f))) := by
  induction trees with
  | nil => exact .pure rfl
  | cons t trees ih => exact .bind (h t none) fun _ => .bind ih fun _ => .pure rfl

theorem moved_children : Moved f (List.map (Node.relocate f)) (all build tree.children)
    (all build' (tree.relocate f).children) := by
  rw [ParseTree.relocate_children]
  exact moved_all h _

theorem moved_pair : Moved f (Prod.map (Node.relocate f) (Node.relocate f)) (pair build tree)
    (pair build' (tree.relocate f)) :=
  .bind (moved_child _ _) fun first => .bind (moved_child _ _) fun second =>
    .bind (h first none) fun _ => .bind (h second none) fun _ => .pure rfl

theorem moved_block : Moved f (Block.relocate f) (block build tree label)
    (block build' (tree.relocate f) label) := by
  unfold block
  rw [ParseTree.relocate_kind]
  exact .ite (fun _ => .bind (moved_children h) fun _ => .pure (by simp)) fun _ =>
    .bind (h tree none) fun _ => .pure (by simp)

/-- A child is built as soon as it is found. -/
theorem moved_built (i : Nat) (part : Part) (label : Option String) : Moved f (Node.relocate f)
    (do build (← child tree i part) label)
    (do build' (← child (tree.relocate f) i part) label) :=
  .bind (moved_child _ _) fun t => h t label

/-! Expressions. -/

theorem moved_properties (trees : List ParseTree) (known : List Property) :
    Moved f (List.map (Property.relocate f)) (properties build known trees)
      (properties build' (known.map (Property.relocate f))
        (trees.map (ParseTree.relocate f))) := by
  induction trees generalizing known with
  | nil => exact .pure rfl
  | cons entry trees ih =>
    rw [List.map_cons, properties, properties, ParseTree.relocate_kind]
    have hrest : Moved f (List.map (Property.relocate f)) (do
        let name := Literal.propertyName (← child entry 0 .propertyName).text
        let value ← build (← child entry 1 .propertyValue) none
        properties build (Property.put name value known) trees) (do
        let name := Literal.propertyName (← child (entry.relocate f) 0 .propertyName).text
        let value ← build' (← child (entry.relocate f) 1 .propertyValue) none
        properties build' (Property.put name value (known.map (Property.relocate f)))
          (trees.map (ParseTree.relocate f))) := by
      refine .bind (moved_child _ _) fun key => .bind (moved_child _ _) fun content =>
        .bind (h content none) fun value => ?_
      rw [ParseTree.relocate_text, ← Property.map_relocate_put]
      exact ih _
    exact .ite (fun _ => .bind (moved_unsupported (d := id)) fun _ => hrest) fun _ => hrest

theorem moved_object : Moved f (Node.relocate f) (object build tree)
    (object build' (tree.relocate f)) := by
  rw [object_eq_properties, object_eq_properties, ParseTree.relocate_children]
  exact .bind (moved_properties h _ []) fun _ => .pure (by simp)

theorem moved_elements (items : List ParseTree) :
    Moved f (List.map (Option.map (Node.relocate f))) (elements build items)
      (elements build' (items.map (ParseTree.relocate f))) := by
  induction items with
  | nil => exact .pure rfl
  | cons item items ih =>
    have hcontent : (if (item.relocate f).kind = .item then (item.relocate f).children[0]?
        else some (item.relocate f)) =
        (if item.kind = .item then item.children[0]? else some item).map
          (ParseTree.relocate f) := by
      rw [ParseTree.relocate_kind]
      split <;> simp
    simp only [List.map_cons, elements, hcontent]
    generalize (if item.kind = .item then item.children[0]? else some item) = content
    cases content with
    | none =>
      exact .bind (.pure (d := Option.map (Node.relocate f)) rfl) fun _ =>
        .bind ih fun _ => .pure rfl
    | some tree =>
      exact .bind (d := Option.map (Node.relocate f)) (.map (h tree none) fun _ => rfl) fun _ =>
        .bind ih fun _ => .pure rfl

theorem moved_array : Moved f (Node.relocate f) (array build tree)
    (array build' (tree.relocate f)) := by
  unfold array
  rw [ParseTree.relocate_children]
  exact .bind (moved_elements h _) fun _ => .pure (by simp)

theorem moved_function :
    Moved f (Node.relocate f) (function build tree) (function build' (tree.relocate f)) := by
  unfold function
  rw [ParseTree.relocate_children, List.length_map]
  extract_lets named first rest rest'
  have hrest : ∀ name, Moved f (Node.relocate f) (rest name)
      (rest' (name.map (ParseTree.relocate f))) := fun name =>
    .bind (moved_child _ _) fun _ => .bind (moved_child _ _) fun _ =>
      .bind (moved_block h) fun _ => .pure (by simp [Function.comp_def])
  refine .ite (fun _ => ?_) fun _ => ?_
  · refine .bind (d := Option.map (ParseTree.relocate f)) ?_ hrest
    exact .map (moved_child _ _) fun _ => rfl
  · exact .bind (d := Option.map (ParseTree.relocate f)) (.pure rfl) hrest

theorem moved_arguments : Moved f (List.map (Node.relocate f)) (arguments build tree)
    (arguments build' (tree.relocate f)) := by
  unfold arguments
  rw [ParseTree.relocate_kind]
  exact .ite (fun _ => moved_children h) fun _ => .bind (h tree none) fun _ => .pure rfl

theorem moved_call :
    Moved f (Node.relocate f) (call build tree) (call build' (tree.relocate f)) := by
  refine .bind (moved_child _ _) fun callee => ?_
  extract_lets rest rest'
  have hrest : ∀ arguments, Moved f (Node.relocate f) (rest arguments)
      (rest' (arguments.map (Node.relocate f))) := fun arguments =>
    .bind moved_detach fun detached => .bind (h detached.1 none) fun _ =>
      .ite (fun _ => .pure (by simp)) fun _ => .pure (by simp)
  rw [ParseTree.relocate_children, List.getElem?_map]
  cases tree.children[1]? with
  | none => exact .bind (d := List.map (Node.relocate f)) (.pure rfl) hrest
  | some list => exact .bind (moved_arguments h) hrest

theorem moved_access :
    Moved f (Node.relocate f) (access build tree) (access build' (tree.relocate f)) := by
  refine .bind (moved_child _ _) fun object => .bind (moved_child _ _) fun member =>
    .bind moved_detach fun detached => .bind (h detached.1 none) fun node => ?_
  extract_lets rest rest'
  have hrest : ∀ access, Moved f (Node.relocate f) (rest access)
      (rest' (access.relocate f)) := fun access =>
    .ite (fun _ => .pure (by simp)) fun _ => .pure rfl
  rw [ParseTree.relocate_kind]
  refine .ite (fun _ => ?_) fun _ => .bind (h member none) fun _ => ?_
  all_goals exact .bind (d := Node.relocate f) (.pure (by simp)) hrest

/-! Operators. -/

theorem moved_assignment :
    Moved f (Node.relocate f) (assignment build tree) (assignment build' (tree.relocate f)) :=
  .bind (moved_pair h) fun operands => .bind (moved_assignedValue operands.1 operands.2) fun _ =>
    .pure (by simp)

theorem moved_binary :
    Moved f (Node.relocate f) (binary build tree) (binary build' (tree.relocate f)) := by
  refine .bind (moved_pair h) fun operands => ?_
  dsimp only
  rw [ParseTree.relocate_kind]
  split
  any_goals exact .pure (by simp)
  split
  · exact .pure (by simp)
  · exact moved_unsupported

theorem moved_step :
    Moved f (Node.relocate f) (step build tree) (step build' (tree.relocate f)) := by
  refine .bind (moved_child _ _) fun operand => .bind (h operand none) fun target => ?_
  rw [ParseTree.relocate_kind]
  split <;> exact .pure (by simp)

theorem moved_unary :
    Moved f (Node.relocate f) (unary build tree) (unary build' (tree.relocate f)) := by
  refine .bind (moved_child _ _) fun operand => .bind (h operand none) fun node => ?_
  rw [ParseTree.relocate_kind]
  split <;> exact .pure (by simp)

/-! Statements. -/

theorem moved_labelled : Moved f (Node.relocate f) (labelled build tree label)
    (labelled build' (tree.relocate f) label) := by
  refine .bind (moved_child _ _) fun name => .bind (moved_child _ _) fun target => ?_
  rw [ParseTree.relocate_text]
  cases label with
  | none => exact h target _
  | some outer => exact h target _

theorem moved_declarator :
    Moved f (Node.relocate f) (declarator build tree) (declarator build' (tree.relocate f)) := by
  unfold declarator
  rw [ParseTree.relocate_kind]
  split
  · exact .pure (by simp)
  · refine .bind (moved_child _ _) fun target => .bind (moved_child _ _) fun value => ?_
    extract_lets rest rest'
    have hrest : ∀ target, Moved f (Node.relocate f) (rest target)
        (rest' (target.relocate f)) := fun target =>
      .bind (h value none) fun _ => .pure (by simp)
    rw [ParseTree.relocate_kind]
    refine .ite (fun _ => ?_) fun _ => .bind (h target none) hrest
    exact .bind (d := Node.relocate f) (.pure (by simp)) hrest
  · exact h tree none

theorem moved_declarators (trees : List ParseTree) : Moved f (List.map (Node.relocate f))
    (declarators build trees) (declarators build' (trees.map (ParseTree.relocate f))) := by
  induction trees with
  | nil => exact .pure rfl
  | cons t trees ih => exact .bind (moved_declarator h) fun _ => .bind ih fun _ => .pure rfl

theorem moved_var :
    Moved f (Node.relocate f) (var build tree) (var build' (tree.relocate f)) := by
  unfold var
  rw [ParseTree.relocate_children]
  refine .bind (moved_declarators h _) fun nodes => ?_
  match nodes with
  | [] => exact .throw (by simp)
  | [only] => exact .pure rfl
  | _ :: _ :: _ => exact .pure (by simp)

theorem moved_conditional : Moved f (Node.relocate f) (conditional build tree label)
    (conditional build' (tree.relocate f) label) := by
  unfold conditional
  rw [ParseTree.relocate_kind]
  refine .bind (moved_child _ _) fun test => .bind (h test none) fun _ => ?_
  refine .bind (moved_child _ _) fun consequent => .bind (h consequent none) fun _ => ?_
  extract_lets rest rest'
  have hrest : ∀ alternate, Moved f (Node.relocate f) (rest alternate)
      (rest' (alternate.map (Node.relocate f))) := fun _ => .pure (by simp)
  rw [ParseTree.relocate_children, List.getElem?_map]
  refine .ite (fun _ => ?_) fun _ => ?_
  · exact .bind (moved_child _ _) fun alternate =>
      .bind (d := Option.map (Node.relocate f)) (.map (h alternate none) fun _ => rfl) hrest
  · cases tree.children[2]? with
    | none => exact .bind (d := Option.map (Node.relocate f)) (.pure rfl) hrest
    | some alternate =>
      exact .bind (d := Option.map (Node.relocate f)) (.map (h alternate none) fun _ => rfl) hrest

theorem moved_whileLoop : Moved f (Node.relocate f) (whileLoop build tree label)
    (whileLoop build' (tree.relocate f) label) := by
  refine .bind (moved_pair h) fun _ => ?_
  dsimp only
  rw [ParseTree.relocate_kind]
  exact .ite (fun _ => .pure (by simp)) fun _ => .pure (by simp)

theorem moved_withStatement : Moved f (Node.relocate f) (withStatement build tree label)
    (withStatement build' (tree.relocate f) label) :=
  .bind (moved_pair h) fun _ => .pure (by simp)

theorem moved_jump :
    Moved f (Node.relocate f) (jump build tree) (jump build' (tree.relocate f)) := by
  unfold jump
  rw [ParseTree.relocate_kind, ParseTree.relocate_children, List.getElem?_map]
  split
  · cases tree.children[0]? with
    | none => exact .pure (by simp)
    | some value => exact .bind (h value none) fun _ => .pure (by simp)
  · exact .bind (moved_child _ _) fun value =>
      .bind (h value none) fun _ => .pure (by simp)
  all_goals exact .pure (by simp [Function.comp_def])

theorem moved_clauses (whole : ParseTree) (cases : List SwitchCase) (default : Option Node)
    (found : List ParseTree) :
    Moved f (Prod.map (List.map (SwitchCase.relocate f)) (Option.map (Node.relocate f)))
      (clauses build whole cases default found)
      (clauses build' (whole.relocate f) (cases.map (SwitchCase.relocate f))
        (default.map (Node.relocate f)) (found.map (ParseTree.relocate f))) := by
  induction found generalizing cases default with
  | nil => exact .pure rfl
  | cons clause found ih =>
    rw [List.map_cons]
    unfold clauses
    rw [ParseTree.relocate_kind]
    split
    · refine .bind (moved_child _ _) fun test => .bind (h test none) fun node => ?_
      rw [ParseTree.relocate_children, ← List.map_drop]
      refine .bind (moved_all h _) fun nodes => ?_
      have := ih (cases ++ [⟨node, ⟨nodes, none, clause.span⟩, clause.span⟩]) default
      simpa using this
    · have hrest : Moved f (Prod.map (List.map (SwitchCase.relocate f))
          (Option.map (Node.relocate f))) (do
          let statements ← all build clause.children
          clauses build whole cases (some (.block ⟨statements, none, clause.span⟩)) found) (do
          let statements ← all build' (clause.relocate f).children
          clauses build' (whole.relocate f) (cases.map (SwitchCase.relocate f))
            (some (.block ⟨statements, none, (clause.relocate f).span⟩))
            (found.map (ParseTree.relocate f))) := by
        refine .bind (moved_children h) fun nodes => ?_
        have := ih cases (some (.block ⟨nodes, none, clause.span⟩))
        simpa using this
      rw [Option.isSome_map, ParseTree.relocate_kind]
      exact .ite (fun _ => .bind (.throw (d := id) (by simp)) fun _ => hrest) fun _ => hrest
    · exact moved_unsupported

theorem moved_switch : Moved f (Node.relocate f) (switch build tree label)
    (switch build' (tree.relocate f) label) := by
  refine .bind (moved_child _ _) fun discriminant => .bind (h discriminant none) fun _ => ?_
  rw [ParseTree.relocate_children, ← List.map_drop]
  refine .bind (moved_clauses h tree [] none _) fun found => .pure ?_
  rcases found with ⟨cases, _ | default⟩ <;> simp

theorem moved_handlers (handler : Option Catch) (cleanup : Option Block)
    (found : List ParseTree) :
    Moved f (Prod.map (Option.map (Catch.relocate f)) (Option.map (Block.relocate f)))
      (handlers build handler cleanup found)
      (handlers build' (handler.map (Catch.relocate f)) (cleanup.map (Block.relocate f))
        (found.map (ParseTree.relocate f))) := by
  induction found generalizing handler cleanup with
  | nil => exact .pure rfl
  | cons clause found ih =>
    rw [List.map_cons]
    unfold handlers
    rw [ParseTree.relocate_kind]
    split
    · refine .bind (moved_child _ _) fun binding => .bind (moved_child _ _) fun tree =>
        .bind (moved_block h) fun body => ?_
      have := ih (some ⟨binding.text, body, clause.span⟩) cleanup
      simpa using this
    · exact .bind (moved_child _ _) fun tree => .bind (moved_block h) fun body =>
        ih handler (some body)
    · exact moved_unsupported

theorem moved_tryStatement : Moved f (Node.relocate f) (tryStatement build tree label)
    (tryStatement build' (tree.relocate f) label) := by
  refine .bind (moved_child _ _) fun _ => .bind (moved_block h) fun _ => ?_
  rw [ParseTree.relocate_children, ← List.map_drop]
  exact .bind (moved_handlers h none none _) fun _ => .pure (by simp)

theorem moved_clause {missing : Span → Node}
    (hmissing : ∀ span, missing (span.relocate f) = (missing span).relocate f)
    (tree : ParseTree) : Moved f (Node.relocate f) (clause build missing tree)
      (clause build' missing (tree.relocate f)) := by
  unfold clause
  rw [ParseTree.relocate_kind, ParseTree.relocate_children, List.getElem?_map]
  refine .ite (fun _ => ?_) fun _ => h tree none
  cases tree.children[0]? with
  | none => exact .pure (by rw [ParseTree.relocate_span]; exact hmissing _)
  | some expression => exact h expression none

theorem moved_forLoop : Moved f (Node.relocate f) (forLoop build tree label)
    (forLoop build' (tree.relocate f) label) := by
  have hnull : ∀ span, Node.null (span.relocate f) = (Node.null span).relocate f := fun _ => rfl
  refine .bind (moved_child _ _) fun head => .bind (moved_child _ _) fun body => ?_
  rw [ParseTree.relocate_kind]
  split
  · refine .bind (moved_child _ _) fun _ => .bind (moved_clause h hnull _) fun _ => ?_
    refine .bind (moved_child _ _) fun _ => .bind (moved_clause h (fun _ => rfl) _) fun _ => ?_
    refine .bind (moved_child _ _) fun _ => .bind (moved_clause h hnull _) fun _ => ?_
    exact .bind (h body none) fun _ => .pure (by simp)
  · refine .bind (moved_child _ _) fun _ => .bind (moved_clause h hnull _) fun _ => ?_
    refine .bind (moved_child _ _) fun _ => .bind (moved_clause h hnull _) fun _ => ?_
    exact .bind (h body none) fun _ => .pure (by simp)
  · exact moved_unsupported

/-! All constructions. -/

theorem moved_construct : Moved f (Node.relocate f) (construct build tree label)
    (construct build' (tree.relocate f) label) := by
  obtain ⟨c, hc, hconstruct⟩ := exists_constructs tree.kind
  rw [hconstruct rfl, hconstruct (ParseTree.relocate_kind ..)]
  cases hc with
  | grouping => exact moved_built h 0 .expression label
  | labelled => exact moved_labelled h
  | block => exact .map (moved_block h) fun _ => by simp
  | var => exact moved_var h
  | sequence => exact .bind (moved_children h) fun _ => .pure (by simp)
  | object => exact moved_object h
  | array => exact moved_array h
  | function => exact moved_function h
  | call => exact moved_call h
  | new =>
    exact .bind (moved_child _ _) fun operand => .bind (h operand none) fun _ => .pure (by simp)
  | access => exact moved_access h
  | conditional => exact moved_conditional h
  | switch => exact moved_switch h
  | tryStatement => exact moved_tryStatement h
  | whileLoop => exact moved_whileLoop h
  | forLoop => exact moved_forLoop h
  | withStatement => exact moved_withStatement h
  | jump => exact moved_jump h
  | leaf => exact moved_leaf
  | assignment => exact moved_assignment h
  | binary => exact moved_binary h
  | step => exact moved_step h
  | unary => exact moved_unary h
  | unsupported => exact moved_unsupported

theorem moved_visit : Moved f (Node.relocate f) (visit build tree label)
    (visit build' (tree.relocate f) label) := by
  unfold visit
  refine .bind (.pure (d := id) rfl) fun _ => ?_
  rw [ParseTree.relocate_kind]
  cases label with
  | none => exact moved_construct h
  | some name =>
    exact .ite (fun _ => .bind (.throw (d := id) (by simp)) fun _ => moved_construct h)
      fun _ => moved_construct h

omit h

theorem moved_within (limit levels : Nat) (tree : ParseTree) (label : Option String) :
    Moved f (Node.relocate f) (within limit levels tree label)
      (within limit levels (tree.relocate f) label) := by
  induction levels generalizing tree label with
  | zero => exact .throw (by simp)
  | succ levels ih => exact moved_visit ih

/-- A source without statements has its null at the start, which must stay there. -/
theorem moved_program (hf : f 0 = 0) (limit : Nat) (root : Option ParseTree) :
    Moved f (List.map (Node.relocate f)) (program limit root)
      (program limit (root.map (ParseTree.relocate f))) := by
  unfold program
  extract_lets rest
  have hrest : ∀ nodes, Moved f (List.map (Node.relocate f)) (rest nodes)
      (rest (nodes.map (Node.relocate f))) := fun nodes => .ok nodes
  cases root with
  | none => exact .bind (.pure (by simp [hf])) hrest
  | some root =>
    dsimp only [Option.map_some]
    rw [ParseTree.relocate_kind]
    exact .ite (fun _ => .bind (moved_children (moved_within limit limit)) hrest) fun _ =>
      .bind (moved_within limit limit root none) fun node => .bind (.pure rfl) hrest

/-- The outcome for a tree without its places, from that for the tree. -/
theorem program_spanless (limit : Nat) (root : Option ParseTree) :
    Moved (fun _ => 0) (List.map Node.spanless) (program limit root)
      (program limit (root.map ParseTree.spanless)) := by
  have h := moved_program (f := fun _ => 0) rfl limit root
  rwa [funext ParseTree.relocate_zero] at h

/-- Trees that differ in their places alone are built into nodes that differ in their places alone,
or both fail for one reason. -/
theorem program_up_to_places (limit : Nat) {root root' : Option ParseTree}
    (h : root.map ParseTree.spanless = root'.map ParseTree.spanless) :
    (∃ nodes nodes', (program limit root : Except BuildError (List Node)) = .ok nodes ∧
      (program limit root' : Except BuildError (List Node)) = .ok nodes' ∧
      nodes.map Node.spanless = nodes'.map Node.spanless) ∨
    ∃ e e', (program limit root : Except BuildError (List Node)) = .error e ∧
      (program limit root' : Except BuildError (List Node)) = .error e' ∧
      e.spanless = e'.spanless := by
  have hroot := program_spanless limit root
  have hroot' := program_spanless limit root'
  rw [← h] at hroot'
  generalize (program limit (root.map ParseTree.spanless) : Except BuildError _) = outcome
    at hroot hroot'
  generalize (program limit root : Except BuildError _) = p at hroot ⊢
  generalize (program limit root' : Except BuildError _) = p' at hroot' ⊢
  cases hroot with
  | ok nodes =>
    generalize hnodes : nodes.map Node.spanless = built at hroot'
    cases hroot' with
    | ok nodes' => exact .inl ⟨nodes, nodes', rfl, rfl, hnodes⟩
  | error e =>
    generalize herror : e.relocate (fun _ => 0) = error at hroot'
    cases hroot' with
    | error e' => exact .inr ⟨e, e', rfl, rfl, herror⟩

/-- The trees of `a[0x]`, once with places that no text has. -/
theorem program_up_to_places_index :
    Option.map ParseTree.spanless (some (.group .byIndex ⟨0, 5⟩
      [.leaf .identifier "a" ⟨0, 1⟩, .leaf .decimalLiteral "0x" ⟨2, 4⟩])) =
      Option.map ParseTree.spanless (some (.group .byIndex ⟨7, 2⟩
        [.leaf .identifier "a" ⟨9, 9⟩, .leaf .decimalLiteral "0x" ⟨1, 0⟩])) ∧
    ((∃ nodes nodes', (program 2 (some (.group .byIndex ⟨0, 5⟩
        [.leaf .identifier "a" ⟨0, 1⟩, .leaf .decimalLiteral "0x" ⟨2, 4⟩])) :
        Except BuildError (List Node)) = .ok nodes ∧
      (program 2 (some (.group .byIndex ⟨7, 2⟩
        [.leaf .identifier "a" ⟨9, 9⟩, .leaf .decimalLiteral "0x" ⟨1, 0⟩])) :
        Except BuildError (List Node)) = .ok nodes' ∧
      nodes.map Node.spanless = nodes'.map Node.spanless) ∨
    ∃ e e', (program 2 (some (.group .byIndex ⟨0, 5⟩
        [.leaf .identifier "a" ⟨0, 1⟩, .leaf .decimalLiteral "0x" ⟨2, 4⟩])) :
        Except BuildError (List Node)) = .error e ∧
      (program 2 (some (.group .byIndex ⟨7, 2⟩
        [.leaf .identifier "a" ⟨9, 9⟩, .leaf .decimalLiteral "0x" ⟨1, 0⟩])) :
        Except BuildError (List Node)) = .error e' ∧
      e.spanless = e'.spanless) :=
  ⟨rfl, program_up_to_places 2 rfl⟩

end Ecma3.Build
