import Ecma3.Proofs.Build.Construct
import Ecma3.Proofs.ParseTree.Detached

/-!
Two ways to run the constructions. A relation that is kept by the few operations the constructions are
written with holds of each construction, if it holds of the trees inside.
-/
namespace Ecma3.Build
open Log

/-- How computations of one kind answer to those of another: a relation with one clause for each
operation that a construction is made of. -/
structure Correspondence (m m' : Type → Type) [Monad m] [MonadExcept BuildError m] [MonadLog m]
    [Monad m'] [MonadExcept BuildError m'] [MonadLog m'] where
  Rel : {α : Type} → m α → m' α → Prop
  pure : ∀ {α : Type} (a : α), Rel (pure a) (pure a)
  bind : ∀ {α β : Type} {p : m α} {p' : m' α} {f : α → m β} {f' : α → m' β},
    Rel p p' → (∀ a, Rel (f a) (f' a)) → Rel (p >>= f) (p' >>= f')
  throw : ∀ {α : Type} (e : BuildError), Rel (throw e : m α) (throw e : m' α)
  note : ∀ e : Event, Rel (note e) (note e)

namespace Correspondence

variable {m m' : Type → Type} [Monad m] [MonadExcept BuildError m] [MonadLog m] [Monad m']
  [MonadExcept BuildError m'] [MonadLog m'] (C : Correspondence m m') {α β : Type}

theorem map [LawfulMonad m] [LawfulMonad m'] {p : m α} {p' : m' α} {g : α → β} (h : C.Rel p p') :
    C.Rel (g <$> p) (g <$> p') := by
  rw [map_eq_pure_bind, map_eq_pure_bind]
  exact C.bind h fun a => C.pure (g a)

theorem ite {c : Prop} [Decidable c] {p q : m α} {p' q' : m' α} (h : c → C.Rel p p')
    (hq : ¬c → C.Rel q q') : C.Rel (if c then p else q) (if c then p' else q') := by
  split
  · exact h ‹_›
  · exact hq ‹_›

/-! What is done without building a tree inside. -/

theorem rel_child (tree : ParseTree) (i : Nat) (part : Part) :
    C.Rel (child tree i part) (child tree i part) := by
  unfold child
  split
  · exact C.pure _
  · exact C.throw _

theorem rel_unsupported (tree : ParseTree) :
    C.Rel (unsupported tree : m α) (unsupported tree : m' α) :=
  C.throw _

theorem rel_literal (what : LiteralClass) (tree : ParseTree) (node : Option Node) :
    C.Rel (literal what tree node) (literal what tree node) := by
  cases node with
  | none => exact C.throw _
  | some node => exact C.pure node

theorem rel_leaf (tree : ParseTree) : C.Rel (leaf tree) (leaf tree) := by
  unfold leaf
  split
  all_goals first | exact C.pure _ | exact C.rel_literal _ _ _

theorem rel_assignedValue (tree : ParseTree) (target value : Node) :
    C.Rel (assignedValue tree target value) (assignedValue tree target value) := by
  unfold assignedValue
  split
  · exact C.pure _
  · exact C.pure _
  · split
    · exact C.pure _
    · exact C.rel_unsupported tree

theorem rel_detach (tree : ParseTree) : C.Rel (detach tree) (detach tree) := by
  rw [ParseTree.detach_eq_withoutNew?, ParseTree.detach_eq_withoutNew?]
  split
  · exact C.pure _
  · exact C.bind (C.note _) fun _ => C.pure _

variable {build : ParseTree → Option String → m Node}
  {build' : ParseTree → Option String → m' Node}
  (h : ∀ t label, C.Rel (build t label) (build' t label)) {tree : ParseTree} {label : Option String}
include h

theorem rel_all (trees : List ParseTree) : C.Rel (all build trees) (all build' trees) := by
  induction trees with
  | nil => exact C.pure _
  | cons t trees ih => exact C.bind (h t none) fun _ => C.bind ih fun _ => C.pure _

theorem rel_pair : C.Rel (pair build tree) (pair build' tree) :=
  C.bind (C.rel_child _ _ _) fun first => C.bind (C.rel_child _ _ _) fun second =>
    C.bind (h first none) fun _ => C.bind (h second none) fun _ => C.pure _

theorem rel_block : C.Rel (block build tree label) (block build' tree label) :=
  C.ite (fun _ => C.bind (C.rel_all h _) fun _ => C.pure _) fun _ =>
    C.bind (h tree none) fun _ => C.pure _

/-- A child is built as soon as it is found. -/
theorem rel_built (i : Nat) (part : Part) (label : Option String) :
    C.Rel (do build (← child tree i part) label) (do build' (← child tree i part) label) :=
  C.bind (C.rel_child _ _ _) fun t => h t label

/-! Expressions. -/

theorem rel_enterAll (trees : List ParseTree) (table : PropertyTable) :
    C.Rel (enterAll build table trees) (enterAll build' table trees) := by
  induction trees generalizing table with
  | nil => exact C.pure _
  | cons entry trees ih =>
    have hrest : C.Rel (do
        let name := Literal.propertyName (← child entry 0 .propertyName).text
        let value ← build (← child entry 1 .propertyValue) none
        enterAll build (table.enter name value) trees) (do
        let name := Literal.propertyName (← child entry 0 .propertyName).text
        let value ← build' (← child entry 1 .propertyValue) none
        enterAll build' (table.enter name value) trees) :=
      C.bind (C.rel_child _ _ _) fun _ => C.bind (C.rel_child _ _ _) fun value =>
        C.bind (h value none) fun _ => ih _
    exact C.ite (fun _ => C.bind (C.rel_unsupported entry) fun _ => hrest) fun _ => hrest

theorem rel_arguments : C.Rel (arguments build tree) (arguments build' tree) :=
  C.ite (fun _ => C.rel_all h _) fun _ => C.bind (h tree none) fun _ => C.pure _

theorem rel_call : C.Rel (call build tree) (call build' tree) := by
  refine C.bind (C.rel_child _ _ _) fun callee => ?_
  extract_lets rest rest'
  have hrest : ∀ arguments, C.Rel (rest arguments) (rest' arguments) := fun arguments =>
    C.bind (C.rel_detach callee) fun detached => C.bind (h detached.1 none) fun _ =>
      C.ite (fun _ => C.pure _) fun _ => C.pure _
  cases tree.children[1]? with
  | none => exact C.bind (C.pure _) hrest
  | some list => exact C.bind (C.rel_arguments h) hrest

theorem rel_access : C.Rel (access build tree) (access build' tree) := by
  refine C.bind (C.rel_child _ _ _) fun object => C.bind (C.rel_child _ _ _) fun member =>
    C.bind (C.rel_detach object) fun detached => C.bind (h detached.1 none) fun node => ?_
  extract_lets rest rest'
  have hrest : ∀ access, C.Rel (rest access) (rest' access) := fun access =>
    C.ite (fun _ => C.pure _) fun _ => C.pure _
  exact C.ite (fun _ => C.bind (C.pure _) hrest) fun _ =>
    C.bind (h member none) fun _ => C.bind (C.pure _) hrest

/-! Operators. -/

theorem rel_assignment : C.Rel (assignment build tree) (assignment build' tree) :=
  C.bind (C.rel_pair h) fun _ => C.bind (C.rel_assignedValue _ _ _) fun _ => C.pure _

theorem rel_binary : C.Rel (binary build tree) (binary build' tree) := by
  refine C.bind (C.rel_pair h) fun operands => ?_
  dsimp only
  split
  any_goals exact C.pure _
  split
  · exact C.pure _
  · exact C.rel_unsupported tree

theorem rel_step : C.Rel (step build tree) (step build' tree) := by
  refine C.bind (C.rel_child _ _ _) fun operand => C.bind (h operand none) fun target => ?_
  split <;> exact C.pure _

theorem rel_unary : C.Rel (unary build tree) (unary build' tree) := by
  refine C.bind (C.rel_child _ _ _) fun operand => C.bind (h operand none) fun node => ?_
  split <;> exact C.pure _

/-! Statements. -/

theorem rel_labelled : C.Rel (labelled build tree label) (labelled build' tree label) := by
  refine C.bind (C.rel_child _ _ _) fun name => C.bind (C.rel_child _ _ _) fun target => ?_
  cases label with
  | none => exact h target _
  | some outer => exact C.bind (C.note _) fun _ => h target _

theorem rel_declarator : C.Rel (declarator build tree) (declarator build' tree) := by
  unfold declarator
  split
  · exact C.pure _
  · refine C.bind (C.rel_child _ _ _) fun target => C.bind (C.rel_child _ _ _) fun value => ?_
    extract_lets rest rest'
    have hrest : ∀ target, C.Rel (rest target) (rest' target) := fun target =>
      C.bind (h value none) fun _ => C.pure _
    exact C.ite (fun _ => C.bind (C.pure _) hrest) fun _ => C.bind (h target none) hrest
  · exact h tree none

theorem rel_declarators (trees : List ParseTree) :
    C.Rel (declarators build trees) (declarators build' trees) := by
  induction trees with
  | nil => exact C.pure _
  | cons t trees ih => exact C.bind (C.rel_declarator h) fun _ => C.bind ih fun _ => C.pure _

theorem rel_var : C.Rel (var build tree) (var build' tree) := by
  refine C.bind (C.rel_declarators h _) fun nodes => ?_
  split
  · exact C.throw _
  · exact C.pure _
  · exact C.pure _

theorem rel_whileLoop : C.Rel (whileLoop build tree label) (whileLoop build' tree label) :=
  C.bind (C.rel_pair h) fun _ => C.ite (fun _ => C.pure _) fun _ => C.pure _

theorem rel_jump : C.Rel (jump build tree) (jump build' tree) := by
  unfold jump
  split
  · split
    · exact C.bind (h _ none) fun _ => C.pure _
    · exact C.pure _
  · exact C.bind (C.rel_child _ _ _) fun value => C.bind (h value none) fun _ => C.pure _
  · exact C.pure _
  · exact C.pure _

theorem rel_clauses (whole : ParseTree) (cases : List SwitchCase) (default : Option Node)
    (found : List ParseTree) :
    C.Rel (clauses build whole cases default found) (clauses build' whole cases default found) := by
  induction found generalizing cases default with
  | nil => exact C.pure _
  | cons clause found ih =>
    unfold clauses
    split
    · refine C.bind (C.rel_child _ _ _) fun test => C.bind (h test none) fun _ => ?_
      exact C.bind (C.rel_all h _) fun _ => ih _ _
    · have hrest : C.Rel (do
          let statements ← all build clause.children
          clauses build whole cases (some (.block ⟨statements, none, clause.span⟩)) found) (do
          let statements ← all build' clause.children
          clauses build' whole cases (some (.block ⟨statements, none, clause.span⟩)) found) :=
        C.bind (C.rel_all h _) fun _ => ih _ _
      exact C.ite (fun _ => C.bind (C.throw _) fun _ => hrest) fun _ => hrest
    · exact C.rel_unsupported clause

theorem rel_switch : C.Rel (switch build tree label) (switch build' tree label) :=
  C.bind (C.rel_child _ _ _) fun discriminant => C.bind (h discriminant none) fun _ =>
    C.bind (C.rel_clauses h tree [] none _) fun _ => C.pure _

theorem rel_handlers (handler : Option Catch) (cleanup : Option Block) (found : List ParseTree) :
    C.Rel (handlers build handler cleanup found) (handlers build' handler cleanup found) := by
  induction found generalizing handler cleanup with
  | nil => exact C.pure _
  | cons clause found ih =>
    unfold handlers
    split
    · exact C.bind (C.rel_child _ _ _) fun _ => C.bind (C.rel_child _ _ _) fun _ =>
        C.bind (C.rel_block h) fun _ => ih _ _
    · exact C.bind (C.rel_child _ _ _) fun _ => C.bind (C.rel_block h) fun _ => ih _ _
    · exact C.rel_unsupported clause

theorem rel_tryStatement :
    C.Rel (tryStatement build tree label) (tryStatement build' tree label) :=
  C.bind (C.rel_child _ _ _) fun _ => C.bind (C.rel_block h) fun _ =>
    C.bind (C.rel_handlers h none none _) fun _ => C.pure _

theorem rel_clause (missing : Span → Node) (tree : ParseTree) :
    C.Rel (clause build missing tree) (clause build' missing tree) := by
  refine C.ite (fun _ => ?_) fun _ => h tree none
  cases tree.children[0]? with
  | none => exact C.pure _
  | some expression => exact h expression none

theorem rel_forLoop : C.Rel (forLoop build tree label) (forLoop build' tree label) := by
  refine C.bind (C.rel_child _ _ _) fun head => C.bind (C.rel_child _ _ _) fun body => ?_
  split
  · refine C.bind (C.rel_child _ _ _) fun _ => C.bind (C.rel_clause h _ _) fun _ => ?_
    refine C.bind (C.rel_child _ _ _) fun _ => C.bind (C.rel_clause h _ _) fun _ => ?_
    refine C.bind (C.rel_child _ _ _) fun _ => C.bind (C.rel_clause h _ _) fun _ => ?_
    exact C.bind (h body none) fun _ => C.pure _
  · refine C.bind (C.rel_child _ _ _) fun _ => C.bind (C.rel_clause h _ _) fun _ => ?_
    refine C.bind (C.rel_child _ _ _) fun _ => C.bind (C.rel_clause h _ _) fun _ => ?_
    exact C.bind (h body none) fun _ => C.pure _
  · exact C.rel_unsupported head

/-! The constructions that hand on a result by `map`. -/

variable [LawfulMonad m] [LawfulMonad m']

theorem rel_elements (items : List ParseTree) :
    C.Rel (elements build items) (elements build' items) := by
  induction items with
  | nil => exact C.pure _
  | cons item items ih =>
    simp only [elements]
    generalize (if item.kind = .item then item.children[0]? else some item) = content
    have hrest : ∀ element, C.Rel (do return element :: (← elements build items))
        (do return element :: (← elements build' items)) := fun element =>
      C.bind ih fun _ => C.pure _
    cases content with
    | none => exact C.bind (C.pure _) hrest
    | some tree => exact C.bind (C.map (h tree none)) hrest

theorem rel_function : C.Rel (function build tree) (function build' tree) := by
  unfold function
  extract_lets named first rest rest'
  have hrest : ∀ name, C.Rel (rest name) (rest' name) := fun name =>
    C.bind (C.rel_child _ _ _) fun _ => C.bind (C.rel_child _ _ _) fun _ =>
      C.bind (C.rel_block h) fun _ => C.pure _
  exact C.ite (fun _ => C.bind (C.map (C.rel_child _ _ _)) hrest) fun _ => C.bind (C.pure _) hrest

theorem rel_conditional :
    C.Rel (conditional build tree label) (conditional build' tree label) := by
  refine C.bind (C.rel_child _ _ _) fun test => C.bind (h test none) fun _ => ?_
  refine C.bind (C.rel_child _ _ _) fun consequent => C.bind (h consequent none) fun _ => ?_
  extract_lets rest rest'
  have hrest : ∀ alternate, C.Rel (rest alternate) (rest' alternate) := fun _ => C.pure _
  refine C.ite (fun _ => ?_) fun _ => ?_
  · exact C.bind (C.rel_child _ _ _) fun alternate => C.bind (C.map (h alternate none)) hrest
  · cases tree.children[2]? with
    | none => exact C.bind (C.pure _) hrest
    | some alternate => exact C.bind (C.map (h alternate none)) hrest

/-! All constructions. -/

theorem rel_construct :
    C.Rel (construct build tree label) (construct build' tree label) := by
  obtain ⟨c, hc, hconstruct⟩ := exists_constructs tree.kind
  rw [hconstruct rfl, hconstruct rfl]
  cases hc with
  | grouping => exact C.rel_built h 0 .expression label
  | labelled => exact C.rel_labelled h
  | block => exact C.map (C.rel_block h)
  | var => exact C.rel_var h
  | sequence => exact C.bind (C.rel_all h _) fun _ => C.pure _
  | object => exact C.bind (C.rel_enterAll h _ _) fun _ => C.pure _
  | array => exact C.bind (C.rel_elements h _) fun _ => C.pure _
  | function => exact C.rel_function h
  | call => exact C.rel_call h
  | new => exact C.bind (C.rel_child _ _ _) fun operand => C.bind (h operand none) fun _ => C.pure _
  | access => exact C.rel_access h
  | conditional => exact C.rel_conditional h
  | switch => exact C.rel_switch h
  | tryStatement => exact C.rel_tryStatement h
  | whileLoop => exact C.rel_whileLoop h
  | forLoop => exact C.rel_forLoop h
  | withStatement => exact C.bind (C.rel_pair h) fun _ => C.pure _
  | jump => exact C.rel_jump h
  | leaf => exact C.rel_leaf tree
  | assignment => exact C.rel_assignment h
  | binary => exact C.rel_binary h
  | step => exact C.rel_step h
  | unary => exact C.rel_unary h
  | unsupported => exact C.rel_unsupported tree

theorem rel_visit : C.Rel (visit build tree label) (visit build' tree label) := by
  refine C.bind (C.note _) fun _ => ?_
  cases label with
  | none => exact C.rel_construct h
  | some name =>
    exact C.ite (fun _ => C.bind (C.throw _) fun _ => C.rel_construct h) fun _ => C.rel_construct h

end Correspondence
end Ecma3.Build
