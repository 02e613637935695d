import Ecma3.Grammar.Program
import Ecma3.Proofs.Grammar.Run

/-!
The bounds of parsers. A bound only ever cuts a run short: a parser that is allowed more rounds and
more depth comes to the same outcome and to the same session, unless the lower bound was reached.
-/
namespace Ecma3.Grammar
open ParserM

variable {α β : Type} {inner inner' : Inner} {m m' : Nat}

/-- Wherever the first parser does not reach its bound, the second one does the same, errors and the
session included. -/
def ParserM.Approximates (p q : ParserM α) : Prop :=
  ∀ s, (∃ t, p s = .error .endless t) ∨ q s = p s

namespace ParserM.Approximates

variable {p p' q q' : ParserM α} {f f' : α → ParserM β} {s : Session}

theorem refl : p.Approximates p := fun _ => Or.inr rfl

theorem endless : (throw .endless : ParserM α).Approximates p := fun s => Or.inl ⟨s, rfl⟩

theorem eq (h : p.Approximates q) (hs : ∀ t, p s ≠ .error .endless t) : q s = p s :=
  (h s).resolve_left fun ⟨t, ht⟩ => hs t ht

theorem of_ok {a : α} {t : Session} (h : p.Approximates q) (hp : p s = .ok a t) :
    q s = .ok a t := by
  rw [h.eq, hp]
  simp [hp]

theorem bind (hp : p.Approximates p') (hf : ∀ a, (f a).Approximates (f' a)) :
    (p >>= f).Approximates (p' >>= f') := by
  intro s
  rcases hp s with ⟨t, ht⟩ | hsame
  · exact Or.inl ⟨t, bind_of_error ht⟩
  · cases hr : p s with
    | error x t =>
      right
      rw [bind_of_error hr, bind_of_error (hsame.trans hr)]
    | ok a t =>
      rw [bind_of_ok hr, bind_of_ok (hsame.trans hr)]
      exact hf a t

/-- A step that both take. -/
theorem step (hf : ∀ a, (f a).Approximates (f' a)) : (p >>= f).Approximates (p >>= f') :=
  refl.bind hf

theorem map {g : α → β} (h : p.Approximates p') : (g <$> p).Approximates (g <$> p') := by
  rw [map_eq_pure_bind, map_eq_pure_bind]
  exact h.bind fun _ => .refl

theorem ite {b : Prop} [Decidable b] (hp : p.Approximates p') (hq : q.Approximates q') :
    (if b then p else q).Approximates (if b then p' else q') := by
  split
  · exact hp
  · exact hq

theorem thenLeave (h : p.Approximates p') :
    (ParserM.thenLeave p).Approximates (ParserM.thenLeave p') := by
  intro s
  rcases h s with ⟨t, ht⟩ | hsame
  · exact Or.inl ⟨{ t with depth := t.depth - 1 }, by simp only [ParserM.thenLeave, ht]⟩
  · right
    simp only [ParserM.thenLeave, hsame]

theorem thenLeaveIfOk (h : p.Approximates p') :
    (ParserM.thenLeaveIfOk p).Approximates (ParserM.thenLeaveIfOk p') :=
  h.bind fun _ => .refl

theorem collect {turn turn' : ParserM (Turn α)} (hturn : turn.Approximates turn')
    (hm : m ≤ m') : (ParserM.collect turn m).Approximates (ParserM.collect turn' m') := by
  induction m generalizing m' with
  | zero => exact .endless
  | succ m ih =>
    obtain ⟨m', rfl⟩ := Nat.exists_eq_succ_of_ne_zero (Nat.ne_zero_of_lt hm)
    have hrest := ih (Nat.le_of_succ_le_succ hm)
    apply hturn.bind
    intro found
    cases found with
    | stop => exact .refl
    | skip => exact hrest
    | last a => exact .refl
    | more a => exact hrest.bind fun _ => .refl

theorem extend {turn turn' : ParseTree → ParserM (Option ParseTree)}
    (hturn : ∀ tree, (turn tree).Approximates (turn' tree)) (hm : m ≤ m') (tree : ParseTree) :
    (ParserM.extend turn m tree).Approximates (ParserM.extend turn' m' tree) := by
  induction m generalizing m' tree with
  | zero => exact .endless
  | succ m ih =>
    obtain ⟨m', rfl⟩ := Nat.exists_eq_succ_of_ne_zero (Nat.ne_zero_of_lt hm)
    apply (hturn tree).bind
    intro next
    cases next with
    | none => exact .refl
    | some tree => exact ih (Nat.le_of_succ_le_succ hm) tree

end ParserM.Approximates

/-- What follows after the first of the elements that are separated by commas. -/
def ParserM.commaTurn (element : ParserM ParseTree) : ParserM (Turn ParseTree) := do
  if ← acceptMark .comma then return .more (← element) else return .stop

theorem Inner.commaSeparated_eq (inner : Inner) (element : ParserM ParseTree) :
    inner.commaSeparated element = (do
      let first ← element
      let others ← collect (commaTurn element) inner.bound
      return (first, others)) := rfl

/-- The second parsers for what stands inside a construct have at least the bounds of the first. -/
structure Inner.Within (inner inner' : Inner) : Prop where
  bound_le : inner.bound ≤ inner'.bound
  parse : ∀ goal, (inner.parse goal).Approximates (inner'.parse goal)

namespace Inner

theorem commaSeparated_within {element element' : ParserM ParseTree}
    (hbound : inner.bound ≤ inner'.bound) (h : element.Approximates element') :
    (inner.commaSeparated element).Approximates (inner'.commaSeparated element') := by
  have hturn : (commaTurn element).Approximates (commaTurn element') :=
    .step fun passed => .ite (h.bind fun _ => .refl) .refl
  rw [commaSeparated_eq, commaSeparated_eq]
  exact h.bind fun first => (hturn.collect hbound).bind fun _ => .refl

theorem argumentList_within {element element' : ParserM ParseTree}
    (hbound : inner.bound ≤ inner'.bound) (h : element.Approximates element') :
    (inner.argumentList element).Approximates (inner'.argumentList element') := by
  apply Approximates.step
  intro opening
  apply Approximates.step
  intro closed
  exact .ite .refl ((commaSeparated_within hbound h).bind fun _ => .refl)

theorem expressionOf_within {operand operand' : ParserM ParseTree}
    (hbound : inner.bound ≤ inner'.bound) (h : operand.Approximates operand') :
    (inner.expressionOf operand).Approximates (inner'.expressionOf operand') :=
  (commaSeparated_within hbound h).bind fun _ => .refl

variable (h : inner.Within inner')
include h

theorem statements_within (ends : Token → Bool) :
    (inner.statements ends).Approximates (inner'.statements ends) := by
  apply Approximates.collect _ h.bound_le
  apply Approximates.step
  intro t
  split
  · exact .refl
  · apply Approximates.ite .refl
    exact .step fun passed => .ite .refl ((h.parse .statement).bind fun _ => .refl)

theorem block_within : inner.block.Approximates inner'.block :=
  .step fun _ => (statements_within h endsStatements).bind fun _ => .refl

theorem function_within (needsName : Bool) :
    (inner.function needsName).Approximates (inner'.function needsName) := by
  apply Approximates.step
  intro opening
  apply Approximates.step
  intro named
  extract_lets rest rest'
  have hrest : ∀ name, (rest name).Approximates (rest' name) := by
    intro name
    apply (argumentList_within h.bound_le .refl).bind
    intro parameters
    exact (block_within h).bind fun _ => .refl
  apply Approximates.ite
  · exact .step fun name => hrest [name]
  · exact .ite (.step hrest) (hrest [])

theorem expression_within (allowIn : Bool) :
    (inner.expression allowIn).Approximates (inner'.expression allowIn) :=
  expressionOf_within h.bound_le (h.parse (.assignment allowIn))

theorem arrayItem_within : inner.arrayItem.Approximates inner'.arrayItem := by
  apply Approximates.step
  intro t
  split
  · exact .refl
  · exact .refl
  · exact (h.parse (.assignment true)).bind fun _ => .refl

theorem array_within : inner.array.Approximates inner'.array := by
  apply Approximates.step
  intro opening
  exact ((arrayItem_within h).collect h.bound_le).bind fun _ => .refl

theorem property_within : inner.property.Approximates inner'.property := by
  apply Approximates.step
  intro closed
  apply Approximates.ite .refl
  apply Approximates.step
  intro name
  exact .step fun _ => (h.parse (.assignment true)).bind fun _ => .refl

theorem object_within : inner.object.Approximates inner'.object := by
  apply Approximates.step
  intro opening
  exact ((property_within h).collect h.bound_le).bind fun _ => .refl

theorem primary_within : inner.primary.Approximates inner'.primary := by
  apply Approximates.step
  intro t
  split
  · exact .refl
  · split
    · exact .refl
    · split
      · exact .refl
      · exact .refl
      · exact array_within h
      · exact object_within h
      · exact .step fun _ => (expression_within h true).bind fun _ => .refl
      · exact function_within h false
      · exact .refl

theorem memberBase_within : inner.memberBase.Approximates inner'.memberBase := by
  apply Approximates.step
  intro new
  apply Approximates.ite _ (primary_within h)
  apply Approximates.step
  intro place
  apply Approximates.step
  intro _
  exact .step fun _ => (h.parse .memberBase).thenLeaveIfOk.bind fun _ => .refl

theorem suffix_within (object : ParseTree) :
    (inner.suffix object).Approximates (inner'.suffix object) := by
  apply Approximates.step
  intro t
  split
  · exact .refl
  · exact .step fun _ => (expression_within h true).bind fun _ => .refl
  · exact (argumentList_within h.bound_le (h.parse (.assignment true))).bind fun _ => .refl
  · exact .refl

theorem unary_within : inner.unary.Approximates inner'.unary := by
  apply Approximates.step
  intro t
  split
  · apply Approximates.bind
    · exact (memberBase_within h).bind fun base => .extend (suffix_within h) h.bound_le base
    · exact fun operand => .refl
  · apply Approximates.step
    intro place
    apply Approximates.step
    intro operator
    apply Approximates.step
    intro _
    exact .step fun _ => (h.parse .unary).thenLeaveIfOk.bind fun _ => .refl

theorem binaryStep_within (allowIn : Bool) (least : Nat) (left : ParseTree) :
    (inner.binaryStep allowIn least left).Approximates (inner'.binaryStep allowIn least left) := by
  apply Approximates.step
  intro t
  split
  · exact .refl
  · apply Approximates.ite .refl
    apply Approximates.step
    intro operator
    apply Approximates.step
    intro _
    exact .step fun _ => (h.parse _).thenLeaveIfOk.bind fun _ => .refl

theorem binary_within (allowIn : Bool) (least : Nat) :
    (inner.binary allowIn least).Approximates (inner'.binary allowIn least) :=
  (unary_within h).bind fun first => .extend (binaryStep_within h allowIn least) h.bound_le first

theorem assignment_within (allowIn : Bool) :
    (inner.assignment allowIn).Approximates (inner'.assignment allowIn) := by
  have hconditional : (inner.conditional allowIn).Approximates (inner'.conditional allowIn) := by
    apply (binary_within h allowIn 0).bind
    intro test
    apply Approximates.step
    intro passed
    apply Approximates.ite _ .refl
    apply (h.parse (.assignment true)).bind
    intro consequent
    exact .step fun _ => (h.parse (.assignment allowIn)).bind fun _ => .refl
  apply Approximates.step
  intro _
  apply Approximates.thenLeave
  apply hconditional.bind
  intro target
  apply Approximates.step
  intro t
  split
  · exact .refl
  · apply Approximates.step
    intro operator
    exact .step fun _ => (h.parse (.assignment allowIn)).bind fun _ => .refl

theorem condition_within : inner.condition.Approximates inner'.condition :=
  .step fun _ => (expression_within h true).bind fun _ => .refl

theorem declarator_within (allowIn : Bool) :
    (inner.declarator allowIn).Approximates (inner'.declarator allowIn) := by
  apply Approximates.step
  intro name
  apply Approximates.step
  intro assigned
  apply Approximates.ite _ .refl
  exact .step fun _ => .step fun _ => (h.parse (.assignment allowIn)).bind fun _ => .refl

theorem declarations_within (allowIn : Bool) :
    (inner.declarations allowIn).Approximates (inner'.declarations allowIn) := by
  apply Approximates.step
  intro opening
  exact (commaSeparated_within h.bound_le (declarator_within h allowIn)).bind fun _ => .refl

theorem ifStatement_within : inner.ifStatement.Approximates inner'.ifStatement := by
  apply Approximates.step
  intro opening
  apply (condition_within h).bind
  intro test
  apply (h.parse .statement).bind
  intro consequent
  apply Approximates.step
  intro passed
  exact .ite ((h.parse .statement).bind fun _ => .refl) .refl

theorem doStatement_within : inner.doStatement.Approximates inner'.doStatement := by
  apply Approximates.step
  intro opening
  apply (h.parse .statement).bind
  intro body
  exact .step fun _ => (condition_within h).bind fun _ => .refl

/-- The bodies of `while` and `with` stand behind a condition. -/
theorem conditioned_within {f : ParseTree → ParseTree → ParserM ParseTree} :
    (inner.condition >>= fun test => inner.parse .statement >>= f test).Approximates
      (inner'.condition >>= fun test => inner'.parse .statement >>= f test) :=
  (condition_within h).bind fun _ => (h.parse .statement).bind fun _ => .refl

theorem clauseBefore_within (last : Punctuator) :
    (inner.clauseBefore last).Approximates (inner'.clauseBefore last) :=
  .step fun _ => .ite .refl ((expression_within h true).bind fun _ => .refl)

theorem stepHead_within (start : Nat) (init : Option ParseTree) :
    (inner.stepHead start init).Approximates (inner'.stepHead start init) := by
  unfold stepHead
  extract_lets rest rest'
  have hrest : ∀ init, (rest init).Approximates (rest' init) := by
    intro init
    apply Approximates.step
    intro _
    apply (clauseBefore_within h .semicolon).bind
    intro test
    exact .step fun _ => (clauseBefore_within h .rightParen).bind fun _ => .refl
  cases init with
  | none => exact .step hrest
  | some init => exact hrest _

theorem inHead_within (start : Nat) (target : ParseTree) :
    (inner.inHead start target).Approximates (inner'.inHead start target) := by
  unfold inHead
  apply Approximates.ite .refl
  exact .step fun _ => (expression_within h true).bind fun _ => .refl

theorem forHead_within : inner.forHead.Approximates inner'.forHead := by
  apply Approximates.step
  intro place
  apply Approximates.step
  intro t
  extract_lets rest rest'
  have hrest : ∀ first, (rest first).Approximates (rest' first) := by
    intro first
    cases first with
    | none => exact stepHead_within h place.start none
    | some target =>
      apply Approximates.step
      intro isIn
      exact .ite (inHead_within h place.start target) (stepHead_within h place.start target)
  split
  · exact hrest none
  · exact (declarations_within h false).map.bind hrest
  · exact (expression_within h false).map.bind hrest

theorem forStatement_within : inner.forStatement.Approximates inner'.forStatement := by
  apply Approximates.step
  intro opening
  apply Approximates.step
  intro _
  apply (forHead_within h).bind
  intro head
  exact .step fun _ => (h.parse .statement).bind fun _ => .refl

theorem returnStatement_within : inner.returnStatement.Approximates inner'.returnStatement := by
  apply Approximates.step
  intro opening
  apply Approximates.step
  intro s
  exact .ite .refl ((expression_within h true).bind fun _ => .refl)

theorem throwStatement_within : inner.throwStatement.Approximates inner'.throwStatement := by
  apply Approximates.step
  intro opening
  apply Approximates.step
  intro broken
  exact .ite .refl ((expression_within h true).bind fun _ => .refl)

theorem caseClause_within : inner.caseClause.Approximates inner'.caseClause := by
  apply Approximates.step
  intro opening
  apply (expression_within h true).bind
  intro test
  exact .step fun _ => (statements_within h endsStatements).bind fun _ => .refl

theorem defaultClause_within : inner.defaultClause.Approximates inner'.defaultClause :=
  .step fun _ => .step fun _ => (statements_within h endsStatements).bind fun _ => .refl

theorem clauses_within (hasDefault : Bool) (hm : m ≤ m') :
    (inner.clauses hasDefault m).Approximates (inner'.clauses hasDefault m') := by
  induction m generalizing m' hasDefault with
  | zero => exact .endless
  | succ m ih =>
    obtain ⟨m', rfl⟩ := Nat.exists_eq_succ_of_ne_zero (Nat.ne_zero_of_lt hm)
    have hrest := fun hasDefault => ih hasDefault (Nat.le_of_succ_le_succ hm)
    apply Approximates.step
    intro t
    split
    · exact (caseClause_within h).bind fun _ => (hrest hasDefault).bind fun _ => .refl
    · apply Approximates.ite .refl
      exact (defaultClause_within h).bind fun _ => (hrest true).bind fun _ => .refl
    · exact .refl

theorem switchStatement_within : inner.switchStatement.Approximates inner'.switchStatement := by
  apply Approximates.step
  intro opening
  apply (condition_within h).bind
  intro discriminant
  exact .step fun _ => (clauses_within h false h.bound_le).bind fun _ => .refl

theorem tryStatement_within : inner.tryStatement.Approximates inner'.tryStatement := by
  apply Approximates.step
  intro opening
  apply (block_within h).bind
  intro body
  apply Approximates.step
  intro caught
  extract_lets rest rest'
  have hcatch : inner.catchClause.Approximates inner'.catchClause := by
    apply Approximates.step
    intro opening
    apply Approximates.step
    intro _
    apply Approximates.step
    intro binding
    exact .step fun _ => (block_within h).bind fun _ => .refl
  have hfinally : inner.finallyClause.Approximates inner'.finallyClause :=
    .step fun _ => (block_within h).bind fun _ => .refl
  have hrest : ∀ handler, (rest handler).Approximates (rest' handler) := by
    intro handler
    exact .step fun _ => .ite (hfinally.bind fun _ => .refl) .refl
  exact .ite (hcatch.bind fun handler => hrest [handler]) (hrest [])

theorem expressionStatement_within :
    inner.expressionStatement.Approximates inner'.expressionStatement := by
  apply (expressionOf_within h.bound_le (assignment_within h true)).bind
  intro expression
  apply Approximates.step
  intro colon
  exact .ite (.step fun _ => (h.parse .statement).bind fun _ => .refl) .refl

theorem longStatement_within (t : Option Token) :
    (inner.longStatement t).Approximates (inner'.longStatement t) := by
  unfold longStatement
  split
  · exact block_within h
  · exact (declarations_within h true).bind fun _ => .refl
  · exact ifStatement_within h
  · exact doStatement_within h
  · exact .step fun _ => conditioned_within h
  · exact forStatement_within h
  · exact .refl
  · exact .refl
  · exact returnStatement_within h
  · exact .step fun _ => conditioned_within h
  · exact switchStatement_within h
  · exact throwStatement_within h
  · exact tryStatement_within h
  · exact function_within h true
  · exact expressionStatement_within h

theorem statement_within : inner.statement.Approximates inner'.statement := by
  apply Approximates.step
  intro _
  apply Approximates.step
  intro t
  split
  · exact .refl
  · exact .refl
  · exact (longStatement_within h t).thenLeave

theorem production_within (goal : Goal) :
    (inner.production goal).Approximates (inner'.production goal) := by
  cases goal with
  | statement => exact statement_within h
  | assignment allowIn => exact assignment_within h allowIn
  | binary allowIn least => exact binary_within h allowIn least
  | unary => exact unary_within h
  | memberBase => exact memberBase_within h

theorem program_within : inner.program.Approximates inner'.program :=
  (statements_within h _).bind fun _ => .refl

end Inner

/-- A goal that is parsed within a bound is parsed the same within a greater one. The induction is on
the lower bound, which goes down by one with each construct that is entered. -/
theorem parseWithin_approximates (hm : m ≤ m') (goal : Goal) :
    (parseWithin m goal).Approximates (parseWithin m' goal) := by
  induction m generalizing m' goal with
  | zero => exact .endless
  | succ m ih =>
    obtain ⟨m', rfl⟩ := Nat.exists_eq_succ_of_ne_zero (Nat.ne_zero_of_lt hm)
    exact Inner.production_within ⟨hm, ih (Nat.le_of_succ_le_succ hm)⟩ goal

theorem Inner.within_of_le {b b' : Nat} (hb : b ≤ b') (hm : m ≤ m') :
    Inner.Within ⟨b, parseWithin m⟩ ⟨b', parseWithin m'⟩ :=
  ⟨hb, parseWithin_approximates hm⟩

end Ecma3.Grammar
