import Ecma3.Proofs.Grammar.Comparison.Program
import Ecma3.Proofs.Grammar.Progress
import Ecma3.Proofs.Grammar.Rescan

/-!
Parsing comes to an end, whatever session it begins with. Each round of a repetition passes a token,
so there are never more rounds than tokens, and the bounds of parsers are never reached.
-/
namespace Ecma3.Grammar
open ParserM ParseTree

variable {α β : Type} {inner : Inner} {s t : Session} {k m n b bound : Nat}

/-- Either so many tokens can still be passed, or so many rounds are as good as any more. -/
def Session.Enough (s : Session) (p : Nat → ParserM α) (rounds : Nat) : Prop :=
  (∃ n t, rounds ≤ n ∧ s.Passes n t) ∨ ∀ more, rounds ≤ more → p more s = p rounds s

section Enough

variable {rounds : Nat} {p : Nat → ParserM α} {q : Nat → ParserM β}

theorem Session.Enough.zero : s.Enough p 0 := Or.inl ⟨0, s, Nat.le_refl 0, .refl⟩

/-- The first round is the last one. -/
theorem Session.Enough.stop (h : ∀ more, p (more + 1) s = p (rounds + 1) s) :
    s.Enough p (rounds + 1) := by
  right
  intro more hmore
  obtain ⟨more, rfl⟩ := Nat.exists_eq_succ_of_ne_zero (Nat.ne_zero_of_lt hmore)
  exact h more

/-- The first round passes a token and leads to others, for which one round less is allowed. -/
theorem Session.Enough.next (hst : s.Precedes t) (h : t.Enough q rounds)
    (hsame : ∀ more, q more t = q rounds t → p (more + 1) s = p (rounds + 1) s) :
    s.Enough p (rounds + 1) := by
  rcases h with ⟨n, u, hn, htu⟩ | henough
  · obtain ⟨m, hm, hst⟩ := hst
    exact Or.inl ⟨m + n, u, by omega, hst.trans htu⟩
  · right
    intro more hmore
    obtain ⟨more, rfl⟩ := Nat.exists_eq_succ_of_ne_zero (Nat.ne_zero_of_lt hmore)
    exact hsame more (henough more (Nat.le_of_succ_le_succ hmore))

theorem Session.Enough.map (g : α → β) (h : s.Enough p rounds) :
    s.Enough (fun n => g <$> p n) rounds :=
  h.imp_right fun henough more hmore => map_congr (henough more hmore)

theorem bind_congr_left {p q : ParserM α} {f : α → ParserM β} (h : p s = q s) :
    (p >>= f) s = (q >>= f) s := by
  simp only [bind, EStateM.bind, h]

/-- The induction is on the rounds that are allowed: one that goes on passes a token, and leaves one
round less to the rest. -/
theorem enough_collect {turn : ParserM (Turn α)} (h : turn.MovesIf Turn.Takes) (rounds : Nat)
    (s : Session) : s.Enough (collect turn) rounds := by
  induction rounds generalizing s with
  | zero => exact .zero
  | succ rounds ih =>
    cases hturn : turn s with
    | error x t => exact .stop fun more => by simp only [collect, bind_of_error hturn]
    | ok found t =>
      have hmoves := (h s).ok hturn
      cases found with
      | stop => exact .stop fun more => by simp only [collect, bind_of_ok hturn]
      | last a => exact .stop fun more => by simp only [collect, bind_of_ok hturn]
      | skip =>
        refine .next (hmoves (by simp [Turn.Takes])) (ih t) fun more hsame => ?_
        simp only [collect, bind_of_ok hturn]
        exact hsame
      | more a =>
        refine .next (hmoves (by simp [Turn.Takes])) (ih t) fun more hsame => ?_
        simp only [collect, bind_of_ok hturn]
        exact bind_congr_left hsame

theorem enough_extend {turn : ParseTree → ParserM (Option ParseTree)}
    (h : ∀ tree, (turn tree).MovesIf (Option.isSome · = true)) (rounds : Nat) (s : Session)
    (tree : ParseTree) : s.Enough (extend turn · tree) rounds := by
  induction rounds generalizing s tree with
  | zero => exact .zero
  | succ rounds ih =>
    cases hturn : turn tree s with
    | error x t => exact .stop fun more => by simp only [extend, bind_of_error hturn]
    | ok next t =>
      have hmoves := (h tree s).ok hturn
      cases next with
      | none => exact .stop fun more => by simp only [extend, bind_of_ok hturn]
      | some next =>
        refine .next (hmoves rfl) (ih t next) fun more hsame => ?_
        simp only [extend, bind_of_ok hturn]
        exact hsame

theorem token?_bind {f : Option Token → ParserM α} : (token? >>= f) s = f s.token? s := rfl

end Enough

namespace Inner

theorem enough_clauses (hcase : inner.caseClause.Moves) (hdefault : inner.defaultClause.Moves)
    (rounds : Nat) (s : Session) (hasDefault : Bool) :
    s.Enough (inner.clauses hasDefault) rounds := by
  induction rounds generalizing s hasDefault with
  | zero => exact .zero
  | succ rounds ih =>
    have hclause : ∀ {clause : ParserM ParseTree} (hasDefault' : Bool), clause.Moves →
        (∀ n, inner.clauses hasDefault (n + 1) s = (clause >>= fun first =>
          inner.clauses hasDefault' n >>= fun others => pure (first :: others)) s) →
        s.Enough (inner.clauses hasDefault) (rounds + 1) := by
      intro clause hasDefault' hmoves hround
      cases hclause : clause s with
      | error x t => exact .stop fun more => by simp only [hround, bind_of_error hclause]
      | ok first t =>
        refine .next ((hmoves s).ok hclause) (ih t hasDefault') fun more hsame => ?_
        simp only [hround, bind_of_ok hclause]
        exact bind_congr_left hsame
    -- The first token tells which clause follows, if any does.
    by_cases hcaseToken : s.token? = some (.reserved .«case»)
    · exact hclause hasDefault hcase fun n => by simp only [clauses, token?_bind, hcaseToken]
    · by_cases hdefaultToken : s.token? = some (.reserved .«default»)
      · cases hasDefault with
        | true =>
          refine .stop fun more => ?_
          simp only [clauses, token?_bind, hdefaultToken]
          rfl
        | false =>
          refine hclause true hdefault fun n => ?_
          simp only [clauses, token?_bind, hdefaultToken, Bool.false_eq_true, if_false]
      · exact .stop fun more => by simp only [clauses, token?_bind]

end Inner

/-- A repetition of a production. -/
structure Repetition where
  /-- The repetition, if it is allowed so many rounds. -/
  parse : Nat → ParserM (List ParseTree)
  /-- One round, which leads from one session to another. -/
  Round : Session → Session → Prop

namespace Repetition

/-- Turns, as long as they find something. -/
def ofTurn (turn : ParserM (Turn ParseTree)) : Repetition where
  parse := collect turn
  Round s t := ∃ found, turn s = .ok found t ∧ found.Takes

/-- What extends a tree, as long as there is more. -/
def ofStep (step : ParseTree → ParserM (Option ParseTree)) (tree : ParseTree) : Repetition where
  parse rounds := List.singleton <$> extend step rounds tree
  Round s t := ∃ next, step tree s = .ok (some next) t

/-- From a session on, each round passes a token, and there are no more rounds than tokens. -/
structure Bounded (r : Repetition) (s : Session) : Prop where
  round : ∀ t, r.Round s t → s.Precedes t
  enough : ∀ rounds, s.Enough r.parse rounds

theorem bounded_ofTurn {turn : ParserM (Turn ParseTree)} (h : turn.MovesIf Turn.Takes)
    (s : Session) : (ofTurn turn).Bounded s where
  round := by
    rintro t ⟨found, hfound, htakes⟩
    exact (h s).ok hfound htakes
  enough rounds := enough_collect h rounds s

theorem bounded_ofStep {step : ParseTree → ParserM (Option ParseTree)}
    (h : ∀ tree, (step tree).MovesIf (Option.isSome · = true)) (s : Session) (tree : ParseTree) :
    (ofStep step tree).Bounded s where
  round := by
    rintro t ⟨next, hnext⟩
    exact (h tree s).ok hnext rfl
  enough rounds := (enough_extend h rounds s tree).map List.singleton

end Repetition

/-- The repetitions of the grammar. -/
inductive Loop where
  /-- Statements up to a token that ends them. -/
  | statements (ends : Token → Bool)
  /-- The clauses of a `switch`. -/
  | clauses (hasDefault : Bool)
  /-- Operands and arguments behind the first one. -/
  | operands (allowIn : Bool)
  /-- Operands behind the first one of an expression that is a statement. -/
  | outerOperands
  /-- Declarators behind the first one. -/
  | declarators (allowIn : Bool)
  /-- Parameters behind the first one. -/
  | parameters
  /-- Elements of an array. -/
  | items
  /-- Properties of an object. -/
  | properties
  /-- Member accesses, indices and calls. -/
  | suffixes (object : ParseTree)
  /-- Binary operators that bind at least this tightly. -/
  | operators (allowIn : Bool) (least : Nat) (left : ParseTree)

namespace Inner

def repetition (inner : Inner) : Loop → Repetition
  | .statements ends => .ofTurn (inner.statementTurn ends)
  | .clauses hasDefault => {
      parse := inner.clauses hasDefault
      Round := fun s t =>
        ∃ clause, inner.caseClause s = .ok clause t ∨ inner.defaultClause s = .ok clause t }
  | .operands allowIn => .ofTurn (commaTurn (inner.parse (.assignment allowIn)))
  | .outerOperands => .ofTurn (commaTurn (inner.assignment true))
  | .declarators allowIn => .ofTurn (commaTurn (inner.declarator allowIn))
  | .parameters => .ofTurn (commaTurn identifier)
  | .items => .ofTurn inner.arrayItem
  | .properties => .ofTurn inner.property
  | .suffixes object => .ofStep inner.suffix object
  | .operators allowIn least left => .ofStep (inner.binaryStep allowIn least) left

theorem repetition_bounded (loop : Loop) (s : Session) :
    (repetition ⟨b, parseWithin m⟩ loop).Bounded s := by
  have hinner : Inner.Moves ⟨b, parseWithin m⟩ := parseWithin_moves m
  cases loop with
  | statements ends => exact Repetition.bounded_ofTurn (statementTurn_moves hinner ends) s
  | clauses hasDefault =>
    refine ⟨?_, fun rounds => ?_⟩
    · rintro t ⟨clause, hcase | hdefault⟩
      · exact (caseClause_moves s).ok hcase
      · exact (defaultClause_moves s).ok hdefault
    · exact enough_clauses caseClause_moves defaultClause_moves rounds s hasDefault
  | operands allowIn => exact Repetition.bounded_ofTurn (hinner (.assignment allowIn)).commaTurn s
  | outerOperands => exact Repetition.bounded_ofTurn outerAssignment_moves.commaTurn s
  | declarators allowIn => exact Repetition.bounded_ofTurn (declarator_moves allowIn).commaTurn s
  | parameters => exact Repetition.bounded_ofTurn identifier_moves.commaTurn s
  | items => exact Repetition.bounded_ofTurn (arrayItem_moves hinner) s
  | properties => exact Repetition.bounded_ofTurn (property_moves hinner) s
  | suffixes object => exact Repetition.bounded_ofStep suffix_moves s object
  | operators allowIn least left =>
    exact Repetition.bounded_ofStep (binaryStep_moves allowIn least) s left

end Inner

theorem Inner.program_of_none (inner : Inner) (hbound : inner.bound = n + 1)
    (h : s.current = none) : inner.program s = .ok none s := by
  have htoken : s.token? = none := by simp [Session.token?, h]
  have hturn : inner.statementTurn (fun _ => false) s = .ok .stop s := by
    simp only [statementTurn, token?_bind, htoken]
    rfl
  have hstatements : inner.statements (fun _ => false) s = .ok [] s := by
    rw [statements_eq, hbound, collect, bind_of_ok hturn]
    rfl
  rw [Inner.program, bind_of_ok hstatements]
  rfl

/-- At the end of the text a call finds nothing and changes nothing. -/
theorem program_of_none (h : s.current = none) : s.program = (.ok none, s) := by
  have hcall : ParserM.program s = .ok none s :=
    Inner.program_of_none ⟨_, parseWithin (s.cursor.rest.length + 2)⟩ rfl h
  rw [Session.program, hcall]

/-- A call that succeeds has come to the end of the text, and so do all calls after it. -/
theorem after_current {root : Option ParseTree} (hroot : (s.after n).program.1 = .ok root)
    (hk : n < k) : (s.after k).current = none := by
  induction hk with
  | refl =>
    have hend := leads_program_end (s.after n)
    unfold Leads at hend
    split at hend
    · rename_i hok
      simpa [Session.after, Session.program, hok] using hend
    · rename_i herror
      simp [Session.program, herror] at hroot
  | step _ ih =>
    have hcall := program_of_none ih
    simpa [Session.after, hcall] using ih

/-- A call gives the same with any bound that is great enough. -/
theorem program_eq_of_le (hbound : s.cursor.rest.length + 2 ≤ bound) :
    Inner.program ⟨bound, parseWithin bound⟩ s = ParserM.program s := by
  have hwithin := Inner.program_within (Inner.within_of_le hbound hbound)
  exact hwithin.eq fun t => program_ne_endless

theorem exists_of_run' {p : ParserM α} {a : α} (h : p.run' s = some a) : ∃ t, p s = .ok a t := by
  unfold EStateM.run' at h
  split at h
  · cases h
    exact ⟨_, ‹_›⟩
  · cases h

/-- Parsing ends and goes forward, whatever session it begins with: calls before it may have failed.
No call is cut short by its bound, and no greater bound changes what it does. Statements,
assignments and all other goals take a token at least. So does each round of a repetition, and no
repetition has more rounds than there are tokens that can still be passed, which are finitely many.
Behind a call that succeeds, later ones find nothing. -/
theorem program_ends (s : Session) :
    (∀ t, ParserM.program s ≠ .error .endless t) ∧
    (∀ bound, s.cursor.rest.length + 2 ≤ bound →
      Inner.program ⟨bound, parseWithin bound⟩ s = ParserM.program s) ∧
    (∀ m goal tree t, parseWithin m goal s = .ok tree t → s.Precedes t) ∧
    (∀ b m loop, (Inner.repetition ⟨b, parseWithin m⟩ loop).Bounded s) ∧
    (∀ n t, s.Passes n t → n + t.left ≤ s.left) ∧
    ∀ n root, (s.after n).program.1 = .ok root →
      ∀ k, n < k → (s.after k).program.1 = .ok none := by
  refine ⟨fun t => program_ne_endless, fun bound => program_eq_of_le, ?_, ?_, ?_, ?_⟩
  · intro m goal tree t htree
    exact (parseWithin_moves m goal s).ok htree
  · exact fun b m loop => Inner.repetition_bounded loop s
  · exact fun n t hpasses => hpasses.left
  · intro n root hroot k hk
    rw [program_of_none (after_current hroot hk)]

/-- The first call fails in front of `c`, the second one takes it, and the third one finds nothing. -/
theorem program_ends_resumed : ∃ s, Session.start 4 "a; b c" = .ok s ∧
    Inner.program ⟨9, parseWithin 9⟩ s = ParserM.program s ∧
    (∃ tree t, parseWithin 9 .statement s = .ok tree t ∧ s.Precedes t) ∧
    (∃ t, (Inner.repetition ⟨9, parseWithin 9⟩ (.statements fun _ => false)).Round s t ∧
      s.Precedes t) ∧
    (∃ n t, s.Passes n t ∧ 0 < n ∧ n + t.left ≤ s.left) ∧
    (∃ x, (s.after 0).program.1 = .error x) ∧
    (∃ tree, (s.after 1).program.1 = .ok (some tree)) ∧ (s.after 2).program.1 = .ok none := by
  have hcalls : (Session.start 4 "a; b c").toOption.map (fun s =>
      (s.cursor.rest.length, ((parseWithin 9 .statement).run' s).isSome,
      ((Inner.statementTurn ⟨9, parseWithin 9⟩ fun _ => false).run' s).map (·.trees.length),
      (s.after 0).program.1.toOption.isNone,
      (s.after 1).program.1.toOption.map (·.isSome))) =
        some (5, true, some 1, true, some true) := by decide +kernel
  cases hstart : Session.start 4 "a; b c" with
  | error x => simp [hstart, Except.toOption] at hcalls
  | ok s =>
    simp only [hstart, Except.toOption, Option.map_some, Option.some.injEq, Prod.mk.injEq,
      Option.map_eq_some_iff] at hcalls
    obtain ⟨hrest, hstatement, ⟨found, hturn, hfound⟩, hfirst, hsecond⟩ := hcalls
    obtain ⟨-, hbound, hgoal, hloop, hleft, hlater⟩ := program_ends s
    obtain ⟨tree, hrun⟩ := Option.isSome_iff_exists.1 hstatement
    obtain ⟨t, htree⟩ := exists_of_run' hrun
    obtain ⟨n, hn, hpasses⟩ := hgoal 9 .statement tree t htree
    obtain ⟨u, hu⟩ := exists_of_run' hturn
    have hround : ∃ found, Inner.statementTurn ⟨9, parseWithin 9⟩ (fun _ => false) s =
        .ok found u ∧ found.Takes := by
      refine ⟨found, hu, ?_⟩
      rintro rfl
      cases hfound
    refine ⟨s, rfl, hbound 9 (by omega), ⟨tree, t, htree, n, hn, hpasses⟩, ?_, ?_, ?_, ?_⟩
    · exact ⟨u, hround, (hloop 9 9 (.statements fun _ => false)).round u hround⟩
    · exact ⟨n, t, hpasses, hn, hleft n t hpasses⟩
    · split at hfirst
      · cases hfirst
      · exact ⟨_, ‹_›⟩
    · obtain ⟨root, hroot, hsome⟩ := hsecond
      split at hroot
      · cases hroot
        obtain ⟨tree, rfl⟩ := Option.isSome_iff_exists.1 hsome
        exact ⟨⟨tree, ‹_›⟩, hlater 1 _ ‹_› 2 (by omega)⟩
      · cases hroot

end Ecma3.Grammar
