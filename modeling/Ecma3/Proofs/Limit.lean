import Ecma3.Pipeline
import Ecma3.Proofs.Build.Levels
import Ecma3.Proofs.Build.Limit
import Ecma3.Proofs.Grammar.Limit
import Ecma3.Proofs.Outcome

/-! The limit on nesting from the source to the syntax tree. -/
namespace Ecma3.Pipeline
open Build Grammar

variable {m m' : Nat} {source : String}

/-- A stage that fails because the source goes deeper than the limit. -/
inductive TooDeep (limit : Nat) (source : String) : StageError → Prop
  | parsing {span : Span} (h : parse limit source = .error (.nestingTooDeep limit span)) :
    TooDeep limit source
      ⟨"Parsing", (SyntaxError.nestingTooDeep limit span).message, some span.start⟩
  | building {root : Option ParseTree} {span : Span} (hroot : parse limit source = .ok root)
    (h : (program limit root : Except BuildError (List Node)) =
      .error (.nestingTooDeep limit span)) :
    TooDeep limit source
      ⟨"Building", (BuildError.nestingTooDeep limit span).message, some span.start⟩

/-- What a source is made into, by what it is read as. -/
theorem ast_of_ok {root : Option ParseTree} (h : parse m source = .ok root) :
    ast m source = building m root := by
  simp only [ast, Stage.andThen, parsing, h]
  rfl

theorem ast_of_error {x : SyntaxError} (h : parse m source = .error x) :
    ast m source = .error ⟨"Parsing", x.message, some x.span.start⟩ := by
  simp only [ast, Stage.andThen, parsing, h]
  rfl

/-- What is built is built from the tree that the source is read as. -/
theorem ast_eq_ok {nodes : List Node} : ast m source = .ok nodes ↔
    ∃ root, parse m source = .ok root ∧
      (program m root : Except BuildError (List Node)) = .ok nodes := by
  cases hroot : parse m source with
  | error x => simp [ast_of_error hroot]
  | ok root => simp [ast_of_ok hroot, building, mapError_eq_ok]

/-- A source that is not built is one that cannot be read, or one that gives a tree which cannot be
built. -/
theorem ast_eq_error {e : StageError} : ast m source = .error e ↔
    (∃ x, parse m source = .error x ∧ e = ⟨"Parsing", x.message, some x.span.start⟩) ∨
    ∃ root x, parse m source = .ok root ∧
      (program m root : Except BuildError (List Node)) = .error x ∧
      e = ⟨"Building", x.message, some x.span.start⟩ := by
  cases hroot : parse m source with
  | error x => simp [ast_of_error hroot, eq_comm]
  | ok root => simp [ast_of_ok hroot, building, mapError_eq_error]

theorem ast_under (h : m ≤ m') (source : String) :
    ast m source = ast m' source ∨ ∃ e, TooDeep m source e ∧ ast m source = .error e := by
  rcases parse_limit h source with hsame | ⟨span, hdeep⟩
  · cases hroot : parse m' source with
    | error x =>
      rw [hroot] at hsame
      exact Or.inl (by rw [ast_of_error hroot, ast_of_error hsame])
    | ok root =>
      rw [hroot] at hsame
      rw [ast_of_ok hroot, ast_of_ok hsame]
      rcases under_program h root with hbuild | ⟨span, hdeep⟩
      · exact Or.inl (by rw [building, building, hbuild])
      · exact Or.inr ⟨_, .building hsame hdeep, by rw [building, hdeep]; rfl⟩
  · exact Or.inr ⟨_, .parsing hdeep, ast_of_error hdeep⟩

/-- A lower limit gives the same result as a higher one or fails because of the nesting. So do both
of the stages on their own, and the second one for every parse tree. -/
theorem result_under_limit (h : m ≤ m') :
    (∀ source, ast m source = ast m' source ∨
      ∃ e, TooDeep m source e ∧ ast m source = .error e) ∧
    (∀ source, parse m source = parse m' source ∨
      ∃ span, parse m source = .error (.nestingTooDeep m span)) ∧
    ∀ root, (program m root : Except BuildError (List Node)) = program m' root ∨
      ∃ span, (program m root : Except BuildError (List Node)) =
        .error (.nestingTooDeep m span) :=
  ⟨ast_under h, parse_limit h, under_program h⟩

theorem result_under_two :
    (2 ≤ 3 ∧ (ast 2 "-a").isOk = false ∧ (ast 3 "-a").isOk = true) ∧
    (∀ source, ast 2 source = ast 3 source ∨
      ∃ e, TooDeep 2 source e ∧ ast 2 source = .error e) ∧
    (∀ source, parse 2 source = parse 3 source ∨
      ∃ span, parse 2 source = .error (.nestingTooDeep 2 span)) ∧
    ∀ root, (program 2 root : Except BuildError (List Node)) = program 3 root ∨
      ∃ span, (program 2 root : Except BuildError (List Node)) =
        .error (.nestingTooDeep 2 span) :=
  ⟨by decide +kernel, result_under_limit (by decide)⟩

/-- What can be built under a limit can be parsed under it. -/
theorem parse_of_program {limit : Nat} {root : Option ParseTree} {nodes : List Node}
    (hroot : parse limit source = .ok root)
    (hnodes : (program m root : Except BuildError (List Node)) = .ok nodes) :
    parse m source = .ok root := by
  refine parse_of_levels hroot (program_levels (fun t ht => ?_) hnodes)
  cases ht
  exact parse_isRoot hroot

theorem parse_of_program_member : ∃ root nodes, parse 9 "new a.b(-c)" = .ok root ∧
    (program 4 root : Except BuildError (List Node)) = .ok nodes ∧
    parse 4 "new a.b(-c)" = .ok root := by
  have hsource : (parse 9 "new a.b(-c)").toOption.any (fun root =>
      (program 4 root : Except BuildError (List Node)).toOption.isSome) = true := by
    decide +kernel
  cases hroot : parse 9 "new a.b(-c)" with
  | error x => simp [hroot, Except.toOption] at hsource
  | ok root =>
    simp only [hroot, Except.toOption, Option.any_some] at hsource
    cases hnodes : (program 4 root : Except BuildError (List Node)) with
    | error x => simp [hnodes] at hsource
    | ok nodes => exact ⟨root, nodes, rfl, hnodes, parse_of_program hroot hnodes⟩

end Ecma3.Pipeline
