import Ecma3.Proofs.Build.Expression
import Ecma3.Proofs.Build.Statement
import Ecma3.Proofs.Grammar.Program

/-! Building a tree that comes from a source stops at the first error of the tree, and trees that
come from a source fit the builder. -/
namespace Ecma3

namespace ParseTree

variable {t : ParseTree} {label : Option String}

/-- What is not a leaf has the errors inside it. -/
theorem errors_inside (hatom : t.kind.isAtom = false) :
    t.fault?.toList ++ t.errorsInside label = t.errorsInside label := by
  rw [fault?_eq_none hatom]
  rfl

theorem admissible_of_fault? {e : Build.BuildError} (h : t.fault? = some e) : e.Admissible := by
  cases hk : t.kind <;> simp only [fault?, hk] at h
  case debugger =>
    cases h
    rfl
  case decimalLiteral | hexLiteral =>
    split at h <;> cases h
    rfl
  all_goals cases h

theorem admissible_of_mem_errors {e : Build.BuildError} (h : e ∈ t.errors label) :
    e.Admissible := by
  obtain ⟨⟨label, u⟩, -, h⟩ := List.mem_filterMap.1 h
  cases label with
  | none => exact admissible_of_fault? h
  | some name =>
    dsimp only [errorWith?] at h
    split at h
    · exact admissible_of_fault? h
    · cases h; trivial

end ParseTree

namespace Build

open ParseTree

variable {build : ParseTree → Option String → Except BuildError Node} {tree : ParseTree}
  {label : Option String} {limit : Nat}

/-- An expression statement and a parenthesis hold an expression. -/
theorem content_of_brackets (hwell : tree.WellFormed)
    (hk : tree.kind = .expression ∨ tree.kind = .parenthesized)
    (hkind : tree.Binds 0 ∨ tree.IsStatement) : ∃ e, tree.children = [e] ∧ Buildable e := by
  have hcontent : ∃ e, tree.children = [e] ∧ e.Binds 0 := by
    rcases hk with hk | hk
    · rcases hkind with ⟨n, hn, -⟩ | ⟨-, hcontent⟩
      · simp [hk, Kind.strength?, Grammar.precedence?] at hn
      · exact hcontent hk
    · have hshape := hwell.root
      simp only [Shape, hk] at hshape
      exact hshape
  obtain ⟨e, hchildren, he⟩ := hcontent
  exact ⟨e, hchildren, buildable_of_binds (hwell.inside e (by simp [hchildren])) he⟩

theorem stops_inside (hbuild : Inside limit build) (h : Buildable tree)
    (hatom : tree.kind.isAtom = false) :
    Stops limit (tree.errorsInside label) (construct build tree label) := by
  obtain ⟨hwell, hkind⟩ := h
  obtain ⟨c, hc, hconstruct⟩ := exists_constructs tree.kind
  rw [hconstruct rfl]
  cases hc with
  | grouping hk =>
    obtain ⟨e, hchildren, he⟩ := content_of_brackets hwell hk hkind
    exact stops_grouping hbuild hk hchildren he
  | labelled hk => exact stops_labelled hbuild hwell hk
  | block hk =>
    have hblock : Stops limit (tree.errors none) (block build tree label) :=
      stops_block hbuild hwell ⟨by rw [hk]; rfl, by simp [hk]⟩
    rw [errors_straight (by rw [hk]; rfl) hatom] at hblock
    rw [errorsInside_straight (by rw [hk]; rfl)]
    exact hblock.map
  | var hk => exact stops_var hbuild hwell hk
  | sequence hk => exact stops_sequence hbuild hwell hk
  | object hk => exact stops_object hbuild hwell hk
  | array hk => exact stops_array hbuild hwell hk
  | function hk => exact stops_function hbuild hwell hk
  | call hk => exact stops_call hbuild hwell hk
  | new hk => exact stops_new hbuild hwell hk
  | access hk => exact stops_access hbuild hwell hk
  | conditional hk =>
    rcases hk with hk | hk
    · exact stops_if hbuild hwell hk
    · exact stops_ternary hbuild hwell hk
  | switch hk => exact stops_switch hbuild hwell hk
  | tryStatement hk => exact stops_tryStatement hbuild hwell hk
  | whileLoop hk => exact stops_whileLoop hbuild hwell hk
  | forLoop hk => exact stops_forLoop hbuild hwell hk
  | withStatement hk => exact stops_withStatement hbuild hwell hk
  | jump hk => exact stops_jump hbuild hwell hk
  | leaf hk => simp [hk] at hatom
  | assignment hk => exact stops_assignment hbuild hwell hk
  | binary hk => exact stops_binary hbuild hwell hk
  | step hk => exact stops_step hbuild hwell (strength?_of_step hk)
  | unary hk => exact stops_unary hbuild hwell (.inl (strength?_of_unary hk))
  | unsupported hk =>
    rcases hk with hk | ⟨hstrength, hstatement⟩
    · simp [hk, Kind.isAtom] at hatom
    -- what has no construction is neither an expression nor a statement
    · rcases hkind with ⟨n, hn, -⟩ | ⟨hs, -⟩
      · simp [hstrength] at hn
      · simp [hstatement] at hs

theorem stops_construct (hbuild : Inside limit build) (h : Buildable tree) :
    Stops limit (tree.fault?.toList ++ tree.errorsInside label) (construct build tree label) := by
  cases hatom : tree.kind.isAtom with
  | false =>
    rw [errors_inside hatom]
    exact stops_inside hbuild h hatom
  | true =>
    by_cases hdebugger : tree.kind = .debugger
    · rw [construct, hdebugger]
      exact .throw (by rw [fault?, hdebugger]; rfl)
    · rw [construct_atom hatom hdebugger]
      exact stops_leaf h.1 hatom hdebugger

/-- A label in front of something that cannot have one comes before what is inside. -/
theorem stops_visit (hbuild : Inside limit build) (h : Buildable tree) :
    Stops limit (tree.errors label) (visit build tree label) := by
  have hconstruct : Stops limit (tree.fault?.toList ++ tree.errorsInside label)
      (construct build tree label) := stops_construct hbuild h
  rw [errors_eq]
  cases label with
  | none => exact hconstruct
  | some name =>
    change Stops limit _ (do
      if !takesLabel tree.kind then throw (.invalidLabelTarget name tree.kind tree.span)
      construct build tree (some name))
    cases htakes : takesLabel tree.kind with
    | false => exact .throw (by simp [errorWith?, htakes])
    | true =>
      rw [errorWith?, if_pos htakes]
      exact hconstruct

/-- However many levels are left, building stops at the first error of the tree, or for want of
levels before it. -/
theorem stops_within (levels : Nat) : Inside limit (within limit levels) := by
  induction levels with
  | zero =>
    intro tree label _
    refine ⟨nofun, ?_⟩
    rintro _ ⟨⟩
    exact .inr ⟨tree.span, rfl⟩
  | succ levels ih => exact fun tree label h => stops_visit ih h

theorem stops_program {root : ParseTree} (h : root.IsRoot) :
    Stops limit (root.errors none) (program limit (some root)) := by
  have hnode : Inside limit (node limit) := stops_within limit
  obtain ⟨hwell, hkind⟩ := h
  unfold program
  rcases hkind with hs | ⟨hk, -⟩
  · have hunit : root.kind ≠ .unit := by
      intro hk
      simp [IsStatement, hk, Kind.isStatement] at hs
    simp only [hunit, ↓reduceIte]
    exact (hnode root none ⟨hwell, Or.inr hs⟩).last fun _ _ => .pure
  · have hshape := hwell.root
    simp only [Shape, hk] at hshape
    simp only [hk, ↓reduceIte]
    rw [errors_straight (by rw [hk]; rfl) (by rw [hk]; rfl)]
    exact (stops_all hnode fun c hc => ⟨hwell.inside c hc, Or.inr (hshape c hc)⟩).last
      fun _ _ => .pure

theorem fits_program {root : ParseTree} (h : root.IsRoot) :
    Fits (program limit (some root) : Except BuildError (List Node)) := by
  intro e he
  rcases (stops_program h).error e he with hfirst | ⟨span, rfl⟩
  · exact admissible_of_mem_errors (List.mem_of_head? hfirst)
  · trivial

/-- Building what a source was parsed into gives nodes or an admissible error, whatever the limits.
-/
theorem program_of_parse {parseLimit buildLimit : Nat} {source : String} {root : Option ParseTree}
    (h : Grammar.parse parseLimit source = .ok root) :
    (∃ nodes, (program buildLimit root : Except BuildError (List Node)) = .ok nodes) ∨
      ∃ e, (program buildLimit root : Except BuildError (List Node)) = .error e ∧ e.Admissible := by
  have hfits : Fits (program buildLimit root : Except BuildError (List Node)) := by
    cases root with
    | none => exact .pure
    | some root => exact fits_program (Grammar.parse_isRoot h)
  cases hresult : (program buildLimit root : Except BuildError (List Node)) with
  | ok nodes => exact Or.inl ⟨nodes, rfl⟩
  | error e => exact Or.inr ⟨e, rfl, hfits e hresult⟩

theorem program_of_debugger : ∃ root, Grammar.parse 1 "debugger" = .ok root ∧
    ((∃ nodes, (program 1 root : Except BuildError (List Node)) = .ok nodes) ∨
      ∃ e, (program 1 root : Except BuildError (List Node)) = .error e ∧ e.Admissible) := by
  have hsome : (Grammar.parse 1 "debugger").toOption.isSome = true := by decide +kernel
  cases h : Grammar.parse 1 "debugger" with
  | error e => simp [h, Except.toOption] at hsome
  | ok root => exact ⟨root, rfl, program_of_parse h⟩

end Build
end Ecma3
