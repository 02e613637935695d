import Ecma3.Proofs.Grammar.Append
import Ecma3.Proofs.Grammar.Spacing.Statement

/-!
What the tree of a whole source says about the text: how the places of its nodes are nested, that the
heads of loops have no bare `in`, and where lines end and statements with them.
-/
namespace Ecma3.Grammar

open ParserM ParseTree
open Text (byteLength isLineTerminator)

variable {source : List Char} {inner : Inner} {s t : Session} {root : Option ParseTree}

theorem traces_production (h : inner.Traced source) (goal : Goal) :
    Traces source (inner.production goal) (goal.Traced source) := by
  cases goal with
  | statement => exact Inner.traces_statement h
  | assignment allowIn => exact Inner.traces_assignment h allowIn
  | binary allowIn least => exact Inner.traces_binary h allowIn least
  | unary => exact Inner.traces_unary h
  | memberBase => exact Inner.traces_memberBase h

theorem parseWithin_traced (bound count : Nat) :
    Inner.Traced source ⟨count, parseWithin bound⟩ := by
  induction bound generalizing count with
  | zero => exact ⟨parseWithin_clear 0 count, fun _ _ _ => trivial⟩
  | succ bound ih =>
    exact ⟨parseWithin_clear _ count, traces_production (ih (bound + 1))⟩

/-- A call finds statements that are ended, under a node around them if there are several. -/
theorem program_regular (hs : s.Spaced source) (h : ParserM.program s = .ok root t) :
    ∀ tree ∈ root, tree.Everywhere (Regular source) ∧ tree.Ended source := by
  rw [program_eq] at h
  obtain ⟨found, u, hfound, hrest⟩ := of_bind_eq_ok h
  obtain ⟨hu, hseries, hended⟩ :=
    (Inner.traces_statements (parseWithin_traced _ _) _ s hs).ok hfound
  rcases found with _ | ⟨first, _ | ⟨second, others⟩⟩
  · cases hrest
    rintro tree ⟨⟩
  · cases hrest
    rintro tree ⟨⟩
    exact ⟨(hseries.within _ List.mem_cons_self).regular, hended _ List.mem_cons_self⟩
  · cases hrest
    rintro tree ⟨⟩
    obtain - | ⟨hfirst, hothers⟩ := hseries
    have hall : Series source first.span.start (first :: second :: others) t.lastEnd :=
      .cons ⟨Nat.le_refl _, hfirst.high, hfirst.regular⟩ hothers
    exact ⟨hall.tree hu.lastEnd_le_size hended, by rintro ⟨⟩⟩

/-- Where reading the first lexeme comes to. -/
theorem leads_start_spaced (limit : Nat) (text : String) :
    Leads advance (.ofString limit text) (fun _ s => s.Spaced text.toList) fun _ _ => True :=
  (leads_advance_from (Cursor.at_ofString text) rfl rfl rfl).imp fun _ _ hs => hs.1

variable {limit : Nat} {text : String}

theorem parse_regular (hroot : parse limit text = .ok root) :
    ∀ tree ∈ root, tree.Everywhere (Regular text.toList) ∧ tree.Ended text.toList := by
  obtain ⟨s, t, hs, ht⟩ := parse_eq_ok.1 hroot
  exact program_regular ((leads_start_spaced limit text).ok hs) ht

theorem regular_of_mem (hroot : parse limit text = .ok root) :
    ∀ t ∈ root.toList.flatMap nodes, t.Regular text.toList ∧ t.Shape := by
  intro t ht
  obtain ⟨u, hu, hmem⟩ := List.mem_flatMap.1 ht
  obtain rfl : root = some u := Option.mem_toList.1 hu
  exact ⟨(parse_regular hroot u rfl).1.nodes t hmem, (parse_isRoot hroot).1.nodes t hmem⟩

/-- The places of all nodes lie in the source, each around the places of its children and these one
behind the other. Only the last clause of a counting loop, where it is left out, lies behind the end
of the head of its loop. -/
theorem parse_nested (hroot : parse limit text = .ok root) :
    ∀ t ∈ root.toList.flatMap nodes, t.Nested text.toList :=
  fun t ht => (regular_of_mem hroot t ht).1.nested

theorem parse_nested_overhangs : ∃ root, parse 5 "for(;; );" = .ok root ∧
    (∀ t ∈ root.toList.flatMap nodes, t.Nested "for(;; );".toList) ∧
    ∃ t ∈ root.toList.flatMap nodes, ∃ c ∈ t.children, t.span.stop < c.span.stop := by
  have hbehind : (parse 5 "for(;; );").toOption.map (fun root =>
      (root.toList.flatMap nodes).any fun t => t.children.any fun c =>
        decide (t.span.stop < c.span.stop)) = some true := by decide +kernel
  cases hroot : parse 5 "for(;; );" with
  | error e => simp [hroot, Except.toOption] at hbehind
  | ok root =>
    simp only [hroot, Except.toOption, Option.map_some, Option.some.injEq, List.any_eq_true,
      decide_eq_true_eq] at hbehind
    exact ⟨root, rfl, parse_nested hroot, hbehind⟩

/-- The word `in` never stands bare where it would end the first clause of a loop, and a loop over
the properties of an object declares no more than one name. -/
theorem parse_clearHead (hroot : parse limit text = .ok root) :
    ∀ t ∈ root.toList.flatMap nodes, t.ClearHead :=
  fun t ht => (regular_of_mem hroot t ht).1.conforms.clearHead

theorem parse_clearHead_nested : ∃ root,
    parse 9 "for (var a = (b in c); ; ) for (d[e in f] in g);" = .ok root ∧
    (∀ t ∈ root.toList.flatMap nodes, t.ClearHead) ∧
    (root.toList.flatMap nodes).countP (·.kind = .in) = 2 := by
  have hcount : (parse 9 "for (var a = (b in c); ; ) for (d[e in f] in g);").toOption.map
      (fun root => (root.toList.flatMap nodes).countP (·.kind = .in)) = some 2 := by decide +kernel
  cases hroot : parse 9 "for (var a = (b in c); ; ) for (d[e in f] in g);" with
  | error e => simp [hroot, Except.toOption] at hcount
  | ok root =>
    simp only [hroot, Except.toOption, Option.map_some, Option.some.injEq] at hcount
    exact ⟨root, rfl, parse_clearHead hroot, hcount⟩

/-- Statements end where a semicolon, a brace, the end of the source or the end of a line ends them,
and no line ends where that would end them too early. -/
theorem parse_closed (hroot : parse limit text = .ok root) :
    (∀ t ∈ root, t.Ended text.toList) ∧ ∀ t ∈ root.toList.flatMap nodes,
      (t.kind = .«return» ∨ t.kind = .«throw» ∨ t.kind = .«break» ∨ t.kind = .«continue» →
        t.FollowsWord text.toList) ∧
      (t.kind = .postIncrement ∨ t.kind = .postDecrement → t.PrecedesMark text.toList) ∧
      (t.kind ≠ .expression → t.kind ≠ .forStep → t.kind ≠ .forIn →
        ∀ c ∈ t.children, c.Ended text.toList) := by
  refine ⟨fun t ht => (parse_regular hroot t ht).2, fun t ht => ?_⟩
  obtain ⟨⟨-, hconforms⟩, hshape⟩ := regular_of_mem hroot t ht
  refine ⟨hconforms.followsWord, hconforms.precedesMark, fun hexpression hstep hin c hc hclosed => ?_⟩
  exact hconforms.statements c (hshape.seatsStatements hexpression hstep hin c hc hclosed) hclosed

theorem parse_closed_lines : ∃ root, parse 9 "a: while (b++) break a\n++c" = .ok root ∧
    (∀ t ∈ root, t.Ended "a: while (b++) break a\n++c".toList) ∧
    ∀ t ∈ root.toList.flatMap nodes,
      (t.kind = .«return» ∨ t.kind = .«throw» ∨ t.kind = .«break» ∨ t.kind = .«continue» →
        t.FollowsWord "a: while (b++) break a\n++c".toList) ∧
      (t.kind = .postIncrement ∨ t.kind = .postDecrement →
        t.PrecedesMark "a: while (b++) break a\n++c".toList) ∧
      (t.kind ≠ .expression → t.kind ≠ .forStep → t.kind ≠ .forIn →
        ∀ c ∈ t.children, c.Ended "a: while (b++) break a\n++c".toList) := by
  have hok : (parse 9 "a: while (b++) break a\n++c").isOk = true := by decide +kernel
  obtain ⟨root, hroot⟩ := ok_of_isOk hok
  exact ⟨root, hroot, parse_closed hroot⟩

end Ecma3.Grammar
