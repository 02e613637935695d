import Ecma3.Grammar.Program
import Ecma3.Proofs.Grammar.Statement

/-! The trees that whole sources give. -/
namespace Ecma3
open Grammar ParserM

variable {s : Session} {root : ParseTree} {limit : Nat} {source : String}

/-- The tree of a source: a statement, or a `unit` node with at least two statements. -/
def ParseTree.IsRoot (t : ParseTree) : Prop :=
  t.WellFormed ∧ (t.IsStatement ∨ t.kind = .unit ∧ 2 ≤ t.children.length)

namespace Grammar

theorem gives_production {inner : Inner} (h : inner.Sound) (goal : Goal) :
    Gives (inner.production goal) goal.Admits := by
  cases goal with
  | statement => exact Inner.gives_statement h
  | assignment allowIn => exact Inner.gives_assignment h allowIn
  | binary allowIn least => exact Inner.gives_binary h allowIn least
  | unary => exact Inner.gives_unary h
  | memberBase => exact Inner.gives_memberBase h

theorem parseWithin_sound (bound count : Nat) : Inner.Sound ⟨count, parseWithin bound⟩ := by
  induction bound generalizing count with
  | zero => exact ⟨fun _ => .throw, fun _ _ _ => trivial⟩
  | succ bound ih =>
    exact ⟨gives_production (ih (bound + 1)), Inner.leads_binary_stops⟩

theorem gives_program : Gives ParserM.program fun root => ∀ t ∈ root, t.IsRoot := by
  refine gives_get.bind fun s _ => ?_
  have hsound := parseWithin_sound (s.cursor.rest.length + 2) (s.cursor.rest.length + 2)
  refine (Inner.gives_statements hsound _).bind fun found hfound => ?_
  match found with
  | [] => exact .pure (by simp)
  | [only] =>
    refine .pure ?_
    rintro t ⟨⟩
    exact ⟨(hfound only (by simp)).1, Or.inl (hfound only (by simp)).2⟩
  | first :: second :: others =>
    refine gives_get.bind fun u _ => .pure ?_
    rintro t ⟨⟩
    refine ⟨.intro (fun c hc => (hfound c hc).2) fun c hc => (hfound c hc).1, Or.inr ⟨rfl, ?_⟩⟩
    simp [ParseTree.group]

theorem start_coherent (h : Session.start limit source = .ok s) : s.Coherent := by
  unfold Session.start at h
  split at h
  · cases h
    rename_i t ht
    exact ((leads_advance (Cursor.at_ofString source)).ok ht).1
  · simp at h

/-- What the parser of programs gives is what a source gives. -/
theorem parse_of_gives {P : ParseTree → Prop}
    (hprogram : Gives ParserM.program fun root => ∀ t ∈ root, P t)
    (h : parse limit source = .ok (some root)) : P root := by
  unfold parse at h
  cases hs : Session.start limit source with
  | error e => simp [hs, bind, Except.bind] at h
  | ok s =>
    simp only [hs, bind, Except.bind, Session.program] at h
    split at h
    · rename_i u hok
      cases h
      exact ((hprogram s (start_coherent hs)).ok hok).1 root rfl
    · cases h

/-- Every tree that a source gives has the shape of a program. -/
theorem parse_isRoot (h : parse limit source = .ok (some root)) : root.IsRoot :=
  parse_of_gives gives_program h

end Grammar
end Ecma3
