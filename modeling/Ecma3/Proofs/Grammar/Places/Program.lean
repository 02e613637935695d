import Ecma3.Proofs.Grammar.Append
import Ecma3.Proofs.Grammar.Places.Statement

/-! Where the statements of a whole source have their places, and where its errors have theirs. -/
namespace Ecma3.Grammar

open ParserM ParseTree
open Text (IsBoundary byteLength)

variable {source : List Char} {inner : Inner} {s t : Session} {root : Option ParseTree}
  {e : SyntaxError}

theorem spans_production (h : inner.Placed source) (goal : Goal) :
    Spans source (inner.production goal) (Lies source) := by
  cases goal with
  | statement => exact Inner.spans_statement h
  | assignment allowIn => exact Inner.spans_assignment h allowIn
  | binary allowIn least => exact Inner.spans_binary h allowIn least
  | unary => exact Inner.spans_unary h
  | memberBase => exact Inner.spans_memberBase h

theorem parseWithin_placed (bound count : Nat) :
    Inner.Placed source ⟨count, parseWithin bound⟩ := by
  induction bound generalizing count with
  | zero => exact fun _ _ _ => Text.isBoundary_zero
  | succ bound ih => exact spans_production (ih (bound + 1))

theorem spans_programStatements (bound : Nat) :
    Spans source (programStatements bound) (Row source) :=
  Inner.spans_statements (parseWithin_placed bound bound) _

/-- A call finds statements one behind the other in the text that it passes. -/
theorem program_row (hs : s.Sited source) (h : ParserM.program s = .ok root t) :
    t.Sited source ∧ Row source s.lastEnd (topLevel root) t.lastEnd :=
  (spans_programStatements _ s hs).ok ((program_topLevel hs.coherent).1 h)

theorem program_located (hs : s.Sited source) (h : ParserM.program s = .error e t) :
    e.Located source := by
  have hleads : Leads ParserM.program s (fun _ _ => True) fun e _ => e.Located source := by
    unfold Leads
    rw [program_eq]
    refine (spans_programStatements _ s hs).bind fun found u _ => ?_
    split <;> trivial
  simpa only [Leads, h] using hleads

/-- Where reading the first lexeme comes to. -/
theorem leads_start (limit : Nat) (text : String) :
    Leads advance (.ofString limit text) (fun _ s => s.Sited text.toList ∧ s.lastEnd = 0)
      fun e _ => e.Located text.toList :=
  leads_advance_sited (Cursor.at_ofString text) rfl rfl Text.isBoundary_zero (Nat.zero_le _)

variable {limit : Nat} {text : String}

/-- The statements of a source stand in it one behind the other, with all that is in them. -/
theorem parse_row (h : parse limit text = .ok root) :
    Row text.toList 0 (topLevel root) (byteLength text.toList) := by
  obtain ⟨s, t, hs, ht⟩ := parse_eq_ok.1 h
  obtain ⟨hsited, hzero⟩ := (leads_start limit text).ok hs
  obtain ⟨hend, hrow⟩ := program_row hsited ht
  rw [hzero] at hrow
  exact hrow.mono (Nat.le_refl _) hend.lastEnd.le

/-- An error of a source begins between two of its characters, or at one of its ends. -/
theorem parse_located (h : parse limit text = .error e) : e.Located text.toList := by
  have hstart := leads_start limit text
  unfold Leads at hstart
  simp only [parse, Session.start, Session.program, bind, Except.bind] at h
  cases hadvance : advance (.ofString limit text) with
  | error x s =>
    simp only [hadvance, Except.error.injEq] at h hstart
    exact h ▸ hstart
  | ok _ s =>
    rw [hadvance] at hstart
    simp only [hadvance] at h
    cases hprogram : ParserM.program s with
    | ok found t => simp [hprogram] at h
    | error x t =>
      simp only [hprogram, Except.error.injEq] at h
      exact h ▸ program_located hstart.1 hprogram

end Ecma3.Grammar
