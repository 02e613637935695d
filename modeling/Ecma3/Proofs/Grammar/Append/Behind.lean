import Ecma3.Proofs.Grammar.Comparison.Program
import Ecma3.Proofs.Token.Append

/-!
A text behind another one. From where it begins, a run goes on as in the text alone, with all places
further on.
-/
namespace Ecma3

open Text (byteLength)

/-- What comes before a text only moves the cuts in it. -/
theorem Text.dropBytes?_behind (before cs : List Char) (n : Nat) :
    dropBytes? (n + byteLength before) (before ++ cs) = dropBytes? n cs := by
  induction before with
  | nil => rfl
  | cons c before ih =>
    have hpos := c.utf8Size_pos
    obtain ⟨k, hk⟩ : ∃ k, n + byteLength (c :: before) = k + 1 :=
      ⟨n + byteLength (c :: before) - 1, by simp only [byteLength]; omega⟩
    rw [hk, List.cons_append, dropBytes?]
    simp only [byteLength] at hk
    rw [if_pos (by omega), show k + 1 - c.utf8Size = n + byteLength before by omega, ih]

theorem Cursor.skipBytes?_shift (c : Cursor) (k n : Nat) :
    (c.shift k).skipBytes? n = (c.skipBytes? n).map (shift k) := by
  simp only [skipBytes?, shift, Option.map_map]
  congr 1
  funext rest
  simp [shift, Nat.add_right_comm]

namespace Grammar
open ParserM ParseTree

variable {s t u : Session} {l : Lexeme} {tree : ParseTree} {next : Option Lexeme} {d : Cursor}
  {broken : Bool} {last : Nat}

theorem ParserM.enter_of_ok (h : enter s = .ok () u) (hlimit : t.limit = s.limit)
    (hdepth : t.depth = s.depth) : enter t = .ok () { t with depth := t.depth + 1 } := by
  rw [enter_eq] at h ⊢
  split at h
  · cases h
  · rw [if_neg (by omega)]

theorem ParserM.advance_of_next (h : s.cursor.nextSignificant false = (next.map .ok, broken, d)) :
    advance s = .ok () { s with
      lastEnd := s.passedEnd, cursor := d, lineBreakBefore := broken, current := next } := by
  simp only [advance, h]
  cases next <;> rfl

/-- The session in the text behind another one. -/
def Session.behind (s : Session) (before : List Char) : Session where
  source := before ++ s.source
  size := byteLength before + s.size
  limit := s.limit
  cursor := s.cursor.shift (byteLength before)
  current := s.current.map (Lexeme.shift (byteLength before))
  lineBreakBefore := s.lineBreakBefore
  lastEnd := s.lastEnd + byteLength before
  depth := s.depth

/-- What a token forgets once it is passed. -/
def Session.marked (s : Session) (broken : Bool) (last : Nat) : Session :=
  { s with lineBreakBefore := broken, lastEnd := last }

variable (before : List Char)

theorem advance_behind (hl : s.current = some l) (h : advance s = .ok () u) :
    advance ((s.behind before).marked broken last) = .ok () (u.behind before) := by
  obtain ⟨next, broken, d, hn, rfl⟩ := advance_eq_ok h
  rw [advance_of_next (Cursor.nextSignificant_shift (byteLength before) hn)]
  simp [Session.behind, Session.marked, Session.passedEnd, hl, Lexeme.shift]

theorem regex?_behind (hl : s.current = some l) :
    ((s.behind before).marked broken last).regex? =
      s.regex?.map (Lexeme.shift (byteLength before)) := by
  have hstart : ((s.behind before).marked broken last).span.start =
      s.span.start + byteLength before := by
    simp [Session.span, Session.behind, Session.marked, hl, Lexeme.shift]
  have hsource : ((s.behind before).marked broken last).source = before ++ s.source := rfl
  simp only [Session.regex?, hstart, hsource, Text.dropBytes?_behind, Option.bind_eq_bind]
  cases Text.dropBytes? s.span.start s.source with
  | none => rfl
  | some cs =>
    simp only [Option.bind_some]
    cases Token.RegexLiteral.length? cs with
    | none => rfl
    | some n => simp [Lexeme.shift, Nat.add_right_comm]

theorem regexLiteral_behind (hl : s.current = some l) (h : regexLiteral s = .ok tree u) :
    regexLiteral ((s.behind before).marked broken last) =
      .ok (tree.relocate (· + byteLength before)) (u.behind before) := by
  obtain ⟨literal, cursor, hliteral, hcursor, rfl, hadvance⟩ := regexLiteral_eq_ok h
  have hstop : ((s.behind before).marked broken last).span.stop =
      s.span.stop + byteLength before := by
    simp [Session.span, Session.behind, Session.marked, hl, Lexeme.shift]
  have hskip := s.cursor.skipBytes?_shift (byteLength before) (literal.span.stop - s.span.stop)
  rw [hcursor, ← Nat.add_sub_add_right _ (byteLength before), ← hstop] at hskip
  rw [relocate_leaf]
  refine regexLiteral_of_ok (l := literal.shift (byteLength before)) ?_ hskip
    (advance_behind before rfl hadvance)
  rw [regex?_behind before hl, hliteral]
  rfl

/-- A run in a text, and one in the same text behind another one. Before a token is passed nothing
is asked of what came before it. -/
def Comparison.behind : Comparison where
  Rel moved _ s s' := ∃ broken last, s' = (s.behind before).marked broken last ∧
    (moved = true → s' = s.behind before)
  Ended _ _ _ := False
  Stuck _ := False
  Lost _ _ := False
  Fails _ _ _ := True
  common := False
  shift := byteLength before
  matched := fun ⟨broken, last, hs', hmoved⟩ => ⟨broken, last, hs', fun _ => hmoved rfl⟩
  token := by
    rintro _ _ s _ ⟨broken, last, rfl, -⟩
    cases hs : s.current <;> simp [Session.token?, Session.behind, Session.marked, hs, Lexeme.shift]
  text := by
    rintro _ _ s _ ⟨broken, last, rfl, -⟩
    cases hs : s.current <;> simp [Session.text, Session.behind, Session.marked, hs, Lexeme.shift]
  start := by
    rintro _ _ s _ ⟨broken, last, rfl, -⟩
    cases hs : s.current <;>
      simp [Session.span, Session.behind, Session.marked, hs, Lexeme.shift, Nat.add_comm]
  stop := by
    rintro _ _ s _ ⟨broken, last, rfl, -⟩
    cases hs : s.current <;>
      simp [Session.span, Session.behind, Session.marked, hs, Lexeme.shift, Nat.add_comm]
  lastEnd := by
    rintro _ s _ ⟨_, _, -, hmoved⟩
    rw [hmoved rfl]
    rfl
  lineBreak := by
    rintro _ s _ ⟨_, _, -, hmoved⟩
    rw [hmoved rfl]
    rfl
  refused := fun _ => Or.inl fun _ _ => trivial
  advance_ok := by
    rintro _ _ s _ t u ⟨broken, last, rfl, -⟩ ht hu
    obtain ⟨l, hl, -⟩ := token?_eq_some ht
    exact Or.inr ⟨_, advance_behind before hl hu, Or.inl ⟨_, _, rfl, fun _ => rfl⟩⟩
  advance_error _ _ _ := Or.inl trivial
  regex_ok := by
    rintro _ _ s _ t tree u ⟨broken, last, rfl, -⟩ ht - hu
    obtain ⟨l, hl, -⟩ := token?_eq_some ht
    exact Or.inr (Or.inr ⟨_, regexLiteral_behind before hl hu, _, _, rfl, fun _ => rfl⟩)
  regex_error _ _ _ _ := Or.inl trivial
  enter_ok := by
    rintro _ _ s _ u ⟨broken, last, rfl, hmoved⟩ hu
    refine Or.inr ⟨_, enter_of_ok hu rfl rfl, broken, last, ?_, fun hm => ?_⟩
    · rw [enter_eq_ok hu]
      rfl
    · rw [hmoved hm, enter_eq_ok hu]
      rfl
  enter_error _ _ := Or.inl trivial
  leave := by
    rintro moved _ s _ ⟨broken, last, rfl, hmoved⟩
    refine ⟨broken, last, rfl, fun hm => ?_⟩
    rw [hmoved hm]
    rfl
  leave_fails _ := trivial
  leak _ _ _ _ := trivial
  ended := .never
  stuck := .never
  lost_mono h _ _ := h
  lost_fails _ := trivial

end Grammar
end Ecma3
