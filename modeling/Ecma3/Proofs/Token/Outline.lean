import Ecma3.Proofs.Grammar.Coherent
import Ecma3.Proofs.Token.Cover

/-! The lexemes of a text: which of them are significant, and where lines end between those. -/
namespace Ecma3

variable {c d : Cursor} {l : Lexeme} {lexemes : List Lexeme}
  {lineBreak broken : Bool} {found : Option Lexeme.Item}

namespace Token.Pattern

variable {cs : List Char} {n : Nat}

theorem lineTerminator?_any (h : lineTerminator? cs = some n) :
    (cs.take n).any Text.isLineTerminator = true := by
  unfold lineTerminator? at h
  split at h
  · cases h
    rfl
  · simp only [Option.ite_none_right_eq_some, Option.some.injEq] at h
    obtain ⟨hfirst, rfl⟩ := h
    simp [hfirst]
  · cases h

/-- Line comments end before their line does. -/
theorem lineComment?_any (h : lineComment? cs = some n) :
    (cs.take n).any Text.isLineTerminator = false := by
  unfold lineComment? at h
  split at h
  · rename_i rest
    simp only [Option.some.injEq] at h
    have hslash : Text.isLineTerminator '/' = false := by decide
    have hnone : (rest.takeWhile (!Text.isLineTerminator ·)).any Text.isLineTerminator = false := by
      rw [List.any_eq_not_all_not, List.all_takeWhile]
      rfl
    rw [← h, Nat.add_comm, List.take_succ_cons, List.take_succ_cons, take_run, List.any_cons,
      List.any_cons, hslash, hnone]
    rfl
  · cases h

end Token.Pattern

namespace Lexeme

/-- A line ends here: a line terminator, or a comment over several lines. -/
def endsLine (l : Lexeme) : Bool :=
  l.token == .lineTerminator || l.token == .blockComment && l.text.toList.any Text.isLineTerminator

/-- Tokens and texts of the significant lexemes, each with whether a line ends between the one
before it and itself. -/
def marks (lineBreak : Bool) : List Lexeme → List (Token × String × Bool)
  | [] => []
  | l :: rest =>
    if l.token.isTrivia then marks (lineBreak || l.endsLine) rest
    else (l.token, l.text, lineBreak) :: marks false rest

/-- Errors, and lexemes with a grammatical role. -/
def Item.isSignificant : Item → Bool
  | .ok l => !l.token.isTrivia
  | .error _ => true

end Lexeme

namespace Cursor

/-- A line ends in a piece of the text that is trivia if it is a line terminator, or a comment over
several lines. -/
theorem breaksLine_eq_endsLine (h : c.item = (.ok l, d)) (htrivia : l.token.isTrivia = true) :
    l.breaksLine = l.endsLine := by
  obtain ⟨n, hn, htext, -⟩ := item_ok h
  have hmatched := Token.Pattern.longest?_matched hn
  have htext : l.text.toList = c.rest.take n := by rw [htext, text, String.toList_ofList]
  simp only [Lexeme.breaksLine, Lexeme.endsLine, htext]
  cases htoken : l.token <;>
    simp only [htoken, Token.isTrivia, Bool.false_eq_true] at htrivia hmatched
  case lineTerminator =>
    rw [Token.Pattern.lineTerminator?_any hmatched, beq_self_eq_true, Bool.true_or]
  case lineComment =>
    rw [Token.Pattern.lineComment?_any hmatched]
    rfl
  case blockComment => simp

/-- The next significant piece is the first mark of what is left. -/
theorem marks_nextSignificant (hitems : c.items = lexemes.map .ok)
    (h : c.nextSignificant lineBreak = (found, broken, d)) :
    (found = none ∧ Lexeme.marks lineBreak lexemes = []) ∨
      ∃ l rest, found = some (.ok l) ∧ d.items = rest.map .ok ∧
        Lexeme.marks lineBreak lexemes = (l.token, l.text, broken) :: Lexeme.marks false rest := by
  fun_induction nextSignificant lineBreak c generalizing lexemes with
  | case1 lineBreak c hnone =>
    cases h
    rw [items_of_next?_eq_none hnone] at hitems
    exact Or.inl ⟨rfl, by simp_all [Lexeme.marks]⟩
  | case2 lineBreak c e k hk =>
    rw [items_of_next?_eq_some hk] at hitems
    cases lexemes <;> simp at hitems
  | case3 lineBreak c l k hk htrivia ih =>
    rw [items_of_next?_eq_some hk] at hitems
    obtain ⟨first, rest, rfl, hfirst, hrest⟩ := List.map_eq_cons_iff.1 hitems.symm
    cases hfirst
    rw [Lexeme.marks, if_pos htrivia, ← breaksLine_eq_endsLine (next?_eq_some.1 hk).2 htrivia]
    exact ih hrest.symm h
  | case4 lineBreak c l k hk htrivia =>
    cases h
    rw [items_of_next?_eq_some hk] at hitems
    obtain ⟨first, rest, rfl, hfirst, hrest⟩ := List.map_eq_cons_iff.1 hitems.symm
    cases hfirst
    exact Or.inr ⟨l, rest, rfl, hrest.symm, by rw [Lexeme.marks, if_neg htrivia]⟩

/-- The next significant piece, and those after it, are what is significant in the text. -/
theorem significant_nextSignificant (h : c.nextSignificant lineBreak = (found, broken, d)) :
    (found = none ∧ c.items.filter Lexeme.Item.isSignificant = [] ∧ d.items = []) ∨
      ∃ i, found = some i ∧ c.items.filter Lexeme.Item.isSignificant =
        i :: d.items.filter Lexeme.Item.isSignificant := by
  fun_induction nextSignificant lineBreak c with
  | case1 lineBreak c hnone =>
    cases h
    simp [items_of_next?_eq_none hnone]
  | case2 lineBreak c e k hk =>
    cases h
    exact Or.inr ⟨_, rfl, by rw [items_of_next?_eq_some hk, List.filter_cons_of_pos rfl]⟩
  | case3 lineBreak c l k hk htrivia ih =>
    rw [items_of_next?_eq_some hk,
      List.filter_cons_of_neg (by simp [Lexeme.Item.isSignificant, htrivia])]
    exact ih h
  | case4 lineBreak c l k hk htrivia =>
    cases h
    refine Or.inr ⟨_, rfl, ?_⟩
    rw [items_of_next?_eq_some hk,
      List.filter_cons_of_pos (by simp [Lexeme.Item.isSignificant, htrivia])]

end Cursor

/-- A text has tokens if all that is significant in it is lexemes. -/
theorem Lexeme.tokenize_of_significant {source : String} {kept : List Lexeme}
    (h : (scan source).filter Item.isSignificant = kept.map .ok) :
    ∃ lexemes, tokenize source = .ok lexemes ∧ significant lexemes = kept := by
  simp only [tokenize_eq_ok]
  generalize scan source = items at h ⊢
  induction items generalizing kept with
  | nil => exact ⟨[], rfl, by cases kept <;> simp_all [significant]⟩
  | cons item items ih =>
    rw [List.filter_cons] at h
    cases item with
    | error e => cases kept <;> simp [Item.isSignificant] at h
    | ok l =>
      by_cases htrivia : l.token.isTrivia = true
      · rw [if_neg (by simp [Item.isSignificant, htrivia])] at h
        obtain ⟨lexemes, rfl, hkept⟩ := ih h
        exact ⟨l :: lexemes, rfl, by simpa [significant, htrivia] using hkept⟩
      · rw [if_pos (by simp [Item.isSignificant, htrivia])] at h
        obtain ⟨first, rest, rfl, hfirst, hrest⟩ := List.map_eq_cons_iff.1 h.symm
        cases hfirst
        obtain ⟨lexemes, rfl, hkept⟩ := ih hrest.symm
        exact ⟨l :: lexemes, rfl, by simpa [significant, htrivia] using hkept⟩

end Ecma3
