import Ecma3.Proofs.Grammar.Coherent
import Ecma3.Proofs.Token.Maximal

/-!
What may stand between two tokens of a text: blanks, line terminators and comments. The cursor passes
over such a gap from token to token, and sees whether a line ends in it.
-/
namespace Ecma3

open Text (byteLength isLineTerminator)

variable {c d : Cursor} {l : Lexeme} {lineBreak broken : Bool} {found : Option Lexeme.Item}
  {cs gap rest : List Char}

/-- The first text is blanks, line terminators and comments, up to the second one. None of them could
be longer: a comment goes on to the end of its line, or as far as it has to be closed. -/
inductive Text.Gap : List Char → List Char → Prop where
  | nil {rest : List Char} : Gap [] rest
  | blank {x : Char} {gap rest : List Char} (h : Cursor.isBlank x = true) (hrest : Gap gap rest) :
      Gap (x :: gap) rest
  | trivia {t : Token} {text gap rest : List Char} (ht : t.isTrivia = true) (h : text ∈ t.language)
      (hlongest : ∀ other ∈ t.language, other <+: text ++ (gap ++ rest) →
        other.length ≤ text.length)
      (hrest : Gap gap rest) : Gap (text ++ gap) rest

namespace Text.Gap

theorem append_blanks (h : ∀ x ∈ cs, Cursor.isBlank x = true) (hrest : Gap gap rest) :
    Gap (cs ++ gap) rest := by
  induction cs with
  | nil => exact hrest
  | cons x cs ih =>
    rw [List.forall_mem_cons] at h
    exact .blank h.1 (ih h.2)

theorem blanks (h : ∀ x ∈ cs, Cursor.isBlank x = true) : Gap cs rest := by
  have hcs : Gap (cs ++ []) rest := append_blanks h .nil
  rwa [List.append_nil] at hcs

end Text.Gap

theorem Cursor.not_isLineTerminator {x : Char} (h : isBlank x = true) :
    isLineTerminator x = false := by
  simp only [isBlank, Bool.or_eq_true, beq_iff_eq] at h
  rcases h with ((((rfl | rfl) | rfl) | rfl) | rfl) | rfl <;> decide

/-- Trivia and the gap behind them are one gap. -/
theorem Cursor.gap_item (h : c.item = (.ok l, d)) (htrivia : l.token.isTrivia = true)
    (hgap : Text.Gap gap rest) (hd : d.rest = gap ++ rest) :
    Text.Gap (l.text.toList ++ gap) rest := by
  obtain ⟨n, hn, htext, -, rfl⟩ := item_ok h
  have htake : l.text.toList = c.rest.take n := by
    rw [htext, Cursor.text, String.toList_ofList]
  obtain ⟨hle, hmem, hlongest⟩ := Token.longest?_maximal hn
  rw [htake]
  refine .trivia htrivia hmem (fun other hother hprefix => ?_) hgap
  rw [← hd] at hprefix
  have hcut : c.rest.take n ++ (c.advance n).rest = c.rest := List.take_append_drop n c.rest
  rw [hcut] at hprefix
  rw [List.length_take, Nat.min_eq_left hle]
  exact hlongest l.token other hother hprefix

theorem Cursor.any_blanks (h : ∀ x ∈ cs, isBlank x = true) : cs.any isLineTerminator = false := by
  rw [List.any_eq_false]
  intro x hx
  rw [not_isLineTerminator (h x hx)]
  exact Bool.false_ne_true

/-- From token to token the cursor passes over a gap, and a line ends between the two if one ends in
the gap. -/
theorem Cursor.gap_nextSignificant (h : c.nextSignificant lineBreak = (found, broken, d))
    (hfound : ∀ e, found ≠ some (.error e)) : ∃ gap rest, c.rest = gap ++ rest ∧ Text.Gap gap rest ∧
      broken = (lineBreak || gap.any isLineTerminator) ∧ (found = none → rest = []) ∧
      ∀ l, found = some (.ok l) → rest = l.text.toList ++ d.rest ∧
        l.span.start = c.offset + byteLength gap := by
  fun_induction nextSignificant lineBreak c with
  | case1 lineBreak c hnone =>
    obtain ⟨rfl, rfl, rfl⟩ : none = found ∧ lineBreak = broken ∧ c = d := by simpa using h
    have hblank := isBlank_of_next?_eq_none hnone
    refine ⟨c.rest, [], (List.append_nil _).symm, .blanks hblank, ?_, fun _ => rfl, by simp⟩
    rw [any_blanks hblank, Bool.or_false]
  | case2 lineBreak c e k hk =>
    cases h
    exact absurd rfl (hfound e)
  | case3 lineBreak c l k hk htrivia ih =>
    obtain ⟨more, rest, hmore, hgap, hbroken, hnone, hsome⟩ := ih h
    obtain ⟨blanks, hblanks, hrest, -, -, hoffset⟩ := next?_eq hk
    have hitem := gap_item (next?_eq_some.1 hk).2 htrivia hgap hmore
    refine ⟨blanks ++ (l.text.toList ++ more), rest, ?_, ?_, ?_, hnone, ?_⟩
    · rw [hrest, hmore]
      simp [Lexeme.Item.text]
    · exact .append_blanks hblanks hitem
    · simp only [hbroken, List.any_append, any_blanks hblanks, Lexeme.breaksLine, Bool.false_or,
        Bool.or_assoc]
    · intro l' hl
      obtain ⟨htext, hstart⟩ := hsome l' hl
      refine ⟨htext, ?_⟩
      rw [hstart, hoffset]
      simp only [Lexeme.Item.text, Text.byteLength_append]
      omega
  | case4 lineBreak c l k hk htrivia =>
    obtain ⟨rfl, rfl, rfl⟩ : some (.ok l) = found ∧ lineBreak = broken ∧ k = d := by simpa using h
    obtain ⟨blanks, hblanks, hrest, -, hspan, -⟩ := next?_eq hk
    rw [List.append_assoc] at hrest
    refine ⟨blanks, _, hrest, .blanks hblanks, ?_, by simp, ?_⟩
    · rw [any_blanks hblanks, Bool.or_false]
    · rintro _ ⟨⟩
      exact ⟨rfl, congrArg Span.start hspan⟩

end Ecma3
