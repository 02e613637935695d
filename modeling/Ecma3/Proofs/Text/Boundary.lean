import Ecma3.Proofs.Grammar.Coherent
import Ecma3.Proofs.Token.Cover

/-! Offsets between the characters of a text, and ranges that begin and end at such offsets. -/
namespace Ecma3

variable {source : List Char} {m n lo hi : Nat} {span : Span} {c d : Cursor} {i : Lexeme.Item}

namespace Text

/-- A character of the text begins at the offset, or the text ends there. -/
def IsBoundary (source : List Char) (n : Nat) : Prop :=
  ∃ before after, source = before ++ after ∧ n = byteLength before

theorem isBoundary_iff : IsBoundary source n ↔ (dropBytes? n source).isSome = true := by
  constructor
  · rintro ⟨before, after, rfl, rfl⟩
    rw [dropBytes?_append, Option.isSome_some]
  · intro h
    obtain ⟨after, hafter⟩ := Option.isSome_iff_exists.1 h
    obtain ⟨before, hsource, hlength⟩ := eq_append_of_dropBytes? hafter
    exact ⟨before, after, hsource, hlength.symm⟩

instance : Decidable (IsBoundary source n) := decidable_of_iff _ isBoundary_iff.symm

theorem isBoundary_zero : IsBoundary source 0 := ⟨[], source, rfl, rfl⟩

theorem isBoundary_byteLength : IsBoundary source (byteLength source) :=
  ⟨source, [], (List.append_nil source).symm, rfl⟩

theorem IsBoundary.le (h : IsBoundary source n) : n ≤ byteLength source := by
  obtain ⟨before, after, rfl, rfl⟩ := h
  rw [byteLength_append]
  exact Nat.le_add_right _ _

end Text

open Text (IsBoundary)

/-- The range holds whole characters of the text, and lies between two offsets. -/
structure Span.Lies (source : List Char) (lo hi : Nat) (span : Span) : Prop where
  first : IsBoundary source span.start
  last : IsBoundary source span.stop
  ordered : span.start ≤ span.stop
  low : lo ≤ span.start
  high : span.stop ≤ hi

namespace Span.Lies

theorem within (h : span.Lies source m n) (hlow : lo ≤ span.start) (hhigh : span.stop ≤ hi) :
    span.Lies source lo hi :=
  ⟨h.first, h.last, h.ordered, hlow, hhigh⟩

theorem mono (h : span.Lies source m n) (hlow : lo ≤ m) (hhigh : n ≤ hi) :
    span.Lies source lo hi :=
  h.within (Nat.le_trans hlow h.low) (Nat.le_trans h.high hhigh)

theorem le (h : span.Lies source lo hi) : lo ≤ hi :=
  Nat.le_trans h.low (Nat.le_trans h.ordered h.high)

theorem start_le (h : span.Lies source lo hi) : span.start ≤ hi :=
  Nat.le_trans h.ordered h.high

theorem le_stop (h : span.Lies source lo hi) : lo ≤ span.stop := Nat.le_trans h.low h.ordered

/-- A range without any characters. -/
theorem empty (h : IsBoundary source n) : Span.Lies source n n ⟨n, n⟩ :=
  ⟨h, h, Nat.le_refl n, Nat.le_refl n, Nat.le_refl n⟩

end Span.Lies

namespace Cursor

theorem At.isBoundary (h : c.At source) : IsBoundary source c.offset := by
  obtain ⟨before, hsource, hoffset⟩ := h
  exact ⟨before, c.rest, hsource, hoffset⟩

theorem offset_le_advance (c : Cursor) (n : Nat) : c.offset ≤ (c.advance n).offset :=
  Nat.le_add_right _ _

/-- A piece reaches from where it was cut to where the cursor is behind it. -/
theorem At.item_lies (h : c.At source) (hi : c.item = (i, d)) :
    i.span.Lies source c.offset d.offset := by
  obtain ⟨n, hspan, rfl⟩ : ∃ n, i.span = c.span n ∧ d = c.advance n := by
    unfold item at hi
    split at hi <;> cases hi <;> exact ⟨_, rfl, rfl⟩
  rw [hspan]
  exact ⟨h.isBoundary, (h.advance n).isBoundary, c.offset_le_advance n, Nat.le_refl _,
    Nat.le_refl _⟩

theorem At.next?_lies (h : c.At source) (hn : c.next? = some (i, d)) :
    i.span.Lies source c.offset d.offset := by
  simp only [Cursor.next?, Option.ite_none_left_eq_some, Option.some.injEq] at hn
  have hlies := At.item_lies (c := c.skipBlanks) (h.advance _) hn.2
  exact hlies.mono (c.offset_le_advance _) (Nat.le_refl _)

/-- The next piece that is no trivia lies behind the cursor, wherever it is found. -/
theorem At.nextSignificant_lies {lineBreak broken : Bool} {found : Option Lexeme.Item}
    (h : c.At source) (hn : c.nextSignificant lineBreak = (found, broken, d)) :
    c.offset ≤ d.offset ∧ ∀ i, found = some i → i.span.Lies source c.offset d.offset := by
  fun_induction Cursor.nextSignificant lineBreak c with
  | case1 lineBreak c hnone =>
    cases hn
    refine ⟨Nat.le_refl _, ?_⟩
    rintro _ ⟨⟩
  | case2 lineBreak c e k hk =>
    cases hn
    refine ⟨(h.next?_lies hk).le, ?_⟩
    rintro _ ⟨⟩
    exact h.next?_lies hk
  | case3 lineBreak c l k hk htrivia ih =>
    have hle := (h.next?_lies hk).le
    obtain ⟨b, hb, hitem⟩ := h.next? hk
    obtain ⟨hrest, hfound⟩ := ih (hb.of_item hitem) hn
    exact ⟨Nat.le_trans hle hrest, fun i hi => (hfound i hi).mono hle (Nat.le_refl _)⟩
  | case4 lineBreak c l k hk htrivia =>
    cases hn
    refine ⟨(h.next?_lies hk).le, ?_⟩
    rintro _ ⟨⟩
    exact h.next?_lies hk

end Cursor
end Ecma3
