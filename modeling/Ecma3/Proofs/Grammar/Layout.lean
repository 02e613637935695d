import Ecma3.Proofs.Grammar.Simulation.Program
import Ecma3.Proofs.Token.Outline

/-! What stands between the tokens of a text does not matter to its tree, but for the line breaks.
-/
namespace Ecma3

variable {c c' : Cursor} {lexemes lexemes' : List Lexeme}

/-- The same significant lexemes come next in two texts, with the same line breaks before them,
and no errors. -/
inductive Cursor.SameMarks : Cursor → Cursor → Prop where
  | done {c c' d d' : Cursor} {b b' : Bool} : c.nextSignificant false = (none, b, d) →
      c'.nextSignificant false = (none, b', d') → SameMarks c c'
  | next {c c' d d' : Cursor} {l l' : Lexeme} {b : Bool} :
      c.nextSignificant false = (some (.ok l), b, d) →
      c'.nextSignificant false = (some (.ok l'), b, d') →
      l'.token = l.token → l'.text = l.text → SameMarks d d' → SameMarks c c'

theorem Cursor.sameMarks_of_marks (hitems : c.items = lexemes.map .ok)
    (hitems' : c'.items = lexemes'.map .ok)
    (h : Lexeme.marks false lexemes' = Lexeme.marks false lexemes) : c.SameMarks c' := by
  induction hmarks : Lexeme.marks false lexemes generalizing c c' lexemes lexemes' with
  | nil =>
    rcases hn : c.nextSignificant false with ⟨found, b, d⟩
    rcases hn' : c'.nextSignificant false with ⟨found', b', d'⟩
    rcases marks_nextSignificant hitems hn with ⟨rfl, -⟩ | ⟨l, rest, -, -, hfirst⟩
    · rcases marks_nextSignificant hitems' hn' with ⟨rfl, -⟩ | ⟨l', rest', -, -, hfirst'⟩
      · exact .done hn hn'
      · simp [hfirst', hmarks] at h
    · simp [hmarks] at hfirst
  | cons mark marks ih =>
    rcases hn : c.nextSignificant false with ⟨found, b, d⟩
    rcases hn' : c'.nextSignificant false with ⟨found', b', d'⟩
    rcases marks_nextSignificant hitems hn with ⟨-, hnone⟩ | ⟨l, rest, rfl, hrest, hfirst⟩
    · simp [hmarks] at hnone
    · rcases marks_nextSignificant hitems' hn' with ⟨-, hnone⟩ | ⟨l', rest', rfl, hrest', hfirst'⟩
      · simp [hnone, hmarks] at h
      · rw [hfirst, hfirst'] at h
        simp only [List.cons.injEq, Prod.mk.injEq] at h
        obtain ⟨⟨htoken, htext, rfl⟩, htail⟩ := h
        rw [hfirst, List.cons.injEq] at hmarks
        exact .next hn hn' htoken htext (ih hrest hrest' htail hmarks.2)

namespace Grammar
open ParserM ParseTree

variable {s s' t : Session}

/-- Two sessions with the same level in texts that go on alike. At the end of a text nothing is
asked of the line break. -/
structure Session.SameMarks (s s' : Session) : Prop where
  limit : s'.limit = s.limit
  depth : s'.depth = s.depth
  token : s'.token? = s.token?
  text : s'.text = s.text
  lineBreak : s.current.isSome → s'.lineBreakBefore = s.lineBreakBefore
  cursor : s.current.isSome → s.cursor.SameMarks s'.cursor

theorem Session.SameMarks.advance (hlimit : s'.limit = s.limit) (hdepth : s'.depth = s.depth)
    (h : s.cursor.SameMarks s'.cursor) : ∃ t t', ParserM.advance s = .ok () t ∧
      ParserM.advance s' = .ok () t' ∧ t.SameMarks t' := by
  cases h with
  | done hn hn' =>
    refine ⟨_, _, by simp only [ParserM.advance, hn]; rfl,
      by simp only [ParserM.advance, hn']; rfl, ?_⟩
    exact ⟨hlimit, hdepth, rfl, rfl, by simp, by simp⟩
  | next hn hn' htoken htext hrest =>
    refine ⟨_, _, by simp only [ParserM.advance, hn]; rfl,
      by simp only [ParserM.advance, hn']; rfl, ?_⟩
    exact ⟨hlimit, hdepth, congrArg some htoken, htext, fun _ => rfl, fun _ => hrest⟩

/-- Texts that go on alike are parsed alike, wherever their tokens stand. -/
def Simulation.sameMarks : Simulation where
  Rel := Session.SameMarks
  offset _ := 0
  offset_max _ _ := rfl
  token h := h.token
  text h := h.text
  start _ := rfl
  stop _ := rfl
  lastEnd _ := rfl
  lineBreak h := h.lineBreak
  advance := by
    intro s s' h hcurrent a t ht _
    obtain ⟨u, u', hu, hu', hrel⟩ := Session.SameMarks.advance h.limit h.depth (h.cursor hcurrent)
    cases hu.symm.trans ht
    exact Or.inr ⟨(), u', hu', rfl, hrel⟩
  enter := by
    intro s s' h a t ht _
    have hlimit : ¬ s.limit < s.depth + 1 := by
      intro hlimit
      simp [enter_eq, hlimit] at ht
    rw [enter_eq, if_neg hlimit] at ht
    cases ht
    rw [enter_eq, h.limit, h.depth, if_neg hlimit]
    exact Or.inr ⟨(), _, rfl, rfl, rfl, rfl, h.token, h.text, h.lineBreak, h.cursor⟩
  leave h := ⟨h.limit, congrArg (· - 1) h.depth, h.token, h.text, h.lineBreak, h.cursor⟩

/-- Two texts whose significant tokens agree in token, text and line breaks before them have the
same tree but for its places, if the tree of the first has no regular expression: there the tokens
do not tell what is in the tree. -/
theorem parse_layout {limit : Nat} {source source' : String} {root : Option ParseTree}
    (hlexemes : Lexeme.tokenize source = .ok lexemes)
    (hlexemes' : Lexeme.tokenize source' = .ok lexemes')
    (hmarks : Lexeme.marks false lexemes' = Lexeme.marks false lexemes)
    (hroot : parse limit source = .ok root)
    (hregex : ∀ t ∈ root.toList.flatMap nodes, t.kind ≠ .regexLiteral) :
    ∃ root', parse limit source' = .ok root' ∧ root'.map spanless = root.map spanless := by
  obtain ⟨s, t, hs, ht⟩ := parse_eq_ok.1 hroot
  have hcursor : (Cursor.ofString source).SameMarks (.ofString source') :=
    Cursor.sameMarks_of_marks (Lexeme.tokenize_eq_ok.1 hlexemes) (Lexeme.tokenize_eq_ok.1 hlexemes')
      hmarks
  obtain ⟨u, s', hu, hs', hrel⟩ : ∃ u u', ParserM.advance (.ofString limit source) = .ok () u ∧
      ParserM.advance (.ofString limit source') = .ok () u' ∧ u.SameMarks u' :=
    Session.SameMarks.advance rfl rfl hcursor
  cases hu.symm.trans hs
  have hkept : ∀ leaf ∈ root.toList.flatMap atoms, leaf.kind ≠ .regexLiteral := by
    intro leaf hleaf
    rw [flatMap_atoms] at hleaf
    exact hregex leaf (List.mem_filter.1 hleaf).1
  obtain ⟨root', t', ht', hroot', -⟩ := program_follows (R := .sameMarks) hrel ht hkept
  refine ⟨root', parse_eq_ok.2 ⟨s', t', hs', ht'⟩, ?_⟩
  have htree : Simulation.sameMarks.tree = spanless := funext relocate_zero
  rwa [htree] at hroot'

theorem parse_layout_assignment : ∃ root root', parse 3 "a=\n1" = .ok root ∧
    parse 3 "a = // b\n 1 /* c */" = .ok root' ∧ root'.map spanless = root.map spanless := by
  have hmarks : (Lexeme.tokenize "a=\n1").toOption.map (Lexeme.marks false) =
      (Lexeme.tokenize "a = // b\n 1 /* c */").toOption.map (Lexeme.marks false) := by
    decide +kernel
  have hplain : (parse 3 "a=\n1").toOption.map (fun root =>
      (root.toList.flatMap nodes).all (·.kind != .regexLiteral)) = some true := by decide +kernel
  have hlexemes : (Lexeme.tokenize "a=\n1").toOption.isSome = true := by decide +kernel
  cases h : Lexeme.tokenize "a=\n1" with
  | error e => simp [h, Except.toOption] at hlexemes
  | ok lexemes =>
    cases h' : Lexeme.tokenize "a = // b\n 1 /* c */" with
    | error e => simp [h, h', Except.toOption] at hmarks
    | ok lexemes' =>
      cases hroot : parse 3 "a=\n1" with
      | error e => simp [hroot, Except.toOption] at hplain
      | ok root =>
        simp only [h, h', Except.toOption, Option.map_some, Option.some.injEq] at hmarks
        simp only [hroot, Except.toOption, Option.map_some, Option.some.injEq, List.all_eq_true,
          bne_iff_ne] at hplain
        obtain ⟨root', hroot', hsame⟩ := parse_layout h h' hmarks.symm hroot hplain
        exact ⟨root, root', rfl, hroot', hsame⟩

end Grammar
end Ecma3
