import Ecma3.Proofs.Grammar.Comparison.Program

/-!
The limit on nesting. Two runs on the same text under different limits go on alike until one of them
refuses a level. A lower limit can refuse only a level that the tree of the other run has.
-/
namespace Ecma3.Grammar
open ParserM ParseTree

variable {s t u : Session} {limit m m' : Nat} {x : SyntaxError} {tree : ParseTree}
  {source : String} {root : Option ParseTree}

/-- The same session under another limit. -/
def Session.under (s : Session) (limit : Nat) : Session := { s with limit }

theorem advance_under (limit : Nat) (s : Session) : advance (s.under limit) = match advance s with
    | .ok _ u => .ok () (u.under limit)
    | .error x u => .error x (u.under limit) := by
  simp only [advance, Session.under]
  generalize s.cursor.nextSignificant false = found
  obtain ⟨found, broken, d⟩ := found
  match found with
  | none => rfl
  | some (.ok l) => rfl
  | some (.error x) => rfl

theorem advance_keeps (h : advance s = .ok () u) : u.limit = s.limit ∧ u.depth = s.depth := by
  obtain ⟨_, _, _, _, rfl⟩ := advance_eq_ok h
  exact ⟨rfl, rfl⟩

theorem start_advance (h : Session.start limit source = .ok s) :
    advance (.ofString limit source) = .ok () s := by
  unfold Session.start at h
  split at h
  · cases h
    assumption
  · cases h

theorem start_depth (h : Session.start limit source = .ok s) : s.depth = 0 :=
  (advance_keeps (start_advance h)).2

theorem regexLiteral_under (limit : Nat) (s : Session) :
    regexLiteral (s.under limit) = match regexLiteral s with
    | .ok tree u => .ok tree (u.under limit)
    | .error x u => .error x (u.under limit) := by
  rw [regexLiteral_eq, regexLiteral_eq]
  have hregex : (s.under limit).regex? = s.regex? := rfl
  have hspan : (s.under limit).span = s.span := rfl
  rw [hregex, hspan]
  cases s.regex? with
  | none => rfl
  | some l =>
    simp only [Session.under]
    cases s.cursor.skipBytes? (l.span.stop - s.span.stop) with
    | none => rfl
    | some cursor =>
      have hadvance := advance_under limit { s with cursor, current := some l }
      simp only [Session.under] at hadvance
      simp only [hadvance]
      cases advance { s with cursor, current := some l } <;> rfl

theorem regexLiteral_keeps (h : regexLiteral s = .ok tree u) :
    u.limit = s.limit ∧ u.depth = s.depth := by
  obtain ⟨_, _, -, -, -, hadvance⟩ := regexLiteral_eq_ok h
  obtain ⟨_, _, _, _, rfl⟩ := advance_eq_ok hadvance
  exact ⟨rfl, rfl⟩

/-- Runs on the same text under two limits. -/
def Comparison.limits (m m' : Nat) : Comparison where
  Rel _ n s s' := s.limit = m ∧ s.depth = n ∧ s' = s.under m'
  Ended _ _ _ := False
  Stuck _ := False
  Lost k _ := m' < m ∧ m' < k
  Fails _ x _ := m' < m ∨ ∃ span, x = .nestingTooDeep m span
  common := True
  shift := 0
  matched := id
  token := by rintro _ _ s _ ⟨-, -, rfl⟩; rfl
  text := by rintro _ _ s _ ⟨-, -, rfl⟩; rfl
  start := by rintro _ _ s _ ⟨-, -, rfl⟩; rfl
  stop := by rintro _ _ s _ ⟨-, -, rfl⟩; rfl
  lastEnd := by rintro _ s _ ⟨-, -, rfl⟩; rfl
  lineBreak := by rintro _ s _ ⟨-, -, rfl⟩; rfl
  refused _ := Or.inr ⟨trivial, rfl⟩
  advance_ok := by
    rintro _ _ s _ _ u ⟨rfl, rfl, rfl⟩ _ hu
    have hkeeps := advance_keeps hu
    exact Or.inr ⟨u.under m', by rw [advance_under, hu], Or.inl ⟨hkeeps.1, hkeeps.2, rfl⟩⟩
  advance_error := by
    rintro _ _ s _ _ x u ⟨-, -, rfl⟩ _ hu
    exact Or.inr ⟨trivial, u.under m', by rw [advance_under, hu]⟩
  regex_ok := by
    rintro _ _ s _ _ tree u ⟨rfl, rfl, rfl⟩ _ _ hu
    have hkeeps := regexLiteral_keeps hu
    refine Or.inr (Or.inr ⟨u.under m', ?_, hkeeps.1, hkeeps.2, rfl⟩)
    rw [regexLiteral_under, hu]
    exact congrArg (EStateM.Result.ok · (u.under m')) (relocate_id tree).symm
  regex_error := by
    rintro _ _ s _ _ x u ⟨-, -, rfl⟩ _ _ hu
    exact Or.inr ⟨trivial, u.under m', by rw [regexLiteral_under, hu]⟩
  enter_ok := by
    rintro _ _ s _ u ⟨rfl, rfl, rfl⟩ hu
    rw [enter_eq] at hu
    split at hu
    · cases hu
    · rename_i hlimit
      cases hu
      by_cases hlower : m' < s.depth + 1
      · exact Or.inl ⟨by omega, hlower⟩
      · refine Or.inr ⟨_, ?_, rfl, rfl, rfl⟩
        rw [enter_eq, if_neg (show ¬(s.under m').limit < (s.under m').depth + 1 from hlower)]
        rfl
  enter_error := by
    rintro _ _ s _ x u ⟨rfl, rfl, rfl⟩ hu
    rw [enter_eq] at hu
    split at hu
    · cases hu
      exact Or.inl (Or.inr ⟨_, rfl⟩)
    · cases hu
  leave := by
    rintro _ _ s _ ⟨rfl, hdepth, rfl⟩
    exact ⟨rfl, by simp [hdepth], rfl⟩
  leave_fails := id
  leak _ _ _ := id
  ended := .never
  stuck := .never
  lost_mono h hle _ := ⟨h.1, Nat.lt_of_lt_of_le h.2 hle⟩
  lost_fails h := Or.inl h.1

theorem tree_limits (t : ParseTree) : (Comparison.limits m m').tree t = t := relocate_id t

/-- A call under one limit tells what it comes to under another one. -/
theorem program_under (m' : Nat) (hdepth : s.depth = 0) :
    (Comparison.limits s.limit m').Follows 0 (fun root => Ledger.empty.keepingAll 1 root.toList) id
      (ParserM.program s) (ParserM.program (s.under m')) := by
  have hrel : (Comparison.limits s.limit m').Rel false 0 s (s.under m') := ⟨rfl, hdepth, rfl⟩
  have hfollow := program_compares (fun _ _ _ => id) hrel (Nat.le_refl _)
  have htree : Option.map (Comparison.limits s.limit m').tree = id := by
    funext root
    cases root with
    | none => rfl
    | some t => exact congrArg some (tree_limits t)
  rwa [htree] at hfollow

theorem parse_of_error (h : advance (.ofString limit source) = .error x t) :
    parse limit source = .error x := by
  simp only [parse, Session.start, h]
  rfl

theorem parse_of_ok (h : advance (.ofString limit source) = .ok () s) :
    parse limit source = match ParserM.program s with
      | .ok root _ => .ok root
      | .error x _ => .error x := by
  simp only [parse, Session.start, h, Session.program, bind, Except.bind]
  cases ParserM.program s <;> rfl

/-- What a text gives under one limit tells what it gives under another one. -/
theorem parse_under (m m' : Nat) (source : String) :
    (∀ root, parse m source = .ok root →
      m' < m ∧ m' < deepest 1 root.toList ∨ parse m' source = .ok root) ∧
    (∀ x, parse m source = .error x →
      m' < m ∨ (∃ span, x = .nestingTooDeep m span) ∨ parse m' source = .error x) := by
  have hstart := advance_under m' (.ofString m source)
  cases h : advance (.ofString m source) with
  | error y t =>
    rw [h] at hstart
    rw [parse_of_error h, parse_of_error hstart]
    exact ⟨nofun, fun x hx => Or.inr (Or.inr hx)⟩
  | ok _ s =>
    rw [h] at hstart
    obtain ⟨rfl, hdepth⟩ : m = s.limit ∧ s.depth = 0 :=
      ⟨(advance_keeps h).1.symm, (advance_keeps h).2⟩
    have hfollow := program_under m' hdepth
    rw [parse_of_ok h, parse_of_ok hstart]
    refine ⟨fun root hroot => ?_, fun x hx => ?_⟩
    · cases hs : ParserM.program s with
      | error y t => simp [hs] at hroot
      | ok found t =>
        rw [hs] at hroot
        cases hroot
        rcases hfollow.ok hs with (hlost | hstuck) | ⟨t', ht', -⟩
        · exact Or.inl ⟨hlost.1, by simpa [Ledger.empty] using hlost.2⟩
        · exact hstuck.elim
        · exact Or.inr (by rw [ht']; rfl)
    · cases hs : ParserM.program s with
      | ok found t => simp [hs] at hx
      | error y t =>
        rw [hs] at hx
        cases hx
        rcases hfollow.error hs with rfl | (hlower | hnesting) | ⟨-, t', ht'⟩
        · exact (program_ne_endless hs).elim
        · exact Or.inl hlower
        · exact Or.inr (Or.inl hnesting)
        · exact Or.inr (Or.inr (by rw [ht']))

/-- A limit only ever turns a result into an error about the nesting. -/
theorem parse_limit (h : m ≤ m') (source : String) :
    parse m source = parse m' source ∨
      ∃ span, parse m source = .error (.nestingTooDeep m span) := by
  have hunder := parse_under m m' source
  cases hm : parse m source with
  | ok root =>
    rcases hunder.1 root hm with hlower | hm'
    · omega
    · exact Or.inl hm'.symm
  | error x =>
    rcases hunder.2 x hm with hlower | ⟨span, rfl⟩ | hm'
    · omega
    · exact Or.inr ⟨span, rfl⟩
    · exact Or.inl hm'.symm

/-- A tree is found under every limit that it does not go beyond. -/
theorem parse_of_levels (hroot : parse m source = .ok root) (hle : deepest 1 root.toList ≤ m') :
    parse m' source = .ok root := by
  rcases (parse_under m m' source).1 root hroot with ⟨-, hlower⟩ | hm'
  · omega
  · exact hm'

end Ecma3.Grammar
