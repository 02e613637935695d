import Ecma3.Proofs.Grammar.Leaf
import Ecma3.Proofs.ParseTree.Nodes

/-! The moves that parsers make: from token to token, up and down levels, and over regular
expressions. Every parser makes its way through the text with these alone. -/
namespace Ecma3

variable {c d : Cursor} {found : Option Lexeme.Item} {i : Lexeme.Item} {lineBreak broken : Bool}

namespace Cursor

theorem nextSignificant_le (h : c.nextSignificant lineBreak = (found, broken, d)) :
    d.rest.length ≤ c.rest.length := by
  fun_induction nextSignificant lineBreak c with
  | case1 lineBreak c hnone =>
    cases h
    exact Nat.le_refl _
  | case2 lineBreak c e k hk =>
    cases h
    exact Nat.le_of_lt (next?_rest_length_lt hk)
  | case3 lineBreak c l k hk _ ih =>
    exact Nat.le_trans (ih h) (Nat.le_of_lt (next?_rest_length_lt hk))
  | case4 lineBreak c l k hk _ =>
    cases h
    exact Nat.le_of_lt (next?_rest_length_lt hk)

theorem nextSignificant_lt (h : c.nextSignificant lineBreak = (some i, broken, d)) :
    d.rest.length < c.rest.length := by
  fun_induction nextSignificant lineBreak c with
  | case1 lineBreak c hnone => simp at h
  | case2 lineBreak c e k hk =>
    cases h
    exact next?_rest_length_lt hk
  | case3 lineBreak c l k hk _ ih => exact Nat.lt_trans (ih h) (next?_rest_length_lt hk)
  | case4 lineBreak c l k hk _ =>
    cases h
    exact next?_rest_length_lt hk

end Cursor

/-- Names and literals, which are kept in the tree wherever they stand. -/
def Token.isAtom : Token → Bool
  | .identifier | .decimalLiteral | .hexLiteral | .stringLiteral | .reserved .«this»
  | .reserved .nullLiteral | .reserved .trueLiteral | .reserved .falseLiteral
  | .reserved .debugger => true
  | _ => false

namespace Grammar
open ParserM ParseTree

variable {s t u : Session} {l : Lexeme} {e : SyntaxError} {L M : List ParseTree} {tree : ParseTree}

/-- The most tokens that can still be passed: the current one, and one for each character that is
left. -/
def Session.left (s : Session) : Nat := if s.current.isSome then s.cursor.rest.length + 1 else 0

theorem Session.left_le (s : Session) : s.left ≤ s.cursor.rest.length + 1 := by
  unfold left
  split <;> omega

theorem Session.left_of_current (h : s.current = some l) : s.left = s.cursor.rest.length + 1 := by
  simp [left, h]

/-- Where the last passed lexeme ends, once the current one is passed. -/
def Session.passedEnd (s : Session) : Nat :=
  match s.current with
  | some l => l.span.stop
  | none => s.lastEnd

namespace ParserM

/-- Moving on takes the next item that is no trivia, or comes to the end. -/
theorem advance_eq_ok (h : advance s = .ok () t) : ∃ next broken d,
    s.cursor.nextSignificant false = (Option.map .ok next, broken, d) ∧
      t = { s with
        lastEnd := s.passedEnd, cursor := d, lineBreakBefore := broken, current := next } := by
  unfold advance at h
  generalize hn : s.cursor.nextSignificant false = found at h
  obtain ⟨found, broken, d⟩ := found
  match found with
  | none =>
    cases h
    exact ⟨none, broken, d, rfl, rfl⟩
  | some (.ok l) =>
    cases h
    exact ⟨some l, broken, d, rfl, rfl⟩
  | some (.error x) => cases h

/-- Text that is no token is passed all the same, but the lexeme before it stays the current one. -/
theorem advance_eq_error (h : advance s = .error e t) : ∃ x broken d,
    s.cursor.nextSignificant false = (some (.error x), broken, d) ∧ e = .lexical x ∧
      t = { s with lastEnd := s.passedEnd, cursor := d, lineBreakBefore := broken } := by
  unfold advance at h
  generalize hn : s.cursor.nextSignificant false = found at h
  obtain ⟨found, broken, d⟩ := found
  match found with
  | none => cases h
  | some (.ok l) => cases h
  | some (.error x) =>
    cases h
    exact ⟨x, broken, d, rfl, rfl, rfl⟩

/-- A token is passed, so there are fewer left. -/
theorem left_advance (hcurrent : s.current = some l) (h : advance s = .ok () t) :
    t.left < s.left := by
  rw [Session.left_of_current hcurrent]
  obtain ⟨next, broken, d, hn, rfl⟩ := advance_eq_ok h
  cases next with
  | none => simp [Session.left]
  | some m =>
    have hlt : d.rest.length < s.cursor.rest.length := Cursor.nextSignificant_lt hn
    simp only [Session.left, Option.isSome_some, if_true]
    omega

end ParserM

/-- The regular expression that the slash at the current lexeme opens, as a lexeme. -/
def Session.regex? (s : Session) : Option Lexeme := do
  let cs ← Text.dropBytes? s.span.start s.source
  let length ← Token.RegexLiteral.length? cs
  let literal := cs.take length
  return ⟨.punctuator .slash, String.ofList literal,
    ⟨s.span.start, s.span.start + Text.byteLength literal⟩⟩

namespace ParserM

/-- A regular expression becomes the current lexeme, and is passed. -/
theorem regexLiteral_eq (s : Session) : regexLiteral s =
    match s.regex? with
    | none => .error (.unterminatedRegex ⟨s.span.start, s.size⟩) s
    | some l =>
      match s.cursor.skipBytes? (l.span.stop - s.span.stop) with
      | none => .error (.regexOutOfStep l.span) s
      | some cursor =>
        match advance { s with cursor, current := some l } with
        | .ok _ t => .ok (.leaf .regexLiteral l.text l.span) t
        | .error e t => .error e t := by
  have hget : ∀ f : Session → ParserM ParseTree, (get >>= f) s = f s s := fun _ => rfl
  have hset : ∀ (t : Session) (p : ParserM ParseTree), (set t >>= fun _ => p) s = p t :=
    fun _ _ => rfl
  rw [regexLiteral, hget, Session.regex?]
  cases Text.dropBytes? s.span.start s.source with
  | none => rfl
  | some cs =>
    simp only [Option.bind_eq_bind, Option.bind_some]
    cases Token.RegexLiteral.length? cs with
    | none => rfl
    | some n =>
      simp only [Option.bind_some, pure]
      cases s.cursor.skipBytes? (s.span.start + Text.byteLength (cs.take n) - s.span.stop) with
      | none => rfl
      | some cursor =>
        refine (hset _ _).trans ?_
        dsimp only
        split
        · exact bind_of_ok ‹_›
        · exact bind_of_error ‹_›

theorem regexLiteral_eq_ok (h : regexLiteral s = .ok tree t) : ∃ l cursor,
    s.regex? = some l ∧ s.cursor.skipBytes? (l.span.stop - s.span.stop) = some cursor ∧
      tree = .leaf .regexLiteral l.text l.span ∧
      advance { s with cursor, current := some l } = .ok () t := by
  rw [regexLiteral_eq] at h
  split at h
  · cases h
  · rename_i l hl
    split at h
    · cases h
    · rename_i cursor hcursor
      split at h
      · rename_i u hu
        cases h
        exact ⟨l, cursor, hl, hcursor, rfl, hu⟩
      · cases h

theorem regexLiteral_of_ok {l : Lexeme} {cursor : Cursor} (hregex : s.regex? = some l)
    (hskip : s.cursor.skipBytes? (l.span.stop - s.span.stop) = some cursor)
    (hadvance : advance { s with cursor, current := some l } = .ok () t) :
    regexLiteral s = .ok (.leaf .regexLiteral l.text l.span) t := by
  simp only [regexLiteral_eq, hregex, hskip, hadvance]

theorem regexLiteral_ne_endless : regexLiteral s ≠ .error .endless t := by
  intro h
  rw [regexLiteral_eq] at h
  split at h
  · simp at h
  · split at h
    · simp at h
    · split at h
      · simp at h
      · rename_i u hu
        cases h
        obtain ⟨_, _, _, _, hlexical, _⟩ := advance_eq_error hu
        simp at hlexical

theorem left_regexLiteral (hcurrent : s.current = some l) (h : regexLiteral s = .ok tree t) :
    t.left < s.left := by
  obtain ⟨m, cursor, -, hskip, -, hadvance⟩ := regexLiteral_eq_ok h
  obtain ⟨rest, hrest, rfl⟩ := Option.map_eq_some_iff.1 hskip
  obtain ⟨before, hbefore, -⟩ := Text.eq_append_of_dropBytes? hrest
  have hlt := left_advance rfl hadvance
  have hlength := congrArg List.length hbefore
  simp only [List.length_append] at hlength
  rw [Session.left_of_current hcurrent]
  simp only [Session.left, Option.isSome_some, if_true] at hlt
  simp only [Session.left]
  omega

end ParserM

/-- The moves lead from one session to another, and the names and literals that were passed on the
way are kept as leaves. -/
inductive Session.Walk (s : Session) : List ParseTree → Session → Prop where
  | refl : Walk s [] s
  | level {L : List ParseTree} {t : Session} (depth : Nat) : Walk s L t → Walk s L { t with depth }
  /-- A token that is no name or literal is passed. -/
  | pass {L : List ParseTree} {t u : Session} {l : Lexeme} : Walk s L t → t.current = some l →
      l.token.isAtom = false → advance t = .ok () u → Walk s L u
  | keep {L : List ParseTree} {t u : Session} {l : Lexeme} {kind : Kind} : Walk s L t →
      t.current = some l → kind.isAtom = true → kind ≠ .regexLiteral → advance t = .ok () u →
      Walk s (L ++ [.leaf kind l.text l.span]) u
  | literal {L : List ParseTree} {t u : Session} {l : Lexeme} {tree : ParseTree} : Walk s L t →
      t.current = some l → l.token.mayOpenRegex = true → regexLiteral t = .ok tree u →
      Walk s (L ++ [tree]) u

/-- The moves lead to an error and leave the session as it is then, up to its level. -/
inductive Session.Fails (s : Session) : SyntaxError → Session → Prop where
  | refused {L : List ParseTree} {t : Session} {e : SyntaxError} : s.Walk L t →
      (∀ x, e ≠ .lexical x) → Fails s e t
  | advance {L : List ParseTree} {t u : Session} {l : Lexeme} {e : SyntaxError} : s.Walk L t →
      t.current = some l → advance t = .error e u → Fails s e u
  | literal {L : List ParseTree} {t u : Session} {l : Lexeme} {e : SyntaxError} : s.Walk L t →
      t.current = some l → l.token.mayOpenRegex = true → regexLiteral t = .error e u → Fails s e u
  | level {t : Session} {e : SyntaxError} (depth : Nat) : Fails s e t → Fails s e { t with depth }

theorem Session.Walk.trans (hs : s.Walk L t) (ht : t.Walk M u) : s.Walk (L ++ M) u := by
  induction ht with
  | refl => simpa using hs
  | level depth _ ih => exact ih.level depth
  | pass _ hcurrent htoken hadvance ih => exact ih.pass hcurrent htoken hadvance
  | keep _ hcurrent hkind hregex hadvance ih =>
    rw [← List.append_assoc]
    exact ih.keep hcurrent hkind hregex hadvance
  | literal _ hcurrent htoken hliteral ih =>
    rw [← List.append_assoc]
    exact ih.literal hcurrent htoken hliteral

/-- Any token can be passed. -/
theorem Session.Walk.advance (h : s.Walk L t)
    (hl : t.current = some l) (hadvance : ParserM.advance t = .ok () u) : ∃ M, s.Walk M u := by
  cases hatom : l.token.isAtom with
  | false => exact ⟨L, h.pass hl hatom hadvance⟩
  | true => exact ⟨_, h.keep hl (show Kind.isAtom .identifier = true from rfl) nofun hadvance⟩

theorem Session.Fails.of_walk (hs : s.Walk L t) (ht : t.Fails e u) : s.Fails e u := by
  induction ht with
  | refused hwalk he => exact .refused (hs.trans hwalk) he
  | advance hwalk hcurrent hadvance => exact .advance (hs.trans hwalk) hcurrent hadvance
  | literal hwalk hcurrent htoken hliteral =>
    exact .literal (hs.trans hwalk) hcurrent htoken hliteral
  | level depth _ ih => exact ih.level depth

end Grammar
end Ecma3
