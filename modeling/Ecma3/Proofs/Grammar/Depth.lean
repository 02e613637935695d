import Ecma3.Proofs.Grammar.Limit
import Ecma3.Proofs.Grammar.Rescan

/-! The levels that are still counted after a call. A call that fails inside an operand, or in front
of a level that is refused, leaves some of its own to the next one. -/
namespace Ecma3.Grammar
open ParserM ParseTree

variable {s s₀ t u : Session} {x : SyntaxError} {root : Option ParseTree} {limit n : Nat}
  {source : String}

/-- Errors that leave levels counted: a level is refused, or the error arises where a parser comes
back up only if it succeeds. -/
inductive Session.Leaks (s : Session) : SyntaxError → Session → Prop where
  | refused {limit : Nat} {span : Span} {t : Session} : s.Leaks (.nestingTooDeep limit span) t
  | inside {L : List ParseTree} {u w t : Session} {p : ParserM ParseTree} {x : SyntaxError}
    (depth : Nat) (hwalk : s.Walk L u) (hopens : u.Opens p w) (hp : p w = .error x t) :
    s.Leaks x { t with depth }

theorem Session.Leaks.withDepth (h : s.Leaks x t) (depth : Nat) : s.Leaks x { t with depth } := by
  cases h with
  | refused => exact .refused
  | inside _ hwalk hopens hp =>
    have hinside := Leaks.inside depth hwalk hopens hp
    exact hinside

theorem advance_ne_nesting {span : Span} : advance s ≠ .error (.nestingTooDeep limit span) u := by
  intro h
  obtain ⟨_, _, _, _, hlexical, _⟩ := advance_eq_error h
  cases hlexical

theorem regexLiteral_ne_nesting {span : Span} :
    regexLiteral s ≠ .error (.nestingTooDeep limit span) u := by
  intro h
  rw [regexLiteral_eq] at h
  split at h
  · cases h
  · split at h
    · cases h
    · split at h
      · cases h
      · cases h
        exact advance_ne_nesting ‹_›

theorem advance_error_keeps (h : advance s = .error x u) : u.depth = s.depth := by
  obtain ⟨_, _, _, _, _, rfl⟩ := advance_eq_error h
  rfl

theorem regexLiteral_error_keeps (h : regexLiteral s = .error x u) : u.depth = s.depth := by
  rw [regexLiteral_eq] at h
  split at h
  · cases h
    rfl
  · split at h
    · cases h
      rfl
    · split at h
      · cases h
      · rename_i hadvance
        cases h
        have hkeeps := advance_error_keeps hadvance
        exact hkeeps

/-- A run beside itself, with what it has done since the session `s₀`. -/
def Comparison.depths (s₀ : Session) : Comparison where
  Rel _ n s s' := s' = s ∧ s.depth = s₀.depth + n ∧ ∃ L, s₀.Walk L s
  Ended _ _ _ := False
  Stuck _ := False
  Lost _ _ := False
  Fails n x t :=
    t.depth = s₀.depth + n ∧ (∀ limit span, x ≠ .nestingTooDeep limit span) ∨
      s₀.depth + n < t.depth ∧ s₀.Leaks x t
  common := False
  shift := 0
  matched := id
  token := by rintro _ _ s _ ⟨rfl, -⟩; rfl
  text := by rintro _ _ s _ ⟨rfl, -⟩; rfl
  start := by rintro _ _ s _ ⟨rfl, -⟩; rfl
  stop := by rintro _ _ s _ ⟨rfl, -⟩; rfl
  lastEnd := by rintro _ s _ ⟨rfl, -⟩; rfl
  lineBreak := by rintro _ s _ ⟨rfl, -⟩; rfl
  refused := fun ⟨_, hdepth, _⟩ => Or.inl fun _ _ => Or.inl ⟨hdepth, nofun⟩
  advance_ok := by
    rintro _ _ s _ t u ⟨rfl, hdepth, L, hwalk⟩ ht hu
    obtain ⟨l, hl, -⟩ := token?_eq_some ht
    exact Or.inr ⟨u, hu, Or.inl ⟨rfl, (advance_keeps hu).2.trans hdepth, hwalk.advance hl hu⟩⟩
  advance_error := by
    rintro _ _ s _ t x u ⟨rfl, hdepth, -⟩ - hu
    refine Or.inl (Or.inl ⟨(advance_error_keeps hu).trans hdepth, ?_⟩)
    rintro _ _ rfl
    exact advance_ne_nesting hu
  regex_ok := by
    rintro _ _ s _ t tree u ⟨rfl, hdepth, L, hwalk⟩ ht hopen hu
    obtain ⟨l, hl, rfl⟩ := token?_eq_some ht
    refine Or.inr (Or.inr ⟨u, hu.trans ?_, rfl, (regexLiteral_keeps hu).2.trans hdepth, _,
      hwalk.literal hl hopen hu⟩)
    exact congrArg (EStateM.Result.ok · u) (relocate_id tree).symm
  regex_error := by
    rintro _ _ s _ t x u ⟨rfl, hdepth, -⟩ - - hu
    refine Or.inl (Or.inl ⟨(regexLiteral_error_keeps hu).trans hdepth, ?_⟩)
    rintro _ _ rfl
    exact regexLiteral_ne_nesting hu
  enter_ok := by
    rintro _ _ s _ u ⟨rfl, hdepth, L, hwalk⟩ hu
    obtain rfl := enter_eq_ok hu
    exact Or.inr ⟨_, hu, rfl, by simp [hdepth, Nat.add_assoc], L, hwalk.level _⟩
  enter_error := by
    rintro _ _ s _ x u ⟨rfl, hdepth, -⟩ hu
    rw [enter_eq] at hu
    split at hu
    · cases hu
      exact Or.inl (Or.inr ⟨by simp [hdepth], .refused⟩)
    · cases hu
  leave := by
    rintro _ _ s _ ⟨rfl, hdepth, L, hwalk⟩
    exact ⟨rfl, by simp [hdepth, ← Nat.add_assoc], L, hwalk.level _⟩
  leave_fails := by
    rintro n x s (⟨hdepth, hx⟩ | ⟨hdepth, hleaks⟩)
    · exact Or.inl ⟨by simp [hdepth, ← Nat.add_assoc], hx⟩
    · exact Or.inr ⟨by simp only; omega, hleaks.withDepth _⟩
  leak := by
    rintro _ n s _ p w x u ⟨rfl, -, L, hwalk⟩ hopens hp hfails
    refine Or.inr ⟨?_, .inside u.depth hwalk hopens hp⟩
    rcases hfails with ⟨hdepth, -⟩ | ⟨hdepth, -⟩ <;> omega
  ended := .never
  stuck := .never
  lost_mono h _ _ := h
  lost_fails := False.elim

/-- What one call does to the levels that are counted. -/
theorem program_depth (s : Session) :
    (∀ root, s.program.1 = .ok root → s.program.2.depth = s.depth) ∧
    ∀ x, s.program.1 = .error x →
      s.program.2.depth = s.depth ∧ (∀ limit span, x ≠ .nestingTooDeep limit span) ∨
      s.depth < s.program.2.depth ∧ s.Leaks x s.program.2 := by
  have hfollow := program_compares (R := .depths s) (fun _ _ _ => id) ⟨rfl, rfl, [], .refl⟩
    (Nat.le_refl _)
  cases hs : ParserM.program s with
  | ok found t =>
    rw [hs] at hfollow
    rcases hfollow.ok rfl with (hlost | hstuck) | ⟨t', ht', ⟨-, hdepth, -⟩ | ⟨-, hended⟩⟩
    · exact hlost.elim
    · exact hstuck.elim
    · exact ⟨fun _ _ => by simpa [Session.program, hs] using hdepth, by simp [Session.program, hs]⟩
    · exact hended.elim
  | error y t =>
    refine ⟨by simp [Session.program, hs], fun x hx => ?_⟩
    obtain rfl : y = x := by simpa [Session.program, hs] using hx
    rcases hfollow.error hs with rfl | hfails | ⟨hcommon, -⟩
    · exact (program_ne_endless hs).elim
    · simp only [Session.program, hs]
      exact hfails
    · exact hcommon.elim

/-- Calls in a row, failed ones included: one that succeeds counts as many levels after it as before
it, and so does one that fails, unless it refuses a level or fails inside an operand, a `debugger`
statement or a lone semicolon. Then levels are left over for the calls after it. -/
theorem depth_after (hstart : Session.start limit source = .ok s) (n : Nat) :
    (s.after 0).depth = 0 ∧
    (∀ root, (s.after n).program.1 = .ok root → (s.after (n + 1)).depth = (s.after n).depth) ∧
    ∀ x, (s.after n).program.1 = .error x →
      (s.after (n + 1)).depth = (s.after n).depth ∧
        (∀ limit span, x ≠ .nestingTooDeep limit span) ∨
      (s.after n).depth < (s.after (n + 1)).depth ∧ (s.after n).Leaks x (s.after (n + 1)) :=
  ⟨start_depth hstart, program_depth (s.after n)⟩

/-- The first call leaves a level, for which the second one fails as well. -/
theorem depth_after_negation : ∃ s, Session.start 2 "-a" = .ok s ∧ (s.after 1).depth = 1 ∧
    (s.after 1).program.1 = .error (.nestingTooDeep 2 ⟨1, 2⟩) ∧ (s.after 0).depth = 0 ∧
    (∀ root, (s.after 0).program.1 = .ok root → (s.after 1).depth = (s.after 0).depth) ∧
    ∀ x, (s.after 0).program.1 = .error x →
      (s.after 1).depth = (s.after 0).depth ∧ (∀ limit span, x ≠ .nestingTooDeep limit span) ∨
      (s.after 0).depth < (s.after 1).depth ∧ (s.after 0).Leaks x (s.after 1) := by
  have hcalls : (Session.start 2 "-a").toOption.map (fun s =>
      ((s.after 1).depth, match (s.after 1).program.1 with
        | .error x => some x
        | .ok _ => none)) = some (1, some (.nestingTooDeep 2 ⟨1, 2⟩)) := by decide +kernel
  cases hstart : Session.start 2 "-a" with
  | error x => simp [hstart, Except.toOption] at hcalls
  | ok s =>
    simp only [hstart, Except.toOption, Option.map_some, Option.some.injEq, Prod.mk.injEq] at hcalls
    refine ⟨s, rfl, hcalls.1, ?_, depth_after hstart 0⟩
    have hsecond := hcalls.2
    split at hsecond
    · rename_i x hx
      cases hsecond
      exact hx
    · cases hsecond

end Ecma3.Grammar
