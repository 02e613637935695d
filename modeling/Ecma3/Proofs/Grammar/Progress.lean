import Ecma3.Proofs.Grammar.Bound
import Ecma3.Proofs.Grammar.Comparison.Expression
import Ecma3.Proofs.Grammar.Simulation.Program

/-!
Parsers go forward: what is found has taken a token at least, whatever session the parser begins
with and whatever its bounds are.
-/
namespace Ecma3.Grammar
open ParserM ParseTree

variable {α β : Type} {inner : Inner} {s t u : Session} {L : List ParseTree}
  {m n b bound : Nat} {c : Account} {e : α → β} {after : α → Account} {a : α}
  {p p' : ParserM α} {tree : ParseTree}

/-- So many tokens are passed on the way from one session to another. A regular expression is one
token. -/
inductive Session.Passes (s : Session) : Nat → Session → Prop where
  | refl : s.Passes 0 s
  | level {n : Nat} {t : Session} (depth : Nat) : s.Passes n t → s.Passes n { t with depth }
  | token {n : Nat} {t u : Session} {l : Lexeme} : s.Passes n t → t.current = some l →
      advance t = .ok () u → s.Passes (n + 1) u
  | literal {n : Nat} {t u : Session} {l : Lexeme} {tree : ParseTree} : s.Passes n t →
      t.current = some l → l.token.mayOpenRegex = true → regexLiteral t = .ok tree u →
      s.Passes (n + 1) u

/-- At least one token is passed on the way. -/
def Session.Precedes (s t : Session) : Prop := ∃ n, 0 < n ∧ s.Passes n t

namespace Session

theorem Passes.trans (hs : s.Passes m t) (ht : t.Passes n u) : s.Passes (m + n) u := by
  induction ht with
  | refl => exact hs
  | level depth _ ih => exact ih.level depth
  | token _ hcurrent hadvance ih => exact ih.token hcurrent hadvance
  | literal _ hcurrent hslash hliteral ih => exact ih.literal hcurrent hslash hliteral

/-- The tokens that are passed are not left any more. -/
theorem Passes.left (h : s.Passes n t) : n + t.left ≤ s.left := by
  induction h with
  | refl => simp
  | level depth _ ih => exact ih
  | token _ hcurrent hadvance ih =>
    have hlt := left_advance hcurrent hadvance
    omega
  | literal _ hcurrent _ hliteral ih =>
    have hlt := left_regexLiteral hcurrent hliteral
    omega

/-- Where there is less left, a token was passed. -/
theorem Passes.pos (h : s.Passes n t) (hleft : t.left < s.left) : 0 < n := by
  have hzero : n = 0 → t.left = s.left := by
    intro hn
    induction h with
    | refl => rfl
    | level depth _ ih => exact ih hleft hn
    | token => cases hn
    | literal => cases hn
  omega

theorem Walk.passes (h : s.Walk L t) : ∃ n, s.Passes n t := by
  induction h with
  | refl => exact ⟨0, .refl⟩
  | level depth _ ih => exact ⟨_, ih.choose_spec.level depth⟩
  | pass _ hcurrent _ hadvance ih => exact ⟨_, ih.choose_spec.token hcurrent hadvance⟩
  | keep _ hcurrent _ _ hadvance ih => exact ⟨_, ih.choose_spec.token hcurrent hadvance⟩
  | literal _ hcurrent hslash hliteral ih =>
    exact ⟨_, ih.choose_spec.literal hcurrent hslash hliteral⟩

theorem Precedes.trans (hs : s.Precedes t) (ht : t.Precedes u) : s.Precedes u := by
  obtain ⟨m, hm, hst⟩ := hs
  obtain ⟨n, -, htu⟩ := ht
  exact ⟨m + n, by omega, hst.trans htu⟩

end Session

/-- Whoever accounts for a token has passed one. -/
theorem Tracks.precedes (h : Tracks .same bound c p p' after e) (hs : c.Fits bound s)
    (hp : p s = .ok a t) (hlt : c.passed < (after a).passed) : s.Precedes t := by
  have hleads := (h.run s hs).ok hp
  obtain ⟨L, -, hwalk⟩ := hleads.walk
  obtain ⟨n, hpasses⟩ := hwalk.passes
  have hpassed := hleads.passed
  exact ⟨n, hpasses.pos (by omega), hpasses⟩

theorem Inner.tracked_parseWithin (bound : Nat) (R : Simulation) :
    Inner.Tracked R bound ⟨bound, parseWithin bound⟩ ⟨bound, parseWithin bound⟩ :=
  ⟨Nat.le_refl _, fun goal d _ => tracks_parseWithin bound bound goal d (Nat.zero_le _)⟩

namespace ParserM

/-- The parser passes a token if it succeeds. -/
def Moves (p : ParserM α) : Prop := ∀ s, Leads p s (fun _ t => s.Precedes t) fun _ _ => True

/-- The parser passes a token if it succeeds with such a result. -/
def MovesIf (takes : α → Prop) (p : ParserM α) : Prop :=
  ∀ s, Leads p s (fun a t => takes a → s.Precedes t) fun _ _ => True

/-- A turn that takes something, be it the last one or not. -/
def Turn.Takes (found : Turn α) : Prop := found ≠ .stop

end ParserM

/-- Before a part of a construct, a token was passed. -/
def Account.inside : Account := ⟨[], 1, none⟩

/-- A parser that accounts for a token within great bounds passes one within any. -/
theorem movesIf_of_tracks {takes : α → Prop} {p : Inner → ParserM α}
    (hwithin : ∀ {inner inner' : Inner}, inner.Within inner' → (p inner).Approximates (p inner'))
    (htracks : ∀ {bound : Nat} {inner : Inner}, inner.Tracked .same bound inner →
      Tracks .same bound c (p inner) (p inner) after e)
    (hnext : c.next = none) (hpassed : ∀ a, takes a → c.passed < (after a).passed) :
    (p ⟨b, parseWithin m⟩).MovesIf takes := by
  intro s
  -- An account says nothing where the bound is smaller than what is left, so the bounds are raised.
  have hgreat : ∃ bound, b ≤ bound ∧ m ≤ bound ∧ s.left + c.passed < bound :=
    ⟨b + m + s.left + c.passed + 1, by omega⟩
  obtain ⟨bound, hb, hm, hleft⟩ := hgreat
  have hgoes := htracks (Inner.tracked_parseWithin bound .same)
  unfold Leads
  split
  · rename_i a t ha
    have hsame := (hwithin (Inner.within_of_le hb hm)).of_ok ha
    exact fun htakes => hgoes.precedes ⟨hleft, by simp [hnext]⟩ hsame (hpassed a htakes)
  · trivial

/-- So does one that accounts for a tree. -/
theorem moves_of_tracksTree {p : Inner → ParserM ParseTree}
    (hwithin : ∀ {inner inner' : Inner}, inner.Within inner' → (p inner).Approximates (p inner'))
    (htracks : ∀ {bound : Nat} {inner : Inner}, inner.Tracked .same bound inner →
      TracksTree .same bound 1 (p inner) (p inner)) : (p ⟨b, parseWithin m⟩).Moves := by
  have hmoves : (p ⟨b, parseWithin m⟩).MovesIf fun _ => True :=
    movesIf_of_tracks hwithin (fun h => htracks h .inside (Nat.le_refl 1)) rfl (by simp)
  exact fun s => (hmoves s).imp fun _ _ h => h trivial

namespace ParserM

theorem leads_advance_precedes {token : Token} (h : s.token? = some token) :
    Leads advance s (fun _ t => s.Precedes t) fun _ _ => True := by
  obtain ⟨l, hl, -⟩ := token?_eq_some h
  unfold Leads
  split
  · exact ⟨1, Nat.one_pos, .token .refl hl ‹_›⟩
  · trivial

theorem moves_demand (token : Token) (expected : Expected) : (demand token expected).Moves := by
  intro s
  simp only [demand, leads_bind, leads_sees]
  split
  · rename_i hsees
    simp only [leads_bind, leads_currentSpan]
    exact (leads_advance_precedes (by simpa using hsees)).imp fun _ _ ht => ht
  · trivial

theorem leads_accept_precedes (token : Token) : Leads (accept token) s
    (fun passed t => s.Precedes t ∨ passed = false ∧ t = s) fun _ _ => True := by
  rw [leads_accept]
  split
  · exact (leads_advance_precedes ‹_›).imp fun _ _ ht => Or.inl ht
  · exact Or.inr ⟨rfl, rfl⟩

/-- A turn that goes on where a comma follows its value. -/
theorem leads_value {value : ParseTree} (hs : s.Precedes t) :
    Leads (do if ← acceptMark .comma then return Turn.more value else return .last value) t
      (fun found u => found.Takes → s.Precedes u) fun _ _ => True := by
  rw [leads_bind]
  refine (leads_accept_precedes _).imp fun passed u hu => ?_
  have hlast : s.Precedes u := by
    rcases hu with htu | ⟨-, rfl⟩
    · exact hs.trans htu
    · exact hs
  cases passed with
  | false => exact fun _ => hlast
  | true => exact fun _ => hlast

theorem Moves.commaTurn {element : ParserM ParseTree} (h : element.Moves) :
    (ParserM.commaTurn element).MovesIf Turn.Takes := by
  intro s
  simp only [ParserM.commaTurn, acceptMark, leads_bind]
  refine (leads_accept_precedes _).imp fun passed t ht => ?_
  cases passed with
  | false => exact fun hstop => absurd rfl hstop
  | true =>
    have hcomma : s.Precedes t := by simpa using ht
    exact leads_bind.2 ((h t).imp fun tree u hu _ => hcomma.trans hu)

end ParserM

namespace Inner

/-- The parsers for what stands inside a construct pass tokens. -/
def Moves (inner : Inner) : Prop := ∀ goal, (inner.parse goal).Moves

variable (h : inner.Moves)
include h

theorem statementTurn_moves (ends : Token → Bool) :
    (inner.statementTurn ends).MovesIf Turn.Takes := by
  intro s
  simp only [statementTurn, acceptMark, leads_bind, leads_token?]
  split
  · exact fun hstop => absurd rfl hstop
  · split
    · exact fun hstop => absurd rfl hstop
    · rw [leads_bind]
      refine (leads_accept_precedes _).imp fun passed t ht => ?_
      -- A semicolon is a turn by itself; without one the statement takes the token.
      rcases ht with hst | ⟨rfl, rfl⟩
      · cases passed with
        | true => exact fun _ => hst
        | false => exact leads_bind.2 ((h .statement t).imp fun tree u hu _ => hst.trans hu)
      · exact leads_bind.2 ((h .statement t).imp fun tree u hu _ => hu)

theorem arrayItem_moves : inner.arrayItem.MovesIf Turn.Takes := by
  intro s
  simp only [arrayItem, leads_bind, leads_token?]
  split
  · exact fun hstop => absurd rfl hstop
  · rename_i hcomma
    simp only [leads_bind, leads_currentSpan]
    exact (leads_advance_precedes hcomma).imp fun _ _ ht _ => ht
  · exact leads_bind.2 ((h (.assignment true) s).imp fun value t ht => leads_value ht)

theorem property_moves : inner.property.MovesIf Turn.Takes := by
  intro s
  have hname : propertyName.Moves :=
    moves_of_tracksTree (b := 0) (m := 0) (p := fun _ => propertyName) (fun _ => .refl)
      fun _ d _ => tracks_propertyName d (Nat.zero_le _)
  have hcolon : (demandMark .colon).Moves := moves_demand _ _
  simp only [property, seesMark, leads_bind, leads_sees]
  split
  · exact fun hstop => absurd rfl hstop
  · rw [leads_bind]
    refine (hname s).imp fun name t ht => ?_
    rw [leads_bind]
    refine (hcolon t).imp fun _ u hu => ?_
    rw [leads_bind]
    exact (h (.assignment true) u).imp fun value v hv => leads_value ((ht.trans hu).trans hv)

end Inner

/-- Every goal takes at least one token. -/
theorem parseWithin_moves (m : Nat) (goal : Goal) : (parseWithin m goal).Moves :=
  moves_of_tracksTree (b := m) (p := fun inner => inner.parse goal) (fun h => h.parse goal)
    fun h => h.parse goal

namespace Inner

theorem outerAssignment_moves : (Inner.assignment ⟨b, parseWithin m⟩ true).Moves :=
  moves_of_tracksTree (p := fun inner => inner.assignment true)
    (fun h => assignment_within h true)
    fun h d _ => tracks_assignment h true d (Nat.zero_le _)

theorem declarator_moves (allowIn : Bool) : (Inner.declarator ⟨b, parseWithin m⟩ allowIn).Moves :=
  moves_of_tracksTree (p := fun inner => inner.declarator allowIn)
    (fun h => declarator_within h allowIn)
    fun h d _ => tracks_declarator h allowIn d (Nat.zero_le _)

theorem identifier_moves : identifier.Moves :=
  moves_of_tracksTree (b := 0) (m := 0) (p := fun _ => identifier) (fun _ => .refl)
    fun _ d _ => tracks_identifier d (Nat.zero_le _)

theorem caseClause_moves : (Inner.caseClause ⟨b, parseWithin m⟩).Moves :=
  moves_of_tracksTree (p := caseClause) caseClause_within
    fun h d _ => tracks_caseClause h d (Nat.zero_le _)

theorem defaultClause_moves : (Inner.defaultClause ⟨b, parseWithin m⟩).Moves :=
  moves_of_tracksTree (p := defaultClause) defaultClause_within
    fun h d _ => tracks_defaultClause h d (Nat.zero_le _)

theorem suffix_moves (object : ParseTree) :
    (Inner.suffix ⟨b, parseWithin m⟩ object).MovesIf (Option.isSome · = true) := by
  refine movesIf_of_tracks (p := fun inner => inner.suffix object)
    (c := Account.inside.plus object.atoms 1) (fun h => suffix_within h object)
    (fun h => tracks_suffix h rfl 0) rfl fun next hnext => ?_
  obtain ⟨tree, rfl⟩ := Option.isSome_iff_exists.1 hnext
  simp

theorem binaryStep_moves (allowIn : Bool) (least : Nat) (left : ParseTree) :
    (Inner.binaryStep ⟨b, parseWithin m⟩ allowIn least left).MovesIf (Option.isSome · = true) := by
  refine movesIf_of_tracks (p := fun inner => inner.binaryStep allowIn least left)
    (c := Account.inside.plus left.atoms 1) (fun h => binaryStep_within h allowIn least left)
    (fun h => tracks_binaryStep h allowIn least rfl 0) rfl fun next hnext => ?_
  obtain ⟨tree, rfl⟩ := Option.isSome_iff_exists.1 hnext
  simp

end Inner
end Ecma3.Grammar
