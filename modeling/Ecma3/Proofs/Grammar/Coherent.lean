import Ecma3.Grammar.Expression
import Ecma3.Proofs.Grammar.Run
import Ecma3.Proofs.Token.Literal

/-! Sessions that stand in their source, and what parsers make of them. -/
namespace Ecma3

open Text (byteLength)

variable {source : List Char} {c d : Cursor} {l : Lexeme} {n : Nat}

namespace Cursor

/-- The place lies in the source. -/
def At (source : List Char) (c : Cursor) : Prop :=
  ∃ before, source = before ++ c.rest ∧ c.offset = byteLength before

theorem at_ofString (source : String) : At source.toList (ofString source) := ⟨[], rfl, rfl⟩

theorem At.advance (h : c.At source) (n : Nat) : (c.advance n).At source := by
  obtain ⟨before, rfl, hoffset⟩ := h
  refine ⟨before ++ c.rest.take n, ?_, ?_⟩
  · rw [List.append_assoc]
    simp [Cursor.advance]
  · simp [Cursor.advance, hoffset, Text.byteLength_append]

theorem item_ok (h : c.item = (.ok l, d)) :
    ∃ n, Token.Pattern.longest? c.rest = some (l.token, n) ∧ l.text = c.text n ∧
      l.span = c.span n ∧ d = c.advance n := by
  unfold item at h
  split at h
  · rename_i t n hn
    cases h
    exact ⟨n, hn, rfl, rfl, rfl⟩
  · simp at h

theorem At.next? {i : Lexeme.Item} (h : c.At source) (hn : c.next? = some (i, d)) :
    ∃ b : Cursor, b.At source ∧ b.item = (i, d) := by
  simp only [Cursor.next?, Option.ite_none_left_eq_some, Option.some.injEq] at hn
  exact ⟨c.skipBlanks, h.advance _, hn.2⟩

theorem At.of_item {i : Lexeme.Item} (h : c.At source) (hi : c.item = (i, d)) : d.At source := by
  unfold item at hi
  split at hi <;> cases hi <;> exact h.advance _

/-- The next lexeme was cut at a place in the source, and the cursor stands behind it. -/
theorem At.nextSignificant (h : c.At source) {lineBreak broken : Bool} {found : Option Lexeme.Item}
    (hn : c.nextSignificant lineBreak = (found, broken, d)) :
    d.At source ∧ ∀ l, found = some (.ok l) →
      ∃ b : Cursor, b.At source ∧ b.item = (.ok l, d) ∧ l.token.isTrivia = false := by
  fun_induction Cursor.nextSignificant lineBreak c with
  | case1 lineBreak c hnone =>
    cases hn
    exact ⟨h, by simp⟩
  | case2 lineBreak c e k hk =>
    cases hn
    obtain ⟨b, hb, hi⟩ := h.next? hk
    exact ⟨hb.of_item hi, by simp⟩
  | case3 lineBreak c l k hk _ ih =>
    obtain ⟨b, hb, hi⟩ := h.next? hk
    exact ih (hb.of_item hi) hn
  | case4 lineBreak c l k hk htrivia =>
    cases hn
    obtain ⟨b, hb, hi⟩ := h.next? hk
    refine ⟨hb.of_item hi, fun l' hl => ?_⟩
    cases hl
    exact ⟨b, hb, hi, by simpa using htrivia⟩

end Cursor

theorem Text.dropBytes?_append (before rest : List Char) :
    dropBytes? (byteLength before) (before ++ rest) = some rest := by
  induction before with
  | nil => cases rest <;> rfl
  | cons c before ih =>
    have hpos := c.utf8Size_pos
    obtain ⟨k, hk⟩ : ∃ k, byteLength (c :: before) = k + 1 :=
      ⟨byteLength (c :: before) - 1, by simp only [byteLength]; omega⟩
    rw [hk, List.cons_append, dropBytes?]
    simp only [byteLength] at hk
    rw [if_pos (by omega), show k + 1 - c.utf8Size = byteLength before by omega, ih]

theorem Text.eq_append_of_dropBytes? {cs rest : List Char} (h : dropBytes? n cs = some rest) :
    ∃ before, cs = before ++ rest ∧ byteLength before = n := by
  fun_induction dropBytes? n cs with
  | case1 cs => exact ⟨[], by simp_all, rfl⟩
  | case2 => simp at h
  | case3 n c cs hsize ih =>
    obtain ⟨before, rfl, hlength⟩ := ih h
    exact ⟨c :: before, rfl, by simp only [byteLength]; omega⟩
  | case4 => simp at h

theorem Cursor.At.skipBytes? (h : c.At source) (hd : c.skipBytes? n = some d) : d.At source := by
  obtain ⟨before, rfl, hoffset⟩ := h
  obtain ⟨rest, hrest, rfl⟩ := Option.map_eq_some_iff.1 hd
  obtain ⟨passed, hpassed, hlength⟩ := Text.eq_append_of_dropBytes? hrest
  exact ⟨before ++ passed, by simp [hpassed],
    by simp [hoffset, hlength, Text.byteLength_append]⟩

namespace Grammar

/-- The cursor lies in the source, behind the current lexeme, which was cut at a place in the
source. -/
structure Session.Coherent (s : Session) : Prop where
  cursor : s.cursor.At s.source
  current : ∀ l, s.current = some l →
    ∃ c : Cursor, c.At s.source ∧ c.item = (.ok l, s.cursor) ∧ l.token.isTrivia = false

theorem Session.Coherent.withDepth {s : Session} (h : s.Coherent) (depth : Nat) :
    Session.Coherent { s with depth } := ⟨h.cursor, h.current⟩

namespace ParserM

variable {α β : Type} {p q : ParserM α} {f : α → ParserM β} {s : Session} {P Q : α → Prop}
  {R : β → Prop}

theorem leads_advance (h : s.cursor.At s.source) :
    Leads advance s (fun _ t => t.Coherent ∧ t.source = s.source) fun _ _ => True := by
  unfold Leads advance
  generalize hn : s.cursor.nextSignificant false = found
  obtain ⟨found, lineBreak, d⟩ := found
  have hd := h.nextSignificant hn
  cases found with
  | none => exact ⟨⟨hd.1, by simp⟩, rfl⟩
  | some item =>
    cases item with
    | error e => exact trivial
    | ok l => exact ⟨⟨hd.1, fun l' hl => by cases hl; exact hd.2 l rfl⟩, rfl⟩

/-- Whatever the parser makes from a session that stands in its source has `Q`, and the session
after it stands there too. -/
def Gives (p : ParserM α) (Q : α → Prop) : Prop :=
  ∀ s : Session, s.Coherent → Leads p s (fun a t => Q a ∧ t.Coherent) fun _ _ => True

namespace Gives

theorem mono (h : Gives p P) (hQ : ∀ a, P a → Q a) : Gives p Q :=
  fun s hs => (h s hs).imp fun a _ ha => ⟨hQ a ha.1, ha.2⟩

theorem pure {a : α} (h : Q a) : Gives (Pure.pure a) Q := fun _ hs => ⟨h, hs⟩

theorem throw {e : SyntaxError} : Gives (MonadExcept.throw e : ParserM α) Q := fun _ _ => trivial

theorem unexpected {expected : Expected} : Gives (ParserM.unexpected expected : ParserM α) Q :=
  fun _ _ => trivial

theorem unexpected_bind {expected : Expected} : Gives (ParserM.unexpected expected >>= f) R :=
  fun _ _ => trivial

theorem bind (hp : Gives p P) (hf : ∀ a, P a → Gives (f a) R) : Gives (p >>= f) R := by
  intro s hs
  rw [leads_bind]
  exact (hp s hs).imp fun a t ha => hf a ha.1 t ha.2

theorem map {g : α → β} (hp : Gives p P) (hg : ∀ a, P a → R (g a)) : Gives (g <$> p) R := by
  intro s hs
  rw [leads_map]
  exact (hp s hs).imp fun a t ha => ⟨hg a ha.1, ha.2⟩

theorem ite {c : Prop} [Decidable c] (hp : c → Gives p Q) (hq : ¬c → Gives q Q) :
    Gives (if c then p else q) Q := by
  split
  · exact hp ‹_›
  · exact hq ‹_›

end Gives

theorem gives_token? : Gives token? fun _ => True := fun _ hs => ⟨trivial, hs⟩

theorem gives_currentSpan : Gives currentSpan fun _ => True := fun _ hs => ⟨trivial, hs⟩

theorem gives_currentText : Gives currentText fun _ => True := fun _ hs => ⟨trivial, hs⟩

theorem gives_lineBreakBefore : Gives lineBreakBefore fun _ => True := fun _ hs => ⟨trivial, hs⟩

theorem gives_spanFrom (start : Nat) : Gives (spanFrom start) fun _ => True :=
  fun _ hs => ⟨trivial, hs⟩

theorem gives_get : Gives get fun _ => True := fun _ hs => ⟨trivial, hs⟩

theorem gives_sees (t : Token) : Gives (sees t) fun _ => True := fun _ hs => ⟨trivial, hs⟩

theorem gives_advance : Gives advance fun _ => True := fun _ hs =>
  (leads_advance hs.cursor).imp fun _ _ ht => ⟨trivial, ht.1⟩

theorem gives_accept (t : Token) : Gives (accept t) fun _ => True :=
  (gives_sees t).bind fun _ _ => .ite (fun _ => gives_advance.bind fun _ _ => .pure trivial)
    fun _ => .pure trivial

theorem gives_demand (t : Token) (expected : Expected) : Gives (demand t expected) fun _ => True :=
  (gives_sees t).bind fun _ _ =>
    .ite (fun _ => gives_currentSpan.bind fun _ _ => gives_advance.bind fun _ _ => .pure trivial)
      fun _ => .unexpected

theorem gives_endStatement : Gives endStatement fun _ => True := by
  refine (gives_accept _).bind fun _ _ => .ite (fun _ => .pure trivial) fun _ => ?_
  exact gives_get.bind fun s _ => .ite (fun _ => .pure trivial) fun _ => .unexpected

theorem gives_leave : Gives leave fun _ => True := fun _ hs => ⟨trivial, hs.withDepth _⟩

theorem gives_enter : Gives enter fun _ => True := by
  intro s hs
  rw [leads_enter]
  split
  · trivial
  · exact ⟨trivial, hs.withDepth _⟩

theorem Gives.thenLeave (h : Gives p Q) : Gives (thenLeave p) Q := fun s hs =>
  leads_thenLeave.2 ((h s hs).mono (fun _ _ ha => ⟨ha.1, ha.2.withDepth _⟩) fun _ _ _ => trivial)

theorem Gives.thenLeaveIfOk (h : Gives p Q) : Gives (thenLeaveIfOk p) Q :=
  h.bind fun _ ha => gives_leave.bind fun _ _ => .pure ha

/-- What a turn of a repetition found, if it found anything, has `Q`. -/
def Turn.Has (Q : α → Prop) : Turn α → Prop
  | .stop | .skip => True
  | .last a | .more a => Q a

theorem gives_collect {turn : ParserM (Turn α)} (h : Gives turn (Turn.Has Q)) (bound : Nat) :
    Gives (collect turn bound) fun found => ∀ a ∈ found, Q a := by
  induction bound with
  | zero => exact .throw
  | succ bound ih =>
    refine h.bind fun found hfound => ?_
    cases found with
    | stop => exact .pure (by simp)
    | skip => exact ih
    | last a => exact .pure (List.forall_mem_singleton.2 hfound)
    | more a => exact ih.bind fun others hothers => .pure (List.forall_mem_cons.2 ⟨hfound, hothers⟩)

theorem gives_extend {turn : ParseTree → ParserM (Option ParseTree)} {Q : ParseTree → Prop}
    (h : ∀ tree, Q tree → Gives (turn tree) fun next => ∀ t ∈ next, Q t) (bound : Nat)
    (tree : ParseTree) (htree : Q tree) : Gives (extend turn bound tree) Q := by
  intro s hs
  refine leads_extend (I := fun tree t => Q tree ∧ t.Coherent) ?_ (fun _ => trivial) ⟨htree, hs⟩
  intro tree s htree
  refine (h tree htree.1 s htree.2).imp fun next t ht => ?_
  cases next with
  | none => exact ⟨htree.1, ht.2⟩
  | some tree => exact ⟨ht.1 tree rfl, ht.2⟩

end ParserM
end Grammar
end Ecma3
