import Ecma3.Proofs.Grammar.Grammatical
import Ecma3.Proofs.Grammar.Run
import Ecma3.Proofs.Token.Cover

/-! Parsers that run over words with single blanks between them. -/
namespace Ecma3

open Token (ofWord?)

/-- The text of words that come after another one. -/
def spaced (ws : List String) : List Char := ws.flatMap fun w => ' ' :: w.toList

theorem toList_intercalate_blank (w : String) (ws : List String) :
    (" ".intercalate (w :: ws)).toList = w.toList ++ spaced ws := by
  rw [String.toList_intercalate, List.map_cons]
  exact (ParseTree.intercalate_cons ' ' w.toList (ws.map String.toList)).trans
    (by rw [spaced, List.flatMap_map])

namespace Cursor

variable {c : Cursor} {w : String} {ws : List String} {t : Token}

/-- A word, with the next one after a blank, is the next piece. -/
theorem next?_word (h : ofWord? w = some t)
    (hrest : c.rest = w.toList ++ spaced ws ∨ c.rest = spaced (w :: ws)) :
    ∃ span d, c.next? = some (.ok ⟨t, w, span⟩, d) ∧ d.rest = spaced ws := by
  obtain ⟨first, others, hw, hopens⟩ := Token.opens_of_ofWord? h
  have hfirst : isBlank first = false := by
    by_cases hblank : isBlank first = true
    · rw [Token.not_opens_blank hblank] at hopens
      cases hopens
    · simpa using hblank
  have hskip : c.skipBlanks.rest = w.toList ++ spaced ws := by
    rw [skipBlanks_eq]
    rcases hrest with hrest | hrest
    · simp [hrest, hw, hfirst]
    · have hblank : isBlank ' ' = true := rfl
      simp [hrest, spaced, hw, hfirst, hblank]
  have hlongest : Token.Pattern.longest? c.skipBlanks.rest = some (t, w.length) := by
    rw [hskip]
    cases ws with
    | nil =>
      rw [spaced, List.flatMap_nil, List.append_nil]
      exact (Token.ofWord?_eq_some.1 h).1
    | cons next ws => exact Token.longest?_word h _
  have htext : c.skipBlanks.text w.length = w := by
    rw [text, hskip, ← String.length_toList, List.take_left, String.ofList_toList]
  refine ⟨c.skipBlanks.span w.length, c.skipBlanks.advance w.length, ?_, ?_⟩
  · have hne : c.skipBlanks.rest.isEmpty = false := by simp [hskip, hw]
    simp [next?, hne, item, hlongest, htext]
  · rw [advance, hskip, ← String.length_toList, List.drop_left]

theorem nextSignificant_word (h : ofWord? w = some t)
    (hrest : c.rest = w.toList ++ spaced ws ∨ c.rest = spaced (w :: ws)) :
    ∃ span d, c.nextSignificant false = (some (.ok ⟨t, w, span⟩), false, d) ∧
      d.rest = spaced ws := by
  obtain ⟨span, d, hnext, hd⟩ := next?_word h hrest
  have htrivia := (Token.ofWord?_eq_some.1 h).2
  refine ⟨span, d, ?_, hd⟩
  unfold nextSignificant
  split
  · simp_all
  · simp_all
  · simp_all

end Cursor

namespace Grammar

variable {limit depth : Nat} {s : Session} {w : String} {ws rest others : List String} {t : Token}

/-- The lexemes from the current one on are these words, on one line, and the nesting reached is
`depth`. -/
structure Session.Reads (limit depth : Nat) (ws : List String) (s : Session) : Prop where
  limit : s.limit = limit
  depth : s.depth = depth
  sameLine : s.lineBreakBefore = false
  words : ∀ w ∈ ws, IsWord w
  current : match ws with
    | [] => s.current = none
    | w :: ws =>
      (∃ token span, ofWord? w = some token ∧ s.current = some ⟨token, w, span⟩) ∧
        s.cursor.rest = spaced ws

namespace Session.Reads

theorem token? (h : s.Reads limit depth ws) : s.token? = headToken? ws := by
  cases ws with
  | nil => rw [Session.token?, h.current, Option.map_none, headToken?_nil]
  | cons w ws =>
    obtain ⟨⟨token, span, htoken, hcurrent⟩, -⟩ := h.current
    rw [Session.token?, hcurrent, Option.map_some, headToken?_cons, htoken]

theorem text (h : s.Reads limit depth (w :: ws)) : s.text = w := by
  obtain ⟨⟨token, span, -, hcurrent⟩, -⟩ := h.current
  rw [Session.text, hcurrent]

theorem withDepth (h : s.Reads limit depth ws) (other : Nat) :
    Session.Reads limit other ws { s with depth := other } :=
  ⟨h.limit, rfl, h.sameLine, h.words, h.current⟩

end Session.Reads

namespace ParserM

variable {α β : Type} {p : ParserM α} {f : α → ParserM β} {P Q : α → Prop} {R : β → Prop}

/-- Words that begin at the cursor are what the session reads after an advance. -/
theorem leads_advance_words (hlimit : s.limit = limit) (hdepth : s.depth = depth)
    (hwords : ∀ v ∈ ws, IsWord v) (hrest : s.cursor.rest = spaced ws ∨
      ∃ v vs, ws = v :: vs ∧ s.cursor.rest = v.toList ++ spaced vs) :
    Leads advance s (fun _ t => t.Reads limit depth ws) fun _ _ => False := by
  cases ws with
  | nil =>
    have hend : s.cursor.rest = [] := by simpa [spaced] using hrest
    simp only [Leads, advance, Cursor.nextSignificant_nil hend]
    exact ⟨hlimit, hdepth, rfl, hwords, rfl⟩
  | cons w ws =>
    obtain ⟨token, htoken⟩ := hwords w List.mem_cons_self
    have hrest' : s.cursor.rest = w.toList ++ spaced ws ∨ s.cursor.rest = spaced (w :: ws) := by
      rcases hrest with hrest | ⟨v, vs, heq, hrest⟩
      · exact Or.inr hrest
      · cases heq
        exact Or.inl hrest
    obtain ⟨span, d, hnext, hd⟩ := Cursor.nextSignificant_word htoken hrest'
    simp only [Leads, advance, hnext]
    exact ⟨hlimit, hdepth, rfl, hwords, ⟨token, span, htoken, rfl⟩, hd⟩

/-- From every session that reads `ws` at this depth, the parser comes to a result with `P` and to a
session that reads `rest` at the same depth. -/
def Parses (limit depth : Nat) (p : ParserM α) (ws rest : List String) (P : α → Prop) : Prop :=
  ∀ s : Session, s.Reads limit depth ws →
    Leads p s (fun a t => P a ∧ t.Reads limit depth rest) fun _ _ => False

namespace Parses

theorem mono (h : Parses limit depth p ws rest P) (hQ : ∀ a, P a → Q a) :
    Parses limit depth p ws rest Q :=
  fun s hs => (h s hs).imp fun a _ ha => ⟨hQ a ha.1, ha.2⟩

theorem pure {a : α} (h : P a) : Parses limit depth (Pure.pure a) ws ws P := fun _ hs => ⟨h, hs⟩

theorem bind (h : Parses limit depth p ws others P)
    (hf : ∀ a, P a → Parses limit depth (f a) others rest R) :
    Parses limit depth (p >>= f) ws rest R :=
  fun s hs => leads_bind.2 ((h s hs).imp fun a t ha => hf a ha.1 t ha.2)

/-- After a parser whose result is known. -/
theorem bind_eq {a : α} (h : Parses limit depth p ws others (· = a))
    (hf : Parses limit depth (f a) others rest R) : Parses limit depth (p >>= f) ws rest R := by
  refine h.bind fun found hfound => ?_
  rw [hfound]
  exact hf

/-- What comes one level deeper and leads back up. -/
theorem entered (hdepth : depth < limit) (h : ∀ s : Session, s.Reads limit (depth + 1) ws →
      Leads p s (fun a t => P a ∧ t.Reads limit depth rest) fun _ _ => False) :
    Parses limit depth (do enter; p) ws rest P := by
  intro s hs
  rw [leads_bind, leads_enter, if_neg (by rw [hs.limit, hs.depth]; omega)]
  exact h _ (hs.depth ▸ hs.withDepth _)

theorem leaves (h : Parses limit (depth + 1) p ws rest P) (hs : s.Reads limit (depth + 1) ws) :
    Leads (thenLeave p) s (fun a t => P a ∧ t.Reads limit depth rest) fun _ _ => False := by
  rw [leads_thenLeave]
  refine (h s hs).imp fun a t ha => ⟨ha.1, ?_⟩
  rw [ha.2.depth, Nat.add_sub_cancel]
  exact ha.2.withDepth depth

/-- What is parsed one level deeper. -/
theorem nested (hdepth : depth < limit) (h : Parses limit (depth + 1) p ws others P)
    (hf : ∀ a, P a → Parses limit depth (f a) others rest R) :
    Parses limit depth (do enter; let a ← thenLeaveIfOk p; f a) ws rest R := by
  refine entered hdepth fun s hs => ?_
  rw [leads_bind, leads_thenLeaveIfOk]
  refine (h s hs).imp fun a t ha => hf a ha.1 _ ?_
  rw [ha.2.depth, Nat.add_sub_cancel]
  exact ha.2.withDepth depth

end Parses

theorem parses_token? {found : Option Token} (h : headToken? ws = found) :
    Parses limit depth token? ws ws (· = found) := fun _ hs => ⟨hs.token?.trans h, hs⟩

theorem parses_sees (t : Token) :
    Parses limit depth (sees t) ws ws (· = (headToken? ws == some t)) :=
  fun _ hs => ⟨by rw [hs.token?], hs⟩

theorem parses_sees_of (h : headToken? ws = some t) :
    Parses limit depth (sees t) ws ws (· = true) :=
  (parses_sees t).mono fun seen hseen => by rw [hseen, h, beq_self_eq_true]

theorem parses_sees_not (h : headToken? ws ≠ some t) :
    Parses limit depth (sees t) ws ws (· = false) :=
  (parses_sees t).mono fun seen hseen => by rw [hseen, beq_eq_false_iff_ne.2 h]

theorem parses_currentSpan : Parses limit depth currentSpan ws ws fun _ => True :=
  fun _ hs => ⟨trivial, hs⟩

theorem parses_currentText : Parses limit depth currentText (w :: ws) (w :: ws) (· = w) :=
  fun _ hs => ⟨hs.text, hs⟩

theorem parses_lineBreakBefore : Parses limit depth lineBreakBefore ws ws (· = false) :=
  fun _ hs => ⟨hs.sameLine, hs⟩

theorem parses_spanFrom (start : Nat) : Parses limit depth (spanFrom start) ws ws fun _ => True :=
  fun _ hs => ⟨trivial, hs⟩

theorem parses_advance : Parses limit depth advance (w :: ws) ws fun _ => True := fun _ hs =>
  (leads_advance_words hs.limit hs.depth (fun v hv => hs.words v (List.mem_cons_of_mem w hv))
    (Or.inl hs.current.2)).imp fun _ _ ht => ⟨trivial, ht⟩

theorem parses_accept (h : ofWord? w = some t) :
    Parses limit depth (accept t) (w :: ws) ws (· = true) := by
  refine (parses_sees_of (headToken?_of h)).bind_eq ?_
  rw [if_pos rfl]
  exact parses_advance.bind fun _ _ => .pure rfl

theorem parses_accept_not (h : headToken? ws ≠ some t) :
    Parses limit depth (accept t) ws ws (· = false) := by
  refine (parses_sees_not h).bind_eq ?_
  rw [if_neg Bool.false_ne_true]
  exact .pure rfl

theorem parses_demand (h : ofWord? w = some t) (expected : Expected) :
    Parses limit depth (demand t expected) (w :: ws) ws fun _ => True := by
  refine (parses_sees_of (headToken?_of h)).bind_eq ?_
  rw [if_pos rfl]
  refine parses_currentSpan.bind fun _ _ => ?_
  exact parses_advance.bind fun _ _ => .pure trivial

theorem parses_leaf (kind : Kind) :
    Parses limit depth (leaf kind) (w :: ws) ws fun t => ∃ span, t = .leaf kind w span := by
  refine parses_currentSpan.bind fun span _ => parses_currentText.bind_eq ?_
  exact parses_advance.bind fun _ _ => .pure ⟨span, rfl⟩

/-- A statement ends where no words are left. -/
theorem parses_endStatement : Parses limit depth endStatement [] [] fun _ => True := by
  refine (parses_accept_not (by simp)).bind_eq ?_
  intro s hs
  have hnone : s.current = none := hs.current
  simp only [Bool.false_eq_true, if_false, leads_bind, leads_get, hnone, Option.isNone_none,
    Bool.true_or, if_true]
  exact ⟨trivial, hs⟩

/-- Turns that each parse the words of one tree, and stop before what comes after all of them. What
comes after a tree has `G`, so that the tree ends there. -/
theorem parses_collect {turn : ParserM (Turn ParseTree)} {print : ParseTree → List String}
    {G : List String → Prop} {trees : List ParseTree} {bound : Nat} (hbound : trees.length < bound)
    (hrest : G rest) (hstop : Parses limit depth turn rest rest (· = .stop))
    (hstart : ∀ e ∈ trees, ∀ ws, G (print e ++ ws))
    (hmore : ∀ e ∈ trees, ∀ ws, G ws → Parses limit depth turn (print e ++ ws) ws
      fun found => ∃ t, found = .more t ∧ t.spanless = e.spanless) :
    Parses limit depth (collect turn bound) (trees.flatMap print ++ rest) rest
      fun found => found.map ParseTree.spanless = trees.map ParseTree.spanless := by
  induction trees generalizing bound with
  | nil =>
    obtain ⟨bound, rfl⟩ := Nat.exists_eq_add_one_of_ne_zero (Nat.ne_of_gt hbound)
    refine hstop.bind_eq ?_
    exact .pure rfl
  | cons e trees ih =>
    obtain ⟨bound, rfl⟩ := Nat.exists_eq_add_one_of_ne_zero (Nat.ne_zero_of_lt hbound)
    rw [List.forall_mem_cons] at hstart hmore
    have hnext : G (trees.flatMap print ++ rest) := by
      cases trees with
      | nil => exact hrest
      | cons next trees =>
        rw [List.flatMap_cons, List.append_assoc]
        exact hstart.2 next List.mem_cons_self _
    rw [List.flatMap_cons, List.append_assoc]
    refine (hmore.1 _ hnext).bind fun found hfound => ?_
    obtain ⟨t, rfl, ht⟩ := hfound
    rw [List.length_cons, Nat.add_lt_add_iff_right] at hbound
    refine (ih hbound hstart.2 hmore.2).bind fun ts hts => .pure ?_
    rw [List.map_cons, List.map_cons, ht, hts]

/-- A turn that extends the tree, and the turns after it. -/
theorem parses_extend_more {turn : ParseTree → ParserM (Option ParseTree)} {t e : ParseTree}
    {bound : Nat} {R : ParseTree → Prop} (hbound : 0 < bound)
    (hturn : Parses limit depth (turn t) ws others
      fun next => ∃ u, next = some u ∧ u.spanless = e.spanless)
    (hdone : ∀ u, u.spanless = e.spanless →
      Parses limit depth (extend turn (bound - 1) u) others rest R) :
    Parses limit depth (extend turn bound t) ws rest R := by
  obtain ⟨bound, rfl⟩ := Nat.exists_eq_add_one_of_ne_zero (Nat.ne_of_gt hbound)
  refine hturn.bind fun next hnext => ?_
  obtain ⟨u, rfl, hu⟩ := hnext
  exact hdone u hu

/-- A turn that leaves the tree as it is. -/
theorem parses_extend_none {turn : ParseTree → ParserM (Option ParseTree)} {t : ParseTree}
    {bound : Nat} {R : ParseTree → Prop} (hbound : 0 < bound)
    (hturn : Parses limit depth (turn t) ws ws (· = none)) (ht : R t) :
    Parses limit depth (extend turn bound t) ws ws R := by
  obtain ⟨bound, rfl⟩ := Nat.exists_eq_add_one_of_ne_zero (Nat.ne_of_gt hbound)
  refine hturn.bind_eq ?_
  exact .pure ht

end ParserM
end Grammar
end Ecma3
