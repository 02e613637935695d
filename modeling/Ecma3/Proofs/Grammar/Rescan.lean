import Ecma3.Proofs.Grammar.Simulation.Program

/-! Where the cursor stands when a slash is read again as a regular expression. After text that is
no token the lexeme before it stays the current one, and a later call may take that lexeme up
again with the cursor ahead of it. -/
namespace Ecma3

open Text (byteLength)

variable {source : List Char} {c d : Cursor} {t : Token} {cs : List Char} {n : Nat}

/-- The less text is left, the further on is the cursor. -/
theorem Cursor.At.offset_lt (hc : c.At source) (hd : d.At source)
    (h : d.rest.length < c.rest.length) : c.offset < d.offset := by
  obtain ⟨before, hbefore, hoffset⟩ := hc
  obtain ⟨before', hbefore', hoffset'⟩ := hd
  have hlength := congrArg List.length hbefore
  rw [hbefore', List.length_append, List.length_append] at hlength
  obtain ⟨passed, rfl⟩ : before <+: before' :=
    List.prefix_of_prefix_length_le ⟨_, hbefore.symm⟩ ⟨_, hbefore'.symm⟩ (by omega)
  rw [hoffset, hoffset', Text.byteLength_append]
  cases passed with
  | nil => simp at hlength; omega
  | cons first passed =>
    have hpos := first.utf8Size_pos
    simp only [byteLength]
    omega

/-- What is skipped is gone from the text, byte for byte. -/
theorem Cursor.skipBytes?_eq (h : c.skipBytes? n = some d) :
    d.rest.length ≤ c.rest.length ∧ d.offset = c.offset + n := by
  obtain ⟨rest, hrest, rfl⟩ := Option.map_eq_some_iff.1 h
  obtain ⟨passed, hpassed, -⟩ := Text.eq_append_of_dropBytes? hrest
  exact ⟨by simp [hpassed], rfl⟩

/-- Whole characters can be skipped. -/
theorem Cursor.skipBytes?_take (c : Cursor) (k : Nat) :
    c.skipBytes? (byteLength (c.rest.take k)) = some (c.advance k) := by
  have hdrop := Text.dropBytes?_append (c.rest.take k) (c.rest.drop k)
  rw [List.take_append_drop] at hdrop
  rw [skipBytes?, hdrop]
  rfl

theorem Token.Pattern.length_of_mayOpenRegex (h : longest? cs = some (t, n))
    (ht : t.mayOpenRegex = true) : n ≤ 2 := by
  have hmatched := longest?_matched h
  cases t with
  | punctuator mark =>
    simp only [matched?, spelled?, Option.ite_none_right_eq_some, Option.some.injEq] at hmatched
    obtain ⟨-, rfl⟩ := hmatched
    cases mark
    case slash => decide
    case slashAssign => decide
    all_goals simp [Token.mayOpenRegex] at ht
  | _ => simp [Token.mayOpenRegex] at ht

namespace Grammar
open ParserM ParseTree

variable {s u : Session} {l literal : Lexeme} {e : SyntaxError} {L : List ParseTree}
  {stops : Cursor → Prop}

theorem Session.Coherent.stop_eq (hs : s.Coherent) (hcurrent : s.current = some l) :
    s.cursor.offset = l.span.stop := by
  obtain ⟨c, -, hitem, -⟩ := hs.current l hcurrent
  obtain ⟨n, -, -, hspan, hcursor⟩ := Cursor.item_ok hitem
  rw [hspan, hcursor]
  rfl

/-- From behind the slash the cursor can be moved to the end of the literal. -/
theorem Session.Coherent.rescan (hs : s.Coherent) (hcurrent : s.current = some l)
    (hslash : l.token.mayOpenRegex = true) (hliteral : s.regex? = some literal) :
    ∃ d, s.cursor.skipBytes? (literal.span.stop - l.span.stop) = some d ∧
      d.offset = literal.span.stop ∧ d.At s.source := by
  obtain ⟨c, ⟨before, hsource, hoffset⟩, hitem, -⟩ := hs.current l hcurrent
  obtain ⟨n, hn, -, hspan, hcursor⟩ := Cursor.item_ok hitem
  obtain ⟨rest, hrest, -⟩ := Token.Pattern.slash_of_mayOpenRegex hn hslash
  have hstart : s.span.start = byteLength before := by
    simp [Session.span, hcurrent, hspan, Cursor.span, hoffset]
  simp only [Session.regex?, hstart, hsource, Text.dropBytes?_append, Option.bind_eq_bind,
    Option.bind_some, Option.bind_eq_some_iff, Option.pure_def, Option.some.injEq] at hliteral
  obtain ⟨k, hk, rfl⟩ := hliteral
  -- The slash is the beginning of the literal, so what is skipped is the rest of the literal.
  have hle : n ≤ k := by
    have htwo := Token.Pattern.length_of_mayOpenRegex hn hslash
    rw [hrest] at hk
    obtain ⟨pattern, flags, hpattern, -⟩ := Token.RegexLiteral.length?_text hk
    have hlength := congrArg List.length hpattern
    simp only [List.length_take, List.length_cons, List.length_append] at hlength
    omega
  have hcut : byteLength (c.rest.take k) =
      byteLength (c.rest.take n) + byteLength ((c.rest.drop n).take (k - n)) := by
    rw [← Text.byteLength_append, ← List.take_add, Nat.add_sub_cancel' hle]
  have hstop : l.span.stop = byteLength before + byteLength (c.rest.take n) := by
    rw [hspan, ← hoffset]
    rfl
  have htext : s.cursor.rest = c.rest.drop n := by
    rw [hcursor]
    rfl
  have hskipped : byteLength before + byteLength (c.rest.take k) - l.span.stop =
      byteLength (s.cursor.rest.take (k - n)) := by
    rw [htext]
    omega
  refine ⟨s.cursor.advance (k - n), ?_, ?_, hs.cursor.advance _⟩
  · rw [hskipped, Cursor.skipBytes?_take]
  · have hafter := hs.stop_eq hcurrent
    simp only [Cursor.advance]
    omega

/-- `stops` are the places where text that is no token has stopped the cursor. Either the cursor
has gone on since then and stands behind the current lexeme, or it still stands there, and the
current lexeme ends before it. -/
structure Session.Placed (source : List Char) (stops : Cursor → Prop) (s : Session) : Prop where
  source_eq : s.source = source
  cursor : s.cursor.At source
  beyond : ∀ c, stops c → s.cursor.rest.length ≤ c.rest.length
  current : (s.Coherent ∧
      ∀ c, stops c → s.current.isSome → s.cursor.rest.length < c.rest.length) ∨
    (stops s.cursor ∧ ∀ l, s.current = some l → l.span.stop < s.cursor.offset)

namespace Session.Placed

theorem withDepth (h : s.Placed source stops) (depth : Nat) :
    Session.Placed source stops { s with depth } :=
  ⟨h.source_eq, h.cursor, h.beyond,
    h.current.imp (fun hfresh => ⟨hfresh.1.withDepth depth, hfresh.2⟩) id⟩

theorem congr {stops' : Cursor → Prop} (h : s.Placed source stops)
    (hstops : ∀ c, stops' c ↔ stops c) : s.Placed source stops' := by
  have heq : stops' = stops := funext fun c => propext (hstops c)
  rwa [heq]

theorem stop_le (h : s.Placed source stops) (hcurrent : s.current = some l) :
    l.span.stop ≤ s.cursor.offset := by
  rcases h.current with ⟨hcoherent, -⟩ | ⟨-, hbehind⟩
  · exact Nat.le_of_eq (hcoherent.stop_eq hcurrent).symm
  · exact Nat.le_of_lt (hbehind l hcurrent)

/-- The cursor stands at the end of the current lexeme unless it was stopped just there. -/
theorem in_step_iff (h : s.Placed source stops) (hcurrent : s.current = some l) :
    s.cursor.offset = l.span.stop ↔ ¬ stops s.cursor := by
  rcases h.current with ⟨hcoherent, hgone⟩ | ⟨hstopped, hbehind⟩
  · refine iff_of_true (hcoherent.stop_eq hcurrent) fun hstopped => ?_
    exact Nat.lt_irrefl _ (hgone _ hstopped (by simp [hcurrent]))
  · have hlt := hbehind l hcurrent
    exact iff_of_false (by omega) (not_not_intro hstopped)

theorem coherent (h : s.Placed source stops) (hcurrent : s.current = some l)
    (hstep : s.cursor.offset = l.span.stop) : s.Coherent := by
  rcases h.current with ⟨hcoherent, -⟩ | ⟨hstopped, -⟩
  · exact hcoherent
  · exact absurd hstopped ((h.in_step_iff hcurrent).1 hstep)

/-- Moving on to a token brings the cursor back in step. -/
theorem advance (h : ParserM.advance s = .ok () u) (hsource : s.source = source)
    (hcursor : s.cursor.At source)
    (hbeyond : ∀ c, stops c → s.cursor.rest.length ≤ c.rest.length) : u.Placed source stops := by
  obtain ⟨hcoherent, hsame⟩ := (leads_advance (hsource.symm ▸ hcursor)).ok h
  obtain ⟨next, broken, d, hn, rfl⟩ := advance_eq_ok h
  have hle := Cursor.nextSignificant_le hn
  refine ⟨hsource, hsource ▸ hcoherent.cursor, fun c hc => Nat.le_trans hle (hbeyond c hc),
    Or.inl ⟨hcoherent, fun c hc hnext => ?_⟩⟩
  cases next with
  | none => simp at hnext
  | some m => exact Nat.lt_of_lt_of_le (Cursor.nextSignificant_lt hn) (hbeyond c hc)

/-- Moving on to text that is no token leaves the current lexeme behind. -/
theorem advance_error (h : ParserM.advance s = .error e u) (hsource : s.source = source)
    (hcursor : s.cursor.At source)
    (hbeyond : ∀ c, stops c → s.cursor.rest.length ≤ c.rest.length)
    (hstop : ∀ l, s.current = some l → l.span.stop ≤ s.cursor.offset) :
    (∃ x, e = .lexical x) ∧ u.Placed source fun c => stops c ∨ u.cursor = c := by
  obtain ⟨x, broken, d, hn, rfl, rfl⟩ := advance_eq_error h
  have hlt := Cursor.nextSignificant_lt hn
  have hd := (hcursor.nextSignificant hn).1
  refine ⟨⟨x, rfl⟩, hsource, hd, ?_, Or.inr ⟨Or.inr rfl, fun l hl => ?_⟩⟩
  · rintro c (hc | rfl)
    · exact Nat.le_trans (Nat.le_of_lt hlt) (hbeyond c hc)
    · exact Nat.le_refl _
  · exact Nat.lt_of_le_of_lt (hstop l hl) (hcursor.offset_lt hd hlt)

/-- A literal that is read again, even out of step, ends no further on than the cursor is moved. -/
theorem rescan (h : s.Placed source stops) (hcurrent : s.current = some l) {literal : Lexeme}
    (hskip : s.cursor.skipBytes? (literal.span.stop - s.span.stop) = some d) :
    d.At source ∧ (∀ c, stops c → d.rest.length ≤ c.rest.length) ∧
      literal.span.stop ≤ d.offset := by
  obtain ⟨hle, hoffset⟩ := Cursor.skipBytes?_eq hskip
  have hstop : s.span.stop ≤ s.cursor.offset := by
    simpa only [Session.span, hcurrent] using h.stop_le hcurrent
  exact ⟨h.cursor.skipBytes? hskip, fun c hc => Nat.le_trans hle (h.beyond c hc), by omega⟩

theorem walk (hs : s.Placed source stops) (h : s.Walk L u) : u.Placed source stops := by
  induction h with
  | refl => exact hs
  | level depth _ ih => exact ih.withDepth depth
  | pass _ _ _ hadvance ih => exact .advance hadvance ih.source_eq ih.cursor ih.beyond
  | keep _ _ _ _ hadvance ih => exact .advance hadvance ih.source_eq ih.cursor ih.beyond
  | literal _ hcurrent _ hliteral ih =>
    obtain ⟨m, cursor, -, hskip, -, hadvance⟩ := regexLiteral_eq_ok hliteral
    obtain ⟨hcursor, hbeyond, -⟩ := ih.rescan hcurrent hskip
    exact .advance hadvance ih.source_eq hcursor hbeyond

theorem fails (hs : s.Placed source stops) (h : s.Fails e u) :
    ((∀ x, e ≠ .lexical x) ∧ u.Placed source stops) ∨
      ((∃ x, e = .lexical x) ∧ u.Placed source fun c => stops c ∨ u.cursor = c) := by
  induction h with
  | refused hwalk he => exact Or.inl ⟨he, hs.walk hwalk⟩
  | advance hwalk hcurrent hadvance =>
    have ht := hs.walk hwalk
    exact Or.inr (advance_error hadvance ht.source_eq ht.cursor ht.beyond fun _ => ht.stop_le)
  | literal hwalk hcurrent _ hliteral =>
    have ht := hs.walk hwalk
    rw [regexLiteral_eq] at hliteral
    split at hliteral
    · cases hliteral
      exact Or.inl ⟨by simp, ht⟩
    · rename_i m _
      split at hliteral
      · cases hliteral
        exact Or.inl ⟨by simp, ht⟩
      · rename_i cursor hskip
        obtain ⟨hcursor, hbeyond, hstop⟩ := ht.rescan hcurrent hskip
        -- The literal itself is the current lexeme that the text behind it leaves behind.
        split at hliteral
        · cases hliteral
        · rename_i hadvance
          cases hliteral
          refine Or.inr (advance_error hadvance ht.source_eq hcursor hbeyond ?_)
          rintro _ ⟨⟩
          exact hstop
  | level depth _ ih =>
    exact ih.imp (fun h => ⟨h.1, h.2.withDepth depth⟩) fun h => ⟨h.1, h.2.withDepth depth⟩

end Session.Placed

/-- The session after this many calls, whatever they found. -/
def Session.after (s : Session) : Nat → Session
  | 0 => s
  | n + 1 => (s.after n).program.2

/-- Text that is no token has ended one of the first calls, and the cursor was left here. -/
def Session.Stopped (s : Session) (calls : Nat) (c : Cursor) : Prop :=
  ∃ m < calls, (∃ x, (s.after m).program.1 = .error (.lexical x)) ∧ (s.after (m + 1)).cursor = c

theorem Session.stopped_succ : s.Stopped (n + 1) c ↔ s.Stopped n c ∨
    ((∃ x, (s.after n).program.1 = .error (.lexical x)) ∧ (s.after (n + 1)).cursor = c) := by
  constructor
  · rintro ⟨m, hm, hstopped⟩
    rcases Nat.lt_succ_iff_lt_or_eq.1 hm with hm | rfl
    · exact Or.inl ⟨m, hm, hstopped⟩
    · exact Or.inr hstopped
  · rintro (⟨m, hm, hstopped⟩ | hstopped)
    · exact ⟨m, Nat.lt_succ_of_lt hm, hstopped⟩
    · exact ⟨n, Nat.lt_succ_self n, hstopped⟩

/-- What one call does to the place. -/
theorem Session.Placed.program (hs : s.Placed source stops) :
    s.program.2.Placed source fun c =>
      stops c ∨ ((∃ x, s.program.1 = .error (.lexical x)) ∧ s.program.2.cursor = c) := by
  have hmoves := program_moves s
  unfold Leads at hmoves
  cases hcall : ParserM.program s with
  | ok root u =>
    rw [hcall] at hmoves
    simpa [Session.program, hcall] using hs.walk hmoves.1
  | error e u =>
    rw [hcall] at hmoves
    rcases hs.fails hmoves.2 with ⟨he, hu⟩ | ⟨⟨x, rfl⟩, hu⟩
    · simpa [Session.program, hcall, he] using hu
    · simpa [Session.program, hcall] using hu

theorem Session.Placed.after {limit : Nat} {text : String} (hstart : start limit text = .ok s)
    (n : Nat) : (s.after n).Placed text.toList (s.Stopped n) := by
  induction n with
  | zero =>
    have hadvance : ParserM.advance (.ofString limit text) = .ok () s := by
      unfold start at hstart
      split at hstart
      · rename_i hadvance
        cases hstart
        exact hadvance
      · cases hstart
    refine .advance hadvance rfl (Cursor.at_ofString text) ?_
    rintro c ⟨m, hm, -⟩
    exact absurd hm (Nat.not_lt_zero m)
  | succ n ih => exact ih.program.congr fun c => stopped_succ

/-- Calls in a row, failed ones included, on a text: each makes its way with moves alone, and
wherever a slash may be read again as a regular expression, the cursor stands at the end of the
current lexeme unless an earlier call was stopped just there by text that is no token. If it
stands there, it can be moved to the end of the literal, inside the text. -/
theorem regex_in_step {limit : Nat} {text : String} (hstart : Session.start limit text = .ok s)
    (n : Nat) :
    Leads ParserM.program (s.after n) (fun _ t => ∃ L, (s.after n).Walk L t)
      (fun e t => (s.after n).Fails e t) ∧
    ∀ L u l, (s.after n).Walk L u → u.current = some l → l.token.mayOpenRegex = true →
      (u.cursor.offset = l.span.stop ↔ ¬ s.Stopped n u.cursor) ∧
      (u.cursor.offset = l.span.stop → ∀ literal, u.regex? = some literal →
        ∃ d, u.cursor.skipBytes? (literal.span.stop - l.span.stop) = some d ∧
          d.offset = literal.span.stop ∧ d.At text.toList) := by
  refine ⟨(program_moves _).mono (fun _ _ h => ⟨_, h.1⟩) fun _ _ h => h.2, ?_⟩
  intro L u l hwalk hcurrent hslash
  have hplaced := (Session.Placed.after hstart n).walk hwalk
  refine ⟨hplaced.in_step_iff hcurrent, fun hstep literal hliteral => ?_⟩
  have hlands := (hplaced.coherent hcurrent hstep).rescan hcurrent hslash hliteral
  rwa [hplaced.source_eq] at hlands

/-- The first call is stopped behind the slash, and a second call begins out of step. -/
theorem regex_in_step_stopped : ∃ s l, Session.start 4 "a / # b / ; c;" = .ok s ∧
    (s.after 1).current = some l ∧ l.token.mayOpenRegex = true ∧ s.Stopped 1 (s.after 1).cursor ∧
    (s.after 1).cursor.offset ≠ l.span.stop := by
  have hcall : (Session.start 4 "a / # b / ; c;").toOption.map (fun s =>
      (match s.program.1 with
        | .error (.lexical _) => true
        | _ => false,
      (s.after 1).current.map (·.token.mayOpenRegex))) = some (true, some true) := by decide +kernel
  cases hstart : Session.start 4 "a / # b / ; c;" with
  | error e => simp [hstart, Except.toOption] at hcall
  | ok s =>
    simp only [hstart, Except.toOption, Option.map_some, Option.some.injEq, Prod.mk.injEq,
      Option.map_eq_some_iff] at hcall
    obtain ⟨hlexical, l, hcurrent, hslash⟩ := hcall
    have hstopped : s.Stopped 1 (s.after 1).cursor := by
      refine ⟨0, Nat.zero_lt_one, ?_, rfl⟩
      split at hlexical
      · rename_i x hx
        exact ⟨x, hx⟩
      · cases hlexical
    refine ⟨s, l, rfl, hcurrent, hslash, hstopped, fun hstep => ?_⟩
    have hin := ((regex_in_step hstart 1).2 [] (s.after 1) l .refl hcurrent hslash).1
    exact hin.1 hstep hstopped

end Grammar
end Ecma3
