import Ecma3.Proofs.Grammar.Places
import Ecma3.Proofs.ParseTree.Regular

/-!
Sessions that know the text before the current lexeme: what was passed last, and the gap behind it.
Parsers put the trees they make between the two.
-/
namespace Ecma3.Grammar

open ParserM ParseTree
open Text (byteLength isLineTerminator IsSlice)

variable {source : List Char} {s t u v : Session} {l : Lexeme} {token : Token} {tree : ParseTree}
  {ts : List ParseTree} {kind : Kind} {text : String} {place : Span} {start stop : Nat}

/-- Behind the text that was passed there is a gap, and behind the gap the current lexeme, or nothing
at the end of the source. -/
structure Session.Stands (source before gap rest : List Char) (s : Session) : Prop where
  split : source = before ++ gap ++ rest
  lastEnd : s.lastEnd = byteLength before
  start : s.span.start = byteLength (before ++ gap)
  isGap : Text.Gap gap rest
  lineBreak : s.lineBreakBefore = gap.any isLineTerminator
  ended : s.current = none → rest = []
  text : ∀ l, s.current = some l → rest = l.text.toList ++ s.cursor.rest

/-- The session stands in its source, with a gap before the current lexeme. -/
structure Session.Spaced (source : List Char) (s : Session) : Prop where
  coherent : s.Coherent
  source_eq : s.source = source
  size_eq : s.size = byteLength source
  stands : ∃ before gap rest, s.Stands source before gap rest

/-- The current lexeme is passed, at this place. -/
structure Session.PassesAt (source : List Char) (s : Session) (place : Span) (t : Session) : Prop where
  start : place.start = s.span.start
  stop : place.stop = t.lastEnd
  slice : IsSlice source place s.text.toList

/-- The tree begins with the current lexeme of the one session, and ends with what the other one has
passed. -/
structure Fills (source : List Char) (s : Session) (tree : ParseTree) (t : Session) : Prop where
  start : tree.span.start = s.span.start
  stop : tree.span.stop = t.lastEnd
  regular : tree.Everywhere (Regular source)

/-- A statement begins with the current lexeme, and a semicolon may be passed behind its end. -/
structure Rests (source : List Char) (s : Session) (tree : ParseTree) (t : Session) : Prop where
  start : tree.span.start = s.span.start
  stop : tree.span.stop ≤ t.lastEnd
  regular : tree.Everywhere (Regular source)
  ended : tree.Ended source

theorem Session.PassesAt.le (h : s.PassesAt source place t) : s.span.start ≤ t.lastEnd := by
  obtain ⟨before, after, -, hstart, hstop⟩ := h.slice
  rw [Text.byteLength_append] at hstop
  rw [← h.start, ← h.stop]
  omega

theorem Session.PassesAt.start_le (h : s.PassesAt source place t) : place.start ≤ t.lastEnd :=
  h.start ▸ h.le

namespace Session.Spaced

theorem withDepth (h : s.Spaced source) (depth : Nat) :
    Session.Spaced source { s with depth } := by
  obtain ⟨before, gap, rest, hstands⟩ := h.stands
  exact ⟨h.coherent.withDepth depth, h.source_eq, h.size_eq, before, gap, rest, hstands.split,
    hstands.lastEnd, hstands.start, hstands.isGap, hstands.lineBreak, hstands.ended, hstands.text⟩

theorem lastEnd_le (h : s.Spaced source) : s.lastEnd ≤ s.span.start := by
  obtain ⟨before, gap, rest, hstands⟩ := h.stands
  rw [hstands.lastEnd, hstands.start, Text.byteLength_append]
  exact Nat.le_add_right _ _

theorem start_le (h : s.Spaced source) : s.span.start ≤ byteLength source := by
  obtain ⟨before, gap, rest, hstands⟩ := h.stands
  rw [hstands.start, hstands.split, Text.byteLength_append (before ++ gap)]
  exact Nat.le_add_right _ _

theorem lastEnd_le_size (h : s.Spaced source) : s.lastEnd ≤ byteLength source :=
  Nat.le_trans h.lastEnd_le h.start_le

/-- The gap before the current lexeme, as a piece of the text. -/
theorem gapSlice (h : s.Spaced source) : ∃ gap, IsSlice source ⟨s.lastEnd, s.span.start⟩ gap ∧
    s.lineBreakBefore = gap.any isLineTerminator := by
  obtain ⟨before, gap, rest, hstands⟩ := h.stands
  exact ⟨gap, ⟨before, rest, hstands.split, hstands.lastEnd, hstands.start⟩, hstands.lineBreak⟩

/-- The current lexeme, as a piece of the text. -/
theorem slice (h : s.Spaced source) (ht : s.token? = some token) :
    IsSlice source s.span s.text.toList := by
  obtain ⟨l, hcurrent, -⟩ := token?_eq_some ht
  obtain ⟨before, gap, rest, hstands⟩ := h.stands
  obtain ⟨c, -, hitem, -⟩ := h.coherent.current l hcurrent
  obtain ⟨n, -, htext, hspan, -⟩ := Cursor.item_ok hitem
  have hsize : l.span.stop = l.span.start + byteLength l.text.toList := by
    rw [hspan, htext, Cursor.text, String.toList_ofList]
    rfl
  have hstart := hstands.start
  simp only [Session.span, Session.text, hcurrent] at hstart ⊢
  refine ⟨before ++ gap, s.cursor.rest, ?_, hstart, ?_⟩
  · rw [hstands.split, hstands.text l hcurrent, List.append_assoc (before ++ gap)]
  · rw [hsize, hstart, Text.byteLength_append (before ++ gap)]

theorem passes (h : s.Spaced source) (ht : s.token? = some token) (hend : t.lastEnd = s.span.stop) :
    s.PassesAt source s.span t :=
  ⟨rfl, hend.symm, h.slice ht⟩

/-- The text of a punctuator is its spelling, and so is that of a reserved word. -/
theorem text_language (h : s.Spaced source) (ht : s.token? = some token) :
    s.text.toList ∈ token.language := by
  obtain ⟨l, hcurrent, rfl⟩ := token?_eq_some ht
  obtain ⟨c, -, hitem, -⟩ := h.coherent.current l hcurrent
  obtain ⟨n, hn, htext, -, -⟩ := Cursor.item_ok hitem
  simp only [Session.text, hcurrent]
  rw [htext, Cursor.text, String.toList_ofList]
  exact (Token.longest?_maximal hn).2.1

theorem mark (h : s.Spaced source) {mark : Punctuator} (ht : s.token? = some (.punctuator mark)) :
    s.text.toList = mark.spelling.toList := Token.mem_punctuator.1 (h.text_language ht)

theorem word (h : s.Spaced source) {word : ReservedWord} (ht : s.token? = some (.reserved word)) :
    s.text.toList = word.spelling.toList := Token.mem_reserved.1 (h.text_language ht)

end Session.Spaced

/-- What is passed, and the gap behind it, if no line ends there. -/
theorem Session.PassesAt.sameLine (h : s.PassesAt source place t) (ht : t.Spaced source)
    (hbreak : t.lineBreakBefore = false) :
    ∃ gap, IsSlice source ⟨place.start, t.span.start⟩ (s.text.toList ++ gap) ∧
      ∀ x ∈ gap, isLineTerminator x = false := by
  obtain ⟨gap, hgap, hlines⟩ := ht.gapSlice
  rw [← h.stop] at hgap
  refine ⟨gap, h.slice.append hgap, ?_⟩
  rw [hbreak] at hlines
  simpa using hlines.symm

theorem Session.PassesAt.lastEnd_le (h : s.PassesAt source place t) (hs : s.Spaced source) :
    s.lastEnd ≤ t.lastEnd :=
  Nat.le_trans hs.lastEnd_le h.le

namespace Fills

theorem tight (h : Fills source s tree t) : tree.Within source s.span.start t.lastEnd :=
  ⟨Nat.le_of_eq h.start.symm, Nat.le_of_eq h.stop, h.regular⟩

theorem within (h : Fills source s tree t) (hs : s.Spaced source) :
    tree.Within source s.lastEnd t.lastEnd :=
  h.tight.mono hs.lastEnd_le (Nat.le_refl _)

/-- A tree around trees that lie in its place. -/
theorem of_series (hstart : start = s.span.start) (hstop : stop = t.lastEnd) (ht : t.Spaced source)
    (hseries : Series source start ts stop)
    (hconforms : Conforms source ⟨kind, text, ⟨start, stop⟩, ts⟩) :
    Fills source s ⟨kind, text, ⟨start, stop⟩, ts⟩ t :=
  ⟨hstart, hstop, hseries.tree (hstop ▸ ht.lastEnd_le_size) hconforms⟩

/-- A tree around two trees, from the start of the one to the end of the other. -/
theorem pair {a b : ParseTree} (ha : Fills source s a t) (hb : Fills source u b v)
    (hu : u.Spaced source) (hv : v.Spaced source) (hle : t.lastEnd ≤ u.lastEnd)
    (hkind : kind.isQuiet = true) :
    Fills source s ⟨kind, text, ⟨a.span.start, b.span.stop⟩, [a, b]⟩ v := by
  refine .of_series ha.start hb.stop hv (.cons (k := t.lastEnd) ?_ (.one ?_)) (.of_isQuiet hkind)
  · exact ha.start ▸ ha.tight
  · exact hb.stop ▸ (hb.within hu).mono hle (Nat.le_refl _)

theorem wrap (h : Fills source s tree t) (hkind : kind.isQuiet = true) :
    Fills source s (wrap kind tree) t :=
  ⟨h.start, h.stop, (h.tight.wrap hkind).regular⟩

theorem rests (h : Fills source s tree t) (hkind : tree.kind.isClosed = false) :
    Rests source s tree t :=
  ⟨h.start, Nat.le_of_eq h.stop, h.regular, fun hclosed => by simp [hkind] at hclosed⟩

end Fills

theorem Rests.within (h : Rests source s tree t) (hs : s.Spaced source) :
    tree.Within source s.lastEnd t.lastEnd :=
  ⟨Nat.le_trans hs.lastEnd_le (Nat.le_of_eq h.start.symm), h.stop, h.regular⟩

namespace ParserM

variable {α β : Type} {p : ParserM α} {Q : Session → α → Session → Prop}
  {E : SyntaxError → Session → Prop}

/-- From a session with a gap before the current lexeme the parser comes to a result with `Q`, and to
another such session. -/
def Traces (source : List Char) (p : ParserM α) (Q : Session → α → Session → Prop) : Prop :=
  ∀ s : Session, s.Spaced source → Leads p s (fun a t => t.Spaced source ∧ Q s a t) fun _ _ => True

/-! The steps that parsers are made of. -/

/-- Moving on from where the passed text ends. -/
theorem leads_advance_from (hcursor : s.cursor.At source) (hsource : s.source = source)
    (hsize : s.size = byteLength source) (hend : s.passedEnd = s.cursor.offset) :
    Leads advance s (fun _ t => t.Spaced source ∧ t.lastEnd = s.passedEnd) fun _ _ => True := by
  have hcoherent := leads_advance (hsource.symm ▸ hcursor)
  unfold Leads at hcoherent ⊢
  cases hadvance : advance s with
  | error e t => trivial
  | ok _ t =>
    rw [hadvance] at hcoherent
    obtain ⟨next, broken, d, hnext, rfl⟩ := advance_eq_ok hadvance
    obtain ⟨before, hbefore, hoffset⟩ := hcursor
    have hfound : ∀ e, Option.map .ok next ≠ some (Except.error e : Lexeme.Item) := by
      intro e
      cases next <;> simp
    obtain ⟨gap, rest, hrest, hgap, hbroken, hnone, hsome⟩ := Cursor.gap_nextSignificant hnext hfound
    refine ⟨⟨hcoherent.1, hsource, hsize, before, gap, rest, ?_, ?_, ?_, hgap, ?_, ?_, ?_⟩, rfl⟩
    · rw [hbefore, hrest, List.append_assoc]
    · exact hend.trans hoffset
    · cases next with
      | none =>
        simp only [Session.span, hsize]
        rw [hbefore, hrest, hnone rfl, List.append_nil]
      | some m =>
        simp only [Session.span]
        rw [(hsome m rfl).2, hoffset, Text.byteLength_append]
    · exact hbroken.trans (Bool.false_or _)
    · rintro rfl
      exact hnone rfl
    · rintro m rfl
      exact (hsome m rfl).1

/-- Passing a token that was seen to be there. -/
theorem leads_pass (hs : s.Spaced source) (ht : s.token? = some token) :
    Leads advance s (fun _ t => t.Spaced source ∧ s.PassesAt source s.span t) fun _ _ => True := by
  obtain ⟨l, hcurrent, -⟩ := token?_eq_some ht
  have hspan : s.passedEnd = s.span.stop := by
    simp only [Session.passedEnd, Session.span, hcurrent]
  have hend : s.passedEnd = s.cursor.offset := by
    simp only [Session.passedEnd, hcurrent]
    exact (hs.coherent.stop_eq hcurrent).symm
  refine (leads_advance_from (hs.source_eq ▸ hs.coherent.cursor) hs.source_eq hs.size_eq hend).imp ?_
  rintro _ t ⟨ht', hlast⟩
  exact ⟨ht', hs.passes ht (hlast.trans hspan)⟩

theorem traces_accept (token : Token) : Traces source (accept token) fun s found t =>
    s.lastEnd ≤ t.lastEnd ∧ (found = false → t = s) := by
  intro s hs
  rw [leads_accept]
  split
  · rename_i ht
    apply (leads_pass hs ht).imp
    rintro _ t ⟨ht', hpasses⟩
    refine ⟨ht', ?_, nofun⟩
    exact hpasses.lastEnd_le hs
  · exact ⟨hs, Nat.le_refl _, fun _ => rfl⟩

theorem traces_demand (token : Token) (expected : Expected) :
    Traces source (demand token expected) fun s place t =>
      s.token? = some token ∧ s.PassesAt source place t := by
  intro s hs
  simp only [demand, leads_bind, leads_sees]
  split
  · rename_i hsees
    have ht := beq_iff_eq.1 hsees
    simp only [leads_bind, leads_currentSpan, leads_pure]
    apply (leads_pass hs ht).imp
    rintro _ t ⟨ht', hpasses⟩
    exact ⟨ht', ht, hpasses⟩
  · trivial

theorem leads_leaf_fills (hs : s.Spaced source) (ht : s.token? = some token)
    (hkind : kind.isQuiet = true) :
    Leads (leaf kind) s (fun tree t => t.Spaced source ∧ Fills source s tree t) fun _ _ => True := by
  rw [leads_leaf]
  apply (leads_pass hs ht).imp
  rintro _ t ⟨ht', hpasses⟩
  refine ⟨ht', ?_⟩
  have hle : s.span.start ≤ s.span.stop := hpasses.stop ▸ hpasses.le
  exact .of_series hpasses.start hpasses.stop ht' (.nil hle) (.of_isQuiet hkind)

theorem traces_enter : Traces source enter fun s _ t =>
    t.span = s.span ∧ t.lastEnd = s.lastEnd ∧ t.token? = s.token? := by
  intro s hs
  rw [leads_enter]
  split
  · trivial
  · exact ⟨hs.withDepth _, rfl, rfl, rfl⟩

theorem Traces.leaving {p : ParserM ParseTree} (h : Traces source p (Fills source)) :
    Traces source (thenLeaveIfOk p) (Fills source) := fun s hs =>
  leads_thenLeaveIfOk.2 ((h s hs).imp fun _ _ ⟨ht, htree⟩ =>
    ⟨ht.withDepth _, htree.start, htree.stop, htree.regular⟩)

theorem traces_endStatement : Traces source endStatement fun s _ t =>
    s.lastEnd ≤ t.lastEnd ∧ Text.EndsStatement source s.lastEnd := by
  intro s hs
  obtain ⟨before, gap, rest, hstands⟩ := hs.stands
  rw [endStatement, leads_bind, acceptMark, leads_accept]
  have hend : ∀ mark : Punctuator, s.token? = some (.punctuator mark) →
      rest.head? = mark.spelling.toList.head?.or s.cursor.rest.head? := by
    intro mark ht
    obtain ⟨l, hcurrent, -⟩ := token?_eq_some ht
    have htext := hs.mark ht
    simp only [Session.text, hcurrent] at htext
    rw [hstands.text l hcurrent, htext, List.head?_append]
  split
  · rename_i ht
    apply (leads_pass hs ht).imp
    rintro _ t ⟨ht', hpasses⟩
    have hle := hpasses.lastEnd_le hs
    exact ⟨ht', hle, before, gap, rest, hstands.split, hstands.lastEnd, hstands.isGap,
      Or.inr (Or.inl (hend _ ht))⟩
  · rw [if_neg Bool.false_ne_true, leads_bind, leads_get]
    split
    · rename_i hended
      refine ⟨hs, Nat.le_refl _, before, gap, rest, hstands.split, hstands.lastEnd, hstands.isGap, ?_⟩
      simp only [Bool.or_eq_true, Option.isNone_iff_eq_none, beq_iff_eq] at hended
      rcases hended with (hnone | hbrace) | hbreak
      · exact Or.inl (hstands.ended hnone)
      · exact Or.inr (Or.inr (Or.inl (hend _ hbrace)))
      · rw [hstands.lineBreak, List.any_eq_true] at hbreak
        exact Or.inr (Or.inr (Or.inr hbreak))
    · trivial

/-- A regular expression is passed like a lexeme that the cursor has just read. -/
theorem leads_regexLiteral_fills (hs : s.Spaced source) (ht : s.token? = some token)
    (hopen : token.mayOpenRegex = true) :
    Leads regexLiteral s (fun tree t => t.Spaced source ∧ Fills source s tree t)
      fun _ _ => True := by
  obtain ⟨l, hcurrent, rfl⟩ := token?_eq_some ht
  have hspan : s.span = l.span := by simp only [Session.span, hcurrent]
  unfold Leads
  rw [regexLiteral_eq]
  cases hliteral : s.regex? with
  | none => trivial
  | some literal =>
    obtain ⟨d, hskip, hoffset, hd⟩ := hs.coherent.rescan hcurrent hopen hliteral
    rw [hs.source_eq] at hd
    have hplace : literal.span.start = s.span.start ∧ literal.span.start ≤ literal.span.stop := by
      simp only [Session.regex?, Option.bind_eq_bind, Option.bind_eq_some_iff, Option.pure_def,
        Option.some.injEq] at hliteral
      obtain ⟨_, -, _, -, rfl⟩ := hliteral
      exact ⟨rfl, Nat.le_add_right _ _⟩
    have hadvance := leads_advance_from (s := { s with cursor := d, current := some literal }) hd
      hs.source_eq hs.size_eq hoffset.symm
    unfold Leads at hadvance
    simp only [hspan, hskip]
    cases hnext : advance { s with cursor := d, current := some literal } with
    | error e t => trivial
    | ok _ t =>
      rw [hnext] at hadvance
      obtain ⟨ht, hend⟩ := hadvance
      exact ⟨ht, .of_series hplace.1 hend.symm ht (.nil hplace.2) (.of_isQuiet rfl)⟩

/-- A tree from a place that was passed to the end of what is passed. -/
theorem leads_filled (ht : t.Spaced source) (hstart : start = s.span.start)
    (hseries : Series source start ts t.lastEnd)
    (hconforms : Conforms source ⟨kind, text, ⟨start, t.lastEnd⟩, ts⟩) :
    Leads (do return ParseTree.mk kind text (← spanFrom start) ts) t
      (fun tree u => u.Spaced source ∧ Fills source s tree u) E := by
  simp only [leads_bind, spanFrom, leads_get, leads_pure, Nat.max_eq_left hseries.le]
  exact ⟨ht, .of_series hstart rfl ht hseries hconforms⟩

/-- A tree that is ended behind its last part. -/
theorem leads_ended (ht : t.Spaced source) (hstart : start = s.span.start)
    (hseries : Series source start ts t.lastEnd)
    (hconforms : Conforms source ⟨kind, text, ⟨start, t.lastEnd⟩, ts⟩) :
    Leads (do
        let span ← spanFrom start
        endStatement
        return ParseTree.mk kind text span ts) t
      (fun tree u => u.Spaced source ∧ Rests source s tree u) fun _ _ => True := by
  rw [leads_bind, spanFrom, leads_bind, leads_get, leads_pure, Nat.max_eq_left hseries.le]
  apply (traces_endStatement t ht).bind
  rintro _ u ⟨hu, hle, hend⟩
  refine ⟨hu, ?_⟩
  exact ⟨hstart, hle, hseries.tree ht.lastEnd_le_size hconforms, fun _ => hend⟩

/-- A tree that is ended behind itself. -/
theorem leads_fills_ended (ht : t.Spaced source) (htree : Fills source s tree t) :
    Leads (do
        endStatement
        return tree) t
      (fun tree u => u.Spaced source ∧ Rests source s tree u) fun _ _ => True := by
  apply (traces_endStatement t ht).bind
  rintro _ u ⟨hu, hle, hend⟩
  refine ⟨hu, ?_⟩
  exact ⟨htree.start, htree.stop ▸ hle, htree.regular, fun _ => htree.stop ▸ hend⟩

/-- A tree to the end of what is passed that needs no semicolon. -/
theorem leads_rested (ht : t.Spaced source) (hstart : start = s.span.start)
    (hseries : Series source start ts t.lastEnd) (hkind : kind.isClosed = false)
    (hconforms : Conforms source ⟨kind, text, ⟨start, t.lastEnd⟩, ts⟩) :
    Leads (do return ParseTree.mk kind text (← spanFrom start) ts) t
      (fun tree u => u.Spaced source ∧ Rests source s tree u) E := by
  simp only [leads_bind, spanFrom, leads_get, leads_pure, Nat.max_eq_left hseries.le]
  exact ⟨ht, (Fills.of_series hstart rfl ht hseries hconforms).rests hkind⟩

/-! Repetitions. -/

/-- Turns that trace `Q`, put together to `R`. -/
theorem traces_collect {turn : ParserM (Turn α)} {Q : Session → Turn α → Session → Prop}
    {R : Session → List α → Session → Prop} (h : Traces source turn Q)
    (hstop : ∀ s t, Q s .stop t → R s [] t)
    (hskip : ∀ s t u found, t.Spaced source → Q s .skip t → R t found u → R s found u)
    (hlast : ∀ s t a, Q s (.last a) t → R s [a] t)
    (hmore : ∀ s t u a found, Q s (.more a) t → R t found u → R s (a :: found) u) (bound : Nat) :
    Traces source (collect turn bound) R := by
  induction bound with
  | zero => exact fun _ _ => trivial
  | succ bound ih =>
    intro s hs
    apply (h s hs).bind
    rintro found t ⟨ht, hfound⟩
    cases found with
    | stop => exact ⟨ht, hstop s t hfound⟩
    | skip => exact (ih t ht).imp fun _ u hu => ⟨hu.1, hskip s t u _ ht hfound hu.2⟩
    | last a => exact ⟨ht, hlast s t a hfound⟩
    | more a => exact (ih t ht).bind fun _ u hu => ⟨hu.1, hmore s t u a _ hfound hu.2⟩

/-- What a turn of a repetition found, if it found anything, is a tree between two offsets that
has `P`. -/
def Turn.Within (source : List Char) (P : ParseTree → Prop) (m : Nat) : Turn ParseTree → Nat → Prop
  | .stop, n | .skip, n => m ≤ n
  | .last tree, n | .more tree, n => tree.Within source m n ∧ P tree

theorem traces_series {turn : ParserM (Turn ParseTree)} {P : ParseTree → Prop}
    (h : Traces source turn fun s found t => Turn.Within source P s.lastEnd found t.lastEnd)
    (bound : Nat) : Traces source (collect turn bound) fun s found t =>
      Series source s.lastEnd found t.lastEnd ∧ ∀ c ∈ found, P c := by
  refine traces_collect h ?_ ?_ ?_ ?_ bound
  · exact fun s t hle => ⟨.nil hle, nofun⟩
  · exact fun s t u found _ hle hfound => ⟨hfound.1.mono hle (Nat.le_refl _), hfound.2⟩
  · exact fun s t a ha => ⟨.one ha.1, List.forall_mem_singleton.2 ha.2⟩
  · intro s t u a found ha hfound
    exact ⟨.cons ha.1 hfound.1, List.forall_mem_cons.2 ⟨ha.2, hfound.2⟩⟩

/-- What a turn after a comma found; without a comma nothing is passed. -/
def Turn.Follows (source : List Char) (m : Nat) : Turn ParseTree → Nat → Prop
  | .stop, n => n = m
  | .more tree, n => tree.Within source m n
  | _, _ => False

theorem traces_others {turn : ParserM (Turn ParseTree)}
    (h : Traces source turn fun s found t => Turn.Follows source s.lastEnd found t.lastEnd)
    (bound : Nat) : Traces source (collect turn bound) fun s found t =>
      Series source s.lastEnd found t.lastEnd ∧ (found = [] → t.lastEnd = s.lastEnd) := by
  refine traces_collect h ?_ ?_ ?_ ?_ bound
  · exact fun s t hsame => ⟨.nil (Nat.le_of_eq hsame.symm), fun _ => hsame⟩
  · exact fun s t u found _ hfound => hfound.elim
  · exact fun s t a hfound => hfound.elim
  · exact fun s t u a found ha hfound => ⟨.cons ha hfound.1, nofun⟩

/-- Turns that extend a tree, each to the end of what it passes. -/
theorem leads_extend_fills {turn : ParseTree → ParserM (Option ParseTree)}
    (hturn : ∀ tree t, t.Spaced source → Fills source s tree t →
      Leads (turn tree) t (fun next u => u.Spaced source ∧ Fills source s (next.getD tree) u)
        fun _ _ => True)
    (ht : t.Spaced source) (htree : Fills source s tree t) (bound : Nat) :
    Leads (extend turn bound tree) t (fun tree u => u.Spaced source ∧ Fills source s tree u)
      fun _ _ => True := by
  refine leads_extend (I := fun tree t => t.Spaced source ∧ Fills source s tree t)
    (fun tree t h => ?_) (fun _ => trivial) ⟨ht, htree⟩
  refine (hturn tree t h.1 h.2).imp fun next u hu => ?_
  cases next with
  | none => exact hu
  | some tree => exact hu

end ParserM
end Ecma3.Grammar
