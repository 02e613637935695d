import Ecma3.Proofs.Grammar.Rescan
import Ecma3.Proofs.ParseTree.Places

/-! Where parsers place what they make: between the end of what was passed before and the end of
what they pass. Where they fail, a character begins or the text ends. -/
namespace Ecma3.Grammar

open ParserM ParseTree
open Text (IsBoundary byteLength)

variable {source : List Char} {s t : Session} {l : Lexeme} {m n : Nat}

/-- The place of the error begins between two characters of the text. -/
def SyntaxError.Located (source : List Char) (e : SyntaxError) : Prop :=
  IsBoundary source e.span.start

/-- The session stands in its source, and what it has passed ends before the current lexeme. -/
structure Session.Sited (source : List Char) (s : Session) : Prop where
  coherent : s.Coherent
  source_eq : s.source = source
  size_eq : s.size = byteLength source
  lastEnd : IsBoundary source s.lastEnd
  behind : s.lastEnd ≤ s.cursor.offset
  current : ∀ l, s.current = some l → l.span.Lies source s.lastEnd s.cursor.offset

namespace Session.Sited

theorem withDepth (h : s.Sited source) (depth : Nat) : Session.Sited source { s with depth } :=
  ⟨h.coherent.withDepth depth, h.source_eq, h.size_eq, h.lastEnd, h.behind, h.current⟩

/-- The place of the current lexeme, or the end of the source. -/
theorem span (h : s.Sited source) : s.span.Lies source s.lastEnd (byteLength source) := by
  unfold Session.span
  cases hcurrent : s.current with
  | none =>
    rw [h.size_eq]
    exact (Span.Lies.empty Text.isBoundary_byteLength).mono h.lastEnd.le (Nat.le_refl _)
  | some l =>
    have hplace := h.current l hcurrent
    exact hplace.within hplace.low hplace.last.le

/-- The current lexeme lies where the passed text will end once it is passed. -/
theorem token (h : s.Sited source) {t : Token} (ht : s.token? = some t) :
    s.span.Lies source s.lastEnd s.passedEnd := by
  obtain ⟨l, hcurrent, -⟩ := token?_eq_some ht
  have hplace := h.current l hcurrent
  have hspan : s.span = l.span := by simp only [Session.span, hcurrent]
  have hend : s.passedEnd = l.span.stop := by simp only [Session.passedEnd, hcurrent]
  rw [hspan, hend]
  exact hplace.within hplace.low (Nat.le_refl _)

theorem passedEnd (h : s.Sited source) : IsBoundary source s.passedEnd ∧
    s.lastEnd ≤ s.passedEnd ∧ s.passedEnd ≤ s.cursor.offset := by
  unfold Session.passedEnd
  cases hcurrent : s.current with
  | none => exact ⟨h.lastEnd, Nat.le_refl _, h.behind⟩
  | some l =>
    have hplace := h.current l hcurrent
    exact ⟨hplace.last, Nat.le_trans hplace.low hplace.ordered, hplace.high⟩

end Session.Sited

namespace ParserM

variable {α β : Type} {p : ParserM α} {f : α → ParserM β} {Q : Nat → α → Nat → Prop}
  {R : β → Session → Prop} {E : SyntaxError → Session → Prop}

theorem Leads.bind {P : α → Session → Prop} (h : Leads p s P E)
    (hf : ∀ a t, P a t → Leads (f a) t R E) : Leads (p >>= f) s R E :=
  leads_bind.2 (h.imp hf)

/-- Moving on from a place behind all that was passed. -/
theorem leads_advance_sited (hcursor : s.cursor.At source) (hsource : s.source = source)
    (hsize : s.size = byteLength source) (hend : IsBoundary source s.passedEnd)
    (hbehind : s.passedEnd ≤ s.cursor.offset) :
    Leads advance s (fun _ t => t.Sited source ∧ t.lastEnd = s.passedEnd)
      fun e _ => e.Located source := by
  have hcoherent := leads_advance (hsource.symm ▸ hcursor)
  unfold Leads at hcoherent ⊢
  cases hadvance : advance s with
  | ok _ t =>
    rw [hadvance] at hcoherent
    obtain ⟨next, broken, d, hnext, rfl⟩ := advance_eq_ok hadvance
    obtain ⟨hle, hlies⟩ := hcursor.nextSignificant_lies hnext
    refine ⟨⟨hcoherent.1, hsource, hsize, hend, Nat.le_trans hbehind hle, ?_⟩, rfl⟩
    rintro l rfl
    exact (hlies (.ok l) rfl).mono hbehind (Nat.le_refl _)
  | error e t =>
    obtain ⟨x, broken, d, hnext, rfl, -⟩ := advance_eq_error hadvance
    exact ((hcursor.nextSignificant_lies hnext).2 _ rfl).first

theorem leads_next (hs : s.Sited source) :
    Leads advance s (fun _ t => t.Sited source ∧ t.lastEnd = s.passedEnd)
      fun e _ => e.Located source :=
  leads_advance_sited (hs.source_eq ▸ hs.coherent.cursor) hs.source_eq hs.size_eq hs.passedEnd.1
    hs.passedEnd.2.2

/-- What the parser gives has `Q` between the ends of what was passed before it and after it. -/
def Spans (source : List Char) (p : ParserM α) (Q : Nat → α → Nat → Prop) : Prop :=
  ∀ s : Session, s.Sited source →
    Leads p s (fun a t => t.Sited source ∧ Q s.lastEnd a t.lastEnd) fun e _ => e.Located source

/-! The steps that parsers are made of. -/

theorem spans_advance : Spans source advance fun m _ n => m ≤ n := fun _ hs =>
  (leads_next hs).imp fun _ _ ht => ⟨ht.1, ht.2 ▸ hs.passedEnd.2.1⟩

/-- Passing a token that was seen to be there. -/
theorem leads_advance_token (hs : s.Sited source) {t : Token} (ht : s.token? = some t) :
    Leads advance s (fun _ u => u.Sited source ∧ s.span.Lies source s.lastEnd u.lastEnd)
      fun e _ => e.Located source :=
  (leads_next hs).imp fun _ _ hu => ⟨hu.1, hu.2 ▸ hs.token ht⟩

theorem spans_accept (t : Token) : Spans source (accept t) fun m _ n => m ≤ n := by
  intro s hs
  rw [leads_accept]
  split
  · exact spans_advance s hs
  · exact ⟨hs, Nat.le_refl _⟩

/-- A token that is demanded is the current one, wherever that is. -/
theorem leads_demand (hs : s.Sited source) (t : Token) (expected : Expected) :
    Leads (demand t expected) s (fun place u => u.Sited source ∧
      place.Lies source s.lastEnd u.lastEnd ∧ s.span.start ≤ u.lastEnd)
      fun e _ => e.Located source := by
  simp only [demand, leads_bind, leads_sees]
  split
  · rename_i hsees
    simp only [leads_bind, leads_currentSpan, leads_pure]
    refine (leads_advance_token hs (beq_iff_eq.1 hsees)).imp fun _ u hu => ?_
    exact ⟨hu.1, hu.2, hu.2.start_le⟩
  · exact hs.span.first

theorem spans_demand (t : Token) (expected : Expected) :
    Spans source (demand t expected) fun m place n => place.Lies source m n := fun _ hs =>
  (leads_demand hs t expected).imp fun _ _ hu => ⟨hu.1, hu.2.1⟩

theorem leads_leaf_sited (hs : s.Sited source) {t : Token} (ht : s.token? = some t) (kind : Kind) :
    Leads (leaf kind) s (fun tree u => u.Sited source ∧ tree.Lies source s.lastEnd u.lastEnd)
      fun e _ => e.Located source :=
  leads_leaf.2 ((leads_advance_token hs ht).imp fun _ _ hu => ⟨hu.1, .leaf hu.2⟩)

theorem spans_endStatement : Spans source endStatement fun m _ n => m ≤ n := by
  intro s hs
  refine (spans_accept _ s hs).bind fun found t ⟨ht, hle⟩ => ?_
  split
  · exact ⟨ht, hle⟩
  · rw [leads_bind, leads_get]
    split
    · exact ⟨ht, hle⟩
    · exact ht.span.first

theorem spans_enter : Spans source enter fun m _ n => m ≤ n := by
  intro s hs
  rw [leads_enter]
  split
  · exact hs.span.first
  · exact ⟨hs.withDepth _, Nat.le_refl _⟩

theorem Spans.thenLeave (h : Spans source p Q) : Spans source (thenLeave p) Q := fun s hs =>
  leads_thenLeave.2 ((h s hs).imp fun _ _ ha => ⟨ha.1.withDepth _, ha.2⟩)

theorem Spans.thenLeaveIfOk (h : Spans source p Q) : Spans source (thenLeaveIfOk p) Q := fun s hs =>
  leads_thenLeaveIfOk.2 ((h s hs).imp fun _ _ ha => ⟨ha.1.withDepth _, ha.2⟩)

/-- What comes one level deeper begins no earlier. -/
theorem Spans.entered (h : Spans source p Q) (hQ : ∀ k m a n, k ≤ m → Q m a n → Q k a n) :
    Spans source (do enter; p) Q := fun s hs =>
  (spans_enter s hs).bind fun _ t ht => (h t ht.1).imp fun _ _ ha => ⟨ha.1, hQ _ _ _ _ ht.2 ha.2⟩

/-- A regular expression reaches from the slash that opens it to where the cursor is moved. -/
theorem leads_regexLiteral_sited (hs : s.Sited source) {t : Token} (ht : s.token? = some t)
    (hopen : t.mayOpenRegex = true) :
    Leads regexLiteral s (fun tree u => u.Sited source ∧ tree.Lies source s.lastEnd u.lastEnd)
      fun e _ => e.Located source := by
  obtain ⟨l, hcurrent, rfl⟩ := token?_eq_some ht
  have hspan : s.span = l.span := by simp only [Session.span, hcurrent]
  unfold Leads
  rw [regexLiteral_eq]
  cases hliteral : s.regex? with
  | none => exact hs.span.first
  | some literal =>
    -- The literal is passed like a lexeme that the cursor has just read.
    obtain ⟨d, hskip, hoffset, hd⟩ := hs.coherent.rescan hcurrent hopen hliteral
    rw [hs.source_eq] at hd
    have hplace : literal.span.Lies source s.lastEnd literal.span.stop := by
      have hlast : IsBoundary source literal.span.stop := hoffset ▸ hd.isBoundary
      simp only [Session.regex?, Option.bind_eq_bind, Option.bind_eq_some_iff, Option.pure_def,
        Option.some.injEq] at hliteral
      obtain ⟨_, -, _, -, rfl⟩ := hliteral
      exact ⟨hs.span.first, hlast, Nat.le_add_right _ _, hs.span.low, Nat.le_refl _⟩
    have hadvance := leads_advance_sited (s := { s with cursor := d, current := some literal }) hd
      hs.source_eq hs.size_eq hplace.last (Nat.le_of_eq hoffset.symm)
    unfold Leads at hadvance
    simp only [hspan, hskip]
    cases hnext : advance { s with cursor := d, current := some literal } with
    | ok _ u =>
      rw [hnext] at hadvance
      refine ⟨hadvance.1, .leaf (hplace.within hplace.low ?_)⟩
      exact Nat.le_of_eq hadvance.2.symm
    | error e u =>
      rw [hnext] at hadvance
      exact hadvance

/-- A tree from a place that was passed to the end of what is passed. -/
theorem leads_around {kind : Kind} {text : String} {start : Nat} {children : List ParseTree}
    (hs : s.Sited source) (hstart : IsBoundary source start) (hm : m ≤ start)
    (hend : start ≤ s.lastEnd) (h : ∀ c ∈ children, c.Inside source start s.lastEnd) :
    Leads (do return ParseTree.mk kind text (← spanFrom start) children) s
      (fun tree t => t.Sited source ∧ tree.Lies source m t.lastEnd) E := by
  simp only [leads_bind, spanFrom, leads_get, leads_pure, Nat.max_eq_left hend]
  exact ⟨hs, ⟨hstart, hs.lastEnd, hend, hm, Nat.le_refl _⟩, h⟩

theorem leads_closed {kind : Kind} {text : String} {start : Nat} {children : List ParseTree}
    (hs : s.Sited source) (hstart : IsBoundary source start) (hm : m ≤ start)
    (hrow : Row source start children s.lastEnd) :
    Leads (do return ParseTree.mk kind text (← spanFrom start) children) s
      (fun tree t => t.Sited source ∧ tree.Lies source m t.lastEnd) E :=
  leads_around hs hstart hm hrow.le hrow.inside

/-- What is passed behind the end of a tree. -/
theorem leads_closed_then {kind : Kind} {text : String} {start : Nat} {children : List ParseTree}
    (hs : s.Sited source) (hstart : IsBoundary source start) (hm : m ≤ start)
    (hrow : Row source start children s.lastEnd) (hp : Spans source p fun m _ n => m ≤ n) :
    Leads (do
        let span ← spanFrom start
        let _ ← p
        return ParseTree.mk kind text span children) s
      (fun tree t => t.Sited source ∧ tree.Lies source m t.lastEnd)
      fun e _ => e.Located source := by
  rw [leads_bind, spanFrom, leads_bind, leads_get, leads_pure, Nat.max_eq_left hrow.le]
  refine (hp s hs).bind fun _ t ⟨ht, hle⟩ => ⟨ht, ?_⟩
  exact hrow.tree hstart hs.lastEnd hm hle

/-- What a turn of a repetition found, if it found anything, is a tree that was passed. -/
def Turn.Lies (source : List Char) (m : Nat) : Turn ParseTree → Nat → Prop
  | .stop, n | .skip, n => m ≤ n
  | .last t, n | .more t, n => t.Lies source m n

theorem spans_collect {turn : ParserM (Turn ParseTree)} (h : Spans source turn (Turn.Lies source))
    (bound : Nat) : Spans source (collect turn bound) (Row source) := by
  induction bound with
  | zero => exact fun _ _ => Text.isBoundary_zero
  | succ bound ih =>
    intro s hs
    refine (h s hs).bind fun found t ⟨ht, hfound⟩ => ?_
    cases found with
    | stop => exact ⟨ht, .nil hfound⟩
    | skip => exact (ih t ht).imp fun _ u hu => ⟨hu.1, hu.2.mono hfound (Nat.le_refl _)⟩
    | last a => exact ⟨ht, .one hfound⟩
    | more a => exact (ih t ht).bind fun _ u hu => ⟨hu.1, .cons hfound hu.2⟩

/-- Turns that extend a tree, each to the end of what it passes. -/
theorem leads_extend_lies {turn : ParseTree → ParserM (Option ParseTree)} {tree : ParseTree}
    (hturn : ∀ tree s, s.Sited source → tree.Lies source m s.lastEnd →
      Leads (turn tree) s (fun next t => t.Sited source ∧ (next.getD tree).Lies source m t.lastEnd)
        fun e _ => e.Located source)
    (hs : s.Sited source) (htree : tree.Lies source m s.lastEnd) (bound : Nat) :
    Leads (extend turn bound tree) s
      (fun tree t => t.Sited source ∧ tree.Lies source m t.lastEnd)
      fun e _ => e.Located source := by
  refine leads_extend (I := fun tree t => t.Sited source ∧ tree.Lies source m t.lastEnd)
    (fun tree s h => ?_) (fun _ => Text.isBoundary_zero) ⟨hs, htree⟩
  refine (hturn tree s h.1 h.2).imp fun next t ht => ?_
  cases next with
  | none => exact ht
  | some tree => exact ht

end ParserM
end Ecma3.Grammar
