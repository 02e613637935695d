import Ecma3.Proofs.Grammar.Places.Expression

/-! Where the productions of statements place their trees. -/
namespace Ecma3.Grammar.Inner

open ParserM ParseTree
open Text (IsBoundary)

variable {source : List Char} {inner : Inner} {s : Session} {kind : Kind} {start m : Nat}

/-- The label, if there is one, ends before the statement does. -/
theorem leads_jumpStatement {token : Token} (hs : s.Sited source) (ht : s.token? = some token) :
    Leads (jumpStatement kind) s
      (fun tree t => t.Sited source ∧ tree.Lies source s.lastEnd t.lastEnd)
      fun e _ => e.Located source := by
  rw [jumpStatement, leads_bind, leads_currentSpan]
  extract_lets start
  rw [leads_bind, leads_currentText]
  refine (leads_advance_token hs ht).bind fun _ t ⟨ht, hplace⟩ => ?_
  rw [leads_bind, leads_get]
  extract_lets rest
  have hrest : ∀ label u, u.Sited source → Row source t.lastEnd label u.lastEnd →
      Leads (rest label) u (fun tree v => v.Sited source ∧ tree.Lies source s.lastEnd v.lastEnd)
        fun e _ => e.Located source := fun label u hu hlabel =>
    leads_closed_then hu hplace.first hplace.low (hlabel.mono hplace.start_le (Nat.le_refl _))
      spans_endStatement
  split
  · rename_i hname
    have hname : t.token? = some .identifier := by simp_all
    exact (leads_leaf_sited ht hname _).bind fun name u ⟨hu, hlabel⟩ =>
      hrest [name] u hu (.one hlabel)
  · exact hrest [] t ht (.nil (Nat.le_refl _))

theorem leads_emptyStatement {token : Token} (hs : s.Sited source) (ht : s.token? = some token) :
    Leads emptyStatement s (fun tree t => t.Sited source ∧ tree.Lies source s.lastEnd t.lastEnd)
      fun e _ => e.Located source :=
  (leads_advance_token hs ht).bind fun _ _ ⟨ht, hplace⟩ => ⟨ht, hplace, nofun⟩

theorem leads_debuggerStatement {token : Token} (hs : s.Sited source) (ht : s.token? = some token) :
    Leads debuggerStatement s
      (fun tree t => t.Sited source ∧ tree.Lies source s.lastEnd t.lastEnd)
      fun e _ => e.Located source := by
  refine (leads_leaf_sited hs ht _).bind fun node t ⟨ht, hnode⟩ => ?_
  refine (spans_endStatement t ht).bind fun _ u ⟨hu, hle⟩ => ⟨hu, ?_⟩
  exact hnode.mono (Nat.le_refl _) hle

/-- A clause that is left out has its place where the next token begins, behind what was passed. -/
theorem leads_emptyClause (hs : s.Sited source) :
    Leads emptyClause s (fun tree t => t = s ∧ tree.Lies source s.lastEnd s.span.start)
      fun e _ => e.Located source :=
  ⟨rfl, (Span.Lies.empty hs.span.first).mono hs.span.low (Nat.le_refl _), nofun⟩

variable (h : inner.Placed source)
include h

theorem spans_condition : Spans source inner.condition (Lies source) := by
  intro s hs
  refine (spans_demand _ _ s hs).bind fun _ t ⟨ht, hleft⟩ => ?_
  refine (spans_expression h _ t ht).bind fun test u ⟨hu, htest⟩ => ?_
  refine (spans_demand _ _ u hu).bind fun _ v ⟨hv, hright⟩ => ⟨hv, ?_⟩
  exact htest.mono hleft.le hright.le

theorem spans_declarator (allowIn : Bool) :
    Spans source (inner.declarator allowIn) (Lies source) := by
  intro s hs
  refine (spans_identifier s hs).bind fun name t ⟨ht, hname⟩ => ?_
  rw [leads_bind, seesMark, leads_sees]
  split
  · rw [leads_bind, leads_currentText]
    refine (spans_advance t ht).bind ?_
    rintro _ u ⟨hu, hle⟩
    refine (h _ u hu).bind ?_
    rintro value v ⟨hv, hvalue⟩
    exact ⟨hv, (hname.mono (Nat.le_refl _) hle).pair hvalue⟩
  · exact ⟨ht, hname⟩

theorem spans_declarations (allowIn : Bool) :
    Spans source (inner.declarations allowIn) (Lies source) := by
  intro s hs
  refine (spans_demand _ _ s hs).bind fun place t ⟨ht, hplace⟩ => ?_
  refine (spans_commaSeparated (spans_declarator h allowIn) t ht).bind ?_
  rintro found u ⟨hu, hfound⟩
  exact leads_closed hu hplace.first hplace.low (hfound.mono hplace.start_le (Nat.le_refl _))

theorem spans_varStatement : Spans source inner.varStatement (Lies source) := by
  intro s hs
  refine (spans_declarations h _ s hs).bind fun declarations t ⟨ht, hdeclarations⟩ => ?_
  refine (spans_endStatement t ht).bind fun _ u ⟨hu, hle⟩ => ⟨hu, ?_⟩
  exact hdeclarations.mono (Nat.le_refl _) hle

theorem spans_ifStatement : Spans source inner.ifStatement (Lies source) := by
  intro s hs
  refine (spans_demand _ _ s hs).bind fun place t ⟨ht, hplace⟩ => ?_
  refine (spans_condition h t ht).bind fun test u ⟨hu, htest⟩ => ?_
  refine (h _ u hu).bind fun consequent v ⟨hv, hconsequent⟩ => ?_
  refine (spans_accept _ v hv).bind fun found w ⟨hw, helse⟩ => ?_
  extract_lets rest
  have hrest : ∀ alternate x, x.Sited source → Row source w.lastEnd alternate x.lastEnd →
      Leads (rest alternate) x
        (fun tree y => y.Sited source ∧ tree.Lies source s.lastEnd y.lastEnd)
        fun e _ => e.Located source := fun alternate x hx halternate =>
    leads_closed hx hplace.first hplace.low (.cons (htest.mono hplace.start_le (Nat.le_refl _))
      (.cons hconsequent (halternate.mono helse (Nat.le_refl _))))
  split
  · exact (h _ w hw).bind fun alternate x ⟨hx, halternate⟩ =>
      hrest [alternate] x hx (.one halternate)
  · exact hrest [] w hw (.nil (Nat.le_refl _))

theorem spans_doStatement : Spans source inner.doStatement (Lies source) := by
  intro s hs
  refine (spans_demand _ _ s hs).bind fun place t ⟨ht, hplace⟩ => ?_
  refine (h _ t ht).bind fun body u ⟨hu, hbody⟩ => ?_
  refine (spans_demand _ _ u hu).bind fun _ v ⟨hv, hwhile⟩ => ?_
  refine (spans_condition h v hv).bind fun test w ⟨hw, htest⟩ => ?_
  refine leads_closed_then hw hplace.first hplace.low ?_ (spans_accept _)
  exact .cons (Lies.mono hbody hplace.start_le (Nat.le_refl _))
    (.one (htest.mono hwhile.le (Nat.le_refl _)))

theorem spans_whileStatement : Spans source inner.whileStatement (Lies source) := by
  intro s hs
  refine (spans_demand _ _ s hs).bind fun place t ⟨ht, hplace⟩ => ?_
  refine (spans_condition h t ht).bind fun test u ⟨hu, htest⟩ => ?_
  refine (h _ u hu).bind fun body v ⟨hv, hbody⟩ => ?_
  exact leads_closed hv hplace.first hplace.low
    (.cons (htest.mono hplace.start_le (Nat.le_refl _)) (.one hbody))

theorem spans_withStatement : Spans source inner.withStatement (Lies source) := by
  intro s hs
  refine (spans_demand _ _ s hs).bind fun place t ⟨ht, hplace⟩ => ?_
  refine (spans_condition h t ht).bind fun object u ⟨hu, hobject⟩ => ?_
  refine (h _ u hu).bind fun body v ⟨hv, hbody⟩ => ?_
  exact leads_closed hv hplace.first hplace.low
    (.cons (hobject.mono hplace.start_le (Nat.le_refl _)) (.one hbody))

/-! The heads of loops end before the token that comes next begins. -/

theorem leads_clauseBefore (hs : s.Sited source) (last : Punctuator) :
    Leads (inner.clauseBefore last) s (fun tree t => t.Sited source ∧
      tree.Lies source s.lastEnd t.span.start) fun e _ => e.Located source := by
  rw [clauseBefore, leads_bind, seesMark, leads_sees]
  split
  · refine (leads_emptyClause hs).imp fun tree t ht => ?_
    rw [ht.1]
    exact ⟨hs, ht.2⟩
  · refine (spans_expression h _ s hs).bind ?_
    rintro e t ⟨ht, he⟩
    exact ⟨ht, he.wrap.mono (Nat.le_refl _) ht.span.low⟩

/-- What makes the head of a loop ends with all its clauses before the next token. -/
theorem leads_stepHead (hs : s.Sited source) (hstart : IsBoundary source start)
    {init : Option ParseTree} (hm : m ≤ s.lastEnd) (hinit : ∀ t ∈ init, t.Lies source m s.lastEnd) :
    Leads (inner.stepHead start init) s (fun tree t => t.Sited source ∧
      tree.Inside source m t.span.start) fun e _ => e.Located source := by
  unfold stepHead
  extract_lets rest
  have hrest : ∀ init, init.Lies source m s.span.start →
      Leads (rest init) s (fun tree t => t.Sited source ∧ tree.Inside source m t.span.start)
        fun e _ => e.Located source := fun init hinit => by
    refine (leads_demand hs _ _).bind fun _ t ⟨ht, _, hfirst⟩ => ?_
    refine (leads_clauseBefore h ht _).bind fun test u ⟨hu, htest⟩ => ?_
    refine (leads_demand hu _ _).bind fun _ v ⟨hv, _, hsecond⟩ => ?_
    refine (leads_clauseBefore h hv _).bind fun update w ⟨hw, hupdate⟩ => ?_
    -- The head itself may end before an update that is left out, so it has no place of its own.
    have hrow : Row source m [init, test, update] w.span.start :=
      .cons hinit (.cons (htest.mono hfirst (Nat.le_refl _))
        (.one (hupdate.mono hsecond (Nat.le_refl _))))
    exact ⟨hw, .head (.inl rfl) hstart hrow.le hrow.inside⟩
  cases init with
  | none =>
    refine (leads_emptyClause hs).bind fun tree t ⟨ht, htree⟩ => ?_
    rw [ht]
    exact hrest tree (htree.mono hm (Nat.le_refl _))
  | some init => exact hrest _ ((hinit init rfl).wrap.mono (Nat.le_refl _) hs.span.low)

theorem leads_inHead {target : ParseTree} (hs : s.Sited source) (hstart : IsBoundary source start)
    (htarget : target.Lies source m s.lastEnd) :
    Leads (inner.inHead start target) s (fun tree t => t.Sited source ∧
      tree.Inside source m t.span.start) fun e _ => e.Located source := by
  rw [inHead]
  split
  · exact hs.span.first
  · refine (spans_advance s hs).bind fun _ t ⟨ht, hle⟩ => ?_
    refine (spans_expression h _ t ht).bind fun object u ⟨hu, hobject⟩ => ?_
    have hrow : Row source m [.wrap .expression target, .wrap .expression object] u.lastEnd :=
      .cons (htarget.wrap.mono (Nat.le_refl _) hle) (.one hobject.wrap)
    have hrow := hrow.mono (Nat.le_refl _) hu.span.low
    exact ⟨hu, .head (.inr rfl) hstart hrow.le hrow.inside⟩

theorem leads_forHead (hs : s.Sited source) :
    Leads inner.forHead s (fun tree t => t.Sited source ∧
      tree.Inside source s.lastEnd t.span.start) fun e _ => e.Located source := by
  rw [forHead, leads_bind, leads_currentSpan]
  extract_lets start
  rw [leads_bind, leads_token?]
  have htarget : ∀ target t, t.Sited source → target.Lies source s.lastEnd t.lastEnd → Leads (do
        if ← seesWord .«in» then inner.inHead start target
        else inner.stepHead start (some target)) t
      (fun tree u => u.Sited source ∧ tree.Inside source s.lastEnd u.span.start)
      fun e _ => e.Located source := fun target t ht htarget => by
    rw [leads_bind, seesWord, leads_sees]
    split
    · exact leads_inHead h ht hs.span.first htarget
    · refine leads_stepHead h ht hs.span.first htarget.le ?_
      rintro _ ⟨⟩
      exact htarget
  split
  · have hnone : ∀ t ∈ (none : Option ParseTree), t.Lies source s.lastEnd s.lastEnd := by
      rintro _ ⟨⟩
    exact leads_stepHead h hs hs.span.first (Nat.le_refl _) hnone
  · rw [leads_bind, leads_map]
    exact (spans_declarations h _ s hs).imp fun target t ht => htarget target t ht.1 ht.2
  · rw [leads_bind, leads_map]
    exact (spans_expression h _ s hs).imp fun target t ht => htarget target t ht.1 ht.2

theorem spans_forStatement : Spans source inner.forStatement (Lies source) := by
  intro s hs
  refine (spans_demand _ _ s hs).bind fun place t ⟨ht, hplace⟩ => ?_
  refine (spans_demand _ _ t ht).bind fun _ u ⟨hu, hleft⟩ => ?_
  refine (leads_forHead h hu).bind fun head v ⟨hv, hhead⟩ => ?_
  refine (leads_demand hv _ _).bind fun _ w ⟨hw, _, hright⟩ => ?_
  refine (h _ w hw).bind fun body x ⟨hx, hbody⟩ => ?_
  have hbefore : place.start ≤ u.lastEnd := Nat.le_trans hplace.start_le hleft.le
  have hafter : v.span.start ≤ x.lastEnd := Nat.le_trans hright hbody.le
  have hstart : place.start ≤ w.lastEnd := Nat.le_trans hbefore (Nat.le_trans hhead.le hright)
  refine leads_around hx hplace.first hplace.low (Nat.le_trans hstart hbody.le) ?_
  refine List.forall_mem_cons.2 ⟨hhead.mono hbefore hafter, List.forall_mem_singleton.2 ?_⟩
  exact hbody.inside.mono hstart (Nat.le_refl _)

theorem spans_returnStatement : Spans source inner.returnStatement (Lies source) := by
  intro s hs
  refine (spans_demand _ _ s hs).bind fun place t ⟨ht, hplace⟩ => ?_
  rw [leads_bind, leads_get]
  extract_lets ended rest
  have hrest : ∀ value u, u.Sited source → Row source t.lastEnd value u.lastEnd →
      Leads (rest value) u (fun tree v => v.Sited source ∧ tree.Lies source s.lastEnd v.lastEnd)
        fun e _ => e.Located source := fun value u hu hvalue =>
    leads_closed_then hu hplace.first hplace.low (hvalue.mono hplace.start_le (Nat.le_refl _))
      spans_endStatement
  split
  · exact hrest [] t ht (.nil (Nat.le_refl _))
  · exact (spans_expression h _ t ht).bind fun value u ⟨hu, hvalue⟩ =>
      hrest [value] u hu (.one hvalue)

theorem spans_throwStatement : Spans source inner.throwStatement (Lies source) := by
  intro s hs
  refine (spans_demand _ _ s hs).bind fun place t ⟨ht, hplace⟩ => ?_
  rw [leads_bind, leads_lineBreakBefore]
  split
  · exact ht.span.first
  · refine (spans_expression h _ t ht).bind fun value u ⟨hu, hvalue⟩ => ?_
    exact leads_closed_then hu hplace.first hplace.low
      (.one (hvalue.mono hplace.start_le (Nat.le_refl _))) spans_endStatement

theorem spans_caseClause : Spans source inner.caseClause (Lies source) := by
  intro s hs
  refine (spans_demand _ _ s hs).bind fun place t ⟨ht, hplace⟩ => ?_
  refine (spans_expression h _ t ht).bind fun test u ⟨hu, htest⟩ => ?_
  refine (spans_demand _ _ u hu).bind fun _ v ⟨hv, hcolon⟩ => ?_
  refine (spans_statements h _ v hv).bind fun body w ⟨hw, hbody⟩ => ?_
  exact leads_closed hw hplace.first hplace.low
    (.cons (htest.mono hplace.start_le hcolon.le) hbody)

theorem spans_defaultClause : Spans source inner.defaultClause (Lies source) := by
  intro s hs
  refine (spans_demand _ _ s hs).bind fun place t ⟨ht, hplace⟩ => ?_
  refine (spans_demand _ _ t ht).bind fun _ u ⟨hu, hcolon⟩ => ?_
  refine (spans_statements h _ u hu).bind fun body v ⟨hv, hbody⟩ => ?_
  exact leads_closed hv hplace.first hplace.low
    (hbody.mono (Nat.le_trans hplace.start_le hcolon.le) (Nat.le_refl _))

theorem spans_clauses (hasDefault : Bool) (bound : Nat) :
    Spans source (inner.clauses hasDefault bound) (Row source) := by
  induction bound generalizing hasDefault with
  | zero => exact fun _ _ => Text.isBoundary_zero
  | succ bound ih =>
    intro s hs
    rw [clauses, leads_bind, leads_token?]
    split
    · refine (spans_caseClause h s hs).bind fun clause t ⟨ht, hclause⟩ => ?_
      exact (ih hasDefault t ht).bind fun others u ⟨hu, hothers⟩ => ⟨hu, .cons hclause hothers⟩
    · split
      · exact hs.span.first
      · refine (spans_defaultClause h s hs).bind fun clause t ⟨ht, hclause⟩ => ?_
        exact (ih true t ht).bind fun others u ⟨hu, hothers⟩ => ⟨hu, .cons hclause hothers⟩
    · exact ⟨hs, .nil (Nat.le_refl _)⟩

theorem spans_switchStatement : Spans source inner.switchStatement (Lies source) := by
  intro s hs
  refine (spans_demand _ _ s hs).bind fun place t ⟨ht, hplace⟩ => ?_
  refine (spans_condition h t ht).bind fun discriminant u ⟨hu, hdiscriminant⟩ => ?_
  refine (spans_demand _ _ u hu).bind fun _ v ⟨hv, hleft⟩ => ?_
  refine (spans_clauses h _ _ v hv).bind fun clauses w ⟨hw, hclauses⟩ => ?_
  refine (spans_demand _ _ w hw).bind fun _ x ⟨hx, hright⟩ => ?_
  exact leads_closed hx hplace.first hplace.low
    (.cons (hdiscriminant.mono hplace.start_le hleft.le) (hclauses.mono (Nat.le_refl _) hright.le))

theorem spans_catchClause : Spans source inner.catchClause (Lies source) := by
  intro s hs
  refine (spans_demand _ _ s hs).bind fun place t ⟨ht, hplace⟩ => ?_
  refine (spans_demand _ _ t ht).bind fun _ u ⟨hu, hleft⟩ => ?_
  refine (spans_identifier u hu).bind fun binding v ⟨hv, hbinding⟩ => ?_
  refine (spans_demand _ _ v hv).bind fun _ w ⟨hw, hright⟩ => ?_
  refine (spans_block h w hw).bind fun body x ⟨hx, hbody⟩ => ?_
  exact leads_closed hx hplace.first hplace.low
    (.cons (hbinding.mono (Nat.le_trans hplace.start_le hleft.le) hright.le) (.one hbody))

theorem spans_finallyClause : Spans source inner.finallyClause (Lies source) := by
  intro s hs
  refine (spans_demand _ _ s hs).bind fun place t ⟨ht, hplace⟩ => ?_
  refine (spans_block h t ht).bind fun body u ⟨hu, hbody⟩ => ?_
  exact leads_closed hu hplace.first hplace.low
    (.one (hbody.mono hplace.start_le (Nat.le_refl _)))

theorem spans_tryStatement : Spans source inner.tryStatement (Lies source) := by
  intro s hs
  refine (spans_demand _ _ s hs).bind fun place t ⟨ht, hplace⟩ => ?_
  refine (spans_block h t ht).bind fun body u ⟨hu, hbody⟩ => ?_
  rw [leads_bind, seesWord, leads_sees]
  extract_lets afterHandler
  have hbody := hbody.mono hplace.start_le (Nat.le_refl _)
  have hafter : ∀ handler v, v.Sited source → Row source u.lastEnd handler v.lastEnd →
      Leads (afterHandler handler) v
        (fun tree w => w.Sited source ∧ tree.Lies source s.lastEnd w.lastEnd)
        fun e _ => e.Located source := fun handler v hv hhandler => by
    change Leads (seesWord .«finally» >>= _) v _ _
    rw [leads_bind, seesWord, leads_sees]
    extract_lets afterCleanup
    have hend : ∀ cleanup w, w.Sited source → Row source v.lastEnd cleanup w.lastEnd →
        Leads (afterCleanup cleanup) w
          (fun tree x => x.Sited source ∧ tree.Lies source s.lastEnd x.lastEnd)
          fun e _ => e.Located source := fun cleanup w hw hcleanup => by
      change Leads (if _ then _ else _) w _ _
      split
      · exact hw.span.first
      · exact leads_closed hw hplace.first hplace.low (.append (.cons hbody hhandler) hcleanup)
    split
    · exact (spans_finallyClause h v hv).bind fun clause w ⟨hw, hclause⟩ =>
        hend [clause] w hw (.one hclause)
    · exact hend [] v hv (.nil (Nat.le_refl _))
  split
  · exact (spans_catchClause h u hu).bind fun clause v ⟨hv, hclause⟩ =>
      hafter [clause] v hv (.one hclause)
  · exact hafter [] u hu (.nil (Nat.le_refl _))

theorem spans_expressionStatement : Spans source inner.expressionStatement (Lies source) := by
  intro s hs
  refine (spans_expressionOf (spans_assignment h true) s hs).bind fun e t ⟨ht, he⟩ => ?_
  rw [leads_bind, seesMark, leads_sees]
  split
  · refine (spans_advance t ht).bind ?_
    rintro _ u ⟨hu, hle⟩
    refine (h _ u hu).bind ?_
    rintro body v ⟨hv, hbody⟩
    exact ⟨hv, (he.mono (Nat.le_refl _) hle).pair hbody⟩
  · refine (spans_endStatement t ht).bind ?_
    rintro _ u ⟨hu, hle⟩
    exact ⟨hu, he.wrap.mono (Nat.le_refl _) hle⟩

theorem leads_longStatement (hs : s.Sited source) :
    Leads (inner.longStatement s.token?) s
      (fun tree t => t.Sited source ∧ tree.Lies source s.lastEnd t.lastEnd)
      fun e _ => e.Located source := by
  generalize ht : s.token? = token
  unfold longStatement
  split
  · exact spans_block h s hs
  · exact spans_varStatement h s hs
  · exact spans_ifStatement h s hs
  · exact spans_doStatement h s hs
  · exact spans_whileStatement h s hs
  · exact spans_forStatement h s hs
  · exact leads_jumpStatement hs ht
  · exact leads_jumpStatement hs ht
  · exact spans_returnStatement h s hs
  · exact spans_withStatement h s hs
  · exact spans_switchStatement h s hs
  · exact spans_throwStatement h s hs
  · exact spans_tryStatement h s hs
  · exact spans_function h true s hs
  · exact spans_expressionStatement h s hs

theorem spans_statement : Spans source inner.statement (Lies source) := by
  refine Spans.entered (fun s hs => ?_) fun _ _ _ _ hle ht => Lies.mono ht hle (Nat.le_refl _)
  rw [leads_bind, leads_token?]
  split
  · rename_i ht
    rw [leads_thenLeaveIfOk]
    exact (leads_emptyStatement hs ht).imp fun _ _ hu => ⟨hu.1.withDepth _, hu.2⟩
  · rename_i ht
    rw [leads_thenLeaveIfOk]
    exact (leads_debuggerStatement hs ht).imp fun _ _ hu => ⟨hu.1.withDepth _, hu.2⟩
  · rw [leads_thenLeave]
    exact (leads_longStatement h hs).imp fun _ _ hu => ⟨hu.1.withDepth _, hu.2⟩

end Ecma3.Grammar.Inner
