import Ecma3.Proofs.Grammar.Spacing.Expression

/-!
Statements begin with the current lexeme. Those that need an end are closed where they end, and the
heads of loops are free of the word that would end them too early.
-/
namespace Ecma3.Grammar.Inner

open ParserM ParseTree
open Text (byteLength isLineTerminator IsSlice)

variable {source : List Char} {inner : Inner} {s t : Session} {token : Token} {kind : Kind}
  {word : ReservedWord} {start : Nat}

/-- What follows a word on the same line follows it in the tree. -/
theorem followsWord_of_passes {place : Span} {text : String} {children : List ParseTree}
    {stop : Nat} (hs : s.Spaced source) (htoken : s.token? = some (.reserved word))
    (hplace : s.PassesAt source place t) (ht : t.Spaced source) (htext : text = word.spelling)
    (hline : ∀ c ∈ children, c.span.start = t.span.start ∧ t.lineBreakBefore = false) :
    FollowsWord source ⟨kind, text, ⟨place.start, stop⟩, children⟩ := by
  intro c hc
  obtain ⟨hstart, hbreak⟩ := hline c hc
  obtain ⟨gap, hgap, hlines⟩ := hplace.sameLine ht hbreak
  rw [hs.word htoken, ← hstart] at hgap
  exact ⟨word, gap, htext, hgap, hlines⟩

/-- The word that jumps and its label stand on one line. -/
theorem leads_jumpStatement_rests (hs : s.Spaced source)
    (htoken : s.token? = some (.reserved word)) (hkind : kind = .«break» ∨ kind = .«continue») :
    Leads (jumpStatement kind) s (fun tree t => t.Spaced source ∧ Rests source s tree t)
      fun _ _ => True := by
  rw [jumpStatement, leads_bind, leads_currentSpan]
  extract_lets start
  rw [leads_bind, leads_currentText]
  apply (leads_pass hs htoken).bind
  rintro _ t ⟨ht, hword⟩
  rw [leads_bind, leads_get]
  extract_lets rest
  have hrest : ∀ label u, u.Spaced source → Series source t.lastEnd label u.lastEnd →
      (∀ c ∈ label, c.span.start = t.span.start ∧ t.lineBreakBefore = false) →
      Leads (rest label) u (fun tree v => v.Spaced source ∧ Rests source s tree v)
        fun _ _ => True := by
    intro label u hu hlabel hline
    refine leads_ended hu rfl (hlabel.mono hword.start_le (Nat.le_refl _)) ?_
    have hfollows : FollowsWord source ⟨kind, s.text, ⟨start, u.lastEnd⟩, label⟩ :=
      followsWord_of_passes hs htoken hword ht (String.toList_inj.1 (hs.word htoken)) hline
    rcases hkind with rfl | rfl <;> exact hfollows
  split
  · rename_i hname
    simp only [Bool.and_eq_true, decide_eq_true_eq, Bool.not_eq_true'] at hname
    apply (leads_leaf_fills ht hname.1 rfl).bind
    rintro name u ⟨hu, hlabel⟩
    refine hrest [name] u hu (.one (hlabel.within ht)) ?_
    exact List.forall_mem_singleton.2 ⟨hlabel.start, hname.2⟩
  · exact hrest [] t ht (.nil (Nat.le_refl _)) nofun

theorem leads_emptyStatement_rests (hs : s.Spaced source) (ht : s.token? = some token) :
    Leads emptyStatement s (fun tree t => t.Spaced source ∧ Rests source s tree t)
      fun _ _ => True := by
  apply (leads_pass hs ht).bind
  rintro _ t ⟨ht, hmark⟩
  refine ⟨ht, ?_⟩
  have hle : s.span.start ≤ s.span.stop := hmark.stop ▸ hmark.le
  have htree : Fills source s (group .block s.span []) t :=
    .of_series rfl hmark.stop ht (.nil hle) nofun
  exact htree.rests rfl

theorem leads_debuggerStatement_rests (hs : s.Spaced source) (ht : s.token? = some token) :
    Leads debuggerStatement s (fun tree t => t.Spaced source ∧ Rests source s tree t)
      fun _ _ => True :=
  (leads_leaf_fills hs ht rfl).bind fun _ _ ⟨ht, hnode⟩ => leads_fills_ended ht hnode

/-- A clause that is left out, before the token that is seen to follow. -/
def IsLeftOut (s : Session) (last : Punctuator) (clause : ParseTree) : Prop :=
  clause = group .expression ⟨s.span.start, s.span.start⟩ [] ∧
    s.token? = some (.punctuator last)

theorem within_leftOut (hs : s.Spaced source) :
    (group .expression ⟨s.span.start, s.span.start⟩ []).Within source s.span.start s.span.start :=
  ⟨Nat.le_refl _, Nat.le_refl _, (Series.nil (Nat.le_refl _)).tree hs.start_le (.of_isQuiet rfl)⟩

theorem noBareIn_leftOut {place : Span} : (group .expression place []).NoBareIn :=
  noBareIn_of_children nofun nofun

theorem noBareIn_wrap {e : ParseTree} (h : e.NoBareIn) : (wrap .expression e).NoBareIn :=
  noBareIn_of_children nofun (List.forall_mem_singleton.2 h)

/-- A clause ends before the current lexeme begins, also if it is left out. -/
theorem within_clause {clause : ParseTree} {last : Punctuator} (hs : s.Spaced source)
    (ht : t.Spaced source)
    (hclause : (t = s ∧ IsLeftOut s last clause) ∨ clause.Within source s.lastEnd t.lastEnd) :
    clause.Within source s.lastEnd t.span.start := by
  rcases hclause with ⟨rfl, rfl, -⟩ | hwithin
  · exact (within_leftOut hs).mono hs.lastEnd_le (Nat.le_refl _)
  · exact hwithin.mono (Nat.le_refl _) ht.lastEnd_le

/-- A last clause that is left out ends with the head of the loop, or overhangs it by the gap before
the parenthesis. -/
theorem leftOut_overhangs {init test update : ParseTree} (hs : s.Spaced source)
    (hupdate : IsLeftOut s .rightParen update) : update.span.stop ≤ s.lastEnd ∨
      Overhangs source (group .forStep ⟨start, s.lastEnd⟩ [init, test, update]) update := by
  obtain ⟨rfl, htoken⟩ := hupdate
  obtain ⟨before, gap, rest, hstands⟩ := hs.stands
  obtain ⟨l, hcurrent, -⟩ := token?_eq_some htoken
  have htext := hs.mark htoken
  simp only [Session.text, hcurrent] at htext
  have hrest : rest = ')' :: s.cursor.rest := by
    rw [hstands.text l hcurrent, htext]
    rfl
  by_cases hgap : gap = []
  · left
    have hstart := hstands.start
    rw [hgap, List.append_nil, ← hstands.lastEnd] at hstart
    exact Nat.le_of_eq hstart
  · right
    refine ⟨rfl, ⟨init, test, rfl⟩, ⟨rfl, rfl⟩, before, gap, s.cursor.rest, ?_, hgap, ?_,
      hstands.lastEnd, hstands.start⟩
    · exact hrest ▸ hstands.split
    · exact hrest ▸ hstands.isGap

/-- The head of a counting loop, from its clauses. -/
theorem regular_stepHead {init test update : ParseTree} (hs : s.Spaced source) (ht : t.Spaced source)
    (hseries : Series source start [init, test] s.lastEnd) (hclear : init.NoBareIn)
    (hupdate : (t = s ∧ IsLeftOut s .rightParen update) ∨
      update.Within source s.lastEnd t.lastEnd) :
    Everywhere (Regular source) (group .forStep ⟨start, t.lastEnd⟩ [init, test, update]) := by
  have hclauses : Series source start ([init, test] ++ [update]) t.span.start :=
    hseries.append (.one (within_clause hs ht hupdate))
  have hle : s.lastEnd ≤ t.lastEnd := by
    rcases hupdate with ⟨rfl, -⟩ | hwithin
    · exact Nat.le_refl _
    · exact hwithin.le
  have hlast : update.span.stop ≤ t.lastEnd ∨
      Overhangs source (group .forStep ⟨start, t.lastEnd⟩ [init, test, update]) update := by
    rcases hupdate with ⟨rfl, hleft⟩ | hwithin
    · exact leftOut_overhangs hs hleft
    · exact Or.inl hwithin.high
  have hconforms : ClearHead (group .forStep ⟨start, t.lastEnd⟩ [init, test, update]) :=
    ⟨fun _ => ⟨init, test, update, rfl, hclear⟩, nofun⟩
  refine .intro ⟨⟨?_, ht.lastEnd_le_size, hclauses.pairwise, fun c hc => ?_⟩, hconforms⟩
    fun c hc => (hclauses.within c hc).regular
  · exact Nat.le_trans hseries.le hle
  · refine ⟨(hclauses.within c hc).low, ?_⟩
    rcases List.mem_append.1 (show c ∈ [init, test] ++ [update] from hc) with hfirst | hupdate
    · exact Or.inl (Nat.le_trans (hseries.within c hfirst).high hle)
    · exact List.mem_singleton.1 hupdate ▸ hlast

variable (h : inner.Traced source)
include h

theorem traces_condition : Traces source inner.condition fun s tree t =>
    tree.Within source s.lastEnd t.lastEnd := by
  intro s hs
  apply (traces_demand _ _ s hs).bind
  rintro _ t ⟨ht, _, hleft⟩
  apply (traces_expression h _ t ht).bind
  rintro test u ⟨hu, htest⟩
  apply (traces_demand _ _ u hu).bind
  rintro _ v ⟨hv, _, hright⟩
  refine ⟨hv, ?_⟩
  exact (htest.within ht).mono (hleft.lastEnd_le hs) (hright.lastEnd_le hu)

theorem traces_declarator (allowIn : Bool) :
    Traces source (inner.declarator allowIn) (Fills source) := by
  intro s hs
  apply (traces_identifier s hs).bind
  rintro name t ⟨ht, hname⟩
  rw [leads_bind, seesMark, leads_sees]
  split
  · rw [leads_bind, leads_currentText]
    apply (leads_pass ht (beq_iff_eq.1 ‹_›)).bind
    rintro _ u ⟨hu, hmark⟩
    apply (h.traces (.assignment allowIn) u hu).bind
    rintro value v ⟨hv, hvalue⟩
    refine ⟨hv, ?_⟩
    exact hname.pair hvalue hu hv (hmark.lastEnd_le ht) rfl
  · exact ⟨ht, hname⟩

theorem traces_declarations (allowIn : Bool) :
    Traces source (inner.declarations allowIn) (Fills source) := by
  intro s hs
  apply (traces_demand _ _ s hs).bind
  rintro word t ⟨ht, _, hword⟩
  apply (traces_commaSeparated (traces_declarator h allowIn) t ht).bind
  rintro found u ⟨hu, _, hfound, _⟩
  refine leads_filled hu hword.start (hfound.mono ?_ (Nat.le_refl _)) (.of_isQuiet rfl)
  exact Nat.le_trans hword.start_le ht.lastEnd_le

theorem traces_varStatement : Traces source inner.varStatement (Rests source) := fun s hs =>
  (traces_declarations h true s hs).bind fun _ _ ⟨ht, htree⟩ => leads_fills_ended ht htree

theorem traces_ifStatement : Traces source inner.ifStatement (Rests source) := by
  intro s hs
  apply (traces_demand _ _ s hs).bind
  rintro word t ⟨ht, _, hword⟩
  apply (traces_condition h t ht).bind
  rintro test u ⟨hu, htest⟩
  apply (h.traces .statement u hu).bind
  rintro consequent v ⟨hv, hconsequent⟩
  apply (traces_accept _ v hv).bind
  rintro found w ⟨hw, helse, _⟩
  extract_lets rest
  have hrest : ∀ alternate x, x.Spaced source → Series source w.lastEnd alternate x.lastEnd →
      (∀ c ∈ alternate, c.Ended source) →
      Leads (rest alternate) x (fun tree y => y.Spaced source ∧ Rests source s tree y)
        fun _ _ => True := by
    intro alternate x hx halternate hended
    refine leads_rested hx hword.start (.cons (htest.mono hword.start_le (Nat.le_refl _))
      (.cons (Rests.within hconsequent hu) (halternate.mono helse (Nat.le_refl _)))) rfl ?_
    exact List.forall_mem_cons.2 ⟨hconsequent.ended, hended⟩
  split
  · apply (h.traces .statement w hw).bind
    rintro alternate x ⟨hx, halternate⟩
    exact hrest [alternate] x hx (.one (Rests.within halternate hw))
      (List.forall_mem_singleton.2 halternate.ended)
  · exact hrest [] w hw (.nil (Nat.le_refl _)) nofun

theorem traces_doStatement : Traces source inner.doStatement (Rests source) := by
  intro s hs
  apply (traces_demand _ _ s hs).bind
  rintro word t ⟨ht, _, hword⟩
  apply (h.traces .statement t ht).bind
  rintro body u ⟨hu, hbody⟩
  apply (traces_demand _ _ u hu).bind
  rintro _ v ⟨hv, _, hwhile⟩
  apply (traces_condition h v hv).bind
  rintro test w ⟨hw, htest⟩
  have hseries : Series source word.start [body, test] w.lastEnd :=
    .cons ((Rests.within hbody ht).mono hword.start_le (hwhile.lastEnd_le hu)) (.one htest)
  rw [leads_bind, spanFrom, leads_bind, leads_get, leads_pure, Nat.max_eq_left hseries.le]
  apply (traces_accept _ w hw).bind
  rintro _ x ⟨hx, hle, _⟩
  have hconforms := List.forall_mem_singleton.2 hbody.ended
  exact ⟨hx, hword.start, hle, hseries.tree hw.lastEnd_le_size hconforms, by rintro ⟨⟩⟩

theorem traces_whileStatement : Traces source inner.whileStatement (Rests source) := by
  intro s hs
  apply (traces_demand _ _ s hs).bind
  rintro word t ⟨ht, _, hword⟩
  apply (traces_condition h t ht).bind
  rintro test u ⟨hu, htest⟩
  apply (h.traces .statement u hu).bind
  rintro body v ⟨hv, hbody⟩
  refine leads_rested hv hword.start (.cons (htest.mono hword.start_le (Nat.le_refl _))
    (.one (Rests.within hbody hu))) rfl ?_
  exact List.forall_mem_singleton.2 hbody.ended

theorem traces_withStatement : Traces source inner.withStatement (Rests source) := by
  intro s hs
  apply (traces_demand _ _ s hs).bind
  rintro word t ⟨ht, _, hword⟩
  apply (traces_condition h t ht).bind
  rintro object u ⟨hu, hobject⟩
  apply (h.traces .statement u hu).bind
  rintro body v ⟨hv, hbody⟩
  refine leads_rested hv hword.start (.cons (hobject.mono hword.start_le (Nat.le_refl _))
    (.one (Rests.within hbody hu))) rfl ?_
  exact List.forall_mem_singleton.2 hbody.ended

/-! The heads of loops. -/

theorem traces_clauseBefore (last : Punctuator) :
    Traces source (inner.clauseBefore last) fun s clause t =>
      (t = s ∧ IsLeftOut s last clause) ∨ clause.Within source s.lastEnd t.lastEnd := by
  intro s hs
  rw [clauseBefore, leads_bind, seesMark, leads_sees]
  split
  · rename_i hlast
    exact ⟨hs, Or.inl ⟨rfl, rfl, beq_iff_eq.1 hlast⟩⟩
  · apply (traces_expression h _ s hs).bind
    rintro e t ⟨ht, he⟩
    refine ⟨ht, Or.inr ?_⟩
    exact (he.within hs).wrap rfl

theorem leads_stepHead_within (hs : s.Spaced source) {init : Option ParseTree}
    (hle : start ≤ s.span.start)
    (hinit : ∀ e ∈ init, e.Within source start s.lastEnd ∧ e.NoBareIn) :
    Leads (inner.stepHead start init) s
      (fun tree t => t.Spaced source ∧ tree.Within source start t.lastEnd) fun _ _ => True := by
  unfold stepHead
  extract_lets rest
  have hrest : ∀ init, init.Within source start s.span.start → init.NoBareIn →
      Leads (rest init) s
        (fun tree t => t.Spaced source ∧ tree.Within source start t.lastEnd) fun _ _ => True := by
    intro init hinit hclear
    apply (traces_demand _ _ s hs).bind
    rintro _ t ⟨ht, _, hfirst⟩
    apply (traces_clauseBefore h _ t ht).bind
    rintro test u ⟨hu, htest⟩
    apply (traces_demand _ _ u hu).bind
    rintro _ v ⟨hv, _, hsecond⟩
    apply (traces_clauseBefore h _ v hv).bind
    rintro update w ⟨hw, hupdate⟩
    have hseries : Series source start [init, test] v.lastEnd :=
      .cons hinit (.one ((within_clause ht hu htest).mono hfirst.le hsecond.le))
    have hregular := regular_stepHead hv hw hseries hclear hupdate
    have hle : start ≤ w.lastEnd := hregular.root.nested.ordered
    simp only [leads_bind, spanFrom, leads_get, leads_pure]
    rw [Nat.max_eq_left hle]
    exact ⟨hw, Nat.le_refl _, Nat.le_refl _, hregular⟩
  cases init with
  | none => exact hrest _ ((within_leftOut hs).mono hle (Nat.le_refl _)) noBareIn_leftOut
  | some init =>
    obtain ⟨hwithin, hclear⟩ := hinit init rfl
    exact hrest _ ((hwithin.wrap rfl).mono (Nat.le_refl _) hs.lastEnd_le) (noBareIn_wrap hclear)

theorem leads_inHead_within {target : ParseTree} (hs : s.Spaced source)
    (htoken : s.token? = some token) (htarget : target.Within source start s.lastEnd)
    (hclear : target.NoBareIn) :
    Leads (inner.inHead start target) s
      (fun tree t => t.Spaced source ∧ tree.Within source start t.lastEnd) fun _ _ => True := by
  rw [inHead]
  split
  · trivial
  · rename_i hsingle
    apply (leads_pass hs htoken).bind
    rintro _ t ⟨ht, hword⟩
    apply (traces_expression h _ t ht).bind
    rintro object u ⟨hu, hobject⟩
    have hseries : Series source start
        [.wrap .expression target, .wrap .expression object] u.lastEnd :=
      .cons ((htarget.wrap rfl).mono (Nat.le_refl _) (hword.lastEnd_le hs))
        (.one ((hobject.within ht).wrap rfl))
    simp only [leads_bind, spanFrom, leads_get, leads_pure, Nat.max_eq_left hseries.le]
    have hconforms : ClearHead (group .forIn ⟨start, u.lastEnd⟩
        [.wrap .expression target, .wrap .expression object]) := by
      constructor
      · rintro ⟨⟩
      · intro _
        refine ⟨_, _, rfl, noBareIn_wrap hclear, List.forall_mem_singleton.2 fun hvar => ?_⟩
        simpa [hvar, List.length_eq_one_iff] using hsingle
    exact ⟨hu, Nat.le_refl _, Nat.le_refl _, hseries.tree hu.lastEnd_le_size hconforms⟩

theorem leads_forHead_within (hs : s.Spaced source) :
    Leads inner.forHead s
      (fun tree t => t.Spaced source ∧ tree.Within source s.span.start t.lastEnd)
      fun _ _ => True := by
  rw [forHead, leads_bind, leads_currentSpan]
  extract_lets start
  rw [leads_bind, leads_token?]
  have htarget : ∀ target t, t.Spaced source → Fills source s target t → target.NoBareIn →
      Leads (do
          if ← seesWord .«in» then inner.inHead start target
          else inner.stepHead start (some target)) t
        (fun tree u => u.Spaced source ∧ tree.Within source start u.lastEnd) fun _ _ => True := by
    intro target t ht htarget hclear
    rw [leads_bind, seesWord, leads_sees]
    split
    · exact leads_inHead_within h ht (beq_iff_eq.1 ‹_›) htarget.tight hclear
    · refine leads_stepHead_within h ht (Nat.le_trans htarget.tight.le ht.lastEnd_le) ?_
      rintro _ ⟨⟩
      exact ⟨htarget.tight, hclear⟩
  split
  · have hnone : ∀ e ∈ (none : Option ParseTree),
        e.Within source start s.lastEnd ∧ e.NoBareIn := by
      rintro _ ⟨⟩
    exact leads_stepHead_within h hs (Nat.le_refl _) hnone
  · rw [leads_bind, leads_map]
    refine ((traces_declarations h _ s hs).and (clear_declarations h.clear s hs.coherent)).imp ?_
    rintro target t ⟨⟨ht, hfills⟩, hclear, -⟩
    exact htarget target t ht hfills hclear
  · rw [leads_bind, leads_map]
    refine ((traces_expression h _ s hs).and (clear_expression h.clear s hs.coherent)).imp ?_
    rintro target t ⟨⟨ht, hfills⟩, hclear, -⟩
    exact htarget target t ht hfills hclear

theorem traces_forStatement : Traces source inner.forStatement (Rests source) := by
  intro s hs
  apply (traces_demand _ _ s hs).bind
  rintro word t ⟨ht, _, hword⟩
  apply (traces_demand _ _ t ht).bind
  rintro _ u ⟨hu, _, hleft⟩
  apply (leads_forHead_within h hu).bind
  rintro head v ⟨hv, hhead⟩
  apply (traces_demand _ _ v hv).bind
  rintro _ w ⟨hw, _, hright⟩
  apply (h.traces .statement w hw).bind
  rintro body x ⟨hx, hbody⟩
  have hbefore : word.start ≤ u.span.start :=
    Nat.le_trans hword.start_le (Nat.le_trans (hleft.lastEnd_le ht) hu.lastEnd_le)
  refine leads_rested hx hword.start (.cons (hhead.mono hbefore (hright.lastEnd_le hv))
    (.one (Rests.within hbody hw))) rfl ?_
  exact List.forall_mem_singleton.2 hbody.ended

theorem traces_returnStatement : Traces source inner.returnStatement (Rests source) := by
  intro s hs
  apply (traces_demand _ _ s hs).bind
  rintro word t ⟨ht, htoken, hword⟩
  rw [leads_bind, leads_get]
  extract_lets ended rest
  have hrest : ∀ value u, u.Spaced source → Series source t.lastEnd value u.lastEnd →
      (∀ c ∈ value, c.span.start = t.span.start ∧ t.lineBreakBefore = false) →
      Leads (rest value) u (fun tree v => v.Spaced source ∧ Rests source s tree v)
        fun _ _ => True := by
    intro value u hu hvalue hline
    refine leads_ended hu hword.start (hvalue.mono hword.start_le (Nat.le_refl _)) ?_
    exact followsWord_of_passes hs htoken hword ht rfl hline
  split
  · exact hrest [] t ht (.nil (Nat.le_refl _)) nofun
  · rename_i hgoes
    have hbreak : t.lineBreakBefore = false := by
      simp only [ended, Bool.or_eq_true, not_or, Bool.not_eq_true] at hgoes
      exact hgoes.1.1.1
    apply (traces_expression h _ t ht).bind
    rintro value u ⟨hu, hvalue⟩
    refine hrest [value] u hu (.one (hvalue.within ht)) ?_
    exact List.forall_mem_singleton.2 ⟨hvalue.start, hbreak⟩

theorem traces_throwStatement : Traces source inner.throwStatement (Rests source) := by
  intro s hs
  apply (traces_demand _ _ s hs).bind
  rintro word t ⟨ht, htoken, hword⟩
  rw [leads_bind, leads_lineBreakBefore]
  split
  · trivial
  · rename_i hbreak
    apply (traces_expression h _ t ht).bind
    rintro value u ⟨hu, hvalue⟩
    refine leads_ended hu hword.start
      (.one ((hvalue.within ht).mono hword.start_le (Nat.le_refl _))) ?_
    refine followsWord_of_passes hs htoken hword ht rfl ?_
    exact List.forall_mem_singleton.2 ⟨hvalue.start, Bool.eq_false_iff.2 hbreak⟩

theorem traces_caseClause : Traces source inner.caseClause (Fills source) := by
  intro s hs
  apply (traces_demand _ _ s hs).bind
  rintro word t ⟨ht, _, hword⟩
  apply (traces_expression h _ t ht).bind
  rintro test u ⟨hu, htest⟩
  apply (traces_demand _ _ u hu).bind
  rintro _ v ⟨hv, _, hcolon⟩
  apply (traces_statements h _ v hv).bind
  rintro body w ⟨hw, hbody, hended⟩
  exact leads_filled hw hword.start
    (.cons ((htest.within ht).mono hword.start_le (hcolon.lastEnd_le hu)) hbody) hended

theorem traces_defaultClause : Traces source inner.defaultClause (Fills source) := by
  intro s hs
  apply (traces_demand _ _ s hs).bind
  rintro word t ⟨ht, _, hword⟩
  apply (traces_demand _ _ t ht).bind
  rintro _ u ⟨hu, _, hcolon⟩
  apply (traces_statements h _ u hu).bind
  rintro body v ⟨hv, hbody, hended⟩
  have hle := Nat.le_trans hword.start_le (hcolon.lastEnd_le ht)
  exact leads_filled hv hword.start (hbody.mono hle (Nat.le_refl _)) hended

theorem traces_clauses (hasDefault : Bool) (bound : Nat) :
    Traces source (inner.clauses hasDefault bound) fun s found t =>
      Series source s.lastEnd found t.lastEnd := by
  induction bound generalizing hasDefault with
  | zero => exact fun _ _ => trivial
  | succ bound ih =>
    intro s hs
    rw [clauses, leads_bind, leads_token?]
    split
    · apply (traces_caseClause h s hs).bind
      rintro clause t ⟨ht, hclause⟩
      apply (ih hasDefault t ht).bind
      rintro others u ⟨hu, hothers⟩
      refine ⟨hu, ?_⟩
      exact .cons (hclause.within hs) hothers
    · split
      · trivial
      · apply (traces_defaultClause h s hs).bind
        rintro clause t ⟨ht, hclause⟩
        apply (ih true t ht).bind
        rintro others u ⟨hu, hothers⟩
        refine ⟨hu, ?_⟩
        exact .cons (hclause.within hs) hothers
    · exact ⟨hs, .nil (Nat.le_refl _)⟩

theorem traces_switchStatement : Traces source inner.switchStatement (Rests source) := by
  intro s hs
  apply (traces_demand _ _ s hs).bind
  rintro word t ⟨ht, _, hword⟩
  apply (traces_condition h t ht).bind
  rintro discriminant u ⟨hu, hdiscriminant⟩
  apply (traces_demand _ _ u hu).bind
  rintro _ v ⟨hv, _, hleft⟩
  apply (traces_clauses h _ _ v hv).bind
  rintro clauses w ⟨hw, hclauses⟩
  apply (traces_demand _ _ w hw).bind
  rintro _ x ⟨hx, _, hright⟩
  exact leads_rested hx hword.start
    (.cons (hdiscriminant.mono hword.start_le (hleft.lastEnd_le hu))
      (hclauses.mono (Nat.le_refl _) (hright.lastEnd_le hw))) rfl (.of_isQuiet rfl)

theorem traces_catchClause : Traces source inner.catchClause (Fills source) := by
  intro s hs
  apply (traces_demand _ _ s hs).bind
  rintro word t ⟨ht, _, hword⟩
  apply (traces_demand _ _ t ht).bind
  rintro _ u ⟨hu, _, hleft⟩
  apply (traces_identifier u hu).bind
  rintro binding v ⟨hv, hbinding⟩
  apply (traces_demand _ _ v hv).bind
  rintro _ w ⟨hw, _, hright⟩
  apply (traces_block h w hw).bind
  rintro body x ⟨hx, hbody, _⟩
  have hle := Nat.le_trans hword.start_le (hleft.lastEnd_le ht)
  exact leads_filled hx hword.start (.cons ((hbinding.within hu).mono hle (hright.lastEnd_le hv))
    (.one (hbody.within hw))) (.of_isQuiet rfl)

theorem traces_finallyClause : Traces source inner.finallyClause (Fills source) := by
  intro s hs
  apply (traces_demand _ _ s hs).bind
  rintro word t ⟨ht, _, hword⟩
  apply (traces_block h t ht).bind
  rintro body u ⟨hu, hbody, _⟩
  exact leads_filled hu hword.start
    (.one ((hbody.within ht).mono hword.start_le (Nat.le_refl _))) (.of_isQuiet rfl)

theorem traces_tryStatement : Traces source inner.tryStatement (Rests source) := by
  intro s hs
  apply (traces_demand _ _ s hs).bind
  rintro word t ⟨ht, _, hword⟩
  apply (traces_block h t ht).bind
  rintro body u ⟨hu, hbody, _⟩
  rw [leads_bind, seesWord, leads_sees]
  extract_lets afterHandler
  have hbody := (hbody.within ht).mono hword.start_le (Nat.le_refl _)
  have hafter : ∀ handler v, v.Spaced source → Series source u.lastEnd handler v.lastEnd →
      Leads (afterHandler handler) v (fun tree w => w.Spaced source ∧ Rests source s tree w)
        fun _ _ => True := by
    intro handler v hv hhandler
    change Leads (seesWord .«finally» >>= _) v _ _
    rw [leads_bind, seesWord, leads_sees]
    extract_lets afterCleanup
    have hend : ∀ cleanup w, w.Spaced source → Series source v.lastEnd cleanup w.lastEnd →
        Leads (afterCleanup cleanup) w (fun tree x => x.Spaced source ∧ Rests source s tree x)
          fun _ _ => True := by
      intro cleanup w hw hcleanup
      change Leads (if _ then _ else _) w _ _
      split
      · trivial
      · exact leads_rested hw hword.start (.append (.cons hbody hhandler) hcleanup) rfl
          (.of_isQuiet rfl)
    split
    · apply (traces_finallyClause h v hv).bind
      rintro clause w ⟨hw, hclause⟩
      exact hend [clause] w hw (.one (hclause.within hv))
    · exact hend [] v hv (.nil (Nat.le_refl _))
  split
  · apply (traces_catchClause h u hu).bind
    rintro clause v ⟨hv, hclause⟩
    exact hafter [clause] v hv (.one (hclause.within hu))
  · exact hafter [] u hu (.nil (Nat.le_refl _))

theorem traces_expressionStatement : Traces source inner.expressionStatement (Rests source) := by
  intro s hs
  apply (traces_expressionOf (traces_assignment h true) s hs).bind
  rintro e t ⟨ht, he⟩
  rw [leads_bind, seesMark, leads_sees]
  split
  · rename_i hlabel
    simp only [Bool.and_eq_true, beq_iff_eq] at hlabel
    apply (leads_pass ht hlabel.2).bind
    rintro _ u ⟨hu, hcolon⟩
    apply (h.traces .statement u hu).bind
    rintro body v ⟨hv, hbody⟩
    refine ⟨hv, ?_⟩
    have hwithin := Rests.within hbody hu
    have hseries : Series source e.span.start [e, body] body.span.stop := by
      refine .cons (k := u.lastEnd) ⟨Nat.le_refl _, ?_, he.regular⟩ (.one ?_)
      · exact he.stop ▸ hcolon.lastEnd_le ht
      · exact ⟨hwithin.low, Nat.le_refl _, hwithin.regular⟩
    have hconforms := List.forall_mem_singleton.2 hbody.ended
    refine ⟨he.start, hbody.stop, ?_, by rintro ⟨⟩⟩
    exact hseries.tree hbody.regular.root.nested.stop_le hconforms
  · exact leads_fills_ended ht (he.wrap rfl)

theorem leads_longStatement_rests (hs : s.Spaced source) :
    Leads (inner.longStatement s.token?) s (fun tree t => t.Spaced source ∧ Rests source s tree t)
      fun _ _ => True := by
  generalize ht : s.token? = token
  unfold longStatement
  split
  · apply (traces_block h s hs).imp
    rintro _ _ ⟨ht, htree, hkind⟩
    exact ⟨ht, htree.rests (by rw [hkind]; rfl)⟩
  · exact traces_varStatement h s hs
  · exact traces_ifStatement h s hs
  · exact traces_doStatement h s hs
  · exact traces_whileStatement h s hs
  · exact traces_forStatement h s hs
  · exact leads_jumpStatement_rests hs ht (Or.inr rfl)
  · exact leads_jumpStatement_rests hs ht (Or.inl rfl)
  · exact traces_returnStatement h s hs
  · exact traces_withStatement h s hs
  · exact traces_switchStatement h s hs
  · exact traces_throwStatement h s hs
  · exact traces_tryStatement h s hs
  · apply (traces_function h true s hs).imp
    rintro _ _ ⟨ht, htree, hkind⟩
    exact ⟨ht, htree.rests (by rw [hkind]; rfl)⟩
  · exact traces_expressionStatement h s hs

theorem traces_statement : Traces source inner.statement (Rests source) := by
  intro s hs
  apply (traces_enter s hs).bind
  rintro _ t ⟨ht, hspan, _, _⟩
  have hrests : ∀ tree u depth, u.Spaced source → Rests source t tree u →
      Session.Spaced source { u with depth } ∧ Rests source s tree { u with depth } := by
    intro tree u depth hu htree
    refine ⟨hu.withDepth depth, ?_, htree.stop, htree.regular, htree.ended⟩
    exact htree.start.trans (congrArg Span.start hspan)
  rw [leads_bind, leads_token?]
  split
  · rename_i htoken
    rw [leads_thenLeaveIfOk]
    exact (leads_emptyStatement_rests ht htoken).imp fun _ _ hu => hrests _ _ _ hu.1 hu.2
  · rename_i htoken
    rw [leads_thenLeaveIfOk]
    exact (leads_debuggerStatement_rests ht htoken).imp fun _ _ hu => hrests _ _ _ hu.1 hu.2
  · rw [leads_thenLeave]
    exact (leads_longStatement_rests h ht).imp fun _ _ hu => hrests _ _ _ hu.1 hu.2

end Ecma3.Grammar.Inner
