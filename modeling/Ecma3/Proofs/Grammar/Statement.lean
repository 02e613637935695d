import Ecma3.Grammar.Statement
import Ecma3.Proofs.Grammar.Expression

/-! The trees that the productions of statements give. -/
namespace Ecma3.Grammar
open ParserM ParseTree

variable {inner : Inner} {t : ParseTree} {kind : Kind} {start : Nat} {allowIn : Bool}

/-- A statement with what stands inside it. -/
abbrev Sentence (t : ParseTree) : Prop := t.WellFormed ∧ t.IsStatement

theorem sentence_of_has (kind : Kind) (h : t.Has kind) (hk : kind.isStatement = true)
    (he : kind ≠ .expression) : Sentence t :=
  ⟨h.1, by rw [h.2]; exact hk, fun ht => absurd (h.2.symm.trans ht) he⟩

theorem has_optional (P : ParseTree → Prop) (children : List ParseTree)
    (hlength : children.length ≤ 1) (hall : ∀ c ∈ children, P c) :
    children = [] ∨ ∃ a, children = [a] ∧ P a := by
  rcases nil_or_singleton hlength with rfl | ⟨a, rfl⟩
  · exact Or.inl rfl
  · exact Or.inr ⟨a, rfl, by simpa using hall⟩

namespace Inner

theorem gives_jumpStatement (hkind : kind = .«break» ∨ kind = .«continue») :
    Gives (jumpStatement kind) (Has kind) := by
  refine gives_currentSpan.bind fun _ _ => ?_
  refine gives_currentText.bind fun _ _ => ?_
  refine gives_advance.bind fun _ _ => ?_
  refine gives_get.bind fun _ _ => ?_
  extract_lets rest
  have hrest : ∀ label : List ParseTree, label.length ≤ 1 → (∀ c ∈ label, Has .identifier c) →
      Gives (rest label) (Has kind) := by
    intro label hlength hlabel
    refine (gives_spanFrom _).bind fun _ _ => ?_
    refine gives_endStatement.bind fun _ _ => .pure ⟨.intro ?_ fun c hc => (hlabel c hc).1, rfl⟩
    have hshape := has_optional (·.kind = .identifier) label hlength fun c hc => (hlabel c hc).2
    rcases hkind with rfl | rfl <;> exact hshape
  refine .ite (fun _ => ?_) fun _ => hrest [] (Nat.zero_le _) (by simp)
  exact gives_name.bind fun name hname =>
    hrest [name] (Nat.le_refl _) (List.forall_mem_singleton.2 hname)

theorem gives_emptyStatement : Gives emptyStatement Sentence := by
  refine gives_currentSpan.bind fun span _ => ?_
  have hblock : Has .block (group .block span []) :=
    ⟨.intro (by simp [AllStatements, Shape, group]) (by simp [group]), rfl⟩
  exact gives_advance.bind fun _ _ => .pure (sentence_of_has _ hblock rfl (by decide))

theorem gives_debuggerStatement : Gives debuggerStatement Sentence := by
  have hnode : Gives (leaf .debugger) (Has .debugger) := gives_leaf fun _ _ => rfl
  refine hnode.bind fun node hnode => ?_
  exact gives_endStatement.bind fun _ _ => .pure (sentence_of_has _ hnode rfl (by decide))

theorem gives_emptyClause : Gives emptyClause fun t => t.WellFormed ∧ t.IsClause :=
  gives_currentSpan.bind fun _ _ =>
    .pure ⟨.intro (Nat.zero_le _) (by simp [group]), rfl, Or.inl rfl⟩

theorem clause_of_wrap (hwell : t.WellFormed) (h : t.Binds 0 ∨ t.kind = .var) :
    (wrap .expression t).WellFormed ∧ (wrap .expression t).IsClause :=
  ⟨unary_wellFormed (Nat.le_refl _) hwell, rfl, Or.inr ⟨t, rfl, h⟩⟩

variable (h : inner.Sound)
include h

theorem gives_condition : Gives inner.condition (Operand 0) := by
  refine (gives_demand _ _).bind fun _ _ => ?_
  refine (gives_expression h true).bind fun test htest => ?_
  exact (gives_demand _ _).bind fun _ _ => .pure htest

theorem gives_declarator (allowIn : Bool) :
    Gives (inner.declarator allowIn) fun t => t.WellFormed ∧ t.IsDeclarator := by
  refine gives_identifier.bind fun name hname => ?_
  refine (gives_sees _).bind fun _ _ => .ite (fun _ => ?_) fun _ => .pure ⟨hname.1, Or.inl hname.2⟩
  refine gives_currentText.bind fun _ _ => ?_
  refine gives_advance.bind fun _ _ => ?_
  refine (h.gives (.assignment allowIn)).bind fun value hvalue =>
    .pure ⟨?_, Or.inr ⟨rfl, name, value, rfl, hname.2⟩⟩
  have hbinds : name.Binds 2 := ⟨17, by rw [hname.2]; rfl, by omega⟩
  exact binary_wellFormed ⟨name, value, rfl, hbinds, hvalue.2⟩ hname.1 hvalue.1

theorem gives_declarations (allowIn : Bool) : Gives (inner.declarations allowIn) (Has .var) := by
  refine (gives_demand _ _).bind fun _ _ => ?_
  refine (gives_commaSeparated (gives_declarator h allowIn)).bind fun found hfound => ?_
  refine (gives_spanFrom _).bind fun _ _ => .pure ⟨.intro ⟨by simp, ?_⟩ ?_, rfl⟩
  · exact List.forall_mem_cons.2 ⟨hfound.1.2, fun c hc => (hfound.2 c hc).2⟩
  · exact List.forall_mem_cons.2 ⟨hfound.1.1, fun c hc => (hfound.2 c hc).1⟩

theorem gives_varStatement : Gives inner.varStatement Sentence := by
  refine (gives_declarations h true).bind fun declarations hvar => ?_
  exact gives_endStatement.bind fun _ _ => .pure (sentence_of_has _ hvar rfl (by decide))

theorem gives_ifStatement : Gives inner.ifStatement Sentence := by
  refine (gives_demand _ _).bind fun _ _ => ?_
  refine (gives_condition h).bind fun test htest => ?_
  refine (h.gives .statement).bind fun consequent hconsequent => ?_
  refine (gives_accept _).bind fun _ _ => ?_
  extract_lets rest
  have hrest : ∀ alternate : List ParseTree, alternate.length ≤ 1 → (∀ c ∈ alternate, Sentence c) →
      Gives (rest alternate) Sentence := by
    intro alternate hlength halternate
    refine (gives_spanFrom _).bind fun _ _ =>
      .pure (sentence_of_has .«if» ⟨.intro ?_ ?_, rfl⟩ rfl (by decide))
    · exact ⟨test, consequent, alternate, rfl, htest.2, hconsequent.2, hlength,
        fun c hc => (halternate c hc).2⟩
    · simp only [List.forall_mem_cons]
      exact ⟨htest.1, hconsequent.1, fun c hc => (halternate c hc).1⟩
  refine .ite (fun _ => ?_) fun _ => hrest [] (Nat.zero_le _) (by simp)
  exact (h.gives .statement).bind fun c hc =>
    hrest [c] (Nat.le_refl _) (List.forall_mem_singleton.2 hc)

theorem gives_doStatement : Gives inner.doStatement Sentence := by
  refine (gives_demand _ _).bind fun _ _ => ?_
  refine (h.gives .statement).bind fun body hbody => ?_
  refine (gives_demand _ _).bind fun _ _ => ?_
  refine (gives_condition h).bind fun test htest => ?_
  refine (gives_spanFrom _).bind fun _ _ => ?_
  refine (gives_accept _).bind fun _ _ => .pure (sentence_of_has .«do» ⟨?_, rfl⟩ rfl (by decide))
  exact binary_wellFormed ⟨body, test, rfl, hbody.2, htest.2⟩ hbody.1 htest.1

theorem gives_whileStatement : Gives inner.whileStatement Sentence := by
  refine (gives_demand _ _).bind fun _ _ => ?_
  refine (gives_condition h).bind fun test htest => ?_
  refine (h.gives .statement).bind fun body hbody => ?_
  refine (gives_spanFrom _).bind fun _ _ =>
    .pure (sentence_of_has .«while» ⟨?_, rfl⟩ rfl (by decide))
  exact binary_wellFormed ⟨test, body, rfl, htest.2, hbody.2⟩ htest.1 hbody.1

theorem gives_withStatement : Gives inner.withStatement Sentence := by
  refine (gives_demand _ _).bind fun _ _ => ?_
  refine (gives_condition h).bind fun object hobject => ?_
  refine (h.gives .statement).bind fun body hbody => ?_
  refine (gives_spanFrom _).bind fun _ _ =>
    .pure (sentence_of_has .«with» ⟨?_, rfl⟩ rfl (by decide))
  exact binary_wellFormed ⟨object, body, rfl, hobject.2, hbody.2⟩ hobject.1 hbody.1

theorem gives_clauseBefore (last : Punctuator) :
    Gives (inner.clauseBefore last) fun t => t.WellFormed ∧ t.IsClause := by
  refine (gives_sees _).bind fun _ _ => .ite (fun _ => ?_) fun _ => ?_
  · exact gives_emptyClause
  · refine (gives_expression h true).bind fun e he => ?_
    exact .pure (clause_of_wrap he.1 (Or.inl he.2))

/-- The head of a loop, which holds clauses only. -/
def IsHead (t : ParseTree) : Prop := t.WellFormed ∧ (t.kind = .forStep ∨ t.kind = .forIn)

theorem gives_stepHead (init : Option ParseTree)
    (hinit : ∀ t ∈ init, t.WellFormed ∧ (t.Binds 0 ∨ t.kind = .var)) :
    Gives (inner.stepHead start init) IsHead := by
  have hrest : ∀ init : ParseTree, init.WellFormed → init.IsClause → ∀ test : ParseTree,
      test.WellFormed → test.IsClause → ∀ update : ParseTree, update.WellFormed → update.IsClause →
      ∀ span, IsHead (group .forStep span [init, test, update]) := by
    intro init hinit hi test htest ht update hupdate hu span
    refine ⟨.intro ⟨init, test, update, rfl, hi, ht, hu⟩ ?_, Or.inl rfl⟩
    simpa [group] using ⟨hinit, htest, hupdate⟩
  have hclauses : ∀ init : ParseTree, init.WellFormed → init.IsClause → Gives (do
      _ ← demandMark .semicolon
      let test ← inner.clauseBefore .semicolon
      _ ← demandMark .semicolon
      let update ← inner.clauseBefore .rightParen
      return .group .forStep (← spanFrom start) [init, test, update]) IsHead := by
    intro init hwell hclause
    refine (gives_demand _ _).bind fun _ _ => ?_
    refine (gives_clauseBefore h _).bind fun test htest => ?_
    refine (gives_demand _ _).bind fun _ _ => ?_
    refine (gives_clauseBefore h _).bind fun update hupdate => (gives_spanFrom _).bind fun _ _ => ?_
    exact .pure (hrest init hwell hclause test htest.1 htest.2 update hupdate.1 hupdate.2 _)
  cases init with
  | none => exact gives_emptyClause.bind fun init hinit => hclauses init hinit.1 hinit.2
  | some init =>
    have hinit := hinit init rfl
    exact hclauses _ (clause_of_wrap hinit.1 hinit.2).1 (clause_of_wrap hinit.1 hinit.2).2

theorem gives_inHead (target : ParseTree) (hwell : target.WellFormed)
    (htarget : target.Binds 0 ∨ target.kind = .var) : Gives (inner.inHead start target) IsHead := by
  refine .ite (fun _ => ?_) fun _ => ?_
  · exact .unexpected_bind
  · refine gives_advance.bind fun _ _ => ?_
    refine (gives_expression h true).bind fun object hobject => ?_
    refine (gives_spanFrom _).bind fun _ _ => .pure ⟨?_, Or.inr rfl⟩
    have htarget := clause_of_wrap hwell htarget
    have hobject := clause_of_wrap hobject.1 (Or.inl hobject.2)
    have hfilled : ∀ t : ParseTree, (wrap .expression t).children ≠ [] :=
      fun t => List.cons_ne_nil t []
    exact binary_wellFormed ⟨_, _, rfl, ⟨htarget.2, hfilled _⟩, hobject.2, hfilled _⟩ htarget.1
      hobject.1

theorem gives_forHead : Gives inner.forHead IsHead := by
  refine gives_currentSpan.bind fun _ _ => ?_
  refine gives_token?.bind fun t _ => ?_
  have htarget : ∀ (start : Nat) (target : ParseTree), target.WellFormed →
      (target.Binds 0 ∨ target.kind = .var) → Gives (do
        if ← seesWord .«in» then inner.inHead start target
        else inner.stepHead start (some target)) IsHead := by
    intro start target hwell hkind
    refine (gives_sees _).bind fun _ _ => .ite (fun _ => ?_) fun _ => ?_
    · exact gives_inHead h target hwell hkind
    · refine gives_stepHead h _ ?_
      rintro _ ⟨⟩
      exact ⟨hwell, hkind⟩
  split
  · exact gives_stepHead h none (by simp)
  · refine Gives.bind (P := fun first => ∃ t, first = some t ∧ t.WellFormed ∧ t.kind = .var)
      ((gives_declarations h false).map fun t ht => ⟨t, rfl, ht.1, ht.2⟩) fun first hfirst => ?_
    obtain ⟨t, rfl, hwell, hkind⟩ := hfirst
    exact htarget _ t hwell (Or.inr hkind)
  · refine Gives.bind (P := fun first => ∃ t, first = some t ∧ t.Operand 0)
      ((gives_expression h false).map fun t ht => ⟨t, rfl, ht.1, ht.2⟩) fun first hfirst => ?_
    obtain ⟨t, rfl, hwell, hbinds⟩ := hfirst
    exact htarget _ t hwell (Or.inl hbinds)

theorem gives_forStatement : Gives inner.forStatement Sentence := by
  refine (gives_demand _ _).bind fun _ _ => ?_
  refine (gives_demand _ _).bind fun _ _ => ?_
  refine (gives_forHead h).bind fun head hhead => ?_
  refine (gives_demand _ _).bind fun _ _ => ?_
  refine (h.gives .statement).bind fun body hbody => ?_
  refine (gives_spanFrom _).bind fun _ _ => .pure (sentence_of_has .«for» ⟨?_, rfl⟩ rfl (by decide))
  exact binary_wellFormed ⟨head, body, rfl, hhead.2, hbody.2⟩ hhead.1 hbody.1

theorem gives_returnStatement : Gives inner.returnStatement Sentence := by
  refine (gives_demand _ _).bind fun _ _ => ?_
  refine gives_get.bind fun _ _ => ?_
  extract_lets ended rest
  have hrest : ∀ value : List ParseTree, value.length ≤ 1 → (∀ c ∈ value, Operand 0 c) →
      Gives (rest value) Sentence := by
    intro value hlength hvalue
    refine (gives_spanFrom _).bind fun _ _ => ?_
    refine gives_endStatement.bind fun _ _ =>
      .pure (sentence_of_has .«return» ⟨.intro ?_ ?_, rfl⟩ rfl (by decide))
    · exact has_optional (Binds 0) value hlength fun c hc => (hvalue c hc).2
    · exact fun c hc => (hvalue c hc).1
  refine .ite (fun _ => hrest [] (Nat.zero_le _) (by simp)) fun _ => ?_
  exact (gives_expression h true).bind fun value hvalue =>
    hrest [value] (Nat.le_refl _) (List.forall_mem_singleton.2 hvalue)

theorem gives_throwStatement : Gives inner.throwStatement Sentence := by
  refine (gives_demand _ _).bind fun _ _ => ?_
  refine gives_lineBreakBefore.bind fun _ _ => .ite (fun _ => ?_) fun _ => ?_
  · exact .unexpected_bind
  · refine (gives_expression h true).bind fun value hvalue => ?_
    refine (gives_spanFrom _).bind fun span _ => ?_
    have hthrow : Has .«throw» ⟨.«throw», "throw", span, [value]⟩ :=
      ⟨unary_wellFormed ⟨value, rfl, hvalue.2⟩ hvalue.1, rfl⟩
    refine gives_endStatement.bind fun _ _ => ?_
    exact .pure (sentence_of_has _ hthrow rfl (by decide))

theorem gives_caseClause : Gives inner.caseClause (Has .«case») := by
  refine (gives_demand _ _).bind fun _ _ => ?_
  refine (gives_expression h true).bind fun test htest => ?_
  refine (gives_demand _ _).bind fun _ _ => ?_
  refine (gives_statements h _).bind fun body hbody => ?_
  refine (gives_spanFrom _).bind fun _ _ => .pure ⟨.intro ?_ ?_, rfl⟩
  · exact ⟨test, body, rfl, htest.2, fun c hc => (hbody c hc).2⟩
  · exact List.forall_mem_cons.2 ⟨htest.1, fun c hc => (hbody c hc).1⟩

theorem gives_defaultClause : Gives inner.defaultClause (Has .«default») := by
  refine (gives_demand _ _).bind fun _ _ => ?_
  refine (gives_demand _ _).bind fun _ _ => ?_
  refine (gives_statements h _).bind fun body hbody => ?_
  refine (gives_spanFrom _).bind fun _ _ => .pure ⟨.intro ?_ ?_, rfl⟩
  · exact fun c hc => (hbody c hc).2
  · exact fun c hc => (hbody c hc).1

/-- A default that has been read leaves room for none. -/
theorem gives_clauses (hasDefault : Bool) (bound : Nat) :
    Gives (inner.clauses hasDefault bound) fun found =>
      (∀ c ∈ found, c.WellFormed ∧ (c.kind = .«case» ∨ c.kind = .«default»)) ∧
        found.countP (·.kind == .«default») + hasDefault.toNat ≤ 1 := by
  induction bound generalizing hasDefault with
  | zero => exact .throw
  | succ bound ih =>
    refine gives_token?.bind fun t _ => ?_
    split
    · refine (gives_caseClause h).bind fun clause hclause => ?_
      refine (ih hasDefault).bind fun others hothers => .pure ⟨?_, ?_⟩
      · exact List.forall_mem_cons.2 ⟨⟨hclause.1, Or.inl hclause.2⟩, hothers.1⟩
      · rw [List.countP_cons_of_neg (by simp [hclause.2])]
        exact hothers.2
    · refine .ite (fun _ => .unexpected) fun hdefault => ?_
      refine (gives_defaultClause h).bind fun clause hclause => ?_
      refine (ih true).bind fun others hothers => .pure ⟨?_, ?_⟩
      · exact List.forall_mem_cons.2 ⟨⟨hclause.1, Or.inr hclause.2⟩, hothers.1⟩
      · rw [List.countP_cons_of_pos (by simp [hclause.2])]
        have := hothers.2
        simp_all
    · refine .pure ⟨by simp, ?_⟩
      cases hasDefault <;> decide

theorem gives_switchStatement : Gives inner.switchStatement Sentence := by
  refine (gives_demand _ _).bind fun _ _ => ?_
  refine (gives_condition h).bind fun discriminant hdiscriminant => ?_
  refine (gives_demand _ _).bind fun _ _ => ?_
  refine (gives_clauses h false _).bind fun clauses hclauses => ?_
  refine (gives_demand _ _).bind fun _ _ => ?_
  refine (gives_spanFrom _).bind fun _ _ =>
    .pure (sentence_of_has .switch ⟨.intro ?_ ?_, rfl⟩ rfl (by decide))
  · exact ⟨discriminant, clauses, rfl, hdiscriminant.2, fun c hc => (hclauses.1 c hc).2, hclauses.2⟩
  · exact List.forall_mem_cons.2 ⟨hdiscriminant.1, fun c hc => (hclauses.1 c hc).1⟩

theorem gives_catchClause : Gives inner.catchClause (Has .«catch») := by
  refine (gives_demand _ _).bind fun _ _ => ?_
  refine (gives_demand _ _).bind fun _ _ => ?_
  refine gives_identifier.bind fun binding hbinding => ?_
  refine (gives_demand _ _).bind fun _ _ => ?_
  refine (gives_block h).bind fun body hbody => ?_
  refine (gives_spanFrom _).bind fun _ _ => .pure ⟨?_, rfl⟩
  exact binary_wellFormed ⟨binding, body, rfl, hbinding.2, hbody.2⟩ hbinding.1 hbody.1

theorem gives_finallyClause : Gives inner.finallyClause (Has .«finally») := by
  refine (gives_demand _ _).bind fun _ _ => ?_
  refine (gives_block h).bind fun body hbody => ?_
  refine (gives_spanFrom _).bind fun _ _ => .pure ⟨?_, rfl⟩
  exact unary_wellFormed ⟨body, rfl, hbody.2⟩ hbody.1

theorem gives_tryStatement : Gives inner.tryStatement Sentence := by
  refine (gives_demand _ _).bind fun _ _ => ?_
  refine (gives_block h).bind fun body hbody => ?_
  refine (gives_sees _).bind fun _ _ => ?_
  extract_lets afterHandler
  have hafter : ∀ handler : List ParseTree, handler.length ≤ 1 → (∀ c ∈ handler, Has .«catch» c) →
      Gives (afterHandler handler) Sentence := by
    intro handler hhandler hcatch
    refine (gives_sees _).bind fun _ _ => ?_
    extract_lets afterCleanup
    have hend : ∀ cleanup : List ParseTree, cleanup.length ≤ 1 →
        (∀ c ∈ cleanup, Has .«finally» c) → Gives (afterCleanup cleanup) Sentence := by
      intro cleanup hcleanup hfinally
      refine .ite (fun _ => ?_) fun hsome => (gives_spanFrom _).bind fun _ _ =>
        .pure (sentence_of_has .«try» ⟨.intro ?_ ?_, rfl⟩ rfl (by decide))
      · exact .unexpected_bind
      · refine ⟨body, handler, cleanup, rfl, hbody.2, fun c hc => (hcatch c hc).2, hhandler,
          fun c hc => (hfinally c hc).2, hcleanup, ?_⟩
        simpa using hsome
      · simp only [List.cons_append, List.forall_mem_cons, List.forall_mem_append]
        exact ⟨hbody.1, fun c hc => (hcatch c hc).1, fun c hc => (hfinally c hc).1⟩
    refine .ite (fun _ => ?_) fun _ => hend [] (Nat.zero_le _) (by simp)
    exact (gives_finallyClause h).bind fun c hc =>
      hend [c] (Nat.le_refl _) (List.forall_mem_singleton.2 hc)
  refine .ite (fun _ => ?_) fun _ => hafter [] (Nat.zero_le _) (by simp)
  exact (gives_catchClause h).bind fun c hc =>
    hafter [c] (Nat.le_refl _) (List.forall_mem_singleton.2 hc)

theorem gives_expressionStatement : Gives inner.expressionStatement Sentence := by
  refine (gives_expressionOf (gives_assignment h true)).bind fun e he => ?_
  refine (gives_sees _).bind fun colon _ => .ite (fun hlabel => ?_) fun _ => ?_
  · have hname : e.kind = .identifier := by simp_all
    refine gives_advance.bind fun _ _ => ?_
    refine (h.gives .statement).bind fun body hbody =>
      .pure (sentence_of_has .labelled ⟨?_, rfl⟩ rfl (by decide))
    exact binary_wellFormed ⟨e, body, rfl, hname, hbody.2⟩ he.1 hbody.1
  · exact gives_endStatement.bind fun _ _ => .pure ⟨unary_wellFormed (Nat.le_refl _) he.1, rfl,
      fun _ => ⟨e, rfl, he.2⟩⟩

theorem gives_longStatement (token : Option Token) :
    Gives (inner.longStatement token) Sentence := by
  unfold longStatement
  split
  · exact (gives_block h).mono fun t ht => sentence_of_has _ ht rfl (by decide)
  · exact gives_varStatement h
  · exact gives_ifStatement h
  · exact gives_doStatement h
  · exact gives_whileStatement h
  · exact gives_forStatement h
  · exact (gives_jumpStatement (Or.inr rfl)).mono fun t ht => sentence_of_has _ ht rfl (by decide)
  · exact (gives_jumpStatement (Or.inl rfl)).mono fun t ht => sentence_of_has _ ht rfl (by decide)
  · exact gives_returnStatement h
  · exact gives_withStatement h
  · exact gives_switchStatement h
  · exact gives_throwStatement h
  · exact gives_tryStatement h
  · exact (gives_function h true).mono fun t ht => sentence_of_has _ ht rfl (by decide)
  · exact gives_expressionStatement h

theorem gives_statement : Gives inner.statement Sentence := by
  refine gives_enter.bind fun _ _ => ?_
  refine gives_token?.bind fun t _ => ?_
  split
  · exact gives_emptyStatement.thenLeaveIfOk
  · exact gives_debuggerStatement.thenLeaveIfOk
  · exact (gives_longStatement h _).thenLeave

end Inner
end Ecma3.Grammar
