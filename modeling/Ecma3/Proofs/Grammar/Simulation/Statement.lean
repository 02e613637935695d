import Ecma3.Proofs.Grammar.Simulation.Expression

/-! The accounts of the productions of statements. -/
namespace Ecma3.Grammar
open ParserM ParseTree

variable {R : Simulation} {bound : Nat} {inner inner' : Inner} {c : Account} {start start' : Nat}

namespace Inner

/-- What follows the first clause in the head of a counting loop. -/
def stepClauses (inner : Inner) (start : Nat) (init : ParseTree) : ParserM ParseTree := do
  _ ← demandMark .semicolon
  let test ← inner.clauseBefore .semicolon
  _ ← demandMark .semicolon
  let update ← inner.clauseBefore .rightParen
  return .group .forStep (← spanFrom start) [init, test, update]

theorem tracks_jumpStatement {kind : Kind} {word : ReservedWord} (hkind : kind.isAtom = false)
    (hword : Token.isAtom (.reserved word) = false) (hnext : c.next = some (.reserved word)) :
    Tracks R bound c (jumpStatement kind) (jumpStatement kind) (fun t => c.plus t.atoms 1)
      R.tree := by
  refine tracks_currentSpan.bind fun place place' hplace => ?_
  refine tracks_currentText.bind_same fun keyword => ?_
  refine (tracks_advance hnext hword).bind_same fun _ => ?_
  refine (tracks_get (g := fun s => decide (s.token? = some .identifier) && !s.lineBreakBefore)
    fun s s' hrel => ?_).bind fun s s' hlabel => ?_
  · have htoken := R.token hrel
    -- At the end of the text the line breaks of the two runs may differ, but there is no label.
    cases hcurrent : s.current with
    | none =>
      have hend : s.token? = none := by simp [Session.token?, hcurrent]
      simp [htoken, hend]
    | some l => rw [htoken, R.lineBreak hrel (by simp [hcurrent])]
  · extract_lets rest rest'
    have hrest : TracksRest R bound c [] rest rest' := by
      intro d label label' hlabel hatoms hpassed
      refine (tracks_spanFrom (R.span_eq.1 hplace).1).bind fun span span' hspan => ?_
      refine tracks_endStatement.bind_same fun _ => ?_
      exact .node hkind hspan hlabel (by simp [hatoms]) (by simpa using hpassed)
    refine .ite (by rw [hlabel]) (fun hlabelled => ?_) fun _ => ?_
    · simp only [Bool.and_eq_true, decide_eq_true_eq] at hlabelled
      refine (tracks_leaf hlabelled.1 rfl (by decide)).bind fun label label' hlabel => ?_
      exact hrest _ [label] [label'] (by simp [hlabel]) (by simp) (by simp +arith)
    · exact hrest _ [] [] rfl (by simp) (by simp)

theorem tracks_emptyStatement (hnext : c.next = some (.punctuator .semicolon)) :
    Tracks R bound c emptyStatement emptyStatement (fun t => c.plus t.atoms 1) R.tree := by
  refine tracks_currentSpan.bind fun span span' hspan => ?_
  refine (tracks_advance hnext rfl).bind_same fun _ => ?_
  exact .node rfl hspan rfl (by simp) (by simp)

theorem tracks_debuggerStatement (hnext : c.next = some (.reserved .debugger)) :
    Tracks R bound c debuggerStatement debuggerStatement (fun t => c.plus t.atoms 1) R.tree := by
  refine (tracks_leaf hnext rfl (by decide)).bind fun node node' hnode => ?_
  exact tracks_endStatement.bind_same fun _ => .pure hnode (by simp)

theorem tracks_emptyClause :
    Tracks R bound c emptyClause emptyClause (fun t => c.plus t.atoms 0) R.tree := by
  refine tracks_currentSpan.bind fun place place' hplace => .pure ?_ ?_
  · have hstart := (R.span_eq.1 hplace).1
    simp [R.tree_group, Simulation.span, hstart]
  · have hatoms : (group .expression ⟨place.start, place.start⟩ []).atoms = [] := atoms_group rfl
    simp [hatoms]

variable (h : Tracked R bound inner inner')
include h

theorem tracks_condition : TracksTree R bound 0 inner.condition inner'.condition := by
  intro c _
  refine (tracks_demand rfl).bind fun _ _ _ => ?_
  refine (tracks_expression h true _ (by simp)).bind fun test test' htest => ?_
  exact (tracks_demand rfl).bind fun _ _ _ => .pure htest (by simp +arith)

theorem tracks_declarator (allowIn : Bool) :
    TracksTree R bound 0 (inner.declarator allowIn) (inner'.declarator allowIn) := by
  intro c _
  refine (tracks_identifier c (Nat.zero_le _)).bind fun name name' hname => ?_
  refine tracks_ifSees ?_ (.pure hname (by simp))
  refine tracks_currentText.bind_same fun operator => ?_
  refine (tracks_advance rfl rfl).bind_same fun _ => ?_
  refine (h.parse _ _ (by simp +arith)).bind fun value value' hvalue => ?_
  refine .node rfl (R.span_eq.2 ⟨?_, ?_⟩) (by simp [hname, hvalue]) (by simp) (by simp +arith)
  · exact R.start_of_tree hname
  · exact R.stop_of_tree hvalue

theorem tracks_declarations (allowIn : Bool) :
    TracksTree R bound 0 (inner.declarations allowIn) (inner'.declarations allowIn) := by
  intro c _
  refine (tracks_demand rfl).bind fun opening opening' hopening => ?_
  refine (tracks_commaSeparated h.bound_le fun d _ => tracks_declarator h allowIn d
    (Nat.zero_le _)).bind fun found found' hfound => ?_
  obtain ⟨first, others⟩ := found
  obtain ⟨first', others'⟩ := found'
  simp only [Prod.map, Prod.mk.injEq] at hfound
  refine (tracks_spanFrom (R.span_eq.1 hopening).1).bind fun span span' hspan => ?_
  exact .node rfl hspan (by simp [hfound]) (by simp) (by simp +arith)

theorem tracks_varStatement : TracksTree R bound 0 inner.varStatement inner'.varStatement := by
  intro c _
  refine (tracks_declarations h true c (Nat.zero_le _)).bind fun t t' ht => ?_
  exact tracks_endStatement.bind_same fun _ => .pure ht (by simp)

theorem tracks_ifStatement : TracksTree R bound 0 inner.ifStatement inner'.ifStatement := by
  intro c _
  refine (tracks_demand rfl).bind fun opening opening' hopening => ?_
  refine (tracks_condition h _ (Nat.zero_le _)).bind fun test test' htest => ?_
  refine (h.parse _ _ (by simp +arith)).bind fun consequent consequent' hconsequent => ?_
  refine (tracks_accept rfl).bind_same fun passed => ?_
  extract_lets rest rest'
  have hrest : TracksRest R bound c (test.atoms ++ consequent.atoms) rest rest' := by
    intro d alternate alternate' halternate hatoms hpassed
    refine (tracks_spanFrom (R.span_eq.1 hopening).1).bind fun span span' hspan => ?_
    exact .node rfl hspan (by simp [htest, hconsequent, halternate]) (by simp [hatoms]) hpassed
  refine .ite Iff.rfl (fun hpassed => ?_) fun hpassed => ?_
  · rw [if_pos hpassed]
    refine (h.parse _ _ (by simp +arith)).bind fun alternate alternate' halternate => ?_
    exact hrest _ [alternate] [alternate'] (by simp [halternate]) (by simp) (by simp +arith)
  · rw [if_neg hpassed]
    exact hrest _ [] [] rfl (by simp) (by simp +arith)

theorem tracks_doStatement : TracksTree R bound 0 inner.doStatement inner'.doStatement := by
  intro c _
  refine (tracks_demand rfl).bind fun opening opening' hopening => ?_
  refine (h.parse _ _ (by simp)).bind fun body body' hbody => ?_
  refine (tracks_demand rfl).bind fun _ _ _ => ?_
  refine (tracks_condition h _ (Nat.zero_le _)).bind fun test test' htest => ?_
  refine (tracks_spanFrom (R.span_eq.1 hopening).1).bind fun span span' hspan => ?_
  refine (tracks_accept rfl).bind_same fun passed => ?_
  cases passed
  · exact .node rfl hspan (by simp [hbody, htest]) (by simp) (by simp +arith)
  · exact .node rfl hspan (by simp [hbody, htest]) (by simp) (by simp +arith)

theorem tracks_whileStatement :
    TracksTree R bound 0 inner.whileStatement inner'.whileStatement := by
  intro c _
  refine (tracks_demand rfl).bind fun opening opening' hopening => ?_
  refine (tracks_condition h _ (Nat.zero_le _)).bind fun test test' htest => ?_
  refine (h.parse _ _ (by simp +arith)).bind fun body body' hbody => ?_
  refine (tracks_spanFrom (R.span_eq.1 hopening).1).bind fun span span' hspan => ?_
  exact .node rfl hspan (by simp [hbody, htest]) (by simp) (by simp +arith)

theorem tracks_withStatement : TracksTree R bound 0 inner.withStatement inner'.withStatement := by
  intro c _
  refine (tracks_demand rfl).bind fun opening opening' hopening => ?_
  refine (tracks_condition h _ (Nat.zero_le _)).bind fun object object' hobject => ?_
  refine (h.parse _ _ (by simp +arith)).bind fun body body' hbody => ?_
  refine (tracks_spanFrom (R.span_eq.1 hopening).1).bind fun span span' hspan => ?_
  exact .node rfl hspan (by simp [hbody, hobject]) (by simp) (by simp +arith)

theorem tracks_clauseBefore (last : Punctuator) (hc : 1 ≤ c.passed) :
    Tracks R bound c (inner.clauseBefore last) (inner'.clauseBefore last)
      (fun t => c.plus t.atoms 0) R.tree := by
  refine tracks_ifSees tracks_emptyClause ?_
  refine (tracks_expression h true c hc).bind fun t t' ht => .pure (R.tree_wrap ht) ?_
  rw [atoms_wrap rfl]
  simp

theorem tracks_stepClauses (hstart : R.offset start' = R.offset start) {d : Account}
    {init init' : ParseTree} (hinit : R.tree init' = R.tree init)
    (hatoms : d.atoms = c.atoms ++ init.atoms) (hpassed : c.passed ≤ d.passed) :
    Tracks R bound d (inner.stepClauses start init) (inner'.stepClauses start' init')
      (fun t => c.plus t.atoms 1) R.tree := by
  refine (tracks_demand rfl).bind fun _ _ _ => ?_
  refine (tracks_clauseBefore h _ (by simp)).bind fun test test' htest => ?_
  refine (tracks_demand rfl).bind fun _ _ _ => ?_
  refine (tracks_clauseBefore h _ (by simp)).bind fun update update' hupdate => ?_
  refine (tracks_spanFrom hstart).bind fun span span' hspan => ?_
  exact .node rfl hspan (by simp [hinit, htest, hupdate]) (by simp [hatoms]) (by simp; omega)

theorem tracks_stepHead (hstart : R.offset start' = R.offset start) {d : Account}
    {init init' : Option ParseTree} (hinit : init'.map R.tree = init.map R.tree)
    (hatoms : d.atoms = c.atoms ++ init.toList.flatMap atoms) (hpassed : c.passed ≤ d.passed) :
    Tracks R bound d (inner.stepHead start init) (inner'.stepHead start' init')
      (fun t => c.plus t.atoms 1) R.tree := by
  cases init <;> cases init' <;> simp only [Option.map, reduceCtorEq, Option.some.injEq] at hinit
  case none.none =>
    refine Tracks.bind tracks_emptyClause fun init init' hinit => ?_
    exact tracks_stepClauses h hstart hinit (by simpa using hatoms) (by simpa using hpassed)
  case some.some init init' =>
    refine tracks_stepClauses h hstart (R.tree_wrap hinit) ?_ hpassed
    rw [atoms_wrap rfl]
    simpa using hatoms

theorem tracks_inHead (hstart : R.offset start' = R.offset start) {target target' : ParseTree}
    (htarget : R.tree target' = R.tree target) {d : Account}
    (hnext : d.next = some (.reserved .«in»))
    (hatoms : d.atoms = c.atoms ++ target.atoms) (hpassed : c.passed ≤ d.passed) :
    Tracks R bound d (inner.inHead start target) (inner'.inHead start' target')
      (fun t => c.plus t.atoms 1) R.tree := by
  have hlength : target'.children.length = target.children.length := by
    simpa [Simulation.tree] using congrArg (fun t => t.children.length) htarget
  refine .ite (by rw [hlength, R.kind_of_tree htarget]) (fun _ => tracks_unexpected_bind)
    fun _ => ?_
  refine (tracks_advance hnext rfl).bind_same fun _ => ?_
  refine (tracks_expression h true _ (by simp)).bind fun object object' hobject => ?_
  refine (tracks_spanFrom hstart).bind fun span span' hspan => ?_
  refine .node rfl hspan (by simp [R.tree_wrap htarget, R.tree_wrap hobject]) ?_ (by simp; omega)
  simp [hatoms, atoms_wrap (show Kind.isAtom .expression = false from rfl)]

theorem tracks_forHead (hc : 1 ≤ c.passed) :
    Tracks R bound c inner.forHead inner'.forHead (fun t => c.plus t.atoms 1) R.tree := by
  refine tracks_currentSpan.bind fun place place' hplace => ?_
  have hstart := (R.span_eq.1 hplace).1
  refine tracks_token?.bind_same fun t => ?_
  extract_lets rest rest'
  have hrest : ∀ (d : Account) target target', R.tree target' = R.tree target →
      d.atoms = c.atoms ++ target.atoms → c.passed ≤ d.passed →
      Tracks R bound d (rest (some target)) (rest' (some target')) (fun t => c.plus t.atoms 1)
        R.tree := by
    intro d target target' htarget hatoms hpassed
    refine tracks_ifSees ?_ ?_
    · exact tracks_inHead h hstart htarget rfl hatoms hpassed
    · exact tracks_stepHead h hstart (by simp [htarget]) (by simpa using hatoms) hpassed
  have hnone : ∀ t, Tracks R bound (c.seeing t) (rest none) (rest' none) (fun t => c.plus t.atoms 1)
      R.tree := fun t => tracks_stepHead h hstart rfl (by simp) (by simp)
  split
  · exact hnone _
  · rw [map_eq_pure_bind, map_eq_pure_bind, bind_assoc, bind_assoc]
    refine (tracks_declarations h false _ (Nat.zero_le _)).bind fun target target' htarget => ?_
    rw [pure_bind, pure_bind]
    exact hrest _ _ _ htarget (by simp) (by simp)
  · rw [map_eq_pure_bind, map_eq_pure_bind, bind_assoc, bind_assoc]
    refine (tracks_expression h false (c.seeing t) hc).bind fun target target' htarget => ?_
    rw [pure_bind, pure_bind]
    exact hrest _ _ _ htarget (by simp) (by simp)

theorem tracks_forStatement : TracksTree R bound 0 inner.forStatement inner'.forStatement := by
  intro c _
  refine (tracks_demand rfl).bind fun opening opening' hopening => ?_
  refine (tracks_demand rfl).bind fun _ _ _ => ?_
  refine (tracks_forHead h (by simp +arith)).bind fun head head' hhead => ?_
  refine (tracks_demand rfl).bind fun _ _ _ => ?_
  refine (h.parse _ _ (by simp +arith)).bind fun body body' hbody => ?_
  refine (tracks_spanFrom (R.span_eq.1 hopening).1).bind fun span span' hspan => ?_
  exact .node rfl hspan (by simp [hhead, hbody]) (by simp) (by simp +arith)

theorem tracks_returnStatement :
    TracksTree R bound 0 inner.returnStatement inner'.returnStatement := by
  intro c _
  refine (tracks_demand rfl).bind fun opening opening' hopening => ?_
  refine (tracks_get (g := fun s => s.current.isNone || (s.token? = some (.punctuator .semicolon) ||
    s.token? = some (.punctuator .rightBrace)) || s.lineBreakBefore) fun s s' hrel => ?_).bind
    fun s s' hsame => ?_
  · exact R.ended hrel fun t =>
      t = some (.punctuator .semicolon) || t = some (.punctuator .rightBrace)
  · extract_lets ended rest ended' rest'
    have hended : ended' = ended := by
      have hcomm : ∀ a b x y : Bool, (a || b || x || y) = (b || (x || y) || a) := by decide
      simp only [ended, ended', hcomm, hsame]
    have hrest : TracksRest R bound c [] rest rest' := by
      intro d value value' hvalue hatoms hpassed
      refine (tracks_spanFrom (R.span_eq.1 hopening).1).bind fun span span' hspan => ?_
      refine tracks_endStatement.bind_same fun _ => ?_
      exact .node rfl hspan hvalue (by simp [hatoms]) (by simpa using hpassed)
    refine .ite (by rw [hended]) (fun _ => hrest _ [] [] rfl (by simp) (by simp)) fun _ => ?_
    refine (tracks_expression h true _ (by simp)).bind fun value value' hvalue => ?_
    exact hrest _ [value] [value'] (by simp [hvalue]) (by simp) (by simp +arith)

theorem tracks_throwStatement :
    TracksTree R bound 0 inner.throwStatement inner'.throwStatement := by
  intro c _
  refine (tracks_demand rfl).bind fun opening opening' hopening => ?_
  refine Tracks.mono (m := fun t => c.plus t.atoms 2) (.unlessBroken ?_ fun t => ?_)
    fun t => by simp
  · refine (tracks_expression h true _ (by simp)).bind fun value value' hvalue => ?_
    refine (tracks_spanFrom (R.span_eq.1 hopening).1).bind fun span span' hspan => ?_
    refine tracks_endStatement.bind_same fun _ => .pure ?_ ?_
    · rw [R.tree_mk, R.tree_mk, hspan, List.map_singleton, List.map_singleton, hvalue]
    · simp [atoms_of_not_isAtom (show Kind.isAtom .«throw» = false from rfl)]
  · simp

theorem tracks_caseClause : TracksTree R bound 0 inner.caseClause inner'.caseClause := by
  intro c _
  refine (tracks_demand rfl).bind fun opening opening' hopening => ?_
  refine (tracks_expression h true _ (by simp)).bind fun test test' htest => ?_
  refine (tracks_demand rfl).bind fun _ _ _ => ?_
  refine (tracks_statements h.bound_le _ fun d hd => h.parse _ d ?_).bind fun body body' hbody => ?_
  · exact Nat.le_trans (by simp +arith) hd
  · refine (tracks_spanFrom (R.span_eq.1 hopening).1).bind fun span span' hspan => ?_
    exact .node rfl hspan (by simp [htest, hbody]) (by simp) (by simp +arith)

theorem tracks_defaultClause : TracksTree R bound 0 inner.defaultClause inner'.defaultClause := by
  intro c _
  refine (tracks_demand rfl).bind fun opening opening' hopening => ?_
  refine (tracks_demand rfl).bind fun _ _ _ => ?_
  refine (tracks_statements h.bound_le _ fun d hd => h.parse _ d ?_).bind fun body body' hbody => ?_
  · exact Nat.le_trans (by simp +arith) hd
  · refine (tracks_spanFrom (R.span_eq.1 hopening).1).bind fun span span' hspan => ?_
    exact .node rfl hspan hbody (by simp) (by simp +arith)

theorem tracks_clauses (hasDefault : Bool) {n n' : Nat} (hn : bound ≤ n + c.passed) :
    Tracks R bound c (inner.clauses hasDefault n) (inner'.clauses hasDefault n')
      (fun found => c.plus (found.flatMap atoms) 0) (List.map R.tree) := by
  induction n generalizing c hasDefault n' with
  | zero => exact .of_bound_le (by omega)
  | succ n ih =>
    have hstep : ∀ k, Tracks R bound c (inner.clauses hasDefault (n + 1))
        (inner'.clauses hasDefault (k + 1)) (fun found => c.plus (found.flatMap atoms) 0)
        (List.map R.tree) := by
      intro k
      have hrest : ∀ (d : Account) {first first' : ParseTree} hasDefault,
          R.tree first' = R.tree first → d.atoms = c.atoms ++ first.atoms → c.passed < d.passed →
          Tracks R bound d (inner.clauses hasDefault n >>= fun others => pure (first :: others))
            (inner'.clauses hasDefault k >>= fun others => pure (first' :: others))
            (fun found => c.plus (found.flatMap atoms) 0) (List.map R.tree) := by
        intro d first first' hasDefault hfirst hatoms hpassed
        refine (ih hasDefault (by omega)).bind fun others others' hothers => .pure ?_ ?_
        · simp [hfirst, hothers]
        · simp [hatoms]
          omega
      refine tracks_token?.bind_same fun t => ?_
      split
      · refine (tracks_caseClause h _ (Nat.zero_le _)).bind fun first first' hfirst => ?_
        exact hrest _ hasDefault hfirst (by simp) (by simp)
      · refine .ite Iff.rfl (fun _ => tracks_unexpected) fun _ => ?_
        refine (tracks_defaultClause h _ (Nat.zero_le _)).bind fun first first' hfirst => ?_
        exact hrest _ true hfirst (by simp) (by simp)
      · exact .pure rfl (by simp)
    cases n' with
    | zero => exact (hstep 0).giveUp
    | succ k => exact hstep k

theorem tracks_switchStatement :
    TracksTree R bound 0 inner.switchStatement inner'.switchStatement := by
  intro c _
  refine (tracks_demand rfl).bind fun opening opening' hopening => ?_
  refine (tracks_condition h _ (Nat.zero_le _)).bind fun value value' hvalue => ?_
  refine (tracks_demand rfl).bind fun _ _ _ => ?_
  refine (tracks_clauses h false ?_).bind fun found found' hfound => ?_
  · exact Nat.le_trans h.bound_le (Nat.le_add_right _ _)
  · refine (tracks_demand rfl).bind fun _ _ _ => ?_
    refine (tracks_spanFrom (R.span_eq.1 hopening).1).bind fun span span' hspan => ?_
    exact .node rfl hspan (by simp [hvalue, hfound]) (by simp) (by simp +arith)

theorem tracks_catchClause : TracksTree R bound 0 inner.catchClause inner'.catchClause := by
  intro c _
  refine (tracks_demand rfl).bind fun opening opening' hopening => ?_
  refine (tracks_demand rfl).bind fun _ _ _ => ?_
  refine (tracks_identifier _ (Nat.zero_le _)).bind fun binding binding' hbinding => ?_
  refine (tracks_demand rfl).bind fun _ _ _ => ?_
  refine (tracks_block h _ (Nat.zero_le _)).bind fun body body' hbody => ?_
  refine (tracks_spanFrom (R.span_eq.1 hopening).1).bind fun span span' hspan => ?_
  exact .node rfl hspan (by simp [hbinding, hbody]) (by simp) (by simp +arith)

theorem tracks_finallyClause : TracksTree R bound 0 inner.finallyClause inner'.finallyClause := by
  intro c _
  refine (tracks_demand rfl).bind fun opening opening' hopening => ?_
  refine (tracks_block h _ (Nat.zero_le _)).bind fun body body' hbody => ?_
  refine (tracks_spanFrom (R.span_eq.1 hopening).1).bind fun span span' hspan => ?_
  exact .node rfl hspan (by simp [hbody]) (by simp) (by simp +arith)

theorem tracks_tryStatement : TracksTree R bound 0 inner.tryStatement inner'.tryStatement := by
  intro c _
  refine (tracks_demand rfl).bind fun opening opening' hopening => ?_
  refine (tracks_block h _ (Nat.zero_le _)).bind fun body body' hbody => ?_
  refine tracks_sees.bind_same fun caught => ?_
  extract_lets afterHandler afterHandler'
  have hafter : TracksRest R bound c body.atoms afterHandler afterHandler' := by
    intro d handler handler' hhandler hatoms hpassed
    refine tracks_sees.bind_same fun finished => ?_
    extract_lets afterCleanup afterCleanup'
    have hend : TracksRest R bound c (body.atoms ++ handler.flatMap atoms) afterCleanup
        afterCleanup' := by
      intro d cleanup cleanup' hcleanup hatoms hpassed
      have hempty :
          (handler'.isEmpty && cleanup'.isEmpty) = (handler.isEmpty && cleanup.isEmpty) := by
        have hhandler := congrArg List.isEmpty hhandler
        have hcleanup := congrArg List.isEmpty hcleanup
        simp only [List.isEmpty_map] at hhandler hcleanup
        rw [hhandler, hcleanup]
      refine .ite (by rw [hempty]) (fun _ => tracks_unexpected_bind) fun _ => ?_
      refine (tracks_spanFrom (R.span_eq.1 hopening).1).bind fun span span' hspan => ?_
      exact .node rfl hspan (by simp [hbody, hhandler, hcleanup]) (by simp [hatoms]) hpassed
    refine .ite Iff.rfl (fun hfinished => ?_) fun hfinished => ?_
    · rw [if_pos hfinished]
      refine (tracks_finallyClause h _ (Nat.zero_le _)).bind fun t t' ht => ?_
      exact hend _ [t] [t'] (by simp [ht]) (by simp [hatoms]) (by simp; omega)
    · rw [if_neg hfinished]
      exact hend _ [] [] rfl (by simp [hatoms]) hpassed
  refine .ite Iff.rfl (fun hcaught => ?_) fun hcaught => ?_
  · rw [if_pos hcaught]
    refine (tracks_catchClause h _ (Nat.zero_le _)).bind fun t t' ht => ?_
    exact hafter _ [t] [t'] (by simp [ht]) (by simp) (by simp +arith)
  · rw [if_neg hcaught]
    exact hafter _ [] [] rfl (by simp) (by simp +arith)

theorem tracks_expressionStatement :
    TracksTree R bound 0 inner.expressionStatement inner'.expressionStatement := by
  intro c _
  refine (tracks_expressionOf h.bound_le (tracks_assignment h true) c (Nat.zero_le _)).bind
    fun t t' ht => ?_
  refine tracks_sees.bind_same fun colon =>
    .ite (by rw [R.kind_of_tree ht]) (fun hlabel => ?_) fun _ => ?_
  · have hcolon : colon = true := by simp_all
    rw [if_pos hcolon]
    refine (tracks_advance rfl rfl).bind_same fun _ => ?_
    refine (h.parse _ _ (by simp +arith)).bind fun body body' hbody => ?_
    refine .node rfl (R.span_eq.2 ⟨?_, ?_⟩) (by simp [ht, hbody]) (by simp) (by simp +arith)
    · exact R.start_of_tree ht
    · exact R.stop_of_tree hbody
  · refine tracks_endStatement.bind_same fun _ => .pure (R.tree_wrap ht) ?_
    rw [atoms_wrap rfl]
    cases colon <;> simp

theorem tracks_longStatement {t : Option Token} (hnext : c.next = t) :
    Tracks R bound c (inner.longStatement t) (inner'.longStatement t) (fun t => c.plus t.atoms 1)
      R.tree := by
  unfold longStatement
  split
  · exact tracks_block h c (Nat.zero_le _)
  · exact tracks_varStatement h c (Nat.zero_le _)
  · exact tracks_ifStatement h c (Nat.zero_le _)
  · exact tracks_doStatement h c (Nat.zero_le _)
  · exact tracks_whileStatement h c (Nat.zero_le _)
  · exact tracks_forStatement h c (Nat.zero_le _)
  · exact tracks_jumpStatement rfl rfl hnext
  · exact tracks_jumpStatement rfl rfl hnext
  · exact tracks_returnStatement h c (Nat.zero_le _)
  · exact tracks_withStatement h c (Nat.zero_le _)
  · exact tracks_switchStatement h c (Nat.zero_le _)
  · exact tracks_throwStatement h c (Nat.zero_le _)
  · exact tracks_tryStatement h c (Nat.zero_le _)
  · exact tracks_function h true c (Nat.zero_le _)
  · exact tracks_expressionStatement h c (Nat.zero_le _)

theorem tracks_statement : TracksTree R bound 0 inner.statement inner'.statement := by
  intro c _
  refine tracks_enter.bind_same fun _ => tracks_token?.bind_same fun t => ?_
  split
  · exact (tracks_emptyStatement rfl).thenLeaveIfOk
  · exact (tracks_debuggerStatement rfl).thenLeaveIfOk
  · exact (tracks_longStatement h rfl).thenLeave

end Inner
end Ecma3.Grammar
