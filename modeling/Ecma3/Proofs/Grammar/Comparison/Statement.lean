import Ecma3.Proofs.Grammar.Comparison.Expression
import Ecma3.Proofs.Grammar.Simulation.Statement

/-! How the productions of statements carry a comparison. -/
namespace Ecma3.Grammar
open ParserM ParseTree

variable {R : Comparison} {inner inner' : Inner} {n k : Nat} {c : Ledger} {kind : Kind}
  {start : Nat} {tree : ParseTree}

/-- The parsers carry a comparison through statements whose level is taken already. -/
def CarriesStatement (R : Comparison) (n : Nat) (p p' : ParserM ParseTree) : Prop :=
  ∀ c : Ledger, c.past = false →
    Carries R n c p p' (fun t => (c.keeping n t).ending) R.tree

namespace Inner

theorem carries_jumpStatement {word : ReservedWord} (hkind : kind.isAtom = false)
    (hcost : kind.firstCost = 0 ∧ kind.restCost = 0) (hc : c.past = false)
    (hnext : c.next = some (.reserved word)) :
    Carries R n c (jumpStatement kind) (jumpStatement kind) (fun t => (c.keeping n t).ending)
      R.tree := by
  refine .bind (carries_currentSpan hc) fun place => ?_
  refine .bind_same (carries_currentText hc) fun keyword => ?_
  refine .bind_same (carries_advance hc hnext rfl) fun _ => ?_
  refine carries_get rfl rfl fun s s' htoken hnone hbreak _ => ?_
  rw [htoken, hbreak]
  extract_lets rest rest'
  have hrest : ∀ label, Carries R n (c.passing.keepingAll n label) (rest label)
      (rest' (label.map R.tree)) (fun t => (c.keeping n t).ending) R.tree := by
    intro label
    refine .bind (carries_spanFrom rfl) fun span => ?_
    refine .bind_same (carries_endStatement rfl rfl) fun _ => ?_
    exact .nodeEnding hkind R.tree_mk (by simp)
      (Ledger.keepingAll_deepest_le (by rw [hcost.1]; rfl) (by rw [hcost.2]; rfl)) rfl
  refine .ite (fun hlabelled => ?_) fun _ => (hrest []).of_covers (by simp)
  simp only [Bool.and_eq_true, decide_eq_true_eq] at hlabelled
  refine .bind (carries_leaf (k := n) rfl hlabelled.1 rfl) fun label => (hrest [label]).of_covers ?_
  simp

theorem carries_emptyStatement (hc : c.past = false)
    (hnext : c.next = some (.punctuator .semicolon)) :
    Carries R n c emptyStatement emptyStatement (fun t => (c.keeping n t).ending) R.tree := by
  refine .bind (carries_currentSpan hc) fun span => ?_
  refine .bind_same (carries_semicolon hc hnext) fun _ => ?_
  exact .nodeEnding rfl R.tree_mk (by simp) (Nat.le_max_left ..) rfl

theorem carries_debuggerStatement (hc : c.past = false)
    (hnext : c.next = some (.reserved .debugger)) :
    Carries R n c debuggerStatement debuggerStatement (fun t => (c.keeping n t).ending)
      R.tree := by
  refine .bind (carries_leaf (k := n) hc hnext rfl) fun node => ?_
  exact .bind_same (carries_endStatement rfl rfl) fun _ => .pure rfl .refl

theorem carries_emptyClause (hc : c.past = false) (hmoved : c.moved = true) :
    Carries R n c emptyClause emptyClause (fun t => c.keeping k t) R.tree := by
  refine .bind (carries_currentSpan hc) fun place => ?_
  exact .node rfl R.tree_mk (by simp) (Nat.le_max_left ..) hmoved hc

variable (h : inner.Compared R inner')
include h

theorem carries_condition : CarriesTree R n (n + 1) inner.condition inner'.condition := by
  intro c hc
  refine .bind (carries_demand rfl) fun _ => ?_
  refine .bind (carries_expression h true _ rfl) fun test => ?_
  exact .bind (carries_demand rfl) fun _ => .pure rfl (by simp)

theorem carries_declarator (allowIn : Bool) :
    CarriesTree R n n (inner.declarator allowIn) (inner'.declarator allowIn) := by
  intro c hc
  refine .bind (carries_identifier (k := n) c hc) fun name => ?_
  refine carries_ifSees rfl ?_ (.pure rfl .refl)
  refine .bind_same (carries_currentText rfl) fun operator => ?_
  refine .bind_same (carries_advance rfl rfl rfl) fun _ => ?_
  refine .bind (h.parse n (.assignment allowIn) _ rfl) fun value => ?_
  refine .node rfl ?_ (by simp [Goal.after]) ?_ rfl rfl
  · simp [R.tree_mk, Comparison.place]
  · simp [Goal.after, Kind.firstCost, Kind.restCost]
    omega

theorem carries_declarations (allowIn : Bool) :
    CarriesTree R n n (inner.declarations allowIn) (inner'.declarations allowIn) := by
  intro c hc
  refine .bind (carries_demand rfl) fun opening => ?_
  refine .bind (carries_commaSeparated h.bound_le (carries_declarator h allowIn) rfl) fun found => ?_
  refine .bind (carries_spanFrom rfl) fun span => ?_
  exact .node rfl R.tree_mk (by simp) (Ledger.keepingAll_deepest_le rfl rfl) rfl rfl

theorem carries_varStatement : CarriesStatement R n inner.varStatement inner'.varStatement := by
  intro c hc
  refine .bind (carries_declarations h true c hc) fun t => ?_
  exact .bind_same (carries_endStatement rfl rfl) fun _ => .pure rfl .refl

theorem carries_ifStatement : CarriesStatement R n inner.ifStatement inner'.ifStatement := by
  intro c hc
  refine .bind (carries_demand rfl) fun opening => ?_
  refine .bind (carries_condition h _ rfl) fun test => ?_
  refine .bind (h.parse n .statement _ rfl) fun consequent => ?_
  refine .bind_same carries_acceptElse fun passed => ?_
  extract_lets rest rest'
  have hrest : ∀ (d : Ledger) alternate, d.moved = true →
      d.atoms = c.atoms ++ (test :: consequent :: alternate).flatMap atoms →
      d.deepest ≤ max c.deepest (n + inside ⟨.«if», "if", default, test :: consequent :: alternate⟩) →
      Carries R n d (rest alternate) (rest' (alternate.map R.tree))
        (fun t => (c.keeping n t).ending) R.tree := by
    intro d alternate hmoved hatoms hdeepest
    refine .bind (carries_spanFrom hmoved) fun span => ?_
    exact .nodeEnding rfl R.tree_mk hatoms (by simpa using hdeepest) hmoved
  refine .ite (fun hpassed => ?_) fun hpassed => ?_
  · rw [if_pos hpassed]
    refine .bind (h.parse n .statement _ rfl) fun alternate => hrest _ [alternate] rfl ?_ ?_
    · simp [Goal.after]
    · simp [Goal.after, Kind.firstCost, Kind.restCost]
      omega
  · rw [if_neg hpassed]
    refine hrest _ [] rfl ?_ ?_
    · simp [Goal.after]
    · simp [Goal.after, Kind.firstCost, Kind.restCost]
      omega

theorem carries_doStatement : CarriesStatement R n inner.doStatement inner'.doStatement := by
  intro c hc
  refine .bind (carries_demand rfl) fun opening => ?_
  refine .bind (h.parse n .statement _ rfl) fun body => ?_
  refine .bind (carries_demand rfl) fun _ => ?_
  refine .bind (carries_condition h _ rfl) fun test => ?_
  refine .bind (carries_spanFrom rfl) fun span => ?_
  refine .bind_same (carries_acceptSemicolon rfl) fun passed => ?_
  refine .nodeEnding rfl R.tree_mk ?_ ?_ ?_
  · cases passed <;> simp [Goal.after]
  · cases passed <;> (simp [Goal.after, Kind.firstCost, Kind.restCost]; omega)
  · cases passed <;> rfl

theorem carries_whileStatement :
    CarriesStatement R n inner.whileStatement inner'.whileStatement := by
  intro c hc
  refine .bind (carries_demand rfl) fun opening => ?_
  refine .bind (carries_condition h _ rfl) fun test => ?_
  refine .bind (h.parse n .statement _ rfl) fun body => ?_
  refine .bind (carries_spanFrom rfl) fun span => ?_
  refine .nodeEnding rfl R.tree_mk (by simp [Goal.after]) ?_ rfl
  simp [Goal.after, Kind.firstCost, Kind.restCost]
  omega

theorem carries_withStatement :
    CarriesStatement R n inner.withStatement inner'.withStatement := by
  intro c hc
  refine .bind (carries_demand rfl) fun opening => ?_
  refine .bind (carries_condition h _ rfl) fun object => ?_
  refine .bind (h.parse n .statement _ rfl) fun body => ?_
  refine .bind (carries_spanFrom rfl) fun span => ?_
  refine .nodeEnding rfl R.tree_mk (by simp [Goal.after]) ?_ rfl
  simp [Goal.after, Kind.firstCost, Kind.restCost]
  omega

theorem carries_clauseBefore (last : Punctuator) (hc : c.past = false) (hmoved : c.moved = true) :
    Carries R n c (inner.clauseBefore last) (inner'.clauseBefore last) (fun t => c.keeping n t)
      R.tree := by
  refine carries_ifSees hc (carries_emptyClause (c := c.seeing _) hc hmoved) ?_
  refine .bind (carries_expression h true c hc) fun t => .pure R.tree_wrap.symm ?_
  simp [atoms_wrap (show Kind.isAtom .expression = false from rfl), Kind.firstCost]
  omega

/-- A clause that is left out is followed by something, so the text does not end there. -/
theorem clauseBefore_refuses (last : Punctuator) {s : Session} (hs : s.current = none) :
    (inner.clauseBefore last).Refuses s := by
  have hbarred := Session.barred_of_none hs
  have hsees : (s.token? == some (.punctuator last)) = false := by simp [Session.token?, hs]
  simp only [Refuses, clauseBefore, seesMark, leads_bind, leads_sees, hsees]
  have hvalue : (inner.parse (.assignment true)).Refuses s := h.barred hbarred
  exact hvalue.bind.bind.bind

theorem carries_stepClauses {d : Ledger} {init : ParseTree} (hpast : d.past = false)
    (hatoms : d.atoms = c.atoms ++ init.atoms)
    (hdeepest : d.deepest ≤ max c.deepest (n + init.inside)) :
    Carries R n d (inner.stepClauses start init)
      (inner'.stepClauses (start + R.shift) (R.tree init)) (c.keeping n) R.tree := by
  refine carries_demandSemicolon hpast (fun _ => ?_) fun _ s hs =>
    (clauseBefore_refuses h _ hs).bind
  refine .bind (carries_clauseBefore h _ rfl rfl) fun test => ?_
  refine carries_demandSemicolon rfl (fun _ => ?_) fun _ s hs => (clauseBefore_refuses h _ hs).bind
  refine .bind (carries_clauseBefore h _ rfl rfl) fun update => ?_
  refine .bind (carries_spanFrom rfl) fun span => ?_
  refine .node rfl R.tree_mk (by simp [hatoms]) ?_ rfl rfl
  simp [Kind.firstCost, Kind.restCost]
  omega

theorem carries_stepHead {d : Ledger} {init : Option ParseTree} (hpast : d.past = false)
    (hmoved : d.moved = true) (hatoms : d.atoms = c.atoms ++ init.toList.flatMap atoms)
    (hdeepest : d.deepest ≤ max c.deepest (deepest (n + 1) init.toList)) :
    Carries R n d (inner.stepHead start init)
      (inner'.stepHead (start + R.shift) (init.map R.tree)) (c.keeping n) R.tree := by
  cases init with
  | none =>
    refine .bind (carries_emptyClause (k := n) hpast hmoved) fun init => ?_
    refine carries_stepClauses h rfl (by simp [hatoms]) ?_
    simp at hdeepest ⊢
    omega
  | some init =>
    have hwrap : Carries R n d (inner.stepClauses start (.wrap .expression init))
        (inner'.stepClauses (start + R.shift) (R.tree (.wrap .expression init))) (c.keeping n)
        R.tree := by
      refine carries_stepClauses h hpast ?_ ?_
      · simpa [atoms_wrap (show Kind.isAtom .expression = false from rfl)] using hatoms
      · simp [Kind.firstCost] at hdeepest ⊢
        omega
    rw [R.tree_wrap] at hwrap
    exact hwrap

theorem carries_inHead {d : Ledger} {target : ParseTree} (hpast : d.past = false)
    (hnext : d.next = some (.reserved .«in»)) (hatoms : d.atoms = c.atoms ++ target.atoms)
    (hdeepest : d.deepest ≤ max c.deepest (n + 1 + target.inside)) :
    Carries R n d (inner.inHead start target) (inner'.inHead (start + R.shift) (R.tree target))
      (c.keeping n) R.tree := by
  unfold inHead
  rw [R.tree_kind, R.tree_children, List.length_map]
  refine .ite (fun _ => carries_unexpected_bind) fun _ => ?_
  refine .bind_same (carries_advance hpast hnext rfl) fun _ => ?_
  refine .bind (carries_expression h true _ rfl) fun object => ?_
  refine .bind (carries_spanFrom rfl) fun span => .node rfl ?_ ?_ ?_ rfl rfl
  · rw [R.tree_mk]
    simp [R.tree_wrap, group]
  · simp [hatoms, atoms_wrap (show Kind.isAtom .expression = false from rfl)]
  · simp [Kind.firstCost, Kind.restCost]
    omega

theorem carries_forHead (hc : c.past = false) (hmoved : c.moved = true) :
    Carries R n c inner.forHead inner'.forHead (c.keeping n) R.tree := by
  refine .bind (carries_currentSpan hc) fun place => .bind_same (carries_token? hc) fun t => ?_
  extract_lets rest rest'
  have hrest : ∀ target, Carries R n (c.keeping (n + 1) target) (rest (some target))
      (rest' (some (R.tree target))) (c.keeping n) R.tree := by
    intro target
    refine carries_ifSees rfl ?_ ?_
    · exact carries_inHead h rfl rfl (by simp) (by simp)
    · exact carries_stepHead h rfl rfl (by simp) (by simp)
  have hnone : Carries R n (c.seeing t) (rest none) (rest' none) (c.keeping n) R.tree :=
    carries_stepHead h hc hmoved (by simp) (by simp)
  split
  · exact hnone
  · rw [map_eq_pure_bind, map_eq_pure_bind, bind_assoc, bind_assoc]
    refine .bind (carries_declarations h false (c.seeing _) hc) fun target => ?_
    rw [pure_bind, pure_bind]
    refine (hrest target).of_covers ?_
    simp
    omega
  · rw [map_eq_pure_bind, map_eq_pure_bind, bind_assoc, bind_assoc]
    refine .bind (carries_expression h false (c.seeing t) hc) fun target => ?_
    rw [pure_bind, pure_bind]
    exact hrest target

theorem carries_forStatement : CarriesStatement R n inner.forStatement inner'.forStatement := by
  intro c hc
  refine .bind (carries_demand rfl) fun opening => .bind (carries_demand rfl) fun _ => ?_
  refine .bind (carries_forHead h rfl rfl) fun head => .bind (carries_demand rfl) fun _ => ?_
  refine .bind (h.parse n .statement _ rfl) fun body => ?_
  refine .bind (carries_spanFrom rfl) fun span => ?_
  refine .nodeEnding rfl R.tree_mk (by simp [Goal.after]) ?_ rfl
  simp [Goal.after, Kind.firstCost, Kind.restCost]
  omega

theorem carries_returnStatement :
    CarriesStatement R n inner.returnStatement inner'.returnStatement := by
  intro c hc
  refine .bind (carries_demand rfl) fun opening => ?_
  refine carries_get rfl rfl fun s s' htoken hnone hbreak _ => ?_
  rw [htoken, hnone, hbreak]
  extract_lets ended rest rest'
  have hrest : ∀ value, Carries R n (c.passing.keepingAll (n + 1) value) (rest value)
      (rest' (value.map R.tree)) (fun t => (c.keeping n t).ending) R.tree := by
    intro value
    refine .bind (carries_spanFrom rfl) fun span => ?_
    refine .bind_same (carries_endStatement rfl rfl) fun _ => ?_
    exact .nodeEnding rfl R.tree_mk (by simp) (Ledger.keepingAll_deepest_le rfl rfl) rfl
  refine .ite (fun _ => (hrest []).of_covers (by simp)) fun _ => ?_
  refine .bind (carries_expression h true _ rfl) fun value => (hrest [value]).of_covers ?_
  simp

theorem carries_throwStatement :
    CarriesStatement R n inner.throwStatement inner'.throwStatement := by
  intro c hc
  refine .bind (carries_demand rfl) fun opening => ?_
  refine .bind_same (carries_lineBreakBefore rfl rfl) fun broken => ?_
  refine .ite (fun _ => carries_unexpected_bind) fun _ => ?_
  refine .bind (carries_expression h true _ rfl) fun value => ?_
  refine .bind (carries_spanFrom rfl) fun span => ?_
  refine .bind_same (carries_endStatement rfl rfl) fun _ => ?_
  refine .nodeEnding rfl R.tree_mk (by simp) ?_ rfl
  simp [Kind.firstCost]
  omega

theorem carries_caseClause :
    CarriesTree R.nested n n inner.caseClause inner'.caseClause := by
  intro c hc
  refine .bind (carries_demand rfl) fun opening => ?_
  refine .bind (carries_expressionOf h.bound_le (h.nested n (.assignment true)) _ rfl)
    fun test => ?_
  refine .bind (carries_demand rfl) fun _ => ?_
  refine .bind (carries_statements nested_ended h.bound_le (h.nested n .statement) _ rfl)
    fun body => ?_
  refine .bind (carries_spanFrom rfl) fun span => ?_
  refine .node rfl R.nested.tree_mk (by simp) ?_ rfl rfl
  have hle : deepest (n + 1) body ≤ n + deepest 1 body := deepest_add_le n 1
  simp [Kind.firstCost, Kind.restCost]
  omega

theorem carries_defaultClause :
    CarriesTree R.nested n n inner.defaultClause inner'.defaultClause := by
  intro c hc
  refine .bind (carries_demand rfl) fun opening => .bind (carries_demand rfl) fun _ => ?_
  refine .bind (carries_statements nested_ended h.bound_le (h.nested n .statement) _ rfl)
    fun body => ?_
  refine .bind (carries_spanFrom rfl) fun span => ?_
  exact .node rfl R.nested.tree_mk (by simp) (Ledger.keepingAll_deepest_le rfl rfl) rfl rfl

theorem carries_clauses (hasDefault : Bool) {m m' : Nat} (hm : m ≤ m') (hc : c.past = false) :
    Carries R.nested n c (inner.clauses hasDefault m) (inner'.clauses hasDefault m')
      (c.keepingAll n) (List.map R.tree) := by
  induction m generalizing c m' hasDefault with
  | zero => exact carries_endless
  | succ m ih =>
    obtain ⟨m', rfl⟩ := Nat.exists_eq_succ_of_ne_zero (Nat.ne_zero_of_lt hm)
    have hrest : ∀ first hasDefault, Carries R.nested n (c.keeping n first)
        (inner.clauses hasDefault m >>= fun others => pure (first :: others))
        (inner'.clauses hasDefault m' >>= fun others => pure (R.tree first :: others))
        (c.keepingAll n) (List.map R.tree) := by
      intro first hasDefault
      refine .bind (ih hasDefault (Nat.le_of_succ_le_succ hm) rfl) fun others => .pure rfl ?_
      simp [Nat.max_assoc]
    refine .bind_same (carries_token? hc) fun t => ?_
    split
    · exact .bind (carries_caseClause h (c.seeing _) hc) fun first => hrest first hasDefault
    · refine .ite (fun _ => carries_unexpected) fun _ => ?_
      exact .bind (carries_defaultClause h (c.seeing _) hc) fun first => hrest first true
    · exact .pure rfl (by simp [hc])

theorem carries_switchStatement :
    CarriesStatement R n inner.switchStatement inner'.switchStatement := by
  intro c hc
  refine .bind (carries_demand rfl) fun opening => ?_
  refine .bind (carries_condition h _ rfl) fun value => .bind (carries_demand rfl) fun _ => ?_
  refine .bracketed rfl (carries_clauses h false h.bound_le rfl) rfl fun found _ => ?_
  refine .bind (carries_spanFrom rfl) fun span => ?_
  refine .nodeEnding rfl R.tree_mk (by simp) ?_ rfl
  have hle : deepest n found ≤ n + deepest 0 found := deepest_add_le n 0
  simp [Kind.firstCost, Kind.restCost]
  omega

theorem carries_catchClause : CarriesTree R n n inner.catchClause inner'.catchClause := by
  intro c hc
  refine .bind (carries_demand rfl) fun opening => .bind (carries_demand rfl) fun _ => ?_
  refine .bind (carries_identifier (k := n) _ rfl) fun binding => ?_
  refine .bind (carries_demand rfl) fun _ => .bind (carries_block h _ rfl) fun body => ?_
  refine .bind (carries_spanFrom rfl) fun span => ?_
  refine .node rfl R.tree_mk (by simp) ?_ rfl rfl
  simp [Kind.firstCost, Kind.restCost]

theorem carries_finallyClause : CarriesTree R n n inner.finallyClause inner'.finallyClause := by
  intro c hc
  refine .bind (carries_demand rfl) fun opening => .bind (carries_block h _ rfl) fun body => ?_
  refine .bind (carries_spanFrom rfl) fun span => ?_
  refine .node rfl R.tree_mk (by simp) ?_ rfl rfl
  simp [Kind.firstCost]

theorem carries_tryStatement : CarriesStatement R n inner.tryStatement inner'.tryStatement := by
  intro c hc
  refine .bind (carries_demand rfl) fun opening => .bind (carries_block h _ rfl) fun body => ?_
  refine .bind_same (carries_sees rfl) fun caught => ?_
  extract_lets afterHandler afterHandler'
  have hafter : ∀ handler, Carries R n ((c.passing.keeping n body).keepingAll n handler)
      (afterHandler handler) (afterHandler' (handler.map R.tree))
      (fun t => (c.keeping n t).ending) R.tree := by
    intro handler
    refine .bind_same (carries_sees rfl) fun finished => ?_
    extract_lets afterCleanup afterCleanup'
    have hend : ∀ cleanup, Carries R n
        ((c.passing.keeping n body).keepingAll n (handler ++ cleanup))
        (afterCleanup cleanup) (afterCleanup' (cleanup.map R.tree))
        (fun t => (c.keeping n t).ending) R.tree := by
      intro cleanup
      simp only [afterCleanup, afterCleanup', List.isEmpty_map]
      refine .ite (fun _ => carries_unexpected_bind) fun _ => ?_
      refine .bind (carries_spanFrom rfl) fun span => .nodeEnding rfl ?_ (by simp) ?_ rfl
      · simp [R.tree_mk]
      · have hle : deepest n (handler ++ cleanup) ≤ n + deepest 0 (handler ++ cleanup) :=
          deepest_add_le n 0
        simp [Kind.firstCost, Kind.restCost] at hle ⊢
        omega
    refine .ite (fun hfinished => ?_) fun hfinished => ?_
    · rw [if_pos hfinished]
      refine .bind (carries_finallyClause h _ rfl) fun t => (hend [t]).of_covers ?_
      simp
    · rw [if_neg hfinished]
      refine (hend []).of_covers ?_
      simp
  refine .ite (fun hcaught => ?_) fun hcaught => ?_
  · rw [if_pos hcaught]
    refine .bind (carries_catchClause h _ rfl) fun t => (hafter [t]).of_covers ?_
    simp
  · rw [if_neg hcaught]
    refine (hafter []).of_covers ?_
    simp

theorem carries_expressionStatement :
    CarriesStatement R n inner.expressionStatement inner'.expressionStatement := by
  intro c hc
  refine .bind (carries_expressionOf h.bound_le (carries_assignment h true) c hc) fun t => ?_
  refine .bind_same (carries_sees rfl) fun colon => ?_
  rw [R.tree_kind]
  refine .ite (fun hlabel => ?_) fun _ => ?_
  · have hcolon : colon = true := by simp_all
    rw [if_pos hcolon]
    refine .bind_same (carries_advance rfl rfl rfl) fun _ => ?_
    refine .bind (h.parse n .statement _ rfl) fun body => ?_
    refine .nodeEnding rfl ?_ (by simp [Goal.after]) ?_ rfl
    · simp [R.tree_mk, Comparison.place, group]
    · simp [Goal.after, Kind.firstCost, Kind.restCost]
      omega
  · have hpast : (if colon = true then (c.keeping (n + 1) t).seeing (some (.punctuator .colon))
        else c.keeping (n + 1) t).past = false := by cases colon <;> rfl
    refine .bind_same (carries_endStatement hpast (by cases colon <;> rfl)) fun _ => ?_
    refine .nodeEnding rfl R.tree_wrap ?_ ?_ ?_
    · cases colon <;> simp
    · cases colon <;> (simp [Kind.firstCost]; omega)
    · cases colon <;> rfl

theorem carries_longStatement {t : Option Token} (hc : c.past = false) (hnext : c.next = t) :
    Carries R n c (inner.longStatement t) (inner'.longStatement t)
      (fun t => (c.keeping n t).ending) R.tree := by
  have hclosed : ∀ {p p' : ParserM ParseTree}, CarriesTree R n n p p' →
      Carries R n c p p' (fun t => (c.keeping n t).ending) R.tree := fun h =>
    (h c hc).mono fun t => Ledger.covers_ending
  unfold longStatement
  split
  · exact hclosed (carries_block h)
  · exact carries_varStatement h c hc
  · exact carries_ifStatement h c hc
  · exact carries_doStatement h c hc
  · exact carries_whileStatement h c hc
  · exact carries_forStatement h c hc
  · exact carries_jumpStatement rfl ⟨rfl, rfl⟩ hc hnext
  · exact carries_jumpStatement rfl ⟨rfl, rfl⟩ hc hnext
  · exact carries_returnStatement h c hc
  · exact carries_withStatement h c hc
  · exact carries_switchStatement h c hc
  · exact carries_throwStatement h c hc
  · exact carries_tryStatement h c hc
  · exact hclosed (carries_function h true)
  · exact carries_expressionStatement h c hc

theorem carries_statement :
    CarriesGoal R n .statement inner.statement inner'.statement := by
  intro c hc
  rw [statement, statement, enter_token?, enter_token?]
  refine .bind_same (carries_token? hc) fun t => ?_
  have hlost : ∀ t, n + 1 ≤ (Goal.statement.after n c t).deepest := fun _ => Ledger.le_keeping
  split
  · refine carries_leaking hc (carries_emptyStatement hc rfl) hlost ?_
    exact fun hs hrel henter => R.leak hrel (.empty (hs _ rfl) henter)
  · refine carries_leaking hc (carries_debuggerStatement hc rfl) hlost ?_
    exact fun hs hrel henter => R.leak hrel (.debugger (hs _ rfl) henter)
  · exact carries_guarded hc (carries_longStatement h hc rfl) hlost

end Inner
end Ecma3.Grammar
