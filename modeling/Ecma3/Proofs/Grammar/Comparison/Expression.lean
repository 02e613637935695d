import Ecma3.Proofs.Grammar.Comparison.Step
import Ecma3.Proofs.Grammar.Simulation.Expression

/-! How the productions of expressions carry a comparison. -/
namespace Ecma3.Grammar
open ParserM ParseTree

variable {α β : Type} {R : Comparison} {inner inner' : Inner} {n k : Nat} {c : Ledger}
  {element element' : ParserM ParseTree} {kind : Kind} {text : String} {span : Span} {t : Token}
  {tree : ParseTree} {children : List ParseTree} {s : Session}

/-- The ledger after a tree for the goal. A statement may take the first run to its end. -/
def Goal.after (goal : Goal) (n : Nat) (c : Ledger) (t : ParseTree) : Ledger :=
  match goal with
  | .statement => (c.keeping (n + 1) t).ending
  | .assignment _ => c.keeping (n + 1) t
  | .binary .. | .unary | .memberBase => c.keeping n t

/-- The parsers carry a comparison through the trees for the goal, wherever these begin. -/
def CarriesGoal (R : Comparison) (n : Nat) (goal : Goal) (p p' : ParserM ParseTree) : Prop :=
  ∀ c : Ledger, c.past = false → Carries R n c p p' (goal.after n c) R.tree

/-- So do parsers for trees that begin at level `k`. -/
def CarriesTree (R : Comparison) (n k : Nat) (p p' : ParserM ParseTree) : Prop :=
  ∀ c : Ledger, c.past = false → Carries R n c p p' (c.keeping k) R.tree

/-- The parsers for what stands inside carry a comparison, and the one without what is outside the
brackets. The second run may repeat parts more often. -/
structure Inner.Compared (R : Comparison) (inner inner' : Inner) : Prop where
  within : ∃ bound, inner.parse = parseWithin bound
  bound_le : inner.bound ≤ inner'.bound
  parse : ∀ n goal, CarriesGoal R n goal (inner.parse goal) (inner'.parse goal)
  nested : ∀ n goal, CarriesGoal R.nested n goal (inner.parse goal) (inner'.parse goal)
  barred : ∀ {goal s}, s.Barred → (inner.parse goal).Refuses s

namespace Comparison

theorem tree_mk : R.tree ⟨kind, text, span, children⟩ =
    ⟨kind, text, R.place span, children.map R.tree⟩ := relocate_mk

theorem tree_group : R.tree (group kind span children) =
    group kind (R.place span) (children.map R.tree) := relocate_mk

@[simp] theorem tree_kind : (R.tree tree).kind = tree.kind := relocate_kind

@[simp] theorem tree_span : (R.tree tree).span = R.place tree.span := relocate_span

@[simp] theorem tree_children : (R.tree tree).children = tree.children.map R.tree :=
  relocate_children

theorem tree_wrap : R.tree (wrap kind tree) = wrap kind (R.tree tree) := by
  rw [wrap, wrap, tree_group, tree_span, List.map_singleton]

end Comparison

/-- A node goes as deep as its children, and keeps what they keep. -/
theorem Carries.node {d : Ledger} {node' : ParseTree} (hkind : kind.isAtom = false)
    (hnode : R.tree ⟨kind, text, span, children⟩ = node')
    (hatoms : d.atoms = c.atoms ++ children.flatMap atoms)
    (hdeepest : d.deepest ≤ max c.deepest (k + inside ⟨kind, text, span, children⟩))
    (hmoved : d.moved = true) (hpast : d.past = false) :
    Carries R n d (Pure.pure ⟨kind, text, span, children⟩) (Pure.pure node') (c.keeping k)
      R.tree := by
  refine .pure hnode.symm ⟨?_, hdeepest, fun _ => hmoved, by simp [hpast], nofun⟩
  rw [hatoms, Ledger.keeping_atoms, atoms_of_not_isAtom hkind]
  exact List.Subset.refl _

/-- A node that the first run may come to its end with. -/
theorem Carries.nodeEnding {d : Ledger} {node' : ParseTree} (hkind : kind.isAtom = false)
    (hnode : R.tree ⟨kind, text, span, children⟩ = node')
    (hatoms : d.atoms = c.atoms ++ children.flatMap atoms)
    (hdeepest : d.deepest ≤ max c.deepest (k + inside ⟨kind, text, span, children⟩))
    (hmoved : d.moved = true) :
    Carries R n d (Pure.pure ⟨kind, text, span, children⟩) (Pure.pure node')
      (fun t => (c.keeping k t).ending) R.tree := by
  refine .pure hnode.symm ⟨?_, hdeepest, fun _ => hmoved, fun _ => rfl, nofun⟩
  rw [hatoms, Ledger.ending_atoms, Ledger.keeping_atoms, atoms_of_not_isAtom hkind]
  exact List.Subset.refl _

/-- Inside brackets, the end of the first text is an error at the latest where they must close. -/
theorem Carries.bracketed {p p' : ParserM α} {mid : α → Ledger} {g : α → α} {expected : Expected}
    {f f' : α → Span → ParserM β} {last : β → Ledger} {g' : β → β} (hc : c.past = false)
    (hp : Carries R.nested n c p p' mid g) (ht : t.isOrdinary = true)
    (hf : ∀ a place, Carries R n (mid a).passing (f a place) (f' (g a) (R.place place)) last g') :
    Carries R n c (p >>= fun a => demand t expected >>= f a)
      (p' >>= fun a => demand t expected >>= f' a) last g' := by
  have hrest : ∀ a, Carries R n (mid a) (demand t expected >>= f a)
      (demand t expected >>= f' (g a)) last g' := fun a => (carries_demand ht).bind (hf a)
  have hover : ∀ {a s u b}, R.nested.Over (mid a) s → (mid a).Sees s →
      (demand t expected >>= f a) s = .ok b u → R.Over (last b) u := by
    intro a s u b hover hs hb
    rcases hover with hlost | hstuck | hgone
    · exact (hrest a).stays hs (Or.inl hlost) hb
    · exact (hrest a).stays hs (Or.inr hstuck) hb
    · exact ((demand_refuses hgone.current).bind.ne_ok hb).elim
  refine ⟨fun hs h => ?_, fun hs hc' h => ?_, fun hs hmeets => ⟨fun h => ?_, fun {x v} h => ?_⟩⟩
  · obtain ⟨a, u, ha, h⟩ := of_bind_eq_ok h
    exact (hrest a).sees (hp.sees hs ha) h
  · obtain ⟨a, u, ha, h⟩ := of_bind_eq_ok h
    exact hover (hp.stays hs (hc'.imp_right Or.inl) ha) (hp.sees hs ha) h
  · obtain ⟨a, u, ha, h⟩ := of_bind_eq_ok h
    rcases (hp.follow hs (Or.inl (hmeets.rel hc))).ok ha with hlost | ⟨u', ha', hmeets' | hended⟩
    · exact Or.inl (hover hlost (hp.sees hs ha) h)
    · rw [bind_of_ok ha']
      exact ((hrest a).follow (hp.sees hs ha) (Or.inl hmeets')).ok h
    · exact hended.2.elim
  · cases hr : p _ with
    | ok a u =>
      rw [bind_of_ok hr] at h
      rcases (hp.follow hs (Or.inl (hmeets.rel hc))).ok hr with hlost | ⟨u', ha', hmeets' | hended⟩
      · exact Or.inr (Or.inl hlost.fails)
      · rw [bind_of_ok ha']
        exact ((hrest a).follow (hp.sees hs hr) (Or.inl hmeets')).error h
      · exact hended.2.elim
    | error y u =>
      rw [bind_of_error hr] at h
      cases h
      refine ((hp.follow hs (Or.inl (hmeets.rel hc))).error hr).imp_right fun h =>
        h.imp_right fun ⟨hcommon, u', hu'⟩ => ⟨hcommon, u', ?_⟩
      exact bind_of_error hu'

/-- Going a level deeper does not change the current token. -/
theorem enter_token? {α : Type} (next : Option Token → ParserM α) :
    (enter >>= fun _ => token? >>= next) = token? >>= fun t => enter >>= fun _ => next t := by
  have htoken : ∀ (next : Option Token → ParserM α) s, (token? >>= next) s = next s.token? s :=
    fun _ _ => rfl
  funext s
  rw [htoken]
  cases henter : enter s with
  | error x u => rw [bind_of_error henter, bind_of_error henter]
  | ok _ u =>
    rw [bind_of_ok henter, bind_of_ok henter, htoken, enter_eq_ok henter]
    rfl

/-! Where no statement and no expression begins. -/

namespace Session.Barred

theorem bind_eq_none (h : s.Barred) {f : Token → Option α}
    (hf : ∀ t, t.isBarred = true → f t = none) : s.token?.bind f = none := by
  cases htoken : s.token? with
  | none => rfl
  | some t => exact hf t (h t htoken)

theorem sees (h : s.Barred) (ht : t.isBarred = false) : (s.token? == some t) = false := by
  have hne : s.token? ≠ some t := fun htoken => by simp [h t htoken] at ht
  simpa using hne

theorem primary (h : s.Barred) : inner.primary.Refuses s := by
  simp only [Refuses, Inner.primary, leads_bind, leads_token?]
  cases htoken : s.token? with
  | none => trivial
  | some t =>
    rcases Token.eq_of_isBarred (h t htoken) with rfl | rfl | rfl <;> trivial

theorem memberBase (h : s.Barred) : inner.memberBase.Refuses s := by
  simp only [Refuses, Inner.memberBase, seesWord, leads_bind, leads_sees]
  rw [h.sees (by rfl)]
  exact h.primary

theorem unary (h : s.Barred) : inner.unary.Refuses s := by
  have hnone : s.token?.bind unaryKind? = none := h.bind_eq_none fun t ht => by
    rcases Token.eq_of_isBarred ht with rfl | rfl | rfl <;> rfl
  simp only [Refuses, Inner.unary, leads_bind, leads_token?, hnone]
  exact h.memberBase.bind.bind

theorem assigned (h : s.Barred) (allowIn : Bool) : (inner.assigned allowIn).Refuses s :=
  h.unary.bind.bind.bind

theorem withDepth (h : s.Barred) (depth : Nat) : Session.Barred { s with depth } := h

theorem guarded {p : ParserM α} (hp : p.Refuses { s with depth := s.depth + 1 }) :
    (enter >>= fun _ => thenLeave p).Refuses s := by
  refine leads_bind.2 (leads_enter.2 ?_)
  split
  · trivial
  · exact leads_thenLeave.2 (hp.mono (fun _ _ => False.elim) fun _ _ _ => trivial)

theorem assignment (h : s.Barred) (allowIn : Bool) : (inner.assignment allowIn).Refuses s :=
  guarded ((h.withDepth _).assigned allowIn)

theorem expressionStatement (h : s.Barred) : inner.expressionStatement.Refuses s :=
  (h.assignment true).bind.bind.bind

theorem statement (h : s.Barred) : inner.statement.Refuses s := by
  have hexpression : (enter >>= fun _ => thenLeave inner.expressionStatement).Refuses s :=
    guarded (h.withDepth _).expressionStatement
  rw [Inner.statement, enter_token?]
  refine leads_bind.2 (leads_token?.2 ?_)
  cases htoken : s.token? with
  | none => exact hexpression
  | some t => rcases Token.eq_of_isBarred (h t htoken) with rfl | rfl | rfl <;> exact hexpression

theorem production (h : s.Barred) (goal : Goal) : (inner.production goal).Refuses s := by
  cases goal with
  | statement => exact h.statement
  | assignment allowIn => exact h.assignment allowIn
  | binary allowIn least => exact h.unary.bind
  | unary => exact h.unary
  | memberBase => exact h.memberBase

end Session.Barred

theorem parseWithin_barred {bound : Nat} {goal : Goal} (h : s.Barred) :
    (parseWithin bound goal).Refuses s := by
  cases bound with
  | zero => trivial
  | succ bound => exact h.production goal

theorem simpleKind?_isOrdinary (h : simpleKind? t = some kind) : t.isOrdinary = true := by
  unfold simpleKind? at h
  split at h <;> cases h <;> rfl

theorem isNameLike_isOrdinary (h : isNameLike t = true) : t.isOrdinary = true := by
  unfold Token.isOrdinary
  split <;> first | rfl | cases h

theorem unaryKind?_level (h : unaryKind? t = some kind) : kind.firstCost = 1 := by
  unfold unaryKind? at h
  split at h <;> cases h <;> rfl

theorem postfixKind?_level (h : postfixKind? t = some kind) :
    t.isOrdinary = true ∧ kind.firstCost = 1 := by
  unfold postfixKind? at h
  split at h <;> cases h <;> decide

theorem assignmentKind?_level (h : assignmentKind? t = some kind) :
    t.isOrdinary = true ∧ kind.firstCost = 1 ∧ kind.restCost = 1 := by
  unfold assignmentKind? at h
  split at h <;> cases h <;> decide

theorem binaryKind?_level (h : binaryKind? t = some kind) :
    kind.firstCost = 1 ∧ kind.restCost = 1 := by
  unfold binaryKind? at h
  split at h <;> cases h <;> decide

theorem binaryOperator?_level {allowIn : Bool} {p : Nat}
    (h : binaryOperator? allowIn t = some (kind, p)) :
    kind.firstCost = 1 ∧ kind.restCost = 1 := by
  simp only [binaryOperator?, Option.bind_eq_bind, Option.bind_eq_some_iff,
    Option.ite_none_left_eq_some, Option.some.injEq, Prod.mk.injEq] at h
  obtain ⟨k, hk, _, _, _, rfl, _⟩ := h
  exact binaryKind?_level hk

namespace Inner

theorem carries_commaSeparated (hbound : inner.bound ≤ inner'.bound)
    (h : CarriesTree R n k element element') (hc : c.past = false) :
    Carries R n c (inner.commaSeparated element) (inner'.commaSeparated element')
      (fun found => c.keepingAll k (found.1 :: found.2)) (Prod.map R.tree (List.map R.tree)) := by
  refine .bind (h c hc) fun first => ?_
  simp only [← Ledger.keeping_keepingAll]
  refine .bind (carries_collect rfl (fun d hd => ?_) hbound) fun others => .pure rfl .refl
  refine carries_ifAccept hd rfl ?_ (.pure rfl (by simp [Turn.trees, hd]))
  exact .bind (h d.passing rfl) fun t => .pure rfl (by simp [Turn.trees])

/-- Elements and the list of them are equally deep. -/
theorem carries_argumentList (hbound : inner.bound ≤ inner'.bound)
    (h : CarriesTree R n k element element') :
    CarriesTree R n k (inner.argumentList element) (inner'.argumentList element') := by
  intro c hc
  refine .bind (carries_demand rfl) fun opening => .bind_same (carries_sees rfl) fun seen => ?_
  extract_lets close close'
  have hclose : ∀ elements, Carries R n (c.passing.keepingAll k elements) (close elements)
      (close' (elements.map R.tree)) (c.keeping k) R.tree := by
    intro elements
    refine .bind (carries_demand rfl) fun _ => .bind (carries_spanFrom rfl) fun span => ?_
    exact .node rfl R.tree_mk (by simp) (Ledger.keepingAll_deepest_le rfl rfl) rfl rfl
  refine .ite (fun hseen => ?_) fun hseen => ?_
  · refine (hclose []).of_covers ?_
    simp [hseen]
  · simp only [hseen]
    exact .bind (carries_commaSeparated hbound h rfl) fun found => hclose (found.1 :: found.2)

theorem carries_identifier : CarriesTree R n k identifier identifier := fun _ hc =>
  carries_ifSees hc (carries_leaf hc rfl rfl) carries_unexpected

/-- A comma expression is one level above its operands, and a lone operand stands for itself. -/
theorem carries_expressionOf (hbound : inner.bound ≤ inner'.bound)
    (h : CarriesTree R n (n + 1) element element') :
    CarriesTree R n (n + 1) (inner.expressionOf element) (inner'.expressionOf element') := by
  intro c hc
  refine .bind (carries_commaSeparated hbound h hc) fun found => ?_
  obtain ⟨first, others⟩ := found
  simp only [Prod.map, List.isEmpty_map, Comparison.tree_span]
  refine .ite (fun hothers => .pure rfl ?_) fun _ => ?_
  · rw [List.isEmpty_iff] at hothers
    simp [hothers]
  · refine .bind (carries_spanFrom (by simp)) fun span => ?_
    refine .node rfl R.tree_mk (by simp) ?_ (by simp) rfl
    have hle : deepest (n + 1) others ≤ n + deepest 1 others := deepest_add_le n 1
    simp [Kind.firstCost, Kind.restCost]
    omega

theorem carries_expression (h : inner.Compared R inner') (allowIn : Bool) :
    CarriesTree R n (n + 1) (inner.expression allowIn) (inner'.expression allowIn) :=
  carries_expressionOf h.bound_le (h.parse n (.assignment allowIn))

/-- One turn of the repetition that finds statements. -/
def statementTurn (inner : Inner) (ends : Token → Bool) : ParserM (Turn ParseTree) := do
  match ← token? with
  | none => return .stop
  | some t =>
    if ends t then return .stop
    else if ← acceptMark .semicolon then return .skip
    else return .more (← inner.parse .statement)

theorem statements_eq (inner : Inner) (ends : Token → Bool) :
    inner.statements ends = collect (inner.statementTurn ends) inner.bound := rfl

/-- A turn may take the first run to its end. -/
theorem carries_statementTurn
    (h : CarriesGoal R n .statement (inner.parse .statement) (inner'.parse .statement))
    (ends : Token → Bool) (hc : c.past = false) :
    Carries R n c (inner.statementTurn ends) (inner'.statementTurn ends)
      (fun found => (c.keepingAll (n + 1) found.trees).ending) (Turn.map R.tree) := by
  refine .bind_same (carries_token? hc) fun token => ?_
  have hstop : ∀ t, (c.seeing t).Covers (c.keepingAll (n + 1) []).ending := fun t =>
    ⟨by simp, by simp, by simp, fun _ => rfl, nofun⟩
  split
  · exact .pure rfl (hstop _)
  · refine .ite (fun _ => .pure rfl (hstop _)) fun _ => ?_
    refine .bind_same (carries_acceptSemicolon hc) fun passed => ?_
    cases passed with
    | true =>
      exact .pure rfl
        ⟨by simp [Turn.trees], by simp [Turn.trees], fun _ => rfl, fun _ => rfl, nofun⟩
    | false =>
      refine .bind (h _ hc) fun t => .pure rfl ⟨?_, ?_, fun _ => rfl, fun _ => rfl, nofun⟩
      · simp [Turn.trees, Goal.after]
      · simp [Turn.trees, Goal.after]

/-- Statements, where the end of the first text is not behind one of them. -/
theorem carries_statements (hended : ∀ n s s', ¬R.Ended n s s')
    (hbound : inner.bound ≤ inner'.bound)
    (h : CarriesGoal R n .statement (inner.parse .statement) (inner'.parse .statement))
    (ends : Token → Bool) (hc : c.past = false) :
    Carries R n c (inner.statements ends) (inner'.statements ends) (c.keepingAll (n + 1))
      (List.map R.tree) :=
  carries_collect hc
    (fun _ hd => (carries_statementTurn h ends hd).settle hended fun _ => rfl) hbound

theorem nested_ended (n : Nat) (s s' : Session) : ¬R.nested.Ended n s s' := id

variable (h : inner.Compared R inner')
include h

theorem carries_block : CarriesTree R n n inner.block inner'.block := by
  intro c hc
  refine .bind (carries_demand rfl) fun opening => ?_
  refine .bracketed rfl (carries_statements nested_ended h.bound_le (h.nested n .statement) _ rfl)
    rfl fun found _ => ?_
  refine .bind (carries_spanFrom rfl) fun span => ?_
  exact .node rfl R.tree_mk (by simp) (Ledger.keepingAll_deepest_le rfl rfl) rfl rfl

theorem carries_function (needsName : Bool) :
    CarriesTree R n n (inner.function needsName) (inner'.function needsName) := by
  intro c hc
  refine .bind (carries_demand rfl) fun opening => .bind_same (carries_sees rfl) fun seen => ?_
  extract_lets rest rest'
  have hrest : ∀ name, Carries R n (c.passing.keepingAll n name) (rest name)
      (rest' (name.map R.tree)) (c.keeping n) R.tree := by
    intro name
    refine .bind (carries_argumentList (k := n) h.bound_le carries_identifier _ rfl)
      fun parameters => ?_
    refine .bind (carries_block h _ rfl) fun body => ?_
    refine .bind (carries_spanFrom rfl) fun span => ?_
    refine .node rfl ?_ (by simp) ?_ rfl rfl
    · simp [R.tree_mk]
    · cases name with
      | nil => simp [Kind.firstCost, Kind.restCost]
      | cons first others =>
        have hle : deepest n others ≤ n + deepest 0 others := deepest_add_le n 0
        simp [Kind.firstCost, Kind.restCost]
        omega
  refine .ite (fun hseen => ?_) fun hseen => ?_
  · rw [if_pos hseen]
    refine .bind (carries_leaf (k := n) rfl rfl rfl) fun name => (hrest [name]).of_covers ?_
    simp
  · rw [if_neg hseen]
    refine .ite (fun _ => carries_unexpected_bind) fun _ => (hrest []).of_covers ?_
    simp

theorem carries_arrayItem (hc : c.past = false) :
    Carries R n c inner.arrayItem inner'.arrayItem (fun found => c.keepingAll n found.trees)
      (Turn.map R.tree) := by
  refine .bind_same (carries_token? hc) fun t => ?_
  split
  · exact .pure rfl (by simp [Turn.trees, hc])
  · refine .bind (carries_currentSpan hc) fun place => ?_
    refine .bind_same (carries_advance hc rfl rfl) fun _ => .pure ?_ ?_
    · simp [Turn.map, R.tree_group, Comparison.place]
    · exact Ledger.covers_keepingAll.2
        ⟨List.subset_append_left .., Nat.le_max_left .., fun _ => rfl, rfl⟩
  · refine .bind (h.parse n (.assignment true) _ hc) fun value => ?_
    have hatoms : (ParseTree.wrap .item value).atoms = value.atoms := atoms_wrap rfl
    refine carries_ifAccept rfl rfl (.pure ?_ ?_) (.pure ?_ ?_)
    · simp [Turn.map, R.tree_wrap]
    · simp +arith [Turn.trees, hatoms, Goal.after, Kind.firstCost]
    · simp [Turn.map, R.tree_wrap]
    · simp +arith [Turn.trees, hatoms, Goal.after, Kind.firstCost]

theorem carries_array : CarriesTree R n n inner.array inner'.array := by
  intro c hc
  refine .bind (carries_demand rfl) fun opening => ?_
  refine .bind (carries_collect rfl (fun d hd => carries_arrayItem h hd) h.bound_le)
    fun items => ?_
  exact .bind (carries_demand rfl) fun closing =>
    .node rfl R.tree_mk (by simp) (Ledger.keepingAll_deepest_le rfl rfl) rfl rfl

omit h in
theorem carries_propertyName : CarriesTree R n k propertyName propertyName := by
  intro c hc
  refine .bind_same (carries_token? hc) fun t => ?_
  split
  · exact carries_leaf hc rfl rfl
  · exact carries_leaf hc rfl rfl
  · exact carries_leaf hc rfl rfl
  · exact .ite (fun hname => carries_leaf hc rfl (isNameLike_isOrdinary hname))
      fun _ => carries_unexpected
  · exact carries_unexpected

theorem carries_property (hc : c.past = false) :
    Carries R n c inner.property inner'.property (fun found => c.keepingAll n found.trees)
      (Turn.map R.tree) := by
  refine carries_ifSees hc (.pure rfl (by simp [Turn.trees, hc])) ?_
  refine .bind (carries_propertyName (k := n) c hc) fun name => ?_
  refine .bind (carries_demand rfl) fun _ => ?_
  refine .bind (h.parse n (.assignment true) _ rfl) fun value => ?_
  extract_lets property property'
  have hproperty : R.tree property = property' := by
    simp [property, property', R.tree_group, Comparison.place]
  have hatoms : property.atoms = name.atoms ++ value.atoms := (atoms_group rfl).trans (by simp)
  have hinside : property.inside = max (1 + name.inside) (1 + value.inside) := by
    simp [property, Kind.firstCost, Kind.restCost]
  refine carries_ifAccept rfl rfl (.pure (by simp [Turn.map, hproperty]) ?_)
    (.pure (by simp [Turn.map, hproperty]) ?_)
  all_goals
    simp [Turn.trees, hatoms, hinside, Goal.after]
    omega

theorem carries_object : CarriesTree R n n inner.object inner'.object := by
  intro c hc
  refine .bind (carries_demand rfl) fun opening => ?_
  refine .bind (carries_collect rfl (fun d hd => carries_property h hd) h.bound_le)
    fun found => ?_
  exact .bind (carries_demand rfl) fun closing =>
    .node rfl R.tree_mk (by simp) (Ledger.keepingAll_deepest_le rfl rfl) rfl rfl

theorem carries_parenthesized :
    CarriesTree R n n inner.parenthesized inner'.parenthesized := by
  intro c hc
  refine .bind (carries_demand rfl) fun opening => ?_
  refine .bind (carries_expression h true _ rfl) fun content => ?_
  refine .bind (carries_demand rfl) fun closing => .node rfl R.tree_mk (by simp) ?_ rfl rfl
  simp [Kind.firstCost]
  omega

theorem carries_primary : CarriesTree R n n inner.primary inner'.primary := by
  intro c hc
  refine .bind_same (carries_token? hc) fun t => ?_
  split
  · exact carries_unexpected
  · rename_i t
    split
    · rename_i kind hkind
      exact carries_leaf hc rfl (simpleKind?_isOrdinary hkind)
    · split
      · exact carries_regexLiteral hc rfl rfl
      · exact carries_regexLiteral hc rfl rfl
      · exact carries_array h (c.seeing _) hc
      · exact carries_object h (c.seeing _) hc
      · exact carries_parenthesized h (c.seeing _) hc
      · exact carries_function h false (c.seeing _) hc
      · exact carries_unexpected

theorem carries_memberBase : CarriesTree R n n inner.memberBase inner'.memberBase := by
  intro c hc
  obtain ⟨bound, hbound⟩ := h.within
  refine carries_ifSees hc ?_ (carries_primary h c hc)
  refine .bind (carries_currentSpan hc) fun place => ?_
  refine carries_operand_bind hc rfl (hbound ▸ .new bound) (h.parse (n + 1) .memberBase _ rfl)
    (fun _ => Ledger.le_keeping) (fun v hv => h.barred hv) fun operand => ?_
  refine .node rfl ?_ (by simp [Goal.after]) ?_ rfl rfl
  · simp [R.tree_mk, Comparison.place]
  · simp [Goal.after, Kind.firstCost]
    omega

omit h in
theorem carries_memberName : CarriesTree R n k memberName memberName := by
  intro c hc
  refine .bind_same (carries_token? hc) fun t => ?_
  split
  · exact .ite (fun hname => carries_leaf hc rfl (isNameLike_isOrdinary hname))
      fun _ => carries_unexpected
  · exact carries_unexpected

/-- A suffix goes around the tree before it, which stays at its level. -/
theorem carries_suffix (object : ParseTree) :
    Carries R n (c.keeping n object) (inner.suffix object) (inner'.suffix (R.tree object))
      (fun next => c.keeping n (next.getD object)) (Option.map R.tree) := by
  have hnode : ∀ {d : Ledger} {kind : Kind} {a : ParseTree} {stop stop' : Nat},
      kind.isAtom = false → kind.firstCost = 0 → kind.restCost = 1 → stop' = stop + R.shift →
      d.past = false → d.moved = true → d.atoms = c.atoms ++ (object.atoms ++ a.atoms) →
      d.deepest ≤ max c.deepest (max (n + object.inside) (n + 1 + a.inside)) →
      Carries R n d (pure (some (group kind ⟨object.span.start, stop⟩ [object, a])))
        (pure (some (group kind ⟨(R.tree object).span.start, stop'⟩ [R.tree object, R.tree a])))
        (fun next => c.keeping n (next.getD object)) (Option.map R.tree) := by
    intro d kind a stop stop' hkind hfirst hrest hstop hpast hmoved hatoms hdeepest
    refine .pure ?_ ?_
    · simp [R.tree_group, Comparison.place, hstop]
    · simp [atoms_group hkind, hatoms, hpast, hmoved, hfirst, hrest]
      omega
  refine .bind_same (carries_token? rfl) fun t => ?_
  split
  · refine .bind_same (carries_advance rfl rfl rfl) fun _ => ?_
    refine .bind (carries_memberName (k := n) _ rfl) fun name => ?_
    exact hnode rfl rfl rfl (by simp [Comparison.place]) rfl rfl (by simp) (by simp; omega)
  · refine .bind_same (carries_advance rfl rfl rfl) fun _ => ?_
    refine .bind (carries_expression h true _ rfl) fun index => ?_
    refine .bind (carries_demand rfl) fun closing => ?_
    exact hnode rfl rfl rfl rfl rfl rfl (by simp) (by simp)
  · refine .bind (carries_argumentList h.bound_le (h.parse n (.assignment true)) _ rfl)
      fun arguments => ?_
    exact hnode rfl rfl rfl (by simp [Comparison.place]) rfl rfl (by simp) (by simp)
  · exact .pure rfl (by simp)

theorem carries_leftHandSide : CarriesTree R n n inner.leftHandSide inner'.leftHandSide := by
  intro c hc
  refine .bind (carries_memberBase h c hc) fun base => ?_
  exact carries_extend (fun tree => carries_suffix h tree) h.bound_le base

theorem carries_stepped : CarriesTree R n n inner.stepped inner'.stepped := by
  intro c hc
  refine .bind (carries_leftHandSide h c hc) fun operand => ?_
  refine .bind_same (carries_lineBreakBefore rfl rfl) fun broken => ?_
  refine .ite (fun _ => .pure rfl .refl) fun _ => .bind_same (carries_token? rfl) fun t => ?_
  split
  · exact .pure rfl (by simp)
  · rename_i kind hkind
    obtain ⟨t, rfl, hkind'⟩ := Option.bind_eq_some_iff.1 hkind
    have hlevel := postfixKind?_level hkind'
    refine .bind_same (carries_currentText rfl) fun text => ?_
    refine .bind (carries_currentSpan rfl) fun place => ?_
    refine .bind_same (carries_advance rfl rfl hlevel.1) fun _ => ?_
    refine .node (postfixKind?_isAtom hkind').2 ?_ (by simp) ?_ rfl rfl
    · simp [R.tree_mk, Comparison.place]
    · simp [hlevel.2]
      omega

theorem carries_unary : CarriesTree R n n inner.unary inner'.unary := by
  intro c hc
  refine .bind_same (carries_token? hc) fun t => ?_
  split
  · exact carries_stepped h (c.seeing t) hc
  · rename_i kind hkind
    obtain ⟨t, rfl, hkind'⟩ := Option.bind_eq_some_iff.1 hkind
    obtain ⟨bound, hbound⟩ := h.within
    refine .bind (carries_currentSpan hc) fun place => ?_
    refine .bind_same (carries_currentText hc) fun text => ?_
    refine carries_operand_bind hc rfl (hbound ▸ .unary hkind' bound)
      (h.parse (n + 1) .unary _ rfl) (fun _ => Ledger.le_keeping) (fun v hv => h.barred hv)
      fun operand => ?_
    refine .node (unaryKind?_isAtom hkind').2 ?_ (by simp [Goal.after]) ?_ rfl rfl
    · simp [R.tree_mk, Comparison.place]
    · simp [Goal.after, unaryKind?_level hkind']
      omega

theorem carries_binaryStep (allowIn : Bool) (least : Nat) (left : ParseTree) :
    Carries R n (c.keeping n left) (inner.binaryStep allowIn least left)
      (inner'.binaryStep allowIn least (R.tree left))
      (fun next => c.keeping n (next.getD left)) (Option.map R.tree) := by
  refine .bind_same (carries_token? rfl) fun t => ?_
  split
  · exact .pure rfl (by simp)
  · rename_i kind precedence hop
    obtain ⟨t, rfl, hop'⟩ := Option.bind_eq_some_iff.1 hop
    obtain ⟨bound, hbound⟩ := h.within
    refine .ite (fun _ => .pure rfl (by simp)) fun _ => ?_
    refine .bind_same (carries_currentText rfl) fun text => ?_
    refine carries_operand_bind rfl rfl (hbound ▸ .binary hop' bound)
      (h.parse (n + 1) (.binary allowIn (precedence + 1)) _ rfl) (fun _ => Ledger.le_keeping)
      (fun v hv => h.barred hv) fun right => .pure ?_ ?_
    · simp [R.tree_mk, Comparison.place]
    · simp [Goal.after, atoms_of_not_isAtom (binaryOperator?_isAtom hop').2,
        binaryOperator?_level hop']
      omega

theorem carries_binary (allowIn : Bool) (least : Nat) :
    CarriesTree R n n (inner.binary allowIn least) (inner'.binary allowIn least) := by
  intro c hc
  refine .bind (carries_unary h c hc) fun first => ?_
  exact carries_extend (fun tree => carries_binaryStep h allowIn least tree) h.bound_le first

theorem carries_conditional (allowIn : Bool) :
    CarriesTree R n n (inner.conditional allowIn) (inner'.conditional allowIn) := by
  intro c hc
  refine .bind (carries_binary h allowIn 0 c hc) fun test => ?_
  refine carries_ifAccept rfl rfl ?_ (.pure rfl .refl)
  refine .bind (h.parse n (.assignment true) _ rfl) fun consequent => ?_
  refine .bind (carries_demand rfl) fun _ => ?_
  refine .bind (h.parse n (.assignment allowIn) _ rfl) fun alternate => ?_
  refine .node rfl ?_ (by simp [Goal.after]) ?_ rfl rfl
  · simp [R.tree_mk, Comparison.place]
  · simp [Goal.after, Kind.firstCost, Kind.restCost]
    omega

theorem carries_assigned (allowIn : Bool) :
    CarriesTree R n n (inner.assigned allowIn) (inner'.assigned allowIn) := by
  intro c hc
  refine .bind (carries_conditional h allowIn c hc) fun target => ?_
  refine .bind_same (carries_token? rfl) fun t => ?_
  split
  · exact .pure rfl (by simp)
  · rename_i kind hkind
    obtain ⟨t, rfl, hkind'⟩ := Option.bind_eq_some_iff.1 hkind
    have hlevel := assignmentKind?_level hkind'
    refine .bind_same (carries_currentText rfl) fun text => ?_
    refine .bind_same (carries_advance rfl rfl hlevel.1) fun _ => ?_
    refine .bind (h.parse n (.assignment allowIn) _ rfl) fun value => ?_
    refine .node (assignmentKind?_isAtom hkind').2 ?_ (by simp [Goal.after]) ?_ rfl rfl
    · simp [R.tree_mk, Comparison.place]
    · simp [Goal.after, hlevel.2]
      omega

theorem carries_assignment (allowIn : Bool) :
    CarriesTree R n (n + 1) (inner.assignment allowIn) (inner'.assignment allowIn) :=
  fun c hc => carries_guarded hc (carries_assigned h allowIn c hc) fun _ => Ledger.le_keeping

end Inner
end Ecma3.Grammar
