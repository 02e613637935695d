import Ecma3.Grammar.Program
import Ecma3.Proofs.Grammar.Simulation.Step

/-! The accounts of the productions of expressions. -/
namespace Ecma3.Grammar
open ParserM ParseTree

variable {R : Simulation} {bound : Nat} {inner inner' : Inner}
  {element element' : ParserM ParseTree} {c : Account} {kind : Kind} {text : String}
  {span span' : Span} {t t' : ParseTree} {children children' : List ParseTree}

/-- The parser accounts for a tree, wherever it begins after so many tokens. -/
def TracksTree (R : Simulation) (bound least : Nat) (p p' : ParserM ParseTree) : Prop :=
  ∀ c : Account, least ≤ c.passed → Tracks R bound c p p' (fun t => c.plus t.atoms 1) R.tree

/-- What comes after the atoms `kept` accounts for the tree with these and those of the parts that
it is given. -/
def TracksRest (R : Simulation) (bound : Nat) (c : Account) (kept : List ParseTree)
    (rest rest' : List ParseTree → ParserM ParseTree) : Prop :=
  ∀ (d : Account) parts parts', parts'.map R.tree = parts.map R.tree →
    d.atoms = c.atoms ++ (kept ++ parts.flatMap atoms) → c.passed < d.passed →
    Tracks R bound d (rest parts) (rest' parts') (fun t => c.plus t.atoms 1) R.tree

/-- The parsers for what stands inside account for their trees once a token is passed. -/
structure Inner.Tracked (R : Simulation) (bound : Nat) (inner inner' : Inner) : Prop where
  bound_le : bound ≤ inner.bound
  parse : ∀ goal, TracksTree R bound 1 (inner.parse goal) (inner'.parse goal)

theorem Simulation.tree_mk : R.tree ⟨kind, text, span, children⟩ =
    ⟨kind, text, R.span span, children.map R.tree⟩ := relocate_mk

theorem Simulation.tree_group : R.tree (group kind span children) =
    group kind (R.span span) (children.map R.tree) := relocate_mk

theorem Simulation.kind_of_tree (h : R.tree t' = R.tree t) : t'.kind = t.kind := by
  simpa [Simulation.tree] using congrArg ParseTree.kind h

theorem Simulation.span_of_tree (h : R.tree t' = R.tree t) : R.span t'.span = R.span t.span := by
  simpa [Simulation.tree, Simulation.span] using congrArg ParseTree.span h

theorem Simulation.start_of_tree (h : R.tree t' = R.tree t) :
    R.offset t'.span.start = R.offset t.span.start := by
  simpa [Simulation.span] using congrArg Span.start (R.span_of_tree h)

theorem Simulation.stop_of_tree (h : R.tree t' = R.tree t) :
    R.offset t'.span.stop = R.offset t.span.stop := by
  simpa [Simulation.span] using congrArg Span.stop (R.span_of_tree h)

theorem Simulation.tree_wrap (h : R.tree t' = R.tree t) :
    R.tree (.wrap kind t') = R.tree (.wrap kind t) := by
  rw [ParseTree.wrap, ParseTree.wrap, R.tree_group, R.tree_group, R.span_of_tree h,
    List.map_singleton, List.map_singleton, h]

theorem Simulation.span_eq : R.span span' = R.span span ↔
    R.offset span'.start = R.offset span.start ∧ R.offset span'.stop = R.offset span.stop := by
  simp [Simulation.span]

/-- A node accounts for what its children account for. -/
theorem Tracks.node {d : Account} (hkind : kind.isAtom = false) (hspan : R.span span' = R.span span)
    (hchildren : children'.map R.tree = children.map R.tree)
    (hatoms : d.atoms = c.atoms ++ children.flatMap atoms) (hpassed : c.passed < d.passed) :
    Tracks R bound d (Pure.pure ⟨kind, text, span, children⟩)
      (Pure.pure ⟨kind, text, span', children'⟩) (fun t => c.plus t.atoms 1) R.tree := by
  refine .pure ?_ ?_
  · rw [R.tree_mk, R.tree_mk, hspan, hchildren]
  · rw [atoms_of_not_isAtom hkind, Account.covers_plus]
    exact ⟨hatoms, hpassed⟩

theorem simpleKind?_isAtom {t : Token} (h : simpleKind? t = some kind) :
    kind.isAtom = true ∧ kind ≠ .regexLiteral := by
  unfold simpleKind? at h
  split at h <;> cases h <;> decide

theorem postfixKind?_isAtom {t : Token} (h : postfixKind? t = some kind) :
    t.isAtom = false ∧ kind.isAtom = false := by
  unfold postfixKind? at h
  split at h <;> cases h <;> decide

theorem unaryKind?_isAtom {t : Token} (h : unaryKind? t = some kind) :
    t.isAtom = false ∧ kind.isAtom = false := by
  unfold unaryKind? at h
  split at h <;> cases h <;> decide

theorem assignmentKind?_isAtom {t : Token} (h : assignmentKind? t = some kind) :
    t.isAtom = false ∧ kind.isAtom = false := by
  unfold assignmentKind? at h
  split at h <;> cases h <;> decide

theorem binaryKind?_isAtom {t : Token} (h : binaryKind? t = some kind) :
    t.isAtom = false ∧ kind.isAtom = false := by
  unfold binaryKind? at h
  split at h <;> cases h <;> decide

theorem binaryOperator?_isAtom {allowIn : Bool} {t : Token} {p : Nat}
    (h : binaryOperator? allowIn t = some (kind, p)) : t.isAtom = false ∧ kind.isAtom = false := by
  simp only [binaryOperator?, Option.bind_eq_bind, Option.bind_eq_some_iff,
    Option.ite_none_left_eq_some, Option.some.injEq, Prod.mk.injEq] at h
  obtain ⟨k, hk, _, _, _, rfl, _⟩ := h
  exact binaryKind?_isAtom hk

namespace Inner

theorem tracks_commaSeparated (hbound : bound ≤ inner.bound)
    (h : TracksTree R bound c.passed element element') :
    Tracks R bound c (inner.commaSeparated element) (inner'.commaSeparated element')
      (fun found => c.plus (found.1.atoms ++ found.2.flatMap atoms) 1)
      (Prod.map R.tree (List.map R.tree)) := by
  refine (h c (Nat.le_refl _)).bind fun first first' hfirst => ?_
  refine Tracks.bind (tracks_collect (fun d hd => ?_) (by omega)) fun others others' hothers => ?_
  · rw [Account.plus_passed] at hd
    refine tracks_ifAccept rfl ?_ (.pure rfl (by simp [Turn.atoms, Turn.cost]))
    have hd : c.passed ≤ (d.plus [] 1).passed := by simp; omega
    exact (h _ hd).bind fun t t' ht =>
      .pure (by simp [Turn.map, ht]) (by simp [Turn.atoms, Turn.cost])
  · exact .pure (by simp [hfirst, hothers]) (by simp)

theorem tracks_argumentList (hbound : bound ≤ inner.bound)
    (h : TracksTree R bound 1 element element') :
    TracksTree R bound 0 (inner.argumentList element) (inner'.argumentList element') := by
  intro c _
  refine (tracks_demand rfl).bind fun opening opening' hopening => ?_
  refine tracks_sees.bind_same fun seen => ?_
  extract_lets close close'
  have hclose : TracksRest R bound c [] close close' := by
    intro d elements elements' helements hatoms hpassed
    refine (tracks_demand rfl).bind fun _ _ _ => ?_
    refine (tracks_spanFrom (R.span_eq.1 hopening).1).bind fun span span' hspan => ?_
    exact .node rfl hspan helements (by simp [hatoms]) (by simp; omega)
  refine .ite Iff.rfl (fun hseen => ?_) fun hseen => ?_
  · exact hclose _ [] [] rfl (by simp [hseen]) (by simp [hseen])
  · simp only [hseen]
    refine (tracks_commaSeparated hbound fun d hd => h d ?_).bind fun found found' hfound => ?_
    · exact Nat.le_trans (Nat.le_add_left _ _) hd
    · obtain ⟨first, others⟩ := found
      obtain ⟨first', others'⟩ := found'
      simp only [Prod.map, Prod.mk.injEq] at hfound
      exact hclose _ _ _ (by simp [hfound]) (by simp) (by simp +arith)

theorem tracks_identifier : TracksTree R bound 0 identifier identifier := by
  intro c _
  exact tracks_ifSees (tracks_leaf rfl rfl (by decide)) tracks_unexpected

theorem tracks_expressionOf (hbound : bound ≤ inner.bound) {least : Nat}
    (h : TracksTree R bound least element element') :
    TracksTree R bound least (inner.expressionOf element) (inner'.expressionOf element') := by
  intro c hc
  refine (tracks_commaSeparated hbound fun d hd => h d (Nat.le_trans hc hd)).bind
    fun found found' hfound => ?_
  obtain ⟨first, others⟩ := found
  obtain ⟨first', others'⟩ := found'
  simp only [Prod.map, Prod.mk.injEq] at hfound
  have hempty : others'.isEmpty = others.isEmpty := by
    simpa using congrArg List.isEmpty hfound.2
  refine .ite (by rw [hempty]) (fun hothers => .pure hfound.1 ?_) fun _ => ?_
  · rw [List.isEmpty_iff] at hothers
    simp [hothers]
  · have hstart := R.start_of_tree hfound.1
    refine (tracks_spanFrom hstart).bind fun span span' hspan => ?_
    exact .node rfl hspan (by simp [hfound]) (by simp) (by simp)

theorem tracks_statements (hbound : bound ≤ inner.bound) (ends : Token → Bool)
    (h : TracksTree R bound c.passed (inner.parse .statement) (inner'.parse .statement)) :
    Tracks R bound c (inner.statements ends) (inner'.statements ends)
      (fun found => c.plus (found.flatMap atoms) 0) (List.map R.tree) := by
  refine tracks_collect (fun d hd => ?_) (by omega)
  refine tracks_token?.bind_same fun token => ?_
  split
  · exact .pure rfl (by simp [Turn.atoms, Turn.cost])
  · rename_i t
    refine .ite Iff.rfl (fun _ => .pure rfl (by simp [Turn.atoms, Turn.cost])) fun _ => ?_
    refine tracks_ifAccept rfl (.pure rfl (by simp [Turn.atoms, Turn.cost])) ?_
    refine (h (d.seeing (some t)) hd).bind fun t t' ht => .pure ?_ ?_
    · simp [Turn.map, ht]
    · simp [Turn.atoms, Turn.cost]

variable (h : Tracked R bound inner inner')
include h

theorem tracks_expression (allowIn : Bool) :
    TracksTree R bound 1 (inner.expression allowIn) (inner'.expression allowIn) :=
  tracks_expressionOf h.bound_le (h.parse (.assignment allowIn))

theorem tracks_block : TracksTree R bound 0 inner.block inner'.block := by
  intro c _
  refine (tracks_demand rfl).bind fun opening opening' hopening => ?_
  refine (tracks_statements h.bound_le _ fun d hd => h.parse _ d ?_).bind
    fun found found' hfound => ?_
  · exact Nat.le_trans (by simp) hd
  · refine (tracks_demand rfl).bind fun _ _ _ => ?_
    refine (tracks_spanFrom (R.span_eq.1 hopening).1).bind fun span span' hspan => ?_
    exact .node rfl hspan hfound (by simp) (by simp +arith)

theorem tracks_function (needsName : Bool) :
    TracksTree R bound 0 (inner.function needsName) (inner'.function needsName) := by
  intro c _
  refine (tracks_demand rfl).bind fun opening opening' hopening => ?_
  refine tracks_sees.bind_same fun seen => ?_
  extract_lets rest rest'
  have hrest : TracksRest R bound c [] rest rest' := by
    intro d name name' hname hatoms hpassed
    refine (tracks_argumentList h.bound_le (fun d _ => tracks_identifier d (Nat.zero_le _)) _
      (Nat.zero_le _)).bind fun parameters parameters' hparameters => ?_
    refine (tracks_block h _ (Nat.zero_le _)).bind fun body body' hbody => ?_
    refine (tracks_spanFrom (R.span_eq.1 hopening).1).bind fun span span' hspan => ?_
    exact .node rfl hspan (by simp [hname, hparameters, hbody]) (by simp [hatoms]) (by simp; omega)
  refine .ite Iff.rfl (fun hseen => ?_) fun hseen => ?_
  · rw [if_pos hseen]
    refine (tracks_leaf rfl rfl (by decide)).bind fun name name' hname => ?_
    exact hrest _ [name] [name'] (by simp [hname]) (by simp) (by simp +arith)
  · rw [if_neg hseen]
    refine .ite Iff.rfl (fun _ => tracks_unexpected_bind) fun _ => ?_
    exact hrest _ [] [] rfl (by simp) (by simp)

theorem tracks_arrayItem {d : Account} (hd : 1 ≤ d.passed) :
    Tracks R bound d inner.arrayItem inner'.arrayItem (fun found => d.plus found.atoms found.cost)
      (Turn.map R.tree) := by
  refine tracks_token?.bind_same fun t => ?_
  split
  · exact .pure rfl (by simp [Turn.atoms, Turn.cost])
  · refine tracks_currentSpan.bind fun place place' hplace => ?_
    have hstart := (R.span_eq.1 hplace).1
    refine (tracks_advance rfl rfl).bind_same fun _ => .pure ?_ ?_
    · simp [Turn.map, R.tree_group, Simulation.span, hstart]
    · have hatoms : (group .item ⟨place.start, place.start⟩ []).atoms = [] := atoms_group rfl
      simp [Turn.atoms, Turn.cost, hatoms]
  · refine (h.parse _ (d.seeing t) hd).bind fun value value' hvalue => ?_
    have hitem : R.tree (.wrap .item value') = R.tree (.wrap .item value) := R.tree_wrap hvalue
    have hatoms : (ParseTree.wrap .item value).atoms = value.atoms := atoms_wrap rfl
    refine tracks_ifAccept rfl (.pure (by simp [Turn.map, hitem]) ?_)
      (.pure (by simp [Turn.map, hitem]) ?_)
    · simp [Turn.atoms, Turn.cost, hatoms]
    · simp [Turn.atoms, Turn.cost, hatoms]

theorem tracks_array : TracksTree R bound 0 inner.array inner'.array := by
  intro c _
  refine (tracks_demand rfl).bind fun opening opening' hopening => ?_
  refine (tracks_collect (fun d hd => tracks_arrayItem h ?_) ?_).bind fun items items' hitems => ?_
  · exact Nat.le_trans (by simp) hd
  · exact Nat.le_trans h.bound_le (Nat.le_add_right _ _)
  · refine (tracks_demand rfl).bind fun closing closing' hclosing => ?_
    refine .node rfl ?_ hitems (by simp) (by simp +arith)
    exact R.span_eq.2 ⟨(R.span_eq.1 hopening).1, (R.span_eq.1 hclosing).2⟩

omit h in
theorem tracks_propertyName : TracksTree R bound 0 propertyName propertyName := by
  intro c _
  refine tracks_token?.bind_same fun t => ?_
  split
  · exact tracks_leaf rfl rfl (by decide)
  · exact tracks_leaf rfl rfl (by decide)
  · exact tracks_leaf rfl rfl (by decide)
  · exact .ite Iff.rfl (fun _ => tracks_leaf rfl rfl (by decide)) fun _ => tracks_unexpected
  · exact tracks_unexpected

theorem tracks_property (d : Account) :
    Tracks R bound d inner.property inner'.property (fun found => d.plus found.atoms found.cost)
      (Turn.map R.tree) := by
  refine tracks_ifSees (.pure rfl (by simp [Turn.atoms, Turn.cost])) ?_
  refine (tracks_propertyName d (Nat.zero_le _)).bind fun name name' hname => ?_
  refine (tracks_demand rfl).bind fun _ _ _ => ?_
  refine (h.parse _ _ (by simp +arith)).bind fun value value' hvalue => ?_
  extract_lets property property'
  have hproperty : R.tree property' = R.tree property := by
    have hstart := R.start_of_tree hname
    have hstop := R.stop_of_tree hvalue
    simp [property, property', R.tree_group, Simulation.span, hname, hvalue, hstart, hstop]
  have hatoms : property.atoms = name.atoms ++ value.atoms := (atoms_group rfl).trans (by simp)
  refine tracks_ifAccept rfl (.pure (by simp [Turn.map, hproperty]) ?_)
    (.pure (by simp [Turn.map, hproperty]) ?_)
  · simp +arith [Turn.atoms, Turn.cost, hatoms]
  · simp +arith [Turn.atoms, Turn.cost, hatoms]

theorem tracks_object : TracksTree R bound 0 inner.object inner'.object := by
  intro c _
  refine (tracks_demand rfl).bind fun opening opening' hopening => ?_
  refine (tracks_collect (fun d _ => tracks_property h d) ?_).bind fun found found' hfound => ?_
  · exact Nat.le_trans h.bound_le (Nat.le_add_right _ _)
  · refine (tracks_demand rfl).bind fun closing closing' hclosing => ?_
    refine .node rfl ?_ hfound (by simp) (by simp +arith)
    exact R.span_eq.2 ⟨(R.span_eq.1 hopening).1, (R.span_eq.1 hclosing).2⟩

theorem tracks_parenthesized : TracksTree R bound 0 inner.parenthesized inner'.parenthesized := by
  intro c _
  refine (tracks_demand rfl).bind fun opening opening' hopening => ?_
  refine (tracks_expression h true _ (by simp)).bind fun content content' hcontent => ?_
  refine (tracks_demand rfl).bind fun closing closing' hclosing => ?_
  refine .node rfl ?_ (by simp [hcontent]) (by simp) (by simp +arith)
  exact R.span_eq.2 ⟨(R.span_eq.1 hopening).1, (R.span_eq.1 hclosing).2⟩

theorem tracks_primary : TracksTree R bound 0 inner.primary inner'.primary := by
  intro c _
  refine tracks_token?.bind_same fun t => ?_
  split
  · exact tracks_unexpected
  · rename_i t
    split
    · rename_i kind hkind
      have hleaf := simpleKind?_isAtom hkind
      exact tracks_leaf rfl hleaf.1 hleaf.2
    · split
      · exact tracks_regexLiteral rfl rfl
      · exact tracks_regexLiteral rfl rfl
      · exact tracks_array h (c.seeing _) (Nat.zero_le _)
      · exact tracks_object h (c.seeing _) (Nat.zero_le _)
      · exact tracks_parenthesized h (c.seeing _) (Nat.zero_le _)
      · exact tracks_function h false (c.seeing _) (Nat.zero_le _)
      · exact tracks_unexpected

theorem tracks_memberBase : TracksTree R bound 0 inner.memberBase inner'.memberBase := by
  intro c _
  refine tracks_ifSees ?_ (tracks_primary h c (Nat.zero_le _))
  refine tracks_currentSpan.bind fun place place' hplace => ?_
  refine (tracks_advance rfl rfl).bind_same fun _ => tracks_enter.bind_same fun _ => ?_
  refine (h.parse _ _ (by simp)).thenLeaveIfOk.bind fun operand operand' hoperand => ?_
  refine .node rfl (R.span_eq.2 ⟨?_, ?_⟩) (by simp [hoperand]) (by simp) (by simp +arith)
  · exact (R.span_eq.1 hplace).1
  · exact R.stop_of_tree hoperand

omit h in
theorem tracks_memberName : TracksTree R bound 0 memberName memberName := by
  intro c _
  refine tracks_token?.bind_same fun t => ?_
  split
  · exact .ite Iff.rfl (fun _ => tracks_leaf rfl rfl (by decide)) fun _ => tracks_unexpected
  · exact tracks_unexpected

/-- A suffix takes a token and keeps the tree it is put after. -/
theorem tracks_suffix {object object' : ParseTree} (hobject : R.tree object' = R.tree object)
    (n : Nat) :
    Tracks R bound (c.plus object.atoms (n + 1)) (inner.suffix object) (inner'.suffix object')
      (c.extended object n) (Option.map R.tree) := by
  have hstart := R.start_of_tree hobject
  have hnode : ∀ {d : Account} {kind : Kind} {a a' : ParseTree} {stop stop' : Nat},
      kind.isAtom = false → R.tree a' = R.tree a → R.offset stop' = R.offset stop →
      d.atoms = c.atoms ++ (object.atoms ++ a.atoms) → c.passed + (n + 2) ≤ d.passed →
      Tracks R bound d (pure (some (group kind ⟨object.span.start, stop⟩ [object, a])))
        (pure (some (group kind ⟨object'.span.start, stop'⟩ [object', a'])))
        (c.extended object n) (Option.map R.tree) := by
    intro d kind a a' stop stop' hkind ha hstop hatoms hpassed
    refine .pure ?_ ?_
    · simp [R.tree_group, Simulation.span, hstart, hstop, hobject, ha]
    · simpa [atoms_group hkind, hatoms] using hpassed
  refine tracks_token?.bind_same fun t => ?_
  split
  · refine (tracks_advance rfl rfl).bind_same fun _ => ?_
    refine (tracks_memberName _ (Nat.zero_le _)).bind fun name name' hname => ?_
    exact hnode rfl hname (R.stop_of_tree hname) (by simp) (by simp +arith)
  · refine (tracks_advance rfl rfl).bind_same fun _ => ?_
    refine (tracks_expression h true _ (by simp +arith)).bind fun index index' hindex => ?_
    refine (tracks_demand rfl).bind fun closing closing' hclosing => ?_
    exact hnode rfl hindex (R.span_eq.1 hclosing).2 (by simp) (by simp +arith)
  · refine (tracks_argumentList h.bound_le (h.parse _) ((c.plus object.atoms (n + 1)).seeing _)
      (Nat.zero_le _)).bind fun arguments arguments' harguments => ?_
    exact hnode rfl harguments (R.stop_of_tree harguments) (by simp) (by simp +arith)
  · exact .pure rfl ⟨rfl, Nat.le_refl _, by simp [Account.plus]⟩

theorem tracks_leftHandSide : TracksTree R bound 0 inner.leftHandSide inner'.leftHandSide := by
  intro c _
  refine (tracks_memberBase h c (Nat.zero_le _)).bind fun base base' hbase => ?_
  refine tracks_extend (fun n tree tree' htree => tracks_suffix h htree n) hbase ?_
  exact Nat.le_trans h.bound_le (by omega)

theorem tracks_stepped : TracksTree R bound 0 inner.stepped inner'.stepped := by
  intro c _
  refine (tracks_leftHandSide h c (Nat.zero_le _)).bind fun operand operand' hoperand => ?_
  have hspan := R.span_eq.1 (R.span_of_tree hoperand)
  refine tracks_unlessBroken rfl rfl (fun t => ?_) (.pure hoperand (by simp))
  split
  · exact .pure hoperand (by simp)
  · rename_i kind hkind
    obtain ⟨t, rfl, hkind⟩ := Option.bind_eq_some_iff.1 hkind
    have hkind := postfixKind?_isAtom hkind
    refine tracks_currentText.bind_same fun text => ?_
    refine tracks_currentSpan.bind fun place place' hplace => ?_
    refine (tracks_advance rfl hkind.1).bind_same fun _ => ?_
    refine .node hkind.2 (R.span_eq.2 ⟨hspan.1, ?_⟩) (by simp [hoperand]) (by simp) (by simp +arith)
    exact (R.span_eq.1 hplace).2

theorem tracks_unary : TracksTree R bound 0 inner.unary inner'.unary := by
  intro c _
  refine tracks_token?.bind_same fun t => ?_
  split
  · exact tracks_stepped h (c.seeing t) (Nat.zero_le _)
  · rename_i kind hkind
    obtain ⟨t, rfl, hkind⟩ := Option.bind_eq_some_iff.1 hkind
    have hkind := unaryKind?_isAtom hkind
    refine tracks_currentSpan.bind fun place place' hplace => ?_
    refine tracks_currentText.bind_same fun text => ?_
    refine (tracks_advance rfl hkind.1).bind_same fun _ => tracks_enter.bind_same fun _ => ?_
    refine (h.parse _ _ (by simp)).thenLeaveIfOk.bind fun operand operand' hoperand => ?_
    refine .node hkind.2 (R.span_eq.2 ⟨?_, ?_⟩) (by simp [hoperand]) (by simp) (by simp +arith)
    · exact (R.span_eq.1 hplace).1
    · exact R.stop_of_tree hoperand

theorem tracks_binaryStep (allowIn : Bool) (least : Nat) {left left' : ParseTree}
    (hleft : R.tree left' = R.tree left) (n : Nat) :
    Tracks R bound (c.plus left.atoms (n + 1)) (inner.binaryStep allowIn least left)
      (inner'.binaryStep allowIn least left') (c.extended left n) (Option.map R.tree) := by
  have hstart := R.start_of_tree hleft
  refine tracks_token?.bind_same fun t => ?_
  split
  · exact .pure rfl ⟨rfl, Nat.le_refl _, by simp [Account.plus]⟩
  · rename_i kind precedence hop
    obtain ⟨t, rfl, hop⟩ := Option.bind_eq_some_iff.1 hop
    have hkind := binaryOperator?_isAtom hop
    refine .ite Iff.rfl (fun _ => ?_) fun _ => ?_
    · exact .pure rfl ⟨rfl, Nat.le_refl _, by simp [Account.plus]⟩
    · refine tracks_currentText.bind_same fun text => ?_
      refine (tracks_advance rfl hkind.1).bind_same fun _ => tracks_enter.bind_same fun _ => ?_
      refine (h.parse _ _ (by simp +arith)).thenLeaveIfOk.bind fun right right' hright => ?_
      have hstop := R.stop_of_tree hright
      refine .pure ?_ ?_
      · simp [R.tree_mk, Simulation.span, hstart, hstop, hleft, hright]
      · simp +arith [atoms_of_not_isAtom hkind.2]

theorem tracks_binary (allowIn : Bool) (least : Nat) :
    TracksTree R bound 0 (inner.binary allowIn least) (inner'.binary allowIn least) := by
  intro c _
  refine (tracks_unary h c (Nat.zero_le _)).bind fun first first' hfirst => ?_
  refine tracks_extend (fun n tree tree' htree => tracks_binaryStep h _ _ htree n) hfirst ?_
  exact Nat.le_trans h.bound_le (by omega)

theorem tracks_conditional (allowIn : Bool) :
    TracksTree R bound 0 (inner.conditional allowIn) (inner'.conditional allowIn) := by
  intro c _
  refine (tracks_binary h allowIn 0 c (Nat.zero_le _)).bind fun test test' htest => ?_
  refine tracks_ifAccept rfl ?_ (.pure htest (by simp))
  refine (h.parse _ _ (by simp +arith)).bind fun consequent consequent' hconsequent => ?_
  refine (tracks_demand rfl).bind fun _ _ _ => ?_
  refine (h.parse _ _ (by simp +arith)).bind fun alternate alternate' halternate => ?_
  refine .node rfl (R.span_eq.2 ⟨?_, ?_⟩) ?_ (by simp) (by simp +arith)
  · exact R.start_of_tree htest
  · exact R.stop_of_tree halternate
  · simp [htest, hconsequent, halternate]

theorem tracks_assigned (allowIn : Bool) :
    TracksTree R bound 0 (inner.assigned allowIn) (inner'.assigned allowIn) := by
  intro c _
  refine (tracks_conditional h allowIn c (Nat.zero_le _)).bind fun target target' htarget => ?_
  refine tracks_token?.bind_same fun t => ?_
  split
  · exact .pure htarget (by simp)
  · rename_i kind hkind
    obtain ⟨t, rfl, hkind⟩ := Option.bind_eq_some_iff.1 hkind
    have hkind := assignmentKind?_isAtom hkind
    refine tracks_currentText.bind_same fun text => ?_
    refine (tracks_advance rfl hkind.1).bind_same fun _ => ?_
    refine (h.parse _ _ (by simp +arith)).bind fun value value' hvalue => ?_
    refine .node hkind.2 (R.span_eq.2 ⟨?_, ?_⟩) (by simp [htarget, hvalue]) (by simp)
      (by simp +arith)
    · exact R.start_of_tree htarget
    · exact R.stop_of_tree hvalue

theorem tracks_assignment (allowIn : Bool) :
    TracksTree R bound 0 (inner.assignment allowIn) (inner'.assignment allowIn) := fun c _ =>
  tracks_enter.bind_same fun _ => (tracks_assigned h allowIn c (Nat.zero_le _)).thenLeave

end Inner
end Ecma3.Grammar
