import Ecma3.Grammar.Program
import Ecma3.Proofs.Grammar.Leaf
import Ecma3.Proofs.ParseTree.Chain

/-! The trees that the productions of expressions give. -/
namespace Ecma3.Grammar
open ParserM ParseTree

variable {inner : Inner} {element : ParserM ParseTree} {P : ParseTree → Prop} {kind : Kind}
  {text : String} {span : Span} {t a b : ParseTree} {n : Nat}

/-- What a production for the goal may give. -/
def Goal.Admits : Goal → ParseTree → Prop
  | .statement, t => t.WellFormed ∧ t.IsStatement
  | .assignment _, t => t.Operand 1
  | .binary _ least, t => t.Operand 3 ∧ t.Operand (min (least + 2) 13)
  | .unary, t => t.Operand 13
  | .memberBase, t => t.Operand 16

/-- The current token is no binary operator that binds at least this tightly. -/
def Session.Stops (allowIn : Bool) (least : Nat) (s : Session) : Prop :=
  ∀ kind p, s.token?.bind (binaryOperator? allowIn) = some (kind, p) → p < least

/-- The parsers for what stands inside give what they should, and leave no operator to the operand
before it that could still take it. -/
structure Inner.Sound (inner : Inner) : Prop where
  gives : ∀ goal, Gives (inner.parse goal) goal.Admits
  stops : ∀ allowIn least s, Leads (inner.parse (.binary allowIn least)) s
    (fun _ t => t.Stops allowIn least) fun _ _ => True

theorem unary_wellFormed (h : Shape ⟨kind, text, span, [a]⟩) (ha : a.WellFormed) :
    WellFormed ⟨kind, text, span, [a]⟩ := .intro h (by simpa using ha)

theorem binary_wellFormed (h : Shape ⟨kind, text, span, [a, b]⟩) (ha : a.WellFormed)
    (hb : b.WellFormed) : WellFormed ⟨kind, text, span, [a, b]⟩ := .intro h (by simp [ha, hb])

theorem postfixKind?_operand {t : Token} (h : postfixKind? t = some kind) (ha : a.Operand 15) :
    Operand 14 ⟨kind, text, span, [a]⟩ := by
  unfold postfixKind? at h
  split at h <;> cases h <;>
    exact ⟨unary_wellFormed ⟨a, rfl, ha.2⟩ ha.1, 14, rfl, Nat.le_refl _⟩

theorem unaryKind?_operand {t : Token} (h : unaryKind? t = some kind) (ha : a.Operand 13) :
    Operand 13 ⟨kind, text, span, [a]⟩ := by
  unfold unaryKind? at h
  split at h <;> cases h <;>
    exact ⟨unary_wellFormed ⟨a, rfl, ha.2⟩ ha.1, 13, rfl, Nat.le_refl _⟩

theorem assignmentKind?_operand {t : Token} (h : assignmentKind? t = some kind) (ha : a.Operand 2)
    (hb : b.Operand 1) : Operand 1 ⟨kind, text, span, [a, b]⟩ := by
  unfold assignmentKind? at h
  split at h <;> cases h <;>
    exact ⟨binary_wellFormed ⟨a, b, rfl, ha.2, hb.2⟩ ha.1 hb.1, 1, rfl, Nat.le_refl _⟩

theorem precedence?_wellFormed {p : Nat} (h : precedence? kind = some p) (ha : a.Operand (p + 2))
    (hb : b.Operand (p + 3)) : WellFormed ⟨kind, text, span, [a, b]⟩ := by
  refine binary_wellFormed ?_ ha.1 hb.1
  unfold precedence? at h
  split at h <;> cases h <;> exact ⟨_, rfl, a, b, rfl, ha.2, hb.2⟩

namespace Inner

theorem gives_commaSeparated (h : Gives element P) :
    Gives (inner.commaSeparated element) fun found => P found.1 ∧ ∀ c ∈ found.2, P c := by
  refine h.bind fun first hfirst => ?_
  refine Gives.bind (gives_collect (Q := P) ?_ _) fun others hothers => ?_
  · refine (gives_accept _).bind fun _ _ => .ite (fun _ => ?_) fun _ => ?_
    · exact h.bind fun a ha => .pure ha
    · exact .pure trivial
  · exact .pure ⟨hfirst, hothers⟩

theorem gives_argumentList (h : Gives element P) :
    Gives (inner.argumentList element) fun t =>
      ∃ span elements, t = group .arguments span elements ∧ ∀ c ∈ elements, P c := by
  refine (gives_demand _ _).bind fun _ _ => ?_
  refine (gives_sees _).bind fun _ _ => ?_
  extract_lets close
  have hclose : ∀ elements : List ParseTree, (∀ c ∈ elements, P c) → Gives (close elements)
      fun t => ∃ span elements, t = group .arguments span elements ∧ ∀ c ∈ elements, P c := by
    intro elements helements
    refine (gives_demand _ _).bind fun _ _ => ?_
    exact (gives_spanFrom _).bind fun span _ => .pure ⟨span, elements, rfl, helements⟩
  refine .ite (fun _ => hclose [] (by simp)) fun _ => ?_
  exact (gives_commaSeparated h).bind fun found hfound =>
    hclose (found.1 :: found.2) (List.forall_mem_cons.2 hfound)

theorem gives_identifier : Gives identifier (Has .identifier) := by
  refine (gives_sees _).bind fun _ _ => .ite (fun _ => ?_) fun _ => ?_
  · exact gives_name
  · exact .unexpected

theorem gives_expressionOf (h : Gives element (Operand 1)) :
    Gives (inner.expressionOf element) (Operand 0) := by
  refine (gives_commaSeparated h).bind fun found hfound => ?_
  obtain ⟨first, others⟩ := found
  refine .ite (fun _ => .pure (hfound.1.mono (Nat.zero_le _))) fun hothers => ?_
  refine (gives_spanFrom _).bind fun _ _ => .pure ⟨.intro ?_ ?_, 0, rfl, Nat.le_refl _⟩
  · refine ⟨?_, List.forall_mem_cons.2 ⟨hfound.1.2, fun c hc => (hfound.2 c hc).2⟩⟩
    cases others with
    | nil => simp at hothers
    | cons => exact Nat.le_add_left _ _
  · exact List.forall_mem_cons.2 ⟨hfound.1.1, fun c hc => (hfound.2 c hc).1⟩

theorem gives_decimal :
    Gives (leaf .decimalLiteral) (Has .decimalLiteral) := gives_leaf fun _ _ => rfl

theorem gives_hex : Gives (leaf .hexLiteral) (Has .hexLiteral) := gives_leaf fun _ _ => rfl

theorem gives_propertyName : Gives propertyName fun t => t.WellFormed ∧ t.IsPropertyName := by
  intro s hs
  simp only [propertyName, leads_bind, leads_token?]
  split
  · rename_i ht
    exact (leads_string hs ht).imp fun t u h => ⟨⟨h.1.1, Or.inr (Or.inl h.1.2)⟩, h.2⟩
  · refine (gives_decimal s hs).imp fun t u h => ?_
    exact ⟨⟨h.1.1, Or.inr (Or.inr (Or.inl h.1.2))⟩, h.2⟩
  · refine (gives_hex s hs).imp fun t u h => ?_
    exact ⟨⟨h.1.1, Or.inr (Or.inr (Or.inr h.1.2))⟩, h.2⟩
  · split
    · exact (gives_name s hs).imp fun t u h => ⟨⟨h.1.1, Or.inl h.1.2⟩, h.2⟩
    · trivial
  · trivial

theorem leads_binary_stops (allowIn : Bool) (least : Nat) (s : Session) :
    Leads (inner.binary allowIn least) s (fun _ t => t.Stops allowIn least) fun _ _ => True := by
  simp only [binary, leads_bind]
  refine leads_true.imp fun first t _ => ?_
  refine leads_extend (I := fun _ _ => True) (fun tree u _ => ?_) (fun _ => trivial) trivial
  simp only [binaryStep, leads_bind, leads_token?]
  split
  · rename_i hnone
    intro kind p hop
    simp [hnone] at hop
  · rename_i kind p hop
    split
    · intro kind' p' hop'
      cases hop.symm.trans hop'
      assumption
    · simp only [leads_bind]
      exact leads_true.imp fun _ _ _ => leads_true.imp fun _ _ _ => leads_true.imp fun _ _ _ =>
        leads_true.imp fun _ _ _ => trivial

theorem gives_memberName : Gives memberName (Has .identifier) := by
  refine gives_token?.bind fun t _ => ?_
  split
  · exact .ite (fun _ => gives_name) fun _ => .unexpected
  · exact .unexpected

variable (h : inner.Sound)
include h

theorem gives_expression (allowIn : Bool) : Gives (inner.expression allowIn) (Operand 0) :=
  gives_expressionOf (h.gives (.assignment allowIn))

theorem gives_arrayItem : Gives inner.arrayItem (Turn.Has (Has .item)) := by
  refine gives_token?.bind fun t _ => ?_
  split
  · exact .pure trivial
  · refine gives_currentSpan.bind fun _ _ => ?_
    exact gives_advance.bind fun _ _ => .pure ⟨.intro (Or.inl rfl) (by simp [group]), rfl⟩
  · refine (h.gives (.assignment true)).bind fun e he => ?_
    have hitem : Has .item (wrap .item e) :=
      ⟨unary_wellFormed (Or.inr ⟨e, rfl, he.2⟩) he.1, rfl⟩
    exact (gives_accept _).bind fun _ _ => .ite (fun _ => .pure hitem) fun _ => .pure hitem

theorem gives_array : Gives inner.array (Operand 17) := by
  refine (gives_demand _ _).bind fun _ _ => ?_
  refine (gives_collect (gives_arrayItem h) _).bind fun items hitems => ?_
  refine (gives_demand _ _).bind fun _ _ => .pure ⟨.intro ?_ ?_, 17, rfl, Nat.le_refl _⟩
  · exact fun c hc => (hitems c hc).2
  · exact fun c hc => (hitems c hc).1

theorem gives_property : Gives inner.property (Turn.Has (Has .namedValue)) := by
  refine (gives_sees _).bind fun _ _ => .ite (fun _ => .pure trivial) fun _ => ?_
  refine gives_propertyName.bind fun name hname => ?_
  refine (gives_demand _ _).bind fun _ _ => ?_
  refine (h.gives (.assignment true)).bind fun value hvalue => ?_
  have hproperty : ∀ span, Has .namedValue (group .namedValue span [name, value]) := fun span =>
    ⟨binary_wellFormed ⟨name, value, rfl, hname.2, hvalue.2⟩ hname.1 hvalue.1, rfl⟩
  exact (gives_accept _).bind fun _ _ => .ite (fun _ => .pure (hproperty _)) fun _ =>
    .pure (hproperty _)

theorem gives_object : Gives inner.object (Operand 17) := by
  refine (gives_demand _ _).bind fun _ _ => ?_
  refine (gives_collect (gives_property h) _).bind fun properties hall => ?_
  refine (gives_demand _ _).bind fun _ _ => .pure ⟨.intro ?_ ?_, 17, rfl, Nat.le_refl _⟩
  · exact fun c hc => (hall c hc).2
  · exact fun c hc => (hall c hc).1

theorem gives_parenthesized : Gives inner.parenthesized (Operand 17) := by
  refine (gives_demand _ _).bind fun _ _ => ?_
  refine (gives_expression h true).bind fun content hcontent => ?_
  refine (gives_demand _ _).bind fun _ _ => .pure ⟨?_, 17, rfl, Nat.le_refl _⟩
  exact unary_wellFormed ⟨content, rfl, hcontent.2⟩ hcontent.1

theorem gives_statements (ends : Token → Bool) :
    Gives (inner.statements ends) fun found => ∀ c ∈ found, c.WellFormed ∧ c.IsStatement := by
  refine gives_collect (gives_token?.bind fun t _ => ?_) _
  split
  · exact .pure trivial
  · refine .ite (fun _ => .pure trivial) fun _ => (gives_accept _).bind fun _ _ => ?_
    exact .ite (fun _ => .pure trivial) fun _ => (h.gives .statement).bind fun c hc => .pure hc

theorem gives_block : Gives inner.block (Has .block) := by
  refine (gives_demand _ _).bind fun _ _ => ?_
  refine (gives_statements h _).bind fun found hfound => ?_
  refine (gives_demand _ _).bind fun _ _ => ?_
  refine (gives_spanFrom _).bind fun _ _ => .pure ⟨.intro ?_ ?_, rfl⟩
  · exact fun c hc => (hfound c hc).2
  · exact fun c hc => (hfound c hc).1

theorem gives_function (needsName : Bool) : Gives (inner.function needsName) (Has .function) := by
  refine (gives_demand _ _).bind fun _ _ => ?_
  refine (gives_sees _).bind fun _ _ => ?_
  extract_lets rest
  have hrest : ∀ name : List ParseTree, name.length ≤ 1 → (∀ c ∈ name, Has .identifier c) →
      Gives (rest name) (Has .function) := by
    intro name hlength hname
    refine (gives_argumentList gives_identifier).bind fun parameters hparameters => ?_
    obtain ⟨place, elements, rfl, hparameters⟩ := hparameters
    refine (gives_block h).bind fun body hbody => ?_
    refine (gives_spanFrom _).bind fun _ _ => .pure ⟨.intro ?_ ?_, rfl⟩
    · exact ⟨name, _, body, rfl, hlength, fun c hc => (hname c hc).2, rfl,
        fun c hc => (hparameters c hc).2, hbody.2⟩
    · have hwell : (group .arguments place elements).WellFormed := by
        refine .intro (fun c hc => ?_) fun c hc => (hparameters c hc).1
        exact ⟨17, by rw [(hparameters c hc).2]; rfl, by omega⟩
      simp only [List.forall_mem_append, List.forall_mem_cons, List.not_mem_nil, false_implies,
        implies_true, and_true]
      exact ⟨fun c hc => (hname c hc).1, hwell, hbody.1⟩
  refine .ite (fun _ => ?_) fun _ => .ite (fun _ => ?_) fun _ => ?_
  · exact gives_name.bind fun name hname => hrest [name] (Nat.le_refl _) (by simpa using hname)
  · exact .unexpected_bind
  · exact hrest [] (Nat.zero_le _) (by simp)

theorem gives_primary : Gives inner.primary (Operand 17) := by
  intro s hs
  simp only [primary, leads_bind, leads_token?]
  split
  · trivial
  · rename_i t ht
    split
    · rename_i kind hkind
      exact leads_simple hs ht hkind
    · split
      · exact leads_regexLiteral hs ht rfl
      · exact leads_regexLiteral hs ht rfl
      · exact gives_array h s hs
      · exact gives_object h s hs
      · exact gives_parenthesized h s hs
      · refine (gives_function h false s hs).imp fun t u ht =>
          ⟨⟨ht.1.1, 17, ?_, Nat.le_refl _⟩, ht.2⟩
        rw [ht.1.2]
        rfl
      · trivial

theorem gives_memberBase : Gives inner.memberBase (Operand 16) := by
  refine (gives_sees _).bind fun _ _ => .ite (fun _ => ?_) fun _ => ?_
  · refine gives_currentSpan.bind fun _ _ => ?_
    refine gives_advance.bind fun _ _ => ?_
    refine gives_enter.bind fun _ _ => ?_
    refine (h.gives .memberBase).thenLeaveIfOk.bind fun operand hoperand =>
      .pure ⟨?_, 16, rfl, Nat.le_refl _⟩
    exact unary_wellFormed ⟨operand, rfl, hoperand.2⟩ hoperand.1
  · exact (gives_primary h).mono fun t ht => ht.mono (by omega)

theorem gives_suffix (object : ParseTree) (hobject : object.Operand 15) :
    Gives (inner.suffix object) fun next =>
      ∀ t ∈ next, t.Operand 15 ∧ ∃ suffix, t = suffixed object suffix := by
  refine gives_token?.bind fun t _ => ?_
  split
  · refine gives_advance.bind fun _ _ => ?_
    refine gives_memberName.bind fun name hname => .pure ?_
    rintro t ⟨⟩
    refine ⟨⟨binary_wellFormed ⟨_, _, rfl, hobject.2, hname.2⟩ hobject.1 hname.1, 15, rfl,
      Nat.le_refl _⟩, .field name.text name.span ⟨object.span.start, name.span.stop⟩, ?_⟩
    rw [suffixed, ← hname.eq_leaf]
  · refine gives_advance.bind fun _ _ => ?_
    refine (gives_expression h true).bind fun index hindex => ?_
    refine (gives_demand _ _).bind fun _ _ => .pure ?_
    rintro t ⟨⟩
    exact ⟨⟨binary_wellFormed ⟨_, _, rfl, hobject.2, hindex.2⟩ hobject.1 hindex.1, 15, rfl,
      Nat.le_refl _⟩, .index index _, rfl⟩
  · refine (gives_argumentList (h.gives (.assignment true))).bind fun arguments harguments =>
      .pure ?_
    obtain ⟨place, elements, rfl, helements⟩ := harguments
    rintro t ⟨⟩
    have hwell : (group .arguments place elements).WellFormed :=
      .intro (fun c hc => (helements c hc).2) fun c hc => (helements c hc).1
    exact ⟨⟨binary_wellFormed ⟨_, _, rfl, hobject.2, rfl⟩ hobject.1 hwell, 15, rfl, Nat.le_refl _⟩,
      .call elements place _, rfl⟩
  · exact .pure (by simp)

theorem gives_leftHandSide : Gives inner.leftHandSide (Operand 15) := by
  refine (gives_memberBase h).bind fun base hbase => ?_
  refine gives_extend (fun tree htree => ?_) _ base (hbase.mono (by omega))
  exact (gives_suffix h tree htree).mono fun _ hnext t ht => (hnext t ht).1

theorem gives_stepped : Gives inner.stepped (Operand 14) := by
  refine (gives_leftHandSide h).bind fun operand hoperand => ?_
  refine gives_lineBreakBefore.bind fun _ _ => ?_
  have hplain := hoperand.mono (show 14 ≤ 15 by omega)
  refine .ite (fun _ => .pure hplain) fun _ => gives_token?.bind fun t _ => ?_
  split
  · exact .pure hplain
  · rename_i kind hkind
    obtain ⟨t, -, hkind⟩ := Option.bind_eq_some_iff.1 hkind
    refine gives_currentText.bind fun _ _ => ?_
    refine gives_currentSpan.bind fun _ _ => ?_
    exact gives_advance.bind fun _ _ => .pure (postfixKind?_operand hkind hoperand)

theorem gives_unary : Gives inner.unary (Operand 13) := by
  refine gives_token?.bind fun t _ => ?_
  split
  · exact (gives_stepped h).mono fun t ht => ht.mono (by omega)
  · rename_i kind hkind
    obtain ⟨t, -, hkind⟩ := Option.bind_eq_some_iff.1 hkind
    refine gives_currentSpan.bind fun _ _ => ?_
    refine gives_currentText.bind fun _ _ => ?_
    refine gives_advance.bind fun _ _ => ?_
    refine gives_enter.bind fun _ _ => ?_
    exact (h.gives .unary).thenLeaveIfOk.bind fun operand hoperand =>
      .pure (unaryKind?_operand hkind hoperand)

/-- Before a binary operator that comes next, the tree can stand as its left operand. -/
def Leans (allowIn : Bool) (least : Nat) (t : ParseTree) (s : Session) : Prop :=
  s.Coherent ∧ t.WellFormed ∧ ∃ n, t.kind.strength? = some n ∧ 3 ≤ n ∧ min (least + 2) 13 ≤ n ∧
    s.Stops allowIn (n - 1)

theorem leads_binaryStep {allowIn : Bool} {least : Nat} {left : ParseTree} {s : Session}
    (hleft : Leans allowIn least left s) :
    Leads (inner.binaryStep allowIn least left) s (fun next t => match next with
      | none => Leans allowIn least left t
      | some tree => Leans allowIn least tree t) fun _ _ => True := by
  obtain ⟨hs, hwell, n, hn, hthree, hleast, hstops⟩ := hleft
  simp only [binaryStep, leads_bind, leads_token?]
  split
  · exact ⟨hs, hwell, n, hn, hthree, hleast, hstops⟩
  · rename_i kind p hop
    split
    · exact ⟨hs, hwell, n, hn, hthree, hleast, hstops⟩
    · have hp : precedence? kind = some p := by
        obtain ⟨t, -, ht⟩ := Option.bind_eq_some_iff.1 hop
        exact binaryOperator?_precedence ht
      have hrange := precedence?_range hp
      have hlt := hstops kind p hop
      simp only [leads_bind, leads_currentText]
      refine (gives_advance s hs).imp fun _ t ht => (gives_enter t ht.2).imp fun _ u hu => ?_
      rw [leads_thenLeaveIfOk]
      have hright := (h.gives (.binary allowIn (p + 1)) u hu.2).and (h.stops allowIn (p + 1) u)
      refine hright.imp fun right v hv => ?_
      have hbinds : right.Operand (p + 3) := hv.1.1.2.mono (by omega)
      exact ⟨hv.1.2.withDepth _,
        precedence?_wellFormed hp ⟨hwell, n, hn, by omega⟩ hbinds, p + 2, precedence?_strength hp,
        by omega, by omega, hv.2⟩

theorem gives_binary (allowIn : Bool) (least : Nat) :
    Gives (inner.binary allowIn least) fun t => t.Operand 3 ∧ t.Operand (min (least + 2) 13) := by
  intro s hs
  simp only [binary, leads_bind]
  refine (gives_unary h s hs).imp fun first t hfirst => ?_
  obtain ⟨⟨hwell, n, hn, hle⟩, ht⟩ := hfirst
  have hleans : Leans allowIn least first t := by
    refine ⟨ht, hwell, n, hn, by omega, by omega, fun kind p hop => ?_⟩
    obtain ⟨u, -, hu⟩ := Option.bind_eq_some_iff.1 hop
    have := binaryOperator?_range hu
    omega
  refine (leads_extend (fun tree u => leads_binaryStep h) (fun _ => trivial) hleans).imp ?_
  rintro tree u ⟨hu, hwell, n, hn, hthree, hleast, -⟩
  exact ⟨⟨⟨hwell, n, hn, hthree⟩, hwell, n, hn, hleast⟩, hu⟩

theorem gives_conditional (allowIn : Bool) : Gives (inner.conditional allowIn) (Operand 2) := by
  refine (gives_binary h allowIn 0).bind fun test htest => ?_
  refine (gives_accept _).bind fun _ _ => ?_
  refine .ite (fun _ => ?_) fun _ => .pure (htest.1.mono (by omega))
  refine (h.gives (.assignment true)).bind fun consequent hconsequent => ?_
  refine (gives_demand _ _).bind fun _ _ => ?_
  refine (h.gives (.assignment allowIn)).bind fun alternate halternate => ?_
  refine .pure ⟨.intro ⟨test, consequent, alternate, rfl, htest.1.2, hconsequent.2, halternate.2⟩
    ?_, 2, rfl, Nat.le_refl _⟩
  simp only [List.forall_mem_cons, List.not_mem_nil, false_implies, implies_true, and_true]
  exact ⟨htest.1.1, hconsequent.1, halternate.1⟩

theorem gives_assigned (allowIn : Bool) : Gives (inner.assigned allowIn) (Operand 1) := by
  refine (gives_conditional h allowIn).bind fun target htarget => ?_
  refine gives_token?.bind fun t _ => ?_
  split
  · exact .pure (htarget.mono (by omega))
  · rename_i kind hkind
    obtain ⟨t, -, hkind⟩ := Option.bind_eq_some_iff.1 hkind
    refine gives_currentText.bind fun _ _ => ?_
    refine gives_advance.bind fun _ _ => ?_
    exact (h.gives (.assignment allowIn)).bind fun value hvalue =>
      .pure (assignmentKind?_operand hkind htarget hvalue)

theorem gives_assignment (allowIn : Bool) : Gives (inner.assignment allowIn) (Operand 1) := by
  refine gives_enter.bind fun _ _ => ?_
  exact (gives_assigned h allowIn).thenLeave

end Inner
end Ecma3.Grammar
