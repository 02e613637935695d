import Ecma3.Proofs.Grammar.Places

/-! Where the productions of expressions place their trees. -/
namespace Ecma3.Grammar

open ParserM ParseTree
open Text (IsBoundary)

variable {source : List Char} {inner : Inner} {element : ParserM ParseTree} {s : Session}
  {token : Token} {m n : Nat}

/-- The parsers for what stands inside place it in what they pass. -/
def Inner.Placed (source : List Char) (inner : Inner) : Prop :=
  ∀ goal, Spans source (inner.parse goal) (Lies source)

namespace Inner

theorem spans_commaSeparated (h : Spans source element (Lies source)) :
    Spans source (inner.commaSeparated element) fun m found n =>
      Row source m (found.1 :: found.2) n := by
  intro s hs
  refine (h s hs).bind fun first t ⟨ht, hfirst⟩ => ?_
  refine (spans_collect ?_ _ t ht).bind fun others u ⟨hu, hothers⟩ => ⟨hu, .cons hfirst hothers⟩
  intro s hs
  refine (spans_accept _ s hs).bind fun found t ⟨ht, hle⟩ => ?_
  split
  · refine (h t ht).bind fun a u ⟨hu, ha⟩ => ⟨hu, ?_⟩
    exact Lies.mono ha hle (Nat.le_refl _)
  · exact ⟨ht, hle⟩

theorem spans_argumentList (h : Spans source element (Lies source)) :
    Spans source (inner.argumentList element) (Lies source) := by
  intro s hs
  refine (spans_demand _ _ s hs).bind fun place t ⟨ht, hplace⟩ => ?_
  rw [leads_bind, seesMark, leads_sees]
  extract_lets close
  have hclose : ∀ elements u, u.Sited source → Row source t.lastEnd elements u.lastEnd →
      Leads (close elements) u (fun tree v => v.Sited source ∧ tree.Lies source s.lastEnd v.lastEnd)
        fun e _ => e.Located source := fun elements u hu helements => by
    refine (spans_demand _ _ u hu).bind fun _ v ⟨hv, hright⟩ => ?_
    exact leads_closed hv hplace.first hplace.low (helements.mono hplace.start_le hright.le)
  split
  · exact hclose [] t ht (.nil (Nat.le_refl _))
  · exact (spans_commaSeparated h t ht).bind fun found u ⟨hu, hfound⟩ => hclose _ u hu hfound

theorem spans_identifier : Spans source identifier (Lies source) := by
  intro s hs
  rw [identifier, leads_bind, leads_sees]
  split
  · exact leads_leaf_sited hs (beq_iff_eq.1 ‹_›) _
  · exact hs.span.first

theorem spans_expressionOf (h : Spans source element (Lies source)) :
    Spans source (inner.expressionOf element) (Lies source) := by
  intro s hs
  refine (spans_commaSeparated h s hs).bind fun found t ⟨ht, hfound⟩ => ?_
  obtain ⟨first, others⟩ := found
  obtain - | ⟨hfirst, hothers⟩ := hfound
  dsimp only
  split
  · exact ⟨ht, hfirst.mono (Nat.le_refl _) hothers.le⟩
  · -- A list begins where its first expression does, not where the parser began.
    refine leads_closed ht hfirst.place.first hfirst.place.low (.cons ?_ hothers)
    exact hfirst.within (Nat.le_refl _) hfirst.place.high

/-- A name or a literal before a colon. -/
theorem spans_propertyName : Spans source propertyName (Lies source) := by
  intro s hs
  rw [propertyName, leads_bind, leads_token?]
  split
  · exact leads_leaf_sited hs ‹_› _
  · exact leads_leaf_sited hs ‹_› _
  · exact leads_leaf_sited hs ‹_› _
  · split
    · exact leads_leaf_sited hs ‹_› _
    · exact hs.span.first
  · exact hs.span.first

theorem spans_memberName : Spans source memberName (Lies source) := by
  intro s hs
  rw [memberName, leads_bind, leads_token?]
  split
  · split
    · exact leads_leaf_sited hs ‹_› _
    · exact hs.span.first
  · exact hs.span.first

/-- Trees between a bracket that opens and one that closes. -/
theorem leads_between {kind : Kind} {left right : Span} {children : List ParseTree} {k : Nat}
    {E : SyntaxError → Session → Prop} (hs : s.Sited source) (hleft : left.Lies source m k)
    (hrow : Row source k children n) (hright : right.Lies source n s.lastEnd) :
    Leads (pure (group kind ⟨left.start, right.stop⟩ children)) s
      (fun tree t => t.Sited source ∧ tree.Lies source m t.lastEnd) E :=
  ⟨hs, (hrow.mono hleft.start_le hright.le_stop).tree hleft.first hright.last hleft.low
    hright.high⟩

variable (h : inner.Placed source)
include h

theorem spans_expression (allowIn : Bool) : Spans source (inner.expression allowIn) (Lies source) :=
  spans_expressionOf (h _)

theorem spans_statements (ends : Token → Bool) :
    Spans source (inner.statements ends) (Row source) := by
  refine spans_collect (fun s hs => ?_) _
  rw [leads_bind, leads_token?]
  split
  · exact ⟨hs, Nat.le_refl _⟩
  · split
    · exact ⟨hs, Nat.le_refl _⟩
    · refine (spans_accept _ s hs).bind fun found t ⟨ht, hle⟩ => ?_
      split
      · exact ⟨ht, hle⟩
      · refine (h _ t ht).bind fun a u ⟨hu, ha⟩ => ⟨hu, ?_⟩
        exact Lies.mono ha hle (Nat.le_refl _)

theorem spans_block : Spans source inner.block (Lies source) := by
  intro s hs
  refine (spans_demand _ _ s hs).bind fun place t ⟨ht, hplace⟩ => ?_
  refine (spans_statements h _ t ht).bind fun body u ⟨hu, hbody⟩ => ?_
  refine (spans_demand _ _ u hu).bind fun right v ⟨hv, hright⟩ => ?_
  exact leads_closed hv hplace.first hplace.low (hbody.mono hplace.start_le hright.le)

theorem spans_function (needsName : Bool) :
    Spans source (inner.function needsName) (Lies source) := by
  intro s hs
  refine (spans_demand _ _ s hs).bind fun place t ⟨ht, hplace⟩ => ?_
  extract_lets start rest
  have hrest : ∀ name u, u.Sited source → Row source t.lastEnd name u.lastEnd →
      Leads (rest name) u (fun tree v => v.Sited source ∧ tree.Lies source s.lastEnd v.lastEnd)
        fun e _ => e.Located source := fun name u hu hname => by
    refine (spans_argumentList spans_identifier u hu).bind fun parameters v ⟨hv, hparameters⟩ => ?_
    refine (spans_block h v hv).bind fun body w ⟨hw, hbody⟩ => ?_
    refine leads_closed hw hplace.first hplace.low (Row.append ?_ (.cons hparameters (.one hbody)))
    exact hname.mono hplace.start_le (Nat.le_refl _)
  rw [leads_bind, leads_sees]
  split
  · refine (leads_leaf_sited ht (beq_iff_eq.1 ‹_›) _).bind fun name u ⟨hu, hname⟩ => ?_
    exact hrest [name] u hu (.one hname)
  · split
    · exact ht.span.first
    · exact hrest [] t ht (.nil (Nat.le_refl _))

/-- A comma that leaves an element out has its item before it. -/
theorem spans_arrayItem : Spans source inner.arrayItem (Turn.Lies source) := by
  intro s hs
  rw [arrayItem, leads_bind, leads_token?]
  split
  · exact ⟨hs, Nat.le_refl _⟩
  · rename_i ht
    rw [leads_bind, leads_currentSpan]
    refine (leads_advance_token hs ht).bind fun _ u ⟨hu, hplace⟩ => ⟨hu, ?_⟩
    exact Lies.leaf ((Span.Lies.empty hplace.first).mono hplace.low hplace.start_le)
  · refine (h _ s hs).bind fun e t ⟨ht, he⟩ => ?_
    refine (spans_accept _ t ht).bind fun found u ⟨hu, hle⟩ => ?_
    have hitem : Lies source s.lastEnd (.wrap .item e) u.lastEnd :=
      he.wrap.mono (Nat.le_refl _) hle
    split <;> exact ⟨hu, hitem⟩

theorem spans_array : Spans source inner.array (Lies source) := by
  intro s hs
  refine (spans_demand _ _ s hs).bind fun left t ⟨ht, hleft⟩ => ?_
  refine (spans_collect (spans_arrayItem h) _ t ht).bind fun items u ⟨hu, hitems⟩ => ?_
  refine (spans_demand _ _ u hu).bind fun right v ⟨hv, hright⟩ => ?_
  exact leads_between hv hleft hitems hright

theorem spans_property : Spans source inner.property (Turn.Lies source) := by
  intro s hs
  rw [property, leads_bind, seesMark, leads_sees]
  split
  · exact ⟨hs, Nat.le_refl _⟩
  · refine (spans_propertyName s hs).bind fun name t ⟨ht, hname⟩ => ?_
    refine (spans_demand _ _ t ht).bind fun _ u ⟨hu, hcolon⟩ => ?_
    refine (h _ u hu).bind fun value v ⟨hv, hvalue⟩ => ?_
    refine (spans_accept _ v hv).bind fun found w ⟨hw, hle⟩ => ?_
    have hpair : Lies source s.lastEnd ⟨.namedValue, Kind.namedValue.name,
        ⟨name.span.start, value.span.stop⟩, [name, value]⟩ w.lastEnd :=
      hname.pair (hvalue.mono hcolon.le hle)
    split <;> exact ⟨hw, hpair⟩

theorem spans_object : Spans source inner.object (Lies source) := by
  intro s hs
  refine (spans_demand _ _ s hs).bind fun left t ⟨ht, hleft⟩ => ?_
  refine (spans_collect (spans_property h) _ t ht).bind fun properties u ⟨hu, hproperties⟩ => ?_
  refine (spans_demand _ _ u hu).bind fun right v ⟨hv, hright⟩ => ?_
  exact leads_between hv hleft hproperties hright

theorem spans_parenthesized : Spans source inner.parenthesized (Lies source) := by
  intro s hs
  refine (spans_demand _ _ s hs).bind fun left t ⟨ht, hleft⟩ => ?_
  refine (spans_expression h _ t ht).bind fun content u ⟨hu, hcontent⟩ => ?_
  refine (spans_demand _ _ u hu).bind fun right v ⟨hv, hright⟩ => ?_
  exact leads_between hv hleft (.one hcontent) hright

theorem spans_primary : Spans source inner.primary (Lies source) := by
  intro s hs
  rw [primary, leads_bind, leads_token?]
  split
  · exact hs.span.first
  · rename_i ht
    split
    · exact leads_leaf_sited hs ht _
    · split
      · exact leads_regexLiteral_sited hs ht rfl
      · exact leads_regexLiteral_sited hs ht rfl
      · exact spans_array h s hs
      · exact spans_object h s hs
      · exact spans_parenthesized h s hs
      · exact spans_function h _ s hs
      · exact hs.span.first

/-- A tree from a token to the end of the operand behind it. -/
theorem leads_operator {goal : Goal} {kind : Kind} {text : String} (hs : s.Sited source)
    (ht : s.token? = some token) :
    Leads (do
        advance
        enter
        let operand ← thenLeaveIfOk (inner.parse goal)
        return ParseTree.mk kind text ⟨s.span.start, operand.span.stop⟩ [operand]) s
      (fun tree t => t.Sited source ∧ tree.Lies source s.lastEnd t.lastEnd)
      fun e _ => e.Located source := by
  refine (leads_advance_token hs ht).bind fun _ t ⟨ht, hplace⟩ => ?_
  refine (spans_enter t ht).bind fun _ u ⟨hu, hle⟩ => ?_
  refine ((h goal).thenLeaveIfOk u hu).bind fun operand v ⟨hv, hoperand⟩ => ⟨hv, ?_⟩
  have hrow := (Row.toStop hoperand).mono (Nat.le_trans hplace.start_le hle) (Nat.le_refl _)
  exact hrow.tree hplace.first hoperand.place.last hplace.low hoperand.place.high

theorem spans_memberBase : Spans source inner.memberBase (Lies source) := by
  intro s hs
  rw [memberBase, leads_bind, seesWord, leads_sees]
  split
  · exact leads_operator h hs (beq_iff_eq.1 ‹_›)
  · exact spans_primary h s hs

theorem leads_suffix {object : ParseTree} (hs : s.Sited source)
    (hobject : object.Lies source m s.lastEnd) :
    Leads (inner.suffix object) s
      (fun next t => t.Sited source ∧ (next.getD object).Lies source m t.lastEnd)
      fun e _ => e.Located source := by
  rw [suffix, leads_bind, leads_token?]
  split
  · refine (spans_advance s hs).bind fun _ t ⟨ht, hle⟩ => ?_
    refine (spans_memberName t ht).bind fun name u ⟨hu, hname⟩ => ⟨hu, ?_⟩
    exact (hobject.mono (Nat.le_refl _) hle).pair hname
  · refine (spans_advance s hs).bind fun _ t ⟨ht, hle⟩ => ?_
    refine (spans_expression h _ t ht).bind fun index u ⟨hu, hindex⟩ => ?_
    refine (spans_demand _ _ u hu).bind fun right v ⟨hv, hright⟩ => ⟨hv, ?_⟩
    have hrow := Row.fromStart (hobject.mono (Nat.le_refl _) hle) (.one hindex)
    exact (hrow.mono (Nat.le_refl _) hright.le_stop).tree hobject.place.first hright.last
      hobject.place.low hright.high
  · refine (spans_argumentList (h _) s hs).bind fun arguments t ⟨ht, harguments⟩ => ⟨ht, ?_⟩
    exact hobject.pair harguments
  · exact ⟨hs, hobject⟩

theorem spans_leftHandSide : Spans source inner.leftHandSide (Lies source) := by
  intro s hs
  refine (spans_memberBase h s hs).bind fun base t ⟨ht, hbase⟩ => ?_
  exact leads_extend_lies (fun tree u hu htree => leads_suffix h hu htree) ht hbase _

theorem spans_stepped : Spans source inner.stepped (Lies source) := by
  intro s hs
  refine (spans_leftHandSide h s hs).bind fun operand t ⟨ht, hoperand⟩ => ?_
  rw [leads_bind, leads_lineBreakBefore]
  split
  · exact ⟨ht, hoperand⟩
  · rw [leads_bind, leads_token?]
    split
    · exact ⟨ht, hoperand⟩
    · rename_i kind hkind
      obtain ⟨mark, hmark, -⟩ := Option.bind_eq_some_iff.1 hkind
      rw [leads_bind, leads_currentText, leads_bind, leads_currentSpan]
      refine (leads_advance_token ht hmark).bind fun _ u ⟨hu, hplace⟩ => ⟨hu, ?_⟩
      -- The mark is no tree of its own, but what is made reaches to its end.
      have hrow := Row.fromStart hoperand (.nil hplace.le_stop)
      exact hrow.tree hoperand.place.first hplace.last hoperand.place.low hplace.high

theorem spans_unary : Spans source inner.unary (Lies source) := by
  intro s hs
  rw [unary, leads_bind, leads_token?]
  split
  · exact spans_stepped h s hs
  · rename_i kind hkind
    obtain ⟨mark, hmark, -⟩ := Option.bind_eq_some_iff.1 hkind
    exact leads_operator h hs hmark

theorem leads_binaryStep_lies {allowIn : Bool} {least : Nat} {left : ParseTree}
    (hs : s.Sited source) (hleft : left.Lies source m s.lastEnd) :
    Leads (inner.binaryStep allowIn least left) s
      (fun next t => t.Sited source ∧ (next.getD left).Lies source m t.lastEnd)
      fun e _ => e.Located source := by
  rw [binaryStep, leads_bind, leads_token?]
  split
  · exact ⟨hs, hleft⟩
  · split
    · exact ⟨hs, hleft⟩
    · rw [leads_bind, leads_currentText]
      refine (spans_advance s hs).bind fun _ t ⟨ht, hpassed⟩ => ?_
      refine (spans_enter t ht).bind fun _ u ⟨hu, hentered⟩ => ?_
      refine ((h _).thenLeaveIfOk u hu).bind fun right v ⟨hv, hright⟩ => ⟨hv, ?_⟩
      exact (hleft.mono (Nat.le_refl _) (Nat.le_trans hpassed hentered)).pair hright

theorem spans_binary (allowIn : Bool) (least : Nat) :
    Spans source (inner.binary allowIn least) (Lies source) := by
  intro s hs
  refine (spans_unary h s hs).bind fun first t ⟨ht, hfirst⟩ => ?_
  exact leads_extend_lies (fun tree u hu htree => leads_binaryStep_lies h hu htree) ht hfirst _

theorem spans_conditional (allowIn : Bool) :
    Spans source (inner.conditional allowIn) (Lies source) := by
  intro s hs
  refine (spans_binary h allowIn 0 s hs).bind fun test t ⟨ht, htest⟩ => ?_
  refine (spans_accept _ t ht).bind fun found u ⟨hu, hle⟩ => ?_
  split
  · refine (h _ u hu).bind fun consequent v ⟨hv, hconsequent⟩ => ?_
    refine (spans_demand _ _ v hv).bind fun _ w ⟨hw, hcolon⟩ => ?_
    refine (h _ w hw).bind fun alternate x ⟨hx, halternate⟩ => ⟨hx, ?_⟩
    have hrow := Row.fromStart (htest.mono (Nat.le_refl _) hle)
      (.cons (hconsequent.mono (Nat.le_refl _) hcolon.le) (.toStop halternate))
    exact hrow.tree htest.place.first halternate.place.last htest.place.low halternate.place.high
  · exact ⟨hu, htest.mono (Nat.le_refl _) hle⟩

theorem spans_assigned (allowIn : Bool) : Spans source (inner.assigned allowIn) (Lies source) := by
  intro s hs
  refine (spans_conditional h allowIn s hs).bind fun target t ⟨ht, htarget⟩ => ?_
  rw [leads_bind, leads_token?]
  split
  · exact ⟨ht, htarget⟩
  · rw [leads_bind, leads_currentText]
    refine (spans_advance t ht).bind fun _ u ⟨hu, hle⟩ => ?_
    refine (h _ u hu).bind fun value v ⟨hv, hvalue⟩ => ⟨hv, ?_⟩
    exact (htarget.mono (Nat.le_refl _) hle).pair hvalue

theorem spans_assignment (allowIn : Bool) :
    Spans source (inner.assignment allowIn) (Lies source) :=
  (spans_assigned h allowIn).thenLeave.entered fun _ _ _ _ hle ht =>
    Lies.mono ht hle (Nat.le_refl _)

end Inner
end Ecma3.Grammar
