import Ecma3.Proofs.Grammar.Spacing

/-! Expressions begin with the current lexeme and end with the last one that they pass. -/
namespace Ecma3.Grammar

open ParserM ParseTree
open Text (byteLength isLineTerminator IsSlice)

variable {source : List Char} {inner : Inner} {element : ParserM ParseTree} {s t : Session}
  {token : Token} {kind : Kind} {object : ParseTree} {p : Nat}

/-- What a goal gives: expressions reach to the end of what is passed, and statements are ended. -/
def Goal.Traced (source : List Char) : Goal → Session → ParseTree → Session → Prop
  | .statement => Rests source
  | _ => Fills source

/-- The parsers for what stands inside put it behind the gap that they begin with. -/
structure Inner.Traced (source : List Char) (inner : Inner) : Prop where
  clear : inner.Clear
  traces : ∀ goal, Traces source (inner.parse goal) (goal.Traced source)

theorem simpleKind?_isQuiet (h : simpleKind? token = some kind) : kind.isQuiet = true := by
  unfold simpleKind? at h
  split at h <;> cases h <;> rfl

theorem unaryKind?_isQuiet (h : unaryKind? token = some kind) : kind.isQuiet = true := by
  unfold unaryKind? at h
  split at h <;> cases h <;> rfl

theorem assignmentKind?_isQuiet (h : assignmentKind? token = some kind) : kind.isQuiet = true := by
  unfold assignmentKind? at h
  split at h <;> cases h <;> rfl

theorem precedence?_isQuiet (h : precedence? kind = some p) : kind.isQuiet = true := by
  unfold precedence? at h
  split at h <;> cases h <;> rfl

theorem postfixKind?_mark (h : postfixKind? token = some kind) :
    ∃ mark, token = .punctuator mark := by
  unfold postfixKind? at h
  split at h
  · exact ⟨_, rfl⟩
  · exact ⟨_, rfl⟩
  · cases h

theorem postfixKind?_conforms {text : String} {place : Span} {ts : List ParseTree}
    (h : postfixKind? token = some kind) (hmark : PrecedesMark source ⟨kind, text, place, ts⟩) :
    Conforms source ⟨kind, text, place, ts⟩ := by
  unfold postfixKind? at h
  split at h <;> cases h <;> exact hmark

namespace Inner

theorem traces_commaSeparated (h : Traces source element (Fills source)) :
    Traces source (inner.commaSeparated element) fun s found t =>
      found.1.span.start = s.span.start ∧ Series source s.span.start (found.1 :: found.2) t.lastEnd ∧
        (found.2 = [] → Fills source s found.1 t) := by
  intro s hs
  apply (h s hs).bind
  rintro first t ⟨ht, hfirst⟩
  have hothers : Traces source (do
      if ← acceptMark .comma then
        return .more (← element)
      return .stop) fun s found t => Turn.Follows source s.lastEnd found t.lastEnd := by
    intro s hs
    rw [leads_bind, acceptMark, leads_accept]
    split
    · rename_i hcomma
      apply (leads_pass hs hcomma).imp
      rintro _ t ⟨ht, hpasses⟩
      apply (h t ht).bind
      rintro a u ⟨hu, ha⟩
      refine ⟨hu, ?_⟩
      exact (ha.within ht).mono (hpasses.lastEnd_le hs) (Nat.le_refl _)
    · exact ⟨hs, rfl⟩
  apply (traces_others hothers _ t ht).bind
  rintro others u ⟨hu, hothers, hnone⟩
  refine ⟨hu, hfirst.start, .cons hfirst.tight hothers, fun hempty => ?_⟩
  exact ⟨hfirst.start, hfirst.stop.trans (hnone hempty).symm, hfirst.regular⟩

theorem traces_argumentList (h : Traces source element (Fills source)) :
    Traces source (inner.argumentList element) fun s tree t =>
      Fills source s tree t ∧ tree.kind = .arguments := by
  intro s hs
  apply (traces_demand _ _ s hs).bind
  rintro left t ⟨ht, _, hleft⟩
  rw [leads_bind, seesMark, leads_sees]
  extract_lets close
  have hclose : ∀ elements u, u.Spaced source → Series source t.lastEnd elements u.lastEnd →
      Leads (close elements) u
        (fun tree v => v.Spaced source ∧ Fills source s tree v ∧ tree.kind = .arguments)
        fun _ _ => True := by
    intro elements u hu helements
    apply (traces_demand _ _ u hu).bind
    rintro _ v ⟨hv, _, hright⟩
    have hseries := helements.mono hleft.start_le (hright.lastEnd_le hu)
    simp only [leads_bind, spanFrom, leads_get, leads_pure, Nat.max_eq_left hseries.le]
    exact ⟨hv, .of_series hleft.start rfl hv hseries (.of_isQuiet rfl), rfl⟩
  split
  · exact hclose [] t ht (.nil (Nat.le_refl _))
  · apply (traces_commaSeparated h t ht).bind
    rintro found u ⟨hu, _, hfound, _⟩
    exact hclose _ u hu (hfound.mono ht.lastEnd_le (Nat.le_refl _))

theorem traces_identifier : Traces source identifier (Fills source) := by
  intro s hs
  rw [identifier, leads_bind, leads_sees]
  split
  · exact leads_leaf_fills hs (beq_iff_eq.1 ‹_›) rfl
  · trivial

theorem traces_expressionOf (h : Traces source element (Fills source)) :
    Traces source (inner.expressionOf element) (Fills source) := by
  intro s hs
  apply (traces_commaSeparated h s hs).bind
  rintro found t ⟨ht, hstart, hseries, halone⟩
  obtain ⟨first, others⟩ := found
  dsimp only at hstart hseries halone ⊢
  split
  · exact ⟨ht, halone (List.isEmpty_iff.1 ‹_›)⟩
  · exact leads_filled ht hstart (hstart ▸ hseries) (.of_isQuiet rfl)

theorem traces_propertyName : Traces source propertyName (Fills source) := by
  intro s hs
  rw [propertyName, leads_bind, leads_token?]
  split
  · exact leads_leaf_fills hs ‹_› rfl
  · exact leads_leaf_fills hs ‹_› rfl
  · exact leads_leaf_fills hs ‹_› rfl
  · split
    · exact leads_leaf_fills hs ‹_› rfl
    · trivial
  · trivial

theorem traces_memberName : Traces source memberName (Fills source) := by
  intro s hs
  rw [memberName, leads_bind, leads_token?]
  split
  · split
    · exact leads_leaf_fills hs ‹_› rfl
    · trivial
  · trivial

variable (h : inner.Traced source)
include h

theorem traces_expression (allowIn : Bool) :
    Traces source (inner.expression allowIn) (Fills source) :=
  traces_expressionOf (h.traces (.assignment allowIn))

theorem traces_statements (ends : Token → Bool) :
    Traces source (inner.statements ends) fun s found t =>
      Series source s.lastEnd found t.lastEnd ∧ ∀ c ∈ found, c.Ended source := by
  refine traces_series (fun s hs => ?_) _
  rw [leads_bind, leads_token?]
  split
  · exact ⟨hs, Nat.le_refl _⟩
  · split
    · exact ⟨hs, Nat.le_refl _⟩
    · apply (traces_accept _ s hs).bind
      rintro found t ⟨ht, hle, _⟩
      split
      · exact ⟨ht, hle⟩
      · apply (h.traces .statement t ht).bind
        rintro tree u ⟨hu, htree⟩
        refine ⟨hu, ?_, htree.ended⟩
        exact (Rests.within htree ht).mono hle (Nat.le_refl _)

theorem traces_block : Traces source inner.block fun s tree t =>
    Fills source s tree t ∧ tree.kind = .block := by
  intro s hs
  apply (traces_demand _ _ s hs).bind
  rintro left t ⟨ht, _, hleft⟩
  apply (traces_statements h _ t ht).bind
  rintro body u ⟨hu, hbody, hended⟩
  apply (traces_demand _ _ u hu).bind
  rintro _ v ⟨hv, _, hright⟩
  have hseries := hbody.mono hleft.start_le (hright.lastEnd_le hu)
  simp only [leads_bind, spanFrom, leads_get, leads_pure, Nat.max_eq_left hseries.le]
  exact ⟨hv, .of_series hleft.start rfl hv hseries hended, rfl⟩

theorem traces_function (needsName : Bool) : Traces source (inner.function needsName)
    fun s tree t => Fills source s tree t ∧ tree.kind = .function := by
  intro s hs
  apply (traces_demand _ _ s hs).bind
  rintro word t ⟨ht, _, hword⟩
  extract_lets start rest
  have hrest : ∀ name u, u.Spaced source → Series source t.lastEnd name u.lastEnd →
      Leads (rest name) u
        (fun tree v => v.Spaced source ∧ Fills source s tree v ∧ tree.kind = .function)
        fun _ _ => True := by
    intro name u hu hname
    apply (traces_argumentList traces_identifier u hu).bind
    rintro parameters v ⟨hv, hparameters, _⟩
    apply (traces_block h v hv).bind
    rintro body w ⟨hw, hbody, _⟩
    have hseries : Series source start (name ++ [parameters, body]) w.lastEnd := by
      apply (hname.mono hword.start_le (Nat.le_refl _)).append
      exact .cons (hparameters.within hu) (.one (hbody.within hv))
    simp only [leads_bind, spanFrom, leads_get, leads_pure, Nat.max_eq_left hseries.le]
    exact ⟨hw, .of_series hword.start rfl hw hseries (.of_isQuiet rfl), trivial⟩
  rw [leads_bind, leads_sees]
  split
  · apply (leads_leaf_fills ht (beq_iff_eq.1 ‹_›) rfl).bind
    rintro name u ⟨hu, hname⟩
    exact hrest [name] u hu (.one (hname.within ht))
  · split
    · trivial
    · exact hrest [] t ht (.nil (Nat.le_refl _))

/-- A comma that leaves an element out has its item before it. -/
theorem traces_arrayItem : Traces source inner.arrayItem fun s found t =>
    Turn.Within source (fun _ => True) s.lastEnd found t.lastEnd := by
  intro s hs
  rw [arrayItem, leads_bind, leads_token?]
  split
  · exact ⟨hs, Nat.le_refl _⟩
  · rename_i hcomma
    rw [leads_bind, leads_currentSpan]
    apply (leads_pass hs hcomma).bind
    rintro _ t ⟨ht, hpasses⟩
    refine ⟨ht, ⟨?_, ?_, ?_⟩, trivial⟩
    · exact hs.lastEnd_le
    · exact hpasses.le
    · exact (Series.nil (Nat.le_refl _)).tree hs.start_le (.of_isQuiet rfl)
  · apply (h.traces (.assignment true) s hs).bind
    rintro e t ⟨ht, he⟩
    apply (traces_accept _ t ht).bind
    rintro found u ⟨hu, hle, _⟩
    have hitem : (wrap .item e).Within source s.lastEnd u.lastEnd :=
      ((Fills.within he hs).wrap rfl).mono (Nat.le_refl _) hle
    split <;> exact ⟨hu, hitem, trivial⟩

theorem traces_array : Traces source inner.array (Fills source) := by
  intro s hs
  apply (traces_demand _ _ s hs).bind
  rintro left t ⟨ht, _, hleft⟩
  apply (traces_series (traces_arrayItem h) _ t ht).bind
  rintro items u ⟨hu, hitems, _⟩
  apply (traces_demand _ _ u hu).bind
  rintro right v ⟨hv, _, hright⟩
  refine ⟨hv, ?_⟩
  refine .of_series hleft.start hright.stop hv ?_ (.of_isQuiet rfl)
  exact hitems.mono hleft.start_le (hright.stop ▸ hright.lastEnd_le hu)

theorem traces_property : Traces source inner.property fun s found t =>
    Turn.Within source (fun _ => True) s.lastEnd found t.lastEnd := by
  intro s hs
  rw [property, leads_bind, seesMark, leads_sees]
  split
  · exact ⟨hs, Nat.le_refl _⟩
  · apply (traces_propertyName s hs).bind
    rintro name t ⟨ht, hname⟩
    apply (traces_demand _ _ t ht).bind
    rintro _ u ⟨hu, _, hcolon⟩
    apply (h.traces (.assignment true) u hu).bind
    rintro value v ⟨hv, hvalue⟩
    apply (traces_accept _ v hv).bind
    rintro found w ⟨hw, hle, _⟩
    have hpair : Fills source s ⟨.namedValue, Kind.namedValue.name,
        ⟨name.span.start, value.span.stop⟩, [name, value]⟩ v :=
      hname.pair hvalue hu hv (hcolon.lastEnd_le ht) rfl
    have hwithin := (hpair.within hs).mono (Nat.le_refl _) hle
    split <;> exact ⟨hw, hwithin, trivial⟩

theorem traces_object : Traces source inner.object (Fills source) := by
  intro s hs
  apply (traces_demand _ _ s hs).bind
  rintro left t ⟨ht, _, hleft⟩
  apply (traces_series (traces_property h) _ t ht).bind
  rintro properties u ⟨hu, hproperties, _⟩
  apply (traces_demand _ _ u hu).bind
  rintro right v ⟨hv, _, hright⟩
  refine ⟨hv, ?_⟩
  refine .of_series hleft.start hright.stop hv ?_ (.of_isQuiet rfl)
  exact hproperties.mono hleft.start_le (hright.stop ▸ hright.lastEnd_le hu)

theorem traces_parenthesized : Traces source inner.parenthesized (Fills source) := by
  intro s hs
  apply (traces_demand _ _ s hs).bind
  rintro left t ⟨ht, _, hleft⟩
  apply (traces_expression h _ t ht).bind
  rintro content u ⟨hu, hcontent⟩
  apply (traces_demand _ _ u hu).bind
  rintro right v ⟨hv, _, hright⟩
  refine ⟨hv, ?_⟩
  refine .of_series hleft.start hright.stop hv (.one ?_) (.of_isQuiet rfl)
  exact (hcontent.within ht).mono hleft.start_le (hright.stop ▸ hright.lastEnd_le hu)

theorem traces_primary : Traces source inner.primary (Fills source) := by
  intro s hs
  rw [primary, leads_bind, leads_token?]
  split
  · trivial
  · rename_i ht
    split
    · rename_i hkind
      exact leads_leaf_fills hs ht (simpleKind?_isQuiet hkind)
    · split
      · exact leads_regexLiteral_fills hs ht rfl
      · exact leads_regexLiteral_fills hs ht rfl
      · exact traces_array h s hs
      · exact traces_object h s hs
      · exact traces_parenthesized h s hs
      · exact (traces_function h false s hs).imp fun _ t hu => ⟨hu.1, hu.2.1⟩
      · trivial

theorem traces_memberBase : Traces source inner.memberBase (Fills source) := by
  intro s hs
  rw [memberBase, leads_bind, seesWord, leads_sees]
  split
  · rw [leads_bind, leads_currentSpan]
    apply (leads_pass hs (beq_iff_eq.1 ‹_›)).bind
    rintro _ t ⟨ht, hword⟩
    apply (traces_enter t ht).bind
    rintro _ u ⟨hu, _, hend, _⟩
    apply ((h.traces .memberBase).leaving u hu).bind
    rintro operand v ⟨hv, hoperand⟩
    refine ⟨hv, ?_⟩
    refine .of_series rfl hoperand.stop hv (.one ?_) (.of_isQuiet rfl)
    exact hoperand.stop ▸ (hoperand.within hu).mono (hend ▸ hword.le) (Nat.le_refl _)
  · exact traces_primary h s hs

theorem leads_suffix_fills (ht : t.Spaced source) (hobject : Fills source s object t) :
    Leads (inner.suffix object) t
      (fun next u => u.Spaced source ∧ Fills source s (next.getD object) u) fun _ _ => True := by
  rw [suffix, leads_bind, leads_token?]
  split
  · apply (leads_pass ht ‹_›).bind
    rintro _ u ⟨hu, hdot⟩
    apply (traces_memberName u hu).bind
    rintro name v ⟨hv, hname⟩
    refine ⟨hv, ?_⟩
    exact hobject.pair hname hu hv (hdot.lastEnd_le ht) rfl
  · apply (leads_pass ht ‹_›).bind
    rintro _ u ⟨hu, hleft⟩
    apply (traces_expression h _ u hu).bind
    rintro index v ⟨hv, hindex⟩
    apply (traces_demand _ _ v hv).bind
    rintro right w ⟨hw, _, hright⟩
    refine ⟨hw, ?_⟩
    refine .of_series hobject.start hright.stop hw (.cons (k := t.lastEnd) ?_ (.one ?_))
      (.of_isQuiet rfl)
    · exact hobject.start ▸ hobject.tight
    · exact (hindex.within hu).mono (hleft.lastEnd_le ht) (hright.stop ▸ hright.lastEnd_le hv)
  · apply (traces_argumentList (h.traces (.assignment true)) t ht).bind
    rintro arguments u ⟨hu, harguments, _⟩
    refine ⟨hu, ?_⟩
    exact hobject.pair harguments ht hu (Nat.le_refl _) rfl
  · exact ⟨ht, hobject⟩

theorem traces_leftHandSide : Traces source inner.leftHandSide (Fills source) := by
  intro s hs
  apply (traces_memberBase h s hs).bind
  rintro base t ⟨ht, hbase⟩
  exact leads_extend_fills (fun _ _ => leads_suffix_fills h) ht hbase _

/-- The operand and the operator behind it stand on one line. -/
theorem traces_stepped : Traces source inner.stepped (Fills source) := by
  intro s hs
  apply (traces_leftHandSide h s hs).bind
  rintro operand t ⟨ht, hoperand⟩
  rw [leads_bind, leads_lineBreakBefore]
  split
  · exact ⟨ht, hoperand⟩
  · rename_i hbreak
    rw [leads_bind, leads_token?]
    split
    · exact ⟨ht, hoperand⟩
    · rename_i kind hkind
      obtain ⟨token, htoken, hkind⟩ := Option.bind_eq_some_iff.1 hkind
      rw [leads_bind, leads_currentText, leads_bind, leads_currentSpan]
      apply (leads_pass ht htoken).bind
      rintro _ u ⟨hu, hpasses⟩
      refine ⟨hu, ?_⟩
      obtain ⟨mark, rfl⟩ := postfixKind?_mark hkind
      obtain ⟨gap, hgap, hlines⟩ := ht.gapSlice
      have hmark := ht.mark htoken
      refine .of_series hoperand.start hpasses.stop hu (.one ?_) (postfixKind?_conforms hkind ?_)
      · refine ⟨Nat.le_refl _, ?_, hoperand.regular⟩
        rw [hpasses.stop, hoperand.stop]
        exact hpasses.lastEnd_le ht
      · refine List.forall_mem_singleton.2 ⟨mark, gap, String.toList_inj.1 hmark, ?_, ?_⟩
        · rw [hoperand.stop, ← hmark]
          exact hgap.append (ht.slice htoken)
        · simpa [hbreak] using hlines

theorem traces_unary : Traces source inner.unary (Fills source) := by
  intro s hs
  rw [unary, leads_bind, leads_token?]
  split
  · exact traces_stepped h s hs
  · rename_i kind hkind
    obtain ⟨token, htoken, hkind⟩ := Option.bind_eq_some_iff.1 hkind
    rw [leads_bind, leads_currentSpan, leads_bind, leads_currentText]
    apply (leads_pass hs htoken).bind
    rintro _ t ⟨ht, hmark⟩
    apply (traces_enter t ht).bind
    rintro _ u ⟨hu, _, hend, _⟩
    apply ((h.traces .unary).leaving u hu).bind
    rintro operand v ⟨hv, hoperand⟩
    refine ⟨hv, ?_⟩
    refine .of_series rfl hoperand.stop hv (.one ?_) (.of_isQuiet (unaryKind?_isQuiet hkind))
    exact hoperand.stop ▸ (hoperand.within hu).mono (hend ▸ hmark.le) (Nat.le_refl _)

theorem leads_binaryStep_fills (allowIn : Bool) (least : Nat) {left : ParseTree}
    (ht : t.Spaced source) (hleft : Fills source s left t) :
    Leads (inner.binaryStep allowIn least left) t
      (fun next u => u.Spaced source ∧ Fills source s (next.getD left) u) fun _ _ => True := by
  rw [binaryStep, leads_bind, leads_token?]
  split
  · exact ⟨ht, hleft⟩
  · rename_i kind precedence hop
    obtain ⟨token, htoken, hop⟩ := Option.bind_eq_some_iff.1 hop
    have hquiet := precedence?_isQuiet (binaryOperator?_precedence hop)
    split
    · exact ⟨ht, hleft⟩
    · rw [leads_bind, leads_currentText]
      apply (leads_pass ht htoken).bind
      rintro _ u ⟨hu, hmark⟩
      apply (traces_enter u hu).bind
      rintro _ v ⟨hv, _, hend, _⟩
      apply ((h.traces (.binary allowIn (precedence + 1))).leaving v hv).bind
      rintro right w ⟨hw, hright⟩
      refine ⟨hw, ?_⟩
      exact hleft.pair hright hv hw (hend ▸ hmark.lastEnd_le ht) hquiet

theorem traces_binary (allowIn : Bool) (least : Nat) :
    Traces source (inner.binary allowIn least) (Fills source) := by
  intro s hs
  apply (traces_unary h s hs).bind
  rintro first t ⟨ht, hfirst⟩
  exact leads_extend_fills (fun _ _ => leads_binaryStep_fills h allowIn least) ht hfirst _

theorem traces_conditional (allowIn : Bool) :
    Traces source (inner.conditional allowIn) (Fills source) := by
  intro s hs
  apply (traces_binary h allowIn 0 s hs).bind
  rintro test t ⟨ht, htest⟩
  apply (traces_accept _ t ht).bind
  rintro found u ⟨hu, hle, hnone⟩
  split
  · apply (h.traces (.assignment true) u hu).bind
    rintro consequent v ⟨hv, hconsequent⟩
    apply (traces_demand _ _ v hv).bind
    rintro _ w ⟨hw, _, hcolon⟩
    apply (h.traces (.assignment allowIn) w hw).bind
    rintro alternate x ⟨hx, halternate⟩
    refine ⟨hx, ?_⟩
    refine .of_series htest.start halternate.stop hx
      (.cons (k := t.lastEnd) ?_ (.cons (k := w.lastEnd) ?_ (.one ?_))) (.of_isQuiet rfl)
    · exact htest.start ▸ htest.tight
    · exact (Fills.within hconsequent hu).mono hle (hcolon.lastEnd_le hv)
    · exact halternate.stop ▸ Fills.within halternate hw
  · rename_i hfound
    rw [hnone (Bool.eq_false_iff.2 hfound)]
    exact ⟨ht, htest⟩

theorem traces_assigned (allowIn : Bool) :
    Traces source (inner.assigned allowIn) (Fills source) := by
  intro s hs
  apply (traces_conditional h allowIn s hs).bind
  rintro target t ⟨ht, htarget⟩
  rw [leads_bind, leads_token?]
  split
  · exact ⟨ht, htarget⟩
  · rename_i kind hkind
    obtain ⟨token, htoken, hkind⟩ := Option.bind_eq_some_iff.1 hkind
    rw [leads_bind, leads_currentText]
    apply (leads_pass ht htoken).bind
    rintro _ u ⟨hu, hmark⟩
    apply (h.traces (.assignment allowIn) u hu).bind
    rintro value v ⟨hv, hvalue⟩
    refine ⟨hv, ?_⟩
    exact htarget.pair hvalue hu hv (hmark.lastEnd_le ht) (assignmentKind?_isQuiet hkind)

theorem traces_assignment (allowIn : Bool) :
    Traces source (inner.assignment allowIn) (Fills source) := by
  intro s hs
  apply (traces_enter s hs).bind
  rintro _ t ⟨ht, hspan, _, _⟩
  rw [leads_thenLeave]
  apply (traces_assigned h allowIn t ht).imp
  rintro tree u ⟨hu, htree⟩
  refine ⟨hu.withDepth _, ?_⟩
  exact ⟨htree.start.trans (congrArg Span.start hspan), htree.stop, htree.regular⟩

end Inner
end Ecma3.Grammar
