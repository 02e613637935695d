import Ecma3.Proofs.Grammar.Recover.Primary

/-! Operators of all strengths, parsed from their words. -/
namespace Ecma3.Grammar
open ParserM ParseTree Punctuator
open Token (ofWord? ofWord?_spelling)

variable {inner : Inner} {limit depth : Nat} {e : ParseTree} {rest : List String}

namespace Inner

theorem parses_memberName {name : String} {span : Span} (hname : IsName name) :
    Recovers limit depth memberName (.leaf .identifier name span) rest := by
  obtain ⟨token, htoken, hlike⟩ := isName_iff.1 hname
  refine (parses_token? (headToken?_name htoken)).bind_eq ?_
  simp only [hlike, if_true]
  exact parses_name

theorem parses_field {object t : ParseTree} {name : String} {place : Span} (span : Span)
    (ht : t.spanless = object.spanless) (hname : IsName name) :
    Parses limit depth (inner.suffix t)
      (dot.spelling :: ((ParseTree.leaf .identifier name place).words ++ rest)) rest fun next =>
        ∃ u, next = some u ∧
          u.spanless = (group .byField span [object, .leaf .identifier name place]).spanless := by
  refine (parses_token? (headToken?_of (ofWord?_spelling dot))).bind_eq ?_
  refine parses_advance.bind fun _ _ => ?_
  refine (parses_memberName hname).bind fun n hn => .pure ⟨_, rfl, ?_⟩
  rw [spanless_group, spanless_group]
  simp only [List.map_cons, List.map_nil, ht, hn]

theorem parses_index (h : inner.Completes limit) {object index t : ParseTree} (span : Span)
    (ht : t.spanless = object.spanless) (hindex : Grammatical 0 index)
    (hbound : index.words.length < inner.bound) (hroom : depth + 2 * index.words.length ≤ limit) :
    Parses limit depth (inner.suffix t)
      (leftBracket.spelling :: (index.words ++ rightBracket.spelling :: rest)) rest fun next =>
        ∃ u, next = some u ∧ u.spanless = (group .byIndex span [object, index]).spanless := by
  refine (parses_token? (headToken?_of (ofWord?_spelling leftBracket))).bind_eq ?_
  refine parses_advance.bind fun _ _ => ?_
  refine (parses_expressionOf hindex (Nat.le_of_lt hbound) (ends_mark rfl) fun a ha hle ws hws =>
    h (.assignment true) a ws depth ⟨ha, hws⟩ (by omega) (by omega)).bind fun i hi => ?_
  refine (parses_demand (ofWord?_spelling rightBracket) _).bind fun _ _ => .pure ⟨_, rfl, ?_⟩
  rw [spanless_group, spanless_group]
  simp only [List.map_cons, List.map_nil, ht, hi]

theorem parses_call (h : inner.Completes limit) {callee t : ParseTree} {arguments : List ParseTree}
    {place : Span} (span : Span) (ht : t.spanless = callee.spanless)
    (harguments : ∀ a ∈ arguments, Grammatical 1 a)
    (hbound : (group .arguments place arguments).words.length ≤ inner.bound)
    (hroom : depth + 2 * (group .arguments place arguments).words.length ≤ limit) :
    Parses limit depth (inner.suffix t) ((group .arguments place arguments).words ++ rest) rest
      fun next => ∃ u, next = some u ∧
        u.spanless = (group .call span [callee, group .arguments place arguments]).spanless := by
  refine (parses_token? headToken?_arguments).bind_eq ?_
  have hcount : (arguments.map words).length ≤
      ([comma.spelling].intercalate (arguments.map words)).length := by
    refine length_intercalate_ge _ fun part hpart => ?_
    obtain ⟨a, ha, rfl⟩ := List.mem_map.1 hpart
    exact (harguments a ha).begins.ne_nil
  rw [words_arguments, List.length_cons, List.length_append] at hbound hroom
  rw [List.length_map] at hcount
  refine Parses.bind (parses_argumentList (by omega) (fun a ha => (harguments a ha).begins)
    fun a ha ws hws => ?_) fun list hlist => .pure ⟨_, rfl, ?_⟩
  · have hlength : a.words.length ≤ ([comma.spelling].intercalate (arguments.map words)).length :=
      length_le_intercalate (List.mem_map_of_mem ha)
    exact h (.assignment true) a ws depth ⟨harguments a ha, hws⟩ (by omega) (by omega)
  · rw [spanless_group, spanless_group]
    simp only [List.map_cons, List.map_nil, ht, hlist]

theorem parses_chain (h : inner.Completes limit) (he : Grammatical 15 e) {others : List String}
    {R : ParseTree → Prop} (hbound : e.words.length ≤ inner.bound)
    (hroom : depth + 2 * e.words.length ≤ limit + 1)
    (hdone : ∀ t bound, t.spanless = e.spanless → inner.bound < bound + e.words.length →
      Parses limit depth (extend inner.suffix bound t) rest others R) :
    Parses limit depth (do let base ← inner.memberBase; extend inner.suffix inner.bound base)
      (e.words ++ rest) others R := by
  induction hlength : e.words.length using Nat.strongRecOn generalizing e rest with | _ length ih
  subst hlength
  rcases he.tighter with he | he
  · cases he with
    | @field object name span place hobject hname =>
      rw [words_field, List.append_assoc, List.cons_append]
      rw [words_field, List.length_append, List.length_cons] at hbound hroom hdone ih
      refine ih _ (by omega) hobject (by omega) (by omega) (fun t bound ht hle => ?_) rfl
      exact parses_extend_more (by omega) (parses_field span ht hname) fun u hu =>
        hdone u _ hu (by omega)
    | @index object index span hobject hindex =>
      rw [words_index, List.append_assoc, List.cons_append, List.append_assoc]
      rw [words_index, List.length_append, List.length_cons, List.length_append]
        at hbound hroom hdone ih
      refine ih _ (by omega) hobject (by omega) (by omega) (fun t bound ht hle => ?_) rfl
      exact parses_extend_more (by omega) (parses_index h span ht hindex (by omega) (by omega))
        fun u hu => hdone u _ hu (by omega)
    | @call callee arguments span place hcallee harguments =>
      have hpos := List.length_pos_iff.2 hcallee.begins.ne_nil
      have hlist : 2 ≤ (group .arguments place arguments).words.length := by simp [words_arguments]
      rw [words_call, List.append_assoc]
      rw [words_call, List.length_append] at hbound hroom hdone ih
      refine ih _ (by omega) hcallee (by omega) (by omega) (fun t bound ht hle => ?_) rfl
      exact parses_extend_more (by omega) (parses_call h span ht harguments (by omega) (by omega))
        fun u hu => hdone u _ hu (by omega)
    | binary hop =>
      have := binaryOperators_range hop
      omega
  · have hpos := List.length_pos_iff.2 he.begins.ne_nil
    exact (parses_memberBase h he hbound hroom).bind fun t ht => hdone t _ ht (by omega)

theorem parses_leftHandSide (h : inner.Completes limit) (he : Grammatical 15 e)
    (hrest : Ends 15 rest) (hbound : e.words.length ≤ inner.bound)
    (hroom : depth + 2 * e.words.length ≤ limit + 1) :
    Recovers limit depth inner.leftHandSide e rest := by
  refine parses_chain h he hbound hroom fun t bound ht hle => ?_
  refine parses_extend_none (by omega) ?_ ht
  refine (parses_token? rfl).bind fun found hfound => ?_
  split
  · exact absurd hfound.symm (hrest.not_of_strength rfl rfl (Nat.le_refl 15))
  · exact absurd hfound.symm (hrest.not_of_strength rfl rfl (Nat.le_refl 15))
  · exact absurd hfound.symm (hrest.not_of_strength rfl rfl (Nat.le_refl 15))
  · exact .pure rfl

theorem parses_stepped (h : inner.Completes limit) (he : Grammatical 14 e) (hrest : Ends 14 rest)
    (hbound : e.words.length ≤ inner.bound) (hroom : depth + 2 * e.words.length ≤ limit + 1) :
    Recovers limit depth inner.stepped e rest := by
  rcases he.tighter with he | he
  · cases he with
    | @stepped kind operator operand span hop hoperand =>
      obtain ⟨token, hop, hkind⟩ := tabulates_postfixOperators.exists_token hop
      rw [words_mk, List.map_singleton, arrange_stepped hkind, List.length_append,
        List.length_singleton] at hbound hroom
      rw [Recovers, words_mk, List.map_singleton, arrange_stepped hkind, List.append_assoc,
        List.singleton_append]
      have hends : Ends 15 (operator :: rest) := ends_of_strength hop
        (continuingKind?_stepped hkind) (postfixKind?_strength hkind) (Nat.lt_succ_self 14)
      refine (parses_leftHandSide h hoperand hends (by omega) (by omega)).bind fun t ht => ?_
      refine parses_lineBreakBefore.bind_eq ?_
      refine (parses_token? (headToken?_of hop)).bind_eq ?_
      simp only [Option.bind_some, hkind]
      refine parses_currentText.bind_eq (parses_currentSpan.bind fun _ _ => ?_)
      refine parses_advance.bind fun _ _ => .pure ?_
      rw [spanless_mk, spanless_mk, List.map_singleton, List.map_singleton, ht]
    | binary hop =>
      have := binaryOperators_range hop
      omega
  · refine (parses_leftHandSide h he (hrest.mono (Nat.le_succ 14)) hbound hroom).bind fun t ht => ?_
    refine parses_lineBreakBefore.bind_eq ?_
    refine (parses_token? rfl).bind_eq ?_
    have hnone := hrest.not_operator (fun _ _ => continuingKind?_stepped) fun _ _ =>
      postfixKind?_strength
    simp only [hnone]
    exact .pure ht

theorem parses_unary (h : inner.Completes limit) (he : Grammatical 13 e) (hrest : Ends 13 rest)
    (hbound : e.words.length ≤ inner.bound) (hroom : depth + 2 * e.words.length ≤ limit + 1) :
    Recovers limit depth inner.unary e rest := by
  rcases he.tighter with he | he
  · cases he with
    | @unary kind operator operand span hop hoperand =>
      obtain ⟨token, hop, hkind⟩ := tabulates_unaryOperators.exists_token hop
      rw [words_mk, List.map_singleton, arrange_unary hkind, List.length_cons] at hbound hroom
      rw [Recovers, words_mk, List.map_singleton, arrange_unary hkind, List.cons_append]
      refine (parses_token? (headToken?_of hop)).bind_eq ?_
      simp only [Option.bind_some, hkind]
      refine parses_currentSpan.bind fun _ _ => parses_currentText.bind_eq ?_
      refine parses_advance.bind fun _ _ => ?_
      refine .nested (by omega)
        (h .unary operand rest (depth + 1) ⟨hoperand, hrest⟩ (by omega) (by omega)) fun t ht =>
          .pure ?_
      rw [spanless_mk, spanless_mk, List.map_singleton, List.map_singleton, ht]
    | binary hop =>
      have := binaryOperators_range hop
      omega
  · refine (parses_token? rfl).bind_eq ?_
    simp only [(he.begins.append rest).not_unary]
    exact parses_stepped h he (hrest.mono (Nat.le_succ 13)) hbound hroom

theorem parses_binaryStep (h : inner.Completes limit) {least p : Nat} {token : Token} {kind : Kind}
    {operator : String} {left right t : ParseTree} (span : Span) (ht : t.spanless = left.spanless)
    (hop : ofWord? operator = some token) (hkind : binaryOperator? true token = some (kind, p))
    (hleast : least ≤ p) (hright : Grammatical (p + 3) right) (hrest : Ends (p + 3) rest)
    (hbound : right.words.length < inner.bound)
    (hroom : depth + 1 + 2 * right.words.length ≤ limit) :
    Parses limit depth (inner.binaryStep true least t) (operator :: (right.words ++ rest)) rest
      fun next => ∃ u, next = some u ∧
        u.spanless = (ParseTree.mk kind operator span [left, right]).spanless := by
  have hrange := binaryOperator?_range hkind
  refine (parses_token? (headToken?_of hop)).bind_eq ?_
  simp only [Option.bind_some, hkind, if_neg (Nat.not_lt.2 hleast)]
  refine parses_currentText.bind_eq (parses_advance.bind fun _ _ => ?_)
  have haccepts : Goal.Accepts (.binary true (p + 1)) right rest :=
    ⟨Nat.le_add_left 1 p, by omega, hright, hrest⟩
  refine .nested (by omega) (h _ right rest (depth + 1) haccepts hbound hroom) fun r hr =>
    .pure ⟨_, rfl, ?_⟩
  rw [spanless_mk, spanless_mk]
  simp only [List.map_cons, List.map_nil, ht, hr]

/-- Turns over the binary operators of an expression, from its innermost left operand on. -/
theorem parses_operators (h : inner.Completes limit) {least n : Nat} (he : Construct n e)
    (hthree : 3 ≤ n) (hleast : least + 2 ≤ n) (hrest : Ends (min (n + 1) 13) rest)
    {others : List String} {R : ParseTree → Prop} (hbound : e.words.length ≤ inner.bound)
    (hroom : depth + 2 * e.words.length ≤ limit + 1)
    (hdone : ∀ t bound, t.spanless = e.spanless → inner.bound < bound + e.words.length →
      Parses limit depth (extend (inner.binaryStep true least) bound t) rest others R) :
    Parses limit depth
      (do let first ← inner.unary; extend (inner.binaryStep true least) inner.bound first)
      (e.words ++ rest) others R := by
  induction hlength : e.words.length using Nat.strongRecOn generalizing e rest n with | _ length ih
  subst hlength
  by_cases hn : 13 ≤ n
  · have he : Grammatical 13 e := .intro he hn
    have hpos := List.length_pos_iff.2 he.begins.ne_nil
    exact (parses_unary h he (hrest.mono (Nat.min_le_right _ _)) hbound hroom).bind fun t ht =>
      hdone t _ ht (by omega)
  · cases he with
    | @binary kind p operator left right span hop hleft hright =>
      obtain ⟨token, hop, hkind⟩ := tabulates_binaryOperators.exists_token hop
      have hrange := binaryOperator?_range hkind
      have hoperator := binaryOperator?_kind hkind
      have hwords : (ParseTree.mk kind operator span [left, right]).words =
          left.words ++ operator :: right.words := by
        rw [words_mk, List.map_cons, List.map_singleton, arrange_binary hoperator]
      rw [hwords, List.append_assoc, List.cons_append]
      rw [hwords, List.length_append, List.length_cons] at hbound hroom hdone ih
      obtain @⟨_, m, _, hm, hle⟩ := hleft
      have hends : Ends (min (m + 1) 13) (operator :: (right.words ++ rest)) :=
        ends_of_strength hop (continuingKind?_binary hoperator)
          (binaryOperator?_strength hkind) (by omega)
      refine ih _ (by omega) hm (by omega) (by omega) hends (by omega) (by omega)
        (fun t bound ht hbound' => ?_) rfl
      exact parses_extend_more (by omega) (parses_binaryStep h span ht hop hkind (by omega) hright
        (hrest.mono (by omega)) (by omega) (by omega)) fun u hu => hdone u _ hu (by omega)
    | _ => omega

theorem parses_binary (h : inner.Completes limit) {least n : Nat} (hn : n = max 3 (least + 2))
    (hleast : least ≤ 11) (he : Grammatical n e) (hrest : Ends n rest)
    (hbound : e.words.length ≤ inner.bound) (hroom : depth + 2 * e.words.length ≤ limit + 1) :
    Recovers limit depth (inner.binary true least) e rest := by
  obtain @⟨_, m, _, hm, hle⟩ := he
  refine parses_operators h hm (by omega) (by omega) (hrest.mono (by omega)) hbound hroom
    fun t bound ht hbound' => parses_extend_none (by omega) ?_ ht
  refine (parses_token? rfl).bind_eq ?_
  split
  · exact .pure rfl
  · rename_i kind p hop
    obtain ⟨token, hhead, hop⟩ := Option.bind_eq_some_iff.1 hop
    have hstrength := hrest _ _ _ hhead (continuingKind?_binary (binaryOperator?_kind hop))
      (binaryOperator?_strength hop)
    have hrange := binaryOperator?_range hop
    rw [if_pos (by omega)]
    exact .pure rfl

/-- An operand that is no conditional, before anything but a question mark. -/
theorem parses_test (h : inner.Completes limit) (he : Grammatical 3 e) (hrest : Ends 2 rest)
    (hbound : e.words.length ≤ inner.bound) (hroom : depth + 2 * e.words.length ≤ limit + 1) :
    Recovers limit depth (inner.conditional true) e rest := by
  refine (parses_binary h rfl (by omega) he (hrest.mono (Nat.le_succ 2)) hbound hroom).bind
    fun t ht => ?_
  refine (parses_accept_not (hrest.not_of_strength rfl rfl (Nat.le_refl 2))).bind_eq ?_
  exact .pure ht

theorem parses_conditional (h : inner.Completes limit) (he : Grammatical 2 e) (hrest : Ends 1 rest)
    (hbound : e.words.length ≤ inner.bound) (hroom : depth + 2 * e.words.length ≤ limit + 1) :
    Recovers limit depth (inner.conditional true) e rest := by
  rcases he.tighter with he | he
  · cases he with
    | @conditional test consequent alternate span htest hconsequent halternate =>
      rw [words_conditional, List.length_append, List.length_cons, List.length_append,
        List.length_cons] at hbound hroom
      rw [Recovers, words_conditional, List.append_assoc, List.cons_append, List.append_assoc,
        List.cons_append]
      have hends : Ends 3 (question.spelling :: (consequent.words ++
          colon.spelling :: (alternate.words ++ rest))) :=
        ends_of_strength (ofWord?_spelling question) rfl rfl (Nat.lt_succ_self 2)
      refine (parses_binary h rfl (by omega) htest hends (by omega) (by omega)).bind fun t ht => ?_
      refine (parses_accept (ofWord?_spelling question)).bind_eq ?_
      refine (h (.assignment true) consequent _ depth ⟨hconsequent, ends_mark rfl⟩ (by omega)
        (by omega)).bind fun c hc => ?_
      refine (parses_demand (ofWord?_spelling colon) _).bind fun _ _ => ?_
      refine (h (.assignment true) alternate rest depth ⟨halternate, hrest⟩ (by omega)
        (by omega)).bind fun a ha => .pure ?_
      rw [spanless_mk, spanless_mk]
      simp only [List.map_cons, List.map_nil, ht, hc, ha]
    | binary hop =>
      have := binaryOperators_range hop
      omega
  · exact parses_test h he (hrest.mono (Nat.le_succ 1)) hbound hroom

theorem parses_assigned (h : inner.Completes limit) (he : Grammatical 1 e) (hrest : Ends 1 rest)
    (hbound : e.words.length ≤ inner.bound) (hroom : depth + 2 * e.words.length ≤ limit + 1) :
    Recovers limit depth (inner.assigned true) e rest := by
  rcases he.tighter with he | he
  · cases he with
    | @assigned kind operator target value span hop htarget hvalue =>
      obtain ⟨token, hop, hkind⟩ := tabulates_assignmentOperators.exists_token hop
      have hwords : (ParseTree.mk kind operator span [target, value]).words =
          target.words ++ operator :: value.words := by
        rw [words_mk, List.map_cons, List.map_singleton, arrange_assignment hkind]
      rw [hwords, List.length_append, List.length_cons] at hbound hroom
      rw [Recovers, hwords, List.append_assoc, List.cons_append]
      have hends : Ends 2 (operator :: (value.words ++ rest)) := ends_of_strength hop
        (continuingKind?_assignment hkind) (assignmentKind?_strength hkind) (Nat.lt_succ_self 1)
      refine (parses_test h (htarget.mono (by omega)) hends (by omega) (by omega)).bind
        fun t ht => ?_
      refine (parses_token? (headToken?_of hop)).bind_eq ?_
      simp only [Option.bind_some, hkind]
      refine parses_currentText.bind_eq (parses_advance.bind fun _ _ => ?_)
      refine (h (.assignment true) value rest depth ⟨hvalue, hrest⟩ (by omega) (by omega)).bind
        fun v hv => .pure ?_
      rw [spanless_mk, spanless_mk]
      simp only [List.map_cons, List.map_nil, ht, hv]
  · refine (parses_conditional h he hrest hbound hroom).bind fun t ht => ?_
    refine (parses_token? rfl).bind_eq ?_
    have hnone := hrest.not_operator (fun _ _ => continuingKind?_assignment) fun _ _ =>
      assignmentKind?_strength
    simp only [hnone]
    exact .pure ht

theorem parses_assignment (h : inner.Completes limit) (he : Grammatical 1 e) (hrest : Ends 1 rest)
    (hbound : e.words.length ≤ inner.bound) (hroom : depth + 2 * e.words.length ≤ limit) :
    Recovers limit depth (inner.assignment true) e rest := by
  have hpos := List.length_pos_iff.2 he.begins.ne_nil
  exact .entered (by omega) fun _ hs =>
    (parses_assigned h he hrest hbound (by omega)).leaves hs

end Inner

end Ecma3.Grammar
