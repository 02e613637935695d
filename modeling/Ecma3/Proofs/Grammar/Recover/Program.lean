import Ecma3.Proofs.Grammar.Recover.Operator

/-! The words of an expression in parentheses, parsed as a program. -/
namespace Ecma3.Grammar
open ParserM ParseTree Punctuator
open Token (ofWord? ofWord?_spelling)

variable {inner : Inner} {limit depth : Nat} {e : ParseTree} {rest : List String}

theorem Goal.Accepts.ne_nil {goal : Goal} (h : goal.Accepts e rest) : e.words ≠ [] := by
  match goal, h with
  | .assignment true, h => exact h.1.begins.ne_nil
  | .binary true _, h => exact h.2.2.1.begins.ne_nil
  | .unary, h => exact h.1.begins.ne_nil
  | .memberBase, h => exact h.begins.ne_nil

theorem Inner.parses_production (h : inner.Completes limit) {goal : Goal}
    (he : goal.Accepts e rest) (hbound : e.words.length ≤ inner.bound)
    (hroom : depth + 2 * e.words.length ≤ limit) :
    Recovers limit depth (inner.production goal) e rest := by
  match goal, he with
  | .assignment true, he => exact parses_assignment h he.1 he.2 hbound hroom
  | .binary true least, ⟨hone, hleast, he, hrest⟩ =>
    exact parses_binary h (by omega) hleast he hrest hbound (by omega)
  | .unary, he => exact parses_unary h he.1 he.2 hbound (by omega)
  | .memberBase, he => exact parses_memberBase h he hbound (by omega)

/-- By induction on the bound: what stands inside a construct has fewer words than the construct. -/
theorem parseWithin_completes (bound : Nat) :
    Inner.Completes limit ⟨bound + 1, parseWithin bound⟩ := by
  induction bound with
  | zero =>
    intro goal e rest depth he hbound _
    exact absurd (List.eq_nil_of_length_eq_zero (Nat.lt_one_iff.1 hbound)) he.ne_nil
  | succ bound ih =>
    intro goal e rest depth he hbound hroom
    exact Inner.parses_production ih he (Nat.le_of_lt_succ hbound) hroom

/-- An expression in parentheses is a statement. -/
theorem Inner.parses_statement (h : inner.Completes limit) {span : Span} (he : Grammatical 0 e)
    (hbound : (group .parenthesized span [e]).words.length ≤ inner.bound)
    (hroom : depth + 1 + 2 * (group .parenthesized span [e]).words.length ≤ limit) :
    Parses limit depth inner.statement (group .parenthesized span [e]).words []
      fun t => t.spanless = (wrap .expression (group .parenthesized span [e])).spanless := by
  have hexpression : Parses limit (depth + 1) inner.expressionStatement
      (group .parenthesized span [e]).words [] fun t =>
        t.spanless = (wrap .expression (group .parenthesized span [e])).spanless := by
    have hwhole : Recovers limit (depth + 1) (inner.expressionOf (inner.assignment true))
        (group .parenthesized span [e]) [] :=
      parses_expressionOf (.intro (.parenthesized he) (Nat.zero_le 17)) hbound ends_nil
        fun a ha hle ws hws => parses_assignment h ha hws (by omega) (by omega)
    rw [Recovers, List.append_nil] at hwhole
    refine hwhole.bind fun t ht => ?_
    refine (parses_sees _).bind fun seen _ => ?_
    have hkind : t.kind = .parenthesized := by
      rw [← spanless_kind, ht, spanless_group]
      rfl
    rw [if_neg (by simp [hkind])]
    refine parses_endStatement.bind fun _ _ => .pure ?_
    rw [wrap, wrap, spanless_group, spanless_group, List.map_singleton, List.map_singleton, ht]
  have hhead : headToken? (group .parenthesized span [e]).words =
      some (.punctuator .leftParen) := by
    rw [← List.append_nil (ParseTree.words _), headToken?_parenthesized]
  refine .entered (by omega) fun s hs => ?_
  rw [leads_bind, leads_token?, hs.token?, hhead]
  exact hexpression.leaves hs

/-- An expression in parentheses is a program of one statement. -/
theorem parses_program {span : Span} {bound : Nat} (he : Grammatical 0 e)
    (hbound : (group .parenthesized span [e]).words.length ≤ bound + 2)
    (hroom : depth + 1 + 2 * (group .parenthesized span [e]).words.length ≤ limit) :
    Parses limit depth (Inner.program ⟨bound + 2, parseWithin (bound + 2)⟩)
      (group .parenthesized span [e]).words [] fun found => ∃ tree, found = some tree ∧
        tree.spanless = (wrap .expression (group .parenthesized span [e])).spanless := by
  have hhead : headToken? (group .parenthesized span [e]).words =
      some (.punctuator .leftParen) := by
    rw [← List.append_nil (ParseTree.words _), headToken?_parenthesized]
  have hstatements : Parses limit depth
      (Inner.statements ⟨bound + 2, parseWithin (bound + 2)⟩ fun _ => false)
      (group .parenthesized span [e]).words [] fun found => ∃ tree, found = [tree] ∧
        tree.spanless = (wrap .expression (group .parenthesized span [e])).spanless := by
    refine Parses.bind (P := fun found => ∃ tree, found = .more tree ∧
      tree.spanless = (wrap .expression (group .parenthesized span [e])).spanless)
      (show Parses _ _ _ _ [] _ from ?_) fun found hfound => ?_
    · refine (parses_token? hhead).bind_eq ?_
      simp only [Bool.false_eq_true, ↓reduceIte]
      refine (parses_accept_not (by simp [hhead])).bind_eq ?_
      exact (Inner.parses_statement (parseWithin_completes (bound + 1)) he hbound hroom).bind
        fun t ht => .pure ⟨t, rfl, ht⟩
    · obtain ⟨tree, rfl, htree⟩ := hfound
      refine Parses.bind (P := (· = [])) (show Parses _ _ _ _ [] _ from ?_) fun others hothers => ?_
      · refine Parses.bind (P := (· = .stop)) (show Parses _ _ _ _ [] _ from ?_)
          fun found hfound => ?_
        · refine (parses_token? headToken?_nil).bind_eq ?_
          exact .pure rfl
        · subst hfound
          exact .pure rfl
      · subst hothers
        exact .pure ⟨tree, rfl, htree⟩
  refine hstatements.bind fun found hfound => ?_
  obtain ⟨tree, rfl, htree⟩ := hfound
  exact .pure ⟨tree, rfl, htree⟩

/-- A session at the start of words with single blanks between them. -/
theorem Session.start_words (limit : Nat) {w : String} {ws : List String}
    (hwords : ∀ v ∈ w :: ws, IsWord v) :
    ∃ s, Session.start limit (" ".intercalate (w :: ws)) = .ok s ∧ s.Reads limit 0 (w :: ws) := by
  have hadvance : Leads advance (.ofString limit (" ".intercalate (w :: ws)))
      (fun _ t => t.Reads limit 0 (w :: ws)) fun _ _ => False :=
    leads_advance_words rfl rfl hwords (Or.inr ⟨w, ws, rfl, toList_intercalate_blank w ws⟩)
  obtain ⟨_, t, hok, ht⟩ := leads_false hadvance
  refine ⟨t, ?_, ht⟩
  rw [Session.start, hok]

/-- An expression written as its words in parentheses, with single blanks between them, is parsed to
the same expression: under every nesting limit that leaves room for the words, the tree is the
expression statement of the expression in parentheses. -/
theorem parse_words (he : Grammatical 0 e) (span : Span) : ∃ least, ∀ limit, least ≤ limit →
    ∃ tree, parse limit (" ".intercalate (group .parenthesized span [e]).words) = .ok (some tree) ∧
      tree.spanless = (wrap .expression (group .parenthesized span [e])).spanless := by
  refine ⟨1 + 2 * (group .parenthesized span [e]).words.length, fun limit hroom => ?_⟩
  have hparenthesized : Construct 17 (group .parenthesized span [e]) := .parenthesized he
  have hwords := hparenthesized.isWord
  obtain ⟨w, ws, hall⟩ := List.exists_cons_of_ne_nil hparenthesized.begins.ne_nil
  rw [hall] at hwords
  obtain ⟨s, hstart, hs⟩ := Session.start_words limit hwords
  have hlength : ws.length ≤ s.cursor.rest.length := by
    rw [hs.current.2, spaced]
    exact length_flatMap_ge _ (by simp)
  have hbound : (group .parenthesized span [e]).words.length ≤ s.cursor.rest.length + 2 := by
    rw [hall, List.length_cons]
    omega
  have hparses := parses_program he hbound (Nat.le_trans (by omega : 0 + 1 + _ ≤ _) hroom)
  have hprogram : Leads ParserM.program s (fun found _ => ∃ tree, found = some tree ∧
      tree.spanless = (wrap .expression (group .parenthesized span [e])).spanless)
      fun _ _ => False := by
    rw [ParserM.program, leads_bind, leads_get]
    exact (hparses s (hall ▸ hs)).imp fun _ _ h => h.1
  obtain ⟨found, t, hok, tree, rfl, htree⟩ := leads_false hprogram
  refine ⟨tree, ?_, htree⟩
  simp only [parse, hall, hstart, Session.program, hok, bind, Except.bind]

/-- An assignment of an operation. -/
theorem parse_words_assignment : ∃ least, ∀ limit, least ≤ limit →
    ∃ tree, parse limit "( a = - b )" = .ok (some tree) ∧
      tree.spanless = wrap .expression (group .parenthesized ⟨0, 0⟩
        [⟨.assign, "=", ⟨0, 0⟩, [leaf .identifier "a" ⟨0, 0⟩,
          ⟨.negate, "-", ⟨0, 0⟩, [leaf .identifier "b" ⟨0, 0⟩]⟩]⟩]) := by
  have ha : Construct 17 (leaf .identifier "a" ⟨0, 0⟩) :=
    .simple (isSimple_iff.2 ⟨.identifier, by decide +kernel, rfl⟩)
  have hb : Construct 17 (leaf .identifier "b" ⟨0, 0⟩) :=
    .simple (isSimple_iff.2 ⟨.identifier, by decide +kernel, rfl⟩)
  have hvalue : Construct 13 ⟨.negate, "-", ⟨0, 0⟩, [leaf .identifier "b" ⟨0, 0⟩]⟩ :=
    .unary rfl (.intro hb (by decide))
  have he : Grammatical 0 ⟨.assign, "=", ⟨0, 0⟩, [leaf .identifier "a" ⟨0, 0⟩,
      ⟨.negate, "-", ⟨0, 0⟩, [leaf .identifier "b" ⟨0, 0⟩]⟩]⟩ :=
    .intro (.assigned rfl (.intro ha (by decide))
      (.intro hvalue (by decide))) (by decide)
  obtain ⟨least, hparse⟩ := parse_words he ⟨0, 0⟩
  refine ⟨least, fun limit hlimit => ?_⟩
  obtain ⟨tree, htree, hspanless⟩ := hparse limit hlimit
  exact ⟨tree, htree, hspanless⟩

end Ecma3.Grammar
