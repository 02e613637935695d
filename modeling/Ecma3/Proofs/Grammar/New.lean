import Ecma3.Proofs.Grammar.Atoms
import Ecma3.Proofs.Grammar.Order
import Ecma3.Proofs.ParseTree.Chain

/-! How the trees of expressions that begin with `new` are put together. -/
namespace Ecma3

namespace Lexeme

/-- How many `new` stand at the front, not counting what has no grammatical role. -/
def leadingNews : List Item → Nat
  | .ok l :: rest =>
    if l.token.isTrivia then leadingNews rest
    else if l.token = .reserved .new then leadingNews rest + 1 else 0
  | _ => 0

/-- The words `new` at the front. -/
def newWords : List Item → List Lexeme
  | .ok l :: rest => if l.token = .reserved .new then l :: newWords rest else []
  | _ => []

theorem leadingNews_eq (items : List Item) :
    leadingNews items = (newWords (items.filter Item.isSignificant)).length := by
  induction items with
  | nil => rfl
  | cons i items ih =>
    cases i with
    | error e => rfl
    | ok l =>
      rw [leadingNews]
      by_cases htrivia : l.token.isTrivia = true
      · rw [if_pos htrivia, ih, List.filter_cons_of_neg (by simp [Item.isSignificant, htrivia])]
      · rw [if_neg htrivia, List.filter_cons_of_pos (by simp [Item.isSignificant, htrivia]), newWords]
        by_cases hnew : l.token = .reserved .new
        · rw [if_pos hnew, if_pos hnew, List.length_cons, ih]
        · rw [if_neg hnew, if_neg hnew]
          rfl

theorem newWords_spec (items : List Item) :
    (∃ rest, items = (newWords items).map .ok ++ rest) ∧
      ∀ l ∈ newWords items, l.token = .reserved .new := by
  induction items with
  | nil => exact ⟨⟨[], rfl⟩, nofun⟩
  | cons i items ih =>
    obtain ⟨⟨rest, hrest⟩, hnew⟩ := ih
    cases i with
    | error e => exact ⟨⟨_, rfl⟩, nofun⟩
    | ok l =>
      rw [newWords]
      split
      · exact ⟨⟨rest, congrArg _ hrest⟩, List.forall_mem_cons.2 ⟨‹_›, hnew⟩⟩
      · exact ⟨⟨_, rfl⟩, nofun⟩

end Lexeme

namespace ParseTree

variable {source : List Char} {t : ParseTree} {m n : Nat}

/-- The names and literals of a suffix. -/
def suffixAtoms : Suffix → List ParseTree
  | .field name nameSpan _ => [.leaf .identifier name nameSpan]
  | .index index _ => index.atoms
  | .call arguments _ _ => arguments.flatMap atoms

theorem atoms_chain (base : ParseTree) (suffixes : List Suffix) :
    (chain base suffixes).atoms = base.atoms ++ suffixes.flatMap suffixAtoms := by
  induction suffixes generalizing base with
  | nil => simp
  | cons s suffixes ih =>
    have hsuffixed : (suffixed base s).atoms = base.atoms ++ suffixAtoms s := by
      cases s <;> rw [suffixed, atoms_group rfl, List.flatMap_cons, List.flatMap_singleton, suffixAtoms]
      case field => rw [atoms_of_isAtom rfl]
      case call => rw [atoms_group rfl]
    have hstep : chain base (s :: suffixes) = chain (suffixed base s) suffixes := rfl
    rw [hstep, ih, hsuffixed, List.append_assoc, List.flatMap_cons]

theorem atoms_news (places : List Span) (t : ParseTree) : (news places t).atoms = t.atoms := by
  induction places with
  | nil => rfl
  | cons place places ih =>
    rw [news_cons, newOf, atoms_of_not_isAtom rfl, List.flatMap_singleton, ih]

/-- The names and literals of a tree begin where it lies. -/
theorem Inside.le_start (h : t.Inside source m n) : ∀ leaf ∈ t.atoms, m ≤ leaf.span.start := by
  induction t using induction with
  | step t ih =>
    intro leaf hleaf
    obtain ⟨hnode, hatom⟩ := List.mem_filter.1 hleaf
    rw [nodes_eq] at hnode
    rcases List.mem_cons.1 hnode with rfl | hnode
    · have hkind : leaf.kind ≠ .forStep ∧ leaf.kind ≠ .forIn := by
        constructor <;> intro hkind <;> rw [hkind] at hatom <;> cases hatom
      exact (h.lies hkind.1 hkind.2).place.low
    · obtain ⟨c, hc, hnode⟩ := List.mem_flatMap.1 hnode
      exact ih c hc (h.children c hc) leaf (List.mem_filter.2 ⟨hnode, hatom⟩)

/-- The names and literals of the tree stand behind the words. -/
def Behind (words : List Lexeme) (t : ParseTree) : Prop :=
  ∀ l ∈ words, ∀ leaf ∈ t.atoms, l.span.stop ≤ leaf.span.start

end ParseTree

namespace Grammar
open ParserM ParseTree

variable {source : List Char} {inner : Inner} {s u : Session} {t object : ParseTree} {k : Nat}
  {kind : Kind} {allowIn : Bool} {words : List Lexeme}

/-- The words `new` that come next. -/
def Session.newWords (s : Session) : List Lexeme :=
  match s.current with
  | some l =>
    if l.token = .reserved .new then
      l :: Lexeme.newWords (s.cursor.items.filter Lexeme.Item.isSignificant)
    else []
  | none => []

theorem Session.newWords_eq_nil (h : s.token? ≠ some (.reserved .new)) : s.newWords = [] := by
  unfold newWords
  split
  · rename_i l hl
    simp_all [Session.token?]
  · rfl

theorem Session.token?_of_newWords (h : s.newWords ≠ []) : s.token? = some (.reserved .new) := by
  by_cases htoken : s.token? = some (.reserved .new)
  · exact htoken
  · exact absurd (newWords_eq_nil htoken) h

theorem newWords_advance (h : advance s = .ok () u) :
    u.newWords = Lexeme.newWords (s.cursor.items.filter Lexeme.Item.isSignificant) := by
  obtain ⟨hsettled, hupcoming⟩ := upcoming_advance h
  rw [hupcoming]
  cases hcurrent : u.current with
  | none => simp [Session.newWords, hcurrent, hsettled hcurrent, Lexeme.newWords]
  | some l => simp [Session.newWords, Session.upcoming, hcurrent, Lexeme.newWords]

/-- Moving on over a `new` leads to the others, behind the end of this one. -/
theorem leads_advance_new (hs : s.Sited source) (htoken : s.token? = some (.reserved .new)) :
    Leads advance s (fun _ u => u.Sited source ∧
      ∃ l, s.newWords = l :: u.newWords ∧ l.span.stop = u.lastEnd) fun _ _ => True := by
  obtain ⟨l, hl, hnew⟩ := token?_eq_some htoken
  have hnext := leads_next hs
  unfold Leads at hnext ⊢
  split at hnext
  · rename_i u hadvance
    refine ⟨hnext.1, l, ?_, ?_⟩
    · rw [newWords_advance hadvance, Session.newWords]
      simp only [hl, hnew, ↓reduceIte]
    · simp only [hnext.2, Session.passedEnd, hl]
  · trivial

/-- A chain of suffixes around as many `new` as there are words, before a primary expression. -/
def IsNewChain (words : List Lexeme) (t : ParseTree) : Prop :=
  t.Behind words ∧ ∃ places primary suffixes, t = chain (news places primary) suffixes ∧
    places.length = words.length ∧ primary.Binds 17

/-- If the tree holds together like a call or a member access, it is such a chain. -/
def Opens (words : List Lexeme) (t : ParseTree) : Prop := t.Binds 15 → IsNewChain words t

/-- A tree that holds together less is none. -/
theorem opens_of_strength {n : Nat} (h : t.kind.strength? = some n) (hn : n < 15) :
    Opens words t := by
  rintro ⟨m, hm, hle⟩
  cases h.symm.trans hm
  omega

theorem wrap_injective {a b : ParseTree} (h : wrap kind a = wrap kind b) : a = b := by
  simpa [wrap, group] using congrArg ParseTree.children h

namespace Inner

/-- The base of a chain is all `new` that come next, and a primary expression. -/
def TakesNews (source : List Char) (inner : Inner) : Prop :=
  ∀ s : Session, s.Sited source → Leads (inner.parse .memberBase) s (fun t u =>
    (t.Behind s.newWords ∧ ∀ l ∈ s.newWords, l.span.stop ≤ u.lastEnd) ∧
    ∃ places primary, t = news places primary ∧ places.length = s.newWords.length ∧
      primary.Binds 17) fun _ _ => True

variable (h : inner.Sound) (hplaced : inner.Placed source) (hnews : inner.TakesNews source)
  (hs : s.Sited source)
include h hplaced hnews hs

theorem leads_memberBase_news : Leads inner.memberBase s (fun t u =>
    (t.Behind s.newWords ∧ ∀ l ∈ s.newWords, l.span.stop ≤ u.lastEnd) ∧
    ∃ places primary, t = news places primary ∧ places.length = s.newWords.length ∧
      primary.Binds 17) fun _ _ => True := by
  simp only [memberBase, seesWord, leads_bind, leads_sees]
  split
  · rename_i htoken
    simp only [leads_bind, leads_currentSpan]
    refine (leads_advance_new hs (by simpa using htoken)).imp fun _ u hadvance => ?_
    obtain ⟨hu, l, hwords, hl⟩ := hadvance
    rw [leads_enter]
    split
    · trivial
    · rw [leads_thenLeaveIfOk]
      have hin := hu.withDepth (u.depth + 1)
      have hlies := (hplaced .memberBase _ hin).mono (fun _ _ hq => hq) fun _ _ _ => trivial
      refine ((hnews _ hin).and hlies).imp fun operand v hoperand => ?_
      obtain ⟨⟨⟨hbehind, hpassed⟩, places, primary, rfl, hlength, hprimary⟩, hv, hlies⟩ := hoperand
      refine ⟨?_, _ :: places, primary, rfl, ?_, hprimary⟩
      · have hatoms : ∀ text span, atoms ⟨.new, text, span, [news places primary]⟩ =
            (news places primary).atoms := fun _ _ => by
          rw [atoms_of_not_isAtom rfl, List.flatMap_singleton]
        rw [hwords, Behind, hatoms]
        refine ⟨List.forall_mem_cons.2 ⟨fun leaf hleaf => ?_, hbehind⟩,
          List.forall_mem_cons.2 ⟨?_, hpassed⟩⟩
        · exact hl ▸ hlies.inside.le_start leaf hleaf
        · exact hl ▸ hlies.le
      · rw [hwords, List.length_cons, hlength]
        rfl
  · rename_i htoken
    have hnil := Session.newWords_eq_nil (by simpa using htoken)
    refine (gives_primary h s hs.coherent).imp fun t u ht => ?_
    rw [hnil]
    exact ⟨⟨by simp [Behind], by simp⟩, [], t, rfl, rfl, ht.1.2⟩

omit h hnews in
/-- A suffix has its names and literals behind the object that it applies to. -/
theorem leads_suffix_behind (object : ParseTree) : Leads (inner.suffix object) s (fun next u =>
    (u.Sited source ∧ s.lastEnd ≤ u.lastEnd) ∧ ∀ tree ∈ next, ∃ parts,
      tree.atoms = object.atoms ++ parts ∧ ∀ leaf ∈ parts, s.lastEnd ≤ leaf.span.start)
    fun e _ => e.Located source := by
  have hpair : ∀ {kind : Kind} {span : Span} {part : ParseTree} {m n : Nat}, kind.isAtom = false →
      part.Lies source m n → s.lastEnd ≤ m → ∀ tree ∈ some (group kind span [object, part]),
        ∃ parts, tree.atoms = object.atoms ++ parts ∧ ∀ leaf ∈ parts, s.lastEnd ≤ leaf.span.start := by
    rintro kind span part m n hkind hpart hm _ ⟨⟩
    refine ⟨part.atoms, ?_, fun leaf hleaf => ?_⟩
    · rw [atoms_group hkind]
      simp
    · exact Nat.le_trans hm (hpart.inside.le_start leaf hleaf)
  rw [suffix, leads_bind, leads_token?]
  split
  · refine (spans_advance s hs).bind fun _ t hadvance => ?_
    obtain ⟨ht, hle⟩ := hadvance
    refine (spans_memberName t ht).bind fun name u hmember => ?_
    obtain ⟨hu, hname⟩ := hmember
    exact ⟨⟨hu, Nat.le_trans hle hname.le⟩, hpair rfl hname hle⟩
  · refine (spans_advance s hs).bind fun _ t hadvance => ?_
    obtain ⟨ht, hle⟩ := hadvance
    refine (spans_expression hplaced _ t ht).bind fun index u hexpression => ?_
    obtain ⟨hu, hindex⟩ := hexpression
    refine (spans_demand _ _ u hu).bind fun right v hdemand => ?_
    obtain ⟨hv, hright⟩ := hdemand
    exact ⟨⟨hv, Nat.le_trans hle (Nat.le_trans hindex.le hright.le)⟩, hpair rfl hindex hle⟩
  · refine (spans_argumentList (hplaced _) s hs).bind fun arguments t hlist => ?_
    obtain ⟨ht, harguments⟩ := hlist
    exact ⟨⟨ht, harguments.le⟩, hpair rfl harguments (Nat.le_refl _)⟩
  · exact ⟨⟨hs, Nat.le_refl _⟩, by simp⟩

theorem leads_leftHandSide_news :
    Leads inner.leftHandSide s (fun t _ => IsNewChain s.newWords t) fun _ _ => True := by
  have hforget : ∀ {α : Type} {p : ParserM α} {s : Session} {Q : α → Session → Prop},
      (Leads p s Q fun e _ => e.Located source) → Leads p s Q fun _ _ => True :=
    fun hp => hp.mono (fun _ _ hq => hq) fun _ _ _ => trivial
  simp only [leftHandSide, leads_bind]
  refine (((leads_memberBase_news h hplaced hnews hs).and (gives_memberBase h s hs.coherent)).and
    (hforget (spans_memberBase hplaced s hs))).imp fun base u hbase => ?_
  obtain ⟨⟨⟨⟨hbehind, hpassed⟩, places, primary, rfl, hlength, hprimary⟩, hoperand, -⟩, hu, -⟩ :=
    hbase
  refine leads_extend (I := fun tree v => v.Sited source ∧ tree.Operand 15 ∧
      IsNewChain s.newWords tree ∧ ∀ l ∈ s.newWords, l.span.stop ≤ v.lastEnd)
    (D := fun tree _ => IsNewChain s.newWords tree) (fun tree v htree => ?_) (fun _ => trivial)
    ⟨hu, hoperand.mono (by omega), ⟨hbehind, places, primary, [], rfl, hlength, hprimary⟩, hpassed⟩
  obtain ⟨hv, htree, ⟨hbehind, places, primary, suffixes, rfl, hlength, hprimary⟩, hpassed⟩ := htree
  refine ((gives_suffix h _ htree v hv.coherent).and
    (hforget (leads_suffix_behind hplaced hv _))).imp fun next w hnext => ?_
  obtain ⟨⟨hoperand, -⟩, ⟨hw, hle⟩, hparts⟩ := hnext
  cases next with
  | none => exact ⟨hbehind, places, primary, suffixes, rfl, hlength, hprimary⟩
  | some tree =>
    obtain ⟨htree, suffix, rfl⟩ := hoperand tree rfl
    obtain ⟨parts, hatoms, hparts⟩ := hparts _ rfl
    refine ⟨hw, htree, ⟨fun l hl => ?_, places, primary, suffixes ++ [suffix], chain_concat.symm,
      hlength, hprimary⟩, fun l hl => Nat.le_trans (hpassed l hl) hle⟩
    rw [hatoms, List.forall_mem_append]
    exact ⟨hbehind l hl, fun leaf hleaf => Nat.le_trans (hpassed l hl) (hparts leaf hleaf)⟩

theorem leads_unary_news : Leads inner.unary s (fun t _ => Opens s.newWords t) fun _ _ => True := by
  simp only [unary, leads_bind, leads_token?]
  split
  · simp only [stepped, leads_bind, leads_lineBreakBefore]
    refine (leads_leftHandSide_news h hplaced hnews hs).imp fun operand u hoperand => ?_
    have hplain : Opens s.newWords operand := fun _ => hoperand
    split
    · exact hplain
    · simp only [leads_bind, leads_token?]
      split
      · exact hplain
      · rename_i kind hkind
        obtain ⟨t, -, hkind⟩ := Option.bind_eq_some_iff.1 hkind
        simp only [leads_bind, leads_currentText, leads_currentSpan]
        exact leads_true.imp fun _ _ _ => opens_of_strength (postfixKind?_strength hkind) (by omega)
  · rename_i kind hkind
    obtain ⟨t, -, hkind⟩ := Option.bind_eq_some_iff.1 hkind
    simp only [leads_bind, leads_currentText, leads_currentSpan]
    exact leads_true.imp fun _ _ _ => leads_true.imp fun _ _ _ => leads_true.imp fun _ _ _ =>
      opens_of_strength (unaryKind?_strength hkind) (by omega)

theorem leads_binary_news (least : Nat) :
    Leads (inner.binary allowIn least) s (fun t _ => Opens s.newWords t) fun _ _ => True := by
  simp only [binary, leads_bind]
  refine (leads_unary_news h hplaced hnews hs).imp fun first u hfirst => ?_
  refine leads_extend (I := fun tree _ => Opens s.newWords tree) (fun tree v htree => ?_)
    (fun _ => trivial) hfirst
  simp only [binaryStep, leads_bind, leads_token?]
  split
  · exact htree
  · rename_i kind p hop
    obtain ⟨t, -, hop⟩ := Option.bind_eq_some_iff.1 hop
    have hrange := binaryOperator?_range hop
    split
    · exact htree
    · simp only [leads_bind, leads_currentText]
      exact leads_true.imp fun _ _ _ => leads_true.imp fun _ _ _ => leads_true.imp fun _ _ _ =>
        opens_of_strength (binaryOperator?_strength hop) (by omega)

theorem leads_conditional_news :
    Leads (inner.conditional allowIn) s (fun t _ => Opens s.newWords t) fun _ _ => True := by
  simp only [conditional, leads_bind]
  refine (leads_binary_news h hplaced hnews hs 0).imp fun test u htest => ?_
  refine leads_true.imp fun found v _ => ?_
  split
  · simp only [leads_bind]
    exact leads_true.imp fun _ _ _ => leads_true.imp fun _ _ _ => leads_true.imp fun _ _ _ =>
      opens_of_strength (n := 2) rfl (by omega)
  · exact htest

theorem leads_assignment_news :
    Leads (inner.assignment allowIn) s (fun t _ => Opens s.newWords t) fun _ _ => True := by
  simp only [assignment, leads_bind]
  rw [leads_enter]
  split
  · trivial
  · rw [leads_thenLeave]
    simp only [assigned, leads_bind]
    refine (leads_conditional_news h hplaced hnews (hs.withDepth _)).imp fun target u htarget => ?_
    simp only [leads_token?]
    split
    · exact htarget
    · rename_i kind hkind
      obtain ⟨t, -, hkind⟩ := Option.bind_eq_some_iff.1 hkind
      simp only [leads_bind, leads_currentText]
      exact leads_true.imp fun _ _ _ => leads_true.imp fun _ _ _ =>
        opens_of_strength (assignmentKind?_strength hkind) (by omega)

theorem leads_expressionStatement_news : Leads inner.expressionStatement s (fun t _ =>
    ∀ e, t = wrap .expression e → Opens s.newWords e) fun _ _ => True := by
  have hexpression : Leads (inner.expressionOf (inner.assignment true)) s
      (fun t _ => Opens s.newWords t) fun _ _ => True := by
    simp only [expressionOf, commaSeparated, leads_bind]
    refine (leads_assignment_news h hplaced hnews hs).imp fun first u hfirst => ?_
    refine leads_true.imp fun others v _ => ?_
    simp only [leads_pure]
    split
    · exact hfirst
    · exact opens_of_strength (n := 0) rfl (by omega)
  simp only [expressionStatement, leads_bind]
  refine hexpression.imp fun e u he => leads_true.imp fun colon v _ => ?_
  split
  · simp only [leads_bind]
    exact leads_true.imp fun _ _ _ => leads_true.imp fun _ _ _ => by simp [group, wrap]
  · simp only [leads_bind]
    refine leads_true.imp fun _ _ _ e' he' => ?_
    obtain rfl := wrap_injective he'
    exact he

/-- A statement that begins with `new`. -/
theorem leads_statement_news (hk : s.newWords ≠ []) : Leads inner.statement s (fun t _ =>
    ∀ e, t = wrap .expression e → Opens s.newWords e) fun _ _ => True := by
  have htoken := Session.token?_of_newWords hk
  simp only [statement, leads_bind]
  rw [leads_enter]
  split
  · trivial
  · have hinner : Session.token? { s with depth := s.depth + 1 } = some (.reserved .new) := htoken
    simp only [leads_token?, hinner, leads_thenLeave]
    exact leads_expressionStatement_news h hplaced hnews (hs.withDepth _)

end Inner

theorem parseWithin_takesNews (bound count : Nat) :
    Inner.TakesNews source ⟨count, parseWithin bound⟩ := by
  induction bound generalizing count with
  | zero => exact fun _ _ => trivial
  | succ bound ih =>
    exact fun s hs => Inner.leads_memberBase_news (parseWithin_sound bound _)
      (parseWithin_placed bound _) (ih _) hs

theorem leads_collect_first {α : Type} {turn : ParserM (Turn α)} {Q : α → Prop} {bound : Nat}
    (h : Leads turn s (fun found _ => ∃ a, found = .more a ∧ Q a) fun _ _ => True) :
    Leads (collect turn bound) s (fun found _ => ∃ a others, found = a :: others ∧ Q a)
      fun _ _ => True := by
  cases bound with
  | zero => trivial
  | succ bound =>
    rw [collect, leads_bind]
    refine h.imp fun found t hfound => ?_
    obtain ⟨a, rfl, ha⟩ := hfound
    simp only [leads_bind, leads_pure]
    exact leads_true.imp fun others _ _ => ⟨a, others, rfl, ha⟩

/-- The only statement of a program is the first one. -/
theorem leads_program_news (hs : s.Sited source) (hk : s.newWords ≠ []) : Leads ParserM.program s
    (fun root _ => ∀ e, root = some (wrap .expression e) → Opens s.newWords e) fun _ _ => True := by
  have htoken := Session.token?_of_newWords hk
  simp only [ParserM.program, Inner.program, Inner.statements, acceptMark, leads_bind, leads_get]
  refine Leads.imp (leads_collect_first (Q := fun t => ∀ e, t = wrap .expression e → Opens s.newWords e)
    ?_) fun found t hfound => ?_
  · simp only [leads_bind, leads_token?, htoken, Bool.false_eq_true, ↓reduceIte, leads_accept,
      Option.some.injEq, reduceCtorEq, leads_pure]
    refine Leads.imp (Inner.leads_statement_news (parseWithin_sound (s.cursor.rest.length + 1) _)
      (parseWithin_placed _ _) (parseWithin_takesNews _ _) hs hk) fun t _ ht => ⟨t, rfl, ht⟩
  · obtain ⟨first, others, rfl, hfirst⟩ := hfound
    cases others with
    | nil => exact fun e he => hfirst e (Option.some.inj he)
    | cons second others =>
      simp only [leads_bind, leads_get, leads_pure]
      intro e he
      simp [wrap, group] at he

/-- A source that begins with `new` and is one expression that holds together like a call or a
member access is a chain around all of them. -/
theorem parse_newChain {limit : Nat} {source : String} {e : ParseTree}
    (hk : 1 ≤ Lexeme.leadingNews (Lexeme.scan source))
    (h : parse limit source = .ok (some (wrap .expression e))) (he : e.Binds 15) :
    IsNewChain (Lexeme.newWords ((Lexeme.scan source).filter Lexeme.Item.isSignificant)) e := by
  obtain ⟨s, u, hs, hu⟩ := parse_eq_ok.1 h
  have hwords : s.newWords = Lexeme.newWords ((Lexeme.scan source).filter Lexeme.Item.isSignificant) :=
    newWords_advance hs
  have hne : s.newWords ≠ [] := by
    rw [Lexeme.leadingNews_eq, ← hwords] at hk
    exact List.ne_nil_of_length_pos hk
  rw [← hwords]
  exact (leads_program_news ((leads_start limit source).ok hs).1 hne).ok hu e rfl he

/-- So many `new` begin the source and the leaves stand behind them. Without regular expressions,
which are no lexemes, the leaves are the names and literals of the lexemes behind these words. -/
inductive FollowNews (source : String) (k : Nat) (leaves : List ParseTree) : Prop where
  | intro {words : List Lexeme} {rest : List Lexeme.Item}
    (hscan : (Lexeme.scan source).filter Lexeme.Item.isSignificant = words.map .ok ++ rest)
    (hlength : words.length = k) (hnew : ∀ l ∈ words, l.token = .reserved .new)
    (hbehind : ∀ l ∈ words, ∀ leaf ∈ leaves, l.span.stop ≤ leaf.span.start)
    (hkeeps : (∀ leaf ∈ leaves, leaf.kind ≠ .regexLiteral) →
      ∃ lexemes, rest = lexemes.map .ok ∧ Keeps lexemes leaves) : FollowNews source k leaves

theorem followNews_of_parse {limit : Nat} {source : String} {e : ParseTree}
    (h : parse limit source = .ok (some (wrap .expression e)))
    (he : e.Behind (Lexeme.newWords ((Lexeme.scan source).filter Lexeme.Item.isSignificant))) :
    FollowNews source (Lexeme.leadingNews (Lexeme.scan source)) e.atoms := by
  obtain ⟨⟨rest, hscan⟩, hnew⟩ :=
    Lexeme.newWords_spec ((Lexeme.scan source).filter Lexeme.Item.isSignificant)
  refine .intro hscan (Lexeme.leadingNews_eq _).symm hnew he fun hregex => ?_
  have hatoms : (some (wrap .expression e)).toList.flatMap atoms = e.atoms := by
    rw [Option.toList_some, List.flatMap_singleton, atoms_wrap rfl]
  obtain ⟨lexemes, hlexemes, hkeeps⟩ := keeps_of_parse h (hatoms ▸ hregex)
  have hsplit : (Lexeme.significant lexemes).map .ok =
      (Lexeme.scan source).filter Lexeme.Item.isSignificant := by
    rw [Lexeme.tokenize_eq_ok.1 hlexemes, List.filter_map]
    rfl
  rw [hscan] at hsplit
  obtain ⟨words, others, hsignificant, hwords, hothers⟩ := List.map_eq_append_iff.1 hsplit
  obtain rfl := List.map_injective_iff.2 (fun _ _ heq => Except.ok.inj heq) hwords
  rw [hatoms, hsignificant] at hkeeps
  refine ⟨others, hothers.symm, hkeeps.of_append fun l hl leaf hleaf hsame => ?_⟩
  have hmem : (.ok l : Lexeme.Item) ∈ (Lexeme.scan source).filter Lexeme.Item.isSignificant := by
    rw [hscan]
    exact List.mem_append_left _ (List.mem_map_of_mem hl)
  have hpos : l.span.start < l.span.stop :=
    (Lexeme.scan_cover source).nonempty _ (List.mem_filter.1 hmem).1
  have hstop := he l hl leaf hleaf
  rw [← hsame] at hstop
  omega

end Grammar
end Ecma3
