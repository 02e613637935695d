import Ecma3.Proofs.Grammar.Program
import Ecma3.Proofs.Grammar.Walk

/-!
Properties of single nodes. One that all nodes have but those of `if` statements and of the entries
of objects, whatever stands in them, is everywhere in a tree as soon as it is everywhere in the
statements and entries of these kinds that are read.
-/
namespace Ecma3

namespace Kind

variable {kind : Kind} {n : Nat}

/-- Neither an `if` statement nor an entry of an object. -/
def isCommon : Kind → Bool
  | .«if» | .namedValue => false
  | _ => true

theorem ne_of_isCommon (h : kind.isCommon = true) : kind ≠ .«if» ∧ kind ≠ .namedValue := by
  constructor <;> rintro rfl <;> cases h

theorem isCommon_of_strength? (h : kind.strength? = some n) : kind.isCommon = true := by
  cases kind with
  | «if» | namedValue => cases h
  | _ => rfl

end Kind

namespace Grammar
open ParserM ParseTree

variable {P : ParseTree → Prop} {inner : Inner} {element : ParserM ParseTree} {kind : Kind}
  {text : String} {span : Span} {children : List ParseTree} {t a b : ParseTree} {start n : Nat}

/-- What a token is as the key of an entry. -/
def keyKind? (t : Token) : Option Kind :=
  match t with
  | .stringLiteral => some .stringLiteral
  | .decimalLiteral => some .decimalLiteral
  | .hexLiteral => some .hexLiteral
  | t => if isNameLike t then some .identifier else none

/-- A leaf with the text of a token that can be a key. -/
def IsKeyToken (key : ParseTree) : Prop :=
  ∃ cs n token kind span, Token.Pattern.longest? cs = some (token, n) ∧
    keyKind? token = some kind ∧ key = .leaf kind (String.ofList (cs.take n)) span

theorem IsKeyToken.children_eq (h : IsKeyToken t) : t.children = [] := by
  obtain ⟨_, _, _, _, _, _, _, rfl⟩ := h
  rfl

theorem IsKeyToken.isCommon (h : IsKeyToken t) : t.kind.isCommon = true := by
  obtain ⟨_, _, token, kind, _, _, hkind, rfl⟩ := h
  unfold keyKind? at hkind
  split at hkind
  · cases hkind
    rfl
  · cases hkind
    rfl
  · cases hkind
    rfl
  · split at hkind <;> cases hkind
    rfl

theorem gives_propertyName_token : Gives Inner.propertyName IsKeyToken := by
  have hleaf : ∀ {s : Session} {token : Token} {kind : Kind}, s.Coherent →
      s.token? = some token → keyKind? token = some kind →
      Leads (leaf kind) s (fun key u => IsKeyToken key ∧ u.Coherent) fun _ _ => True := by
    intro s token kind hs ht hkind
    refine (leads_leaf_of_token hs ht).imp fun key u hu => ⟨?_, hu.2⟩
    obtain ⟨⟨cs, n, hn, hkey⟩, -⟩ := hu
    exact ⟨cs, n, token, kind, s.span, hn, hkind, hkey⟩
  intro s hs
  simp only [Inner.propertyName, leads_bind, leads_token?]
  split
  · exact hleaf hs ‹_› rfl
  · exact hleaf hs ‹_› rfl
  · exact hleaf hs ‹_› rfl
  · rename_i t hstring hdecimal hhex ht
    split
    · rename_i hname
      refine hleaf hs ht ?_
      cases t <;> simp_all [keyKind?]
    · trivial
  · trivial

/-- All common nodes have `P`, and what stands inside a construct has it everywhere, as does an
entry of an object. -/
structure Inner.Keeps (P : ParseTree → Prop) (inner : Inner) : Prop where
  common : ∀ t : ParseTree, t.kind.isCommon = true → P t
  parse : ∀ goal, Gives (inner.parse goal) (Everywhere P)
  property : Gives inner.property (Turn.Has (Everywhere P))

namespace Inner

theorem keeps_identifier (hcommon : ∀ t : ParseTree, t.kind.isCommon = true → P t) :
    Gives identifier (Everywhere P) :=
  gives_identifier.mono fun t ht => by
    rw [ht.eq_leaf]
    exact .intro (hcommon _ rfl) nofun

/-- An entry has `P` everywhere if its own node has it with each key that can be read. -/
theorem keeps_property (hcommon : ∀ t : ParseTree, t.kind.isCommon = true → P t)
    (hnode : ∀ key value span, IsKeyToken key → P (group .namedValue span [key, value]))
    (hparse : ∀ goal, Gives (inner.parse goal) (Everywhere P)) :
    Gives inner.property (Turn.Has (Everywhere P)) := by
  refine (gives_sees _).bind fun _ _ => .ite (fun _ => .pure trivial) fun _ => ?_
  refine gives_propertyName_token.bind fun key hkey => ?_
  refine (gives_demand _ _).bind fun _ _ => ?_
  refine (hparse _).bind fun value hvalue => ?_
  have hkeeps : key.Everywhere P := .intro (hcommon key hkey.isCommon) (by simp [hkey.children_eq])
  have hproperty : ∀ span, Everywhere P (group .namedValue span [key, value]) := fun span =>
    .intro (hnode key value span hkey)
      (List.forall_mem_cons.2 ⟨hkeeps, List.forall_mem_singleton.2 hvalue⟩)
  exact (gives_accept _).bind fun _ _ => .ite (fun _ => .pure (hproperty _)) fun _ =>
    .pure (hproperty _)

variable (h : inner.Keeps P)
include h

theorem Keeps.node (hkind : kind.isCommon = true) (hall : ∀ c ∈ children, c.Everywhere P) :
    Everywhere P ⟨kind, text, span, children⟩ := .intro (h.common _ hkind) hall

theorem Keeps.unary (hkind : kind.isCommon = true) (ha : a.Everywhere P) :
    Everywhere P ⟨kind, text, span, [a]⟩ := h.node hkind (List.forall_mem_singleton.2 ha)

theorem Keeps.binary (hkind : kind.isCommon = true) (ha : a.Everywhere P)
    (hb : b.Everywhere P) : Everywhere P ⟨kind, text, span, [a, b]⟩ :=
  h.node hkind (List.forall_mem_cons.2 ⟨ha, List.forall_mem_singleton.2 hb⟩)

theorem keeps_leaf (hkind : kind.isCommon = true) : Gives (leaf kind) (Everywhere P) := by
  refine gives_currentSpan.bind fun _ _ => ?_
  refine gives_currentText.bind fun _ _ => ?_
  exact gives_advance.bind fun _ _ => .pure (h.node hkind nofun)

theorem keeps_argumentList (helement : Gives element (Everywhere P)) :
    Gives (inner.argumentList element) (Everywhere P) := by
  refine (gives_argumentList helement).mono ?_
  rintro _ ⟨span, elements, rfl, helements⟩
  exact h.node rfl helements

theorem keeps_expression (allowIn : Bool) : Gives (inner.expression allowIn) (Everywhere P) := by
  refine (gives_commaSeparated (h.parse _)).bind fun found hfound => ?_
  refine .ite (fun _ => .pure hfound.1) fun _ => ?_
  exact (gives_spanFrom _).bind fun _ _ => .pure (h.node rfl (List.forall_mem_cons.2 hfound))

theorem keeps_arrayItem : Gives inner.arrayItem (Turn.Has (Everywhere P)) := by
  refine gives_token?.bind fun t _ => ?_
  split
  · exact .pure trivial
  · refine gives_currentSpan.bind fun _ _ => ?_
    exact gives_advance.bind fun _ _ => .pure (h.node rfl nofun)
  · refine (h.parse _).bind fun e he => ?_
    have hitem : Everywhere P (wrap .item e) := h.unary rfl he
    exact (gives_accept _).bind fun _ _ => .ite (fun _ => .pure hitem) fun _ => .pure hitem

theorem keeps_array : Gives inner.array (Everywhere P) := by
  refine (gives_demand _ _).bind fun _ _ => ?_
  refine (gives_collect (keeps_arrayItem h) _).bind fun items hitems => ?_
  exact (gives_demand _ _).bind fun _ _ => .pure (h.node rfl hitems)

theorem keeps_object : Gives inner.object (Everywhere P) := by
  refine (gives_demand _ _).bind fun _ _ => ?_
  refine (gives_collect h.property _).bind fun properties hall => ?_
  exact (gives_demand _ _).bind fun _ _ => .pure (h.node rfl hall)

theorem keeps_parenthesized : Gives inner.parenthesized (Everywhere P) := by
  refine (gives_demand _ _).bind fun _ _ => ?_
  refine (keeps_expression h true).bind fun content hcontent => ?_
  exact (gives_demand _ _).bind fun _ _ => .pure (h.unary rfl hcontent)

theorem keeps_statements (ends : Token → Bool) :
    Gives (inner.statements ends) fun found => ∀ c ∈ found, c.Everywhere P := by
  refine gives_collect (gives_token?.bind fun t _ => ?_) _
  split
  · exact .pure trivial
  · refine .ite (fun _ => .pure trivial) fun _ => (gives_accept _).bind fun _ _ => ?_
    exact .ite (fun _ => .pure trivial) fun _ => (h.parse .statement).bind fun c hc => .pure hc

theorem keeps_block : Gives inner.block (Everywhere P) := by
  refine (gives_demand _ _).bind fun _ _ => ?_
  refine (keeps_statements h _).bind fun found hfound => ?_
  refine (gives_demand _ _).bind fun _ _ => ?_
  exact (gives_spanFrom _).bind fun _ _ => .pure (h.node rfl hfound)

theorem keeps_function (needsName : Bool) : Gives (inner.function needsName) (Everywhere P) := by
  refine (gives_demand _ _).bind fun _ _ => ?_
  refine (gives_sees _).bind fun _ _ => ?_
  extract_lets rest
  have hrest : ∀ name : List ParseTree, (∀ c ∈ name, c.Everywhere P) →
      Gives (rest name) (Everywhere P) := by
    intro name hname
    refine (keeps_argumentList h (keeps_identifier h.common)).bind fun parameters hparameters => ?_
    refine (keeps_block h).bind fun body hbody => ?_
    refine (gives_spanFrom _).bind fun _ _ => .pure (h.node rfl ?_)
    refine List.forall_mem_append.2 ⟨hname, ?_⟩
    exact List.forall_mem_cons.2 ⟨hparameters, List.forall_mem_singleton.2 hbody⟩
  refine .ite (fun _ => ?_) fun _ => .ite (fun _ => .unexpected_bind) fun _ => hrest [] nofun
  have hname : Gives (leaf .identifier) (Everywhere P) := keeps_leaf h rfl
  exact hname.bind fun name hname => hrest [name] (List.forall_mem_singleton.2 hname)

theorem keeps_regexLiteral {s : Session} {token : Token} (hs : s.Coherent)
    (ht : s.token? = some token) (hopen : token.mayOpenRegex = true) :
    Leads regexLiteral s (fun t u => t.Everywhere P ∧ u.Coherent) fun _ _ => True := by
  have hcoherent := leads_regexLiteral hs ht hopen
  unfold Leads at hcoherent ⊢
  split
  · rename_i t u hok
    rw [hok] at hcoherent
    obtain ⟨l, cursor, -, -, rfl, -⟩ := regexLiteral_eq_ok hok
    exact ⟨h.node rfl nofun, hcoherent.2⟩
  · trivial

theorem keeps_primary : Gives inner.primary (Everywhere P) := by
  intro s hs
  simp only [primary, leads_bind, leads_token?]
  split
  · trivial
  · rename_i t ht
    split
    · rename_i kind hkind
      exact keeps_leaf h (Kind.isCommon_of_strength? (simpleKind?_strength hkind)) s hs
    · split
      · exact keeps_regexLiteral h hs ht rfl
      · exact keeps_regexLiteral h hs ht rfl
      · exact keeps_array h s hs
      · exact keeps_object h s hs
      · exact keeps_parenthesized h s hs
      · exact keeps_function h false s hs
      · trivial

theorem keeps_memberBase : Gives inner.memberBase (Everywhere P) := by
  refine (gives_sees _).bind fun _ _ => .ite (fun _ => ?_) fun _ => keeps_primary h
  refine gives_currentSpan.bind fun _ _ => ?_
  refine gives_advance.bind fun _ _ => ?_
  refine gives_enter.bind fun _ _ => ?_
  exact (h.parse _).thenLeaveIfOk.bind fun operand hoperand => .pure (h.unary rfl hoperand)

theorem keeps_memberName : Gives memberName (Everywhere P) := by
  refine gives_token?.bind fun t _ => ?_
  split
  · exact .ite (fun _ => keeps_leaf h rfl) fun _ => .unexpected
  · exact .unexpected

theorem keeps_suffix (object : ParseTree) (hobject : object.Everywhere P) :
    Gives (inner.suffix object) fun next => ∀ t ∈ next, t.Everywhere P := by
  have hnext : ∀ {kind span b}, kind.isCommon = true → Everywhere P b →
      ∀ t ∈ some (group kind span [object, b]), t.Everywhere P := by
    rintro kind span b hkind hb _ ⟨⟩
    exact h.binary hkind hobject hb
  refine gives_token?.bind fun t _ => ?_
  split
  · refine gives_advance.bind fun _ _ => ?_
    exact (keeps_memberName h).bind fun name hname => .pure (hnext rfl hname)
  · refine gives_advance.bind fun _ _ => ?_
    refine (keeps_expression h true).bind fun index hindex => ?_
    exact (gives_demand _ _).bind fun _ _ => .pure (hnext rfl hindex)
  · exact (keeps_argumentList h (h.parse _)).bind fun arguments harguments =>
      .pure (hnext rfl harguments)
  · exact .pure nofun

theorem keeps_leftHandSide : Gives inner.leftHandSide (Everywhere P) := by
  refine (keeps_memberBase h).bind fun base hbase => ?_
  exact gives_extend (keeps_suffix h) _ base hbase

theorem keeps_stepped : Gives inner.stepped (Everywhere P) := by
  refine (keeps_leftHandSide h).bind fun operand hoperand => ?_
  refine gives_lineBreakBefore.bind fun _ _ => ?_
  refine .ite (fun _ => .pure hoperand) fun _ => gives_token?.bind fun t _ => ?_
  split
  · exact .pure hoperand
  · rename_i kind hkind
    obtain ⟨t, -, hkind⟩ := Option.bind_eq_some_iff.1 hkind
    refine gives_currentText.bind fun _ _ => ?_
    refine gives_currentSpan.bind fun _ _ => gives_advance.bind fun _ _ => ?_
    exact .pure (h.unary (Kind.isCommon_of_strength? (postfixKind?_strength hkind)) hoperand)

theorem keeps_unary : Gives inner.unary (Everywhere P) := by
  refine gives_token?.bind fun t _ => ?_
  split
  · exact keeps_stepped h
  · rename_i kind hkind
    obtain ⟨t, -, hkind⟩ := Option.bind_eq_some_iff.1 hkind
    refine gives_currentSpan.bind fun _ _ => ?_
    refine gives_currentText.bind fun _ _ => ?_
    refine gives_advance.bind fun _ _ => gives_enter.bind fun _ _ => ?_
    refine (h.parse _).thenLeaveIfOk.bind fun operand hoperand => ?_
    exact .pure (h.unary (Kind.isCommon_of_strength? (unaryKind?_strength hkind)) hoperand)

theorem keeps_binaryStep (allowIn : Bool) (least : Nat) (left : ParseTree)
    (hleft : left.Everywhere P) :
    Gives (inner.binaryStep allowIn least left) fun next => ∀ t ∈ next, t.Everywhere P := by
  refine gives_token?.bind fun t _ => ?_
  split
  · exact .pure nofun
  · rename_i kind p hop
    obtain ⟨t, -, hop⟩ := Option.bind_eq_some_iff.1 hop
    refine .ite (fun _ => .pure nofun) fun _ => ?_
    refine gives_currentText.bind fun _ _ => ?_
    refine gives_advance.bind fun _ _ => gives_enter.bind fun _ _ => ?_
    refine (h.parse _).thenLeaveIfOk.bind fun right hright => .pure ?_
    rintro _ ⟨⟩
    exact h.binary (Kind.isCommon_of_strength? (binaryOperator?_strength hop)) hleft hright

theorem keeps_binary (allowIn : Bool) (least : Nat) :
    Gives (inner.binary allowIn least) (Everywhere P) :=
  (keeps_unary h).bind fun first hfirst =>
    gives_extend (keeps_binaryStep h allowIn least) _ first hfirst

theorem keeps_conditional (allowIn : Bool) : Gives (inner.conditional allowIn) (Everywhere P) := by
  refine (keeps_binary h allowIn 0).bind fun test htest => ?_
  refine (gives_accept _).bind fun _ _ => .ite (fun _ => ?_) fun _ => .pure htest
  refine (h.parse _).bind fun consequent hconsequent => ?_
  refine (gives_demand _ _).bind fun _ _ => ?_
  refine (h.parse _).bind fun alternate halternate => .pure (h.node rfl ?_)
  simpa using ⟨htest, hconsequent, halternate⟩

theorem keeps_assignment (allowIn : Bool) : Gives (inner.assignment allowIn) (Everywhere P) := by
  refine gives_enter.bind fun _ _ => Gives.thenLeave ?_
  refine (keeps_conditional h allowIn).bind fun target htarget => ?_
  refine gives_token?.bind fun t _ => ?_
  split
  · exact .pure htarget
  · rename_i kind hkind
    obtain ⟨t, -, hkind⟩ := Option.bind_eq_some_iff.1 hkind
    refine gives_currentText.bind fun _ _ => gives_advance.bind fun _ _ => ?_
    refine (h.parse _).bind fun value hvalue => ?_
    have hcommon := Kind.isCommon_of_strength? (assignmentKind?_strength hkind)
    exact .pure (h.binary hcommon htarget hvalue)

theorem keeps_condition : Gives inner.condition (Everywhere P) := by
  refine (gives_demand _ _).bind fun _ _ => ?_
  refine (keeps_expression h true).bind fun test htest => ?_
  exact (gives_demand _ _).bind fun _ _ => .pure htest

theorem keeps_declarator (allowIn : Bool) : Gives (inner.declarator allowIn) (Everywhere P) := by
  refine (keeps_identifier h.common).bind fun name hname => ?_
  refine (gives_sees _).bind fun _ _ => .ite (fun _ => ?_) fun _ => .pure hname
  refine gives_currentText.bind fun _ _ => gives_advance.bind fun _ _ => ?_
  exact (h.parse _).bind fun value hvalue => .pure (h.binary rfl hname hvalue)

theorem keeps_declarations (allowIn : Bool) :
    Gives (inner.declarations allowIn) (Everywhere P) := by
  refine (gives_demand _ _).bind fun _ _ => ?_
  refine (gives_commaSeparated (keeps_declarator h allowIn)).bind fun found hfound => ?_
  exact (gives_spanFrom _).bind fun _ _ => .pure (h.node rfl (List.forall_mem_cons.2 hfound))

theorem keeps_varStatement : Gives inner.varStatement (Everywhere P) :=
  (keeps_declarations h true).bind fun _ hvar => gives_endStatement.bind fun _ _ => .pure hvar

theorem keeps_doStatement : Gives inner.doStatement (Everywhere P) := by
  refine (gives_demand _ _).bind fun _ _ => ?_
  refine (h.parse _).bind fun body hbody => ?_
  refine (gives_demand _ _).bind fun _ _ => ?_
  refine (keeps_condition h).bind fun test htest => (gives_spanFrom _).bind fun _ _ => ?_
  exact (gives_accept _).bind fun _ _ => .pure (h.binary rfl hbody htest)

theorem keeps_whileStatement : Gives inner.whileStatement (Everywhere P) := by
  refine (gives_demand _ _).bind fun _ _ => ?_
  refine (keeps_condition h).bind fun test htest => ?_
  refine (h.parse _).bind fun body hbody => ?_
  exact (gives_spanFrom _).bind fun _ _ => .pure (h.binary rfl htest hbody)

theorem keeps_withStatement : Gives inner.withStatement (Everywhere P) := by
  refine (gives_demand _ _).bind fun _ _ => ?_
  refine (keeps_condition h).bind fun object hobject => ?_
  refine (h.parse _).bind fun body hbody => ?_
  exact (gives_spanFrom _).bind fun _ _ => .pure (h.binary rfl hobject hbody)

theorem keeps_emptyClause : Gives emptyClause (Everywhere P) :=
  gives_currentSpan.bind fun _ _ => .pure (h.node rfl nofun)

theorem keeps_clauseBefore (last : Punctuator) :
    Gives (inner.clauseBefore last) (Everywhere P) := by
  refine (gives_sees _).bind fun _ _ => .ite (fun _ => keeps_emptyClause h) fun _ => ?_
  exact (keeps_expression h true).bind fun e he => .pure (h.unary rfl he)

theorem keeps_stepHead (init : Option ParseTree) (hinit : ∀ t ∈ init, t.Everywhere P) :
    Gives (inner.stepHead start init) (Everywhere P) := by
  have hclauses : ∀ init : ParseTree, init.Everywhere P → Gives (do
      _ ← demandMark .semicolon
      let test ← inner.clauseBefore .semicolon
      _ ← demandMark .semicolon
      let update ← inner.clauseBefore .rightParen
      return .group .forStep (← spanFrom start) [init, test, update]) (Everywhere P) := by
    intro init hinit
    refine (gives_demand _ _).bind fun _ _ => ?_
    refine (keeps_clauseBefore h _).bind fun test htest => ?_
    refine (gives_demand _ _).bind fun _ _ => ?_
    refine (keeps_clauseBefore h _).bind fun update hupdate => ?_
    refine (gives_spanFrom _).bind fun _ _ => .pure (h.node rfl ?_)
    simpa using ⟨hinit, htest, hupdate⟩
  cases init with
  | none => exact (keeps_emptyClause h).bind hclauses
  | some init => exact hclauses _ (h.unary rfl (hinit init rfl))

theorem keeps_inHead (target : ParseTree) (htarget : target.Everywhere P) :
    Gives (inner.inHead start target) (Everywhere P) := by
  refine .ite (fun _ => .unexpected_bind) fun _ => gives_advance.bind fun _ _ => ?_
  refine (keeps_expression h true).bind fun object hobject => (gives_spanFrom _).bind fun _ _ => ?_
  exact .pure (h.binary rfl (h.unary rfl htarget) (h.unary rfl hobject))

theorem keeps_forHead : Gives inner.forHead (Everywhere P) := by
  refine gives_currentSpan.bind fun _ _ => gives_token?.bind fun t _ => ?_
  have htarget : ∀ (start : Nat) (target : ParseTree), target.Everywhere P → Gives (do
      if ← seesWord .«in» then inner.inHead start target
      else inner.stepHead start (some target)) (Everywhere P) := by
    intro start target htarget
    refine (gives_sees _).bind fun _ _ => .ite (fun _ => keeps_inHead h target htarget) fun _ => ?_
    exact keeps_stepHead h _ (by rintro _ ⟨⟩; exact htarget)
  split
  · exact keeps_stepHead h none nofun
  · refine Gives.bind (P := fun first => ∃ t, first = some t ∧ Everywhere P t)
      ((keeps_declarations h false).map fun t ht => ⟨t, rfl, ht⟩) ?_
    rintro _ ⟨t, rfl, ht⟩
    exact htarget _ t ht
  · refine Gives.bind (P := fun first => ∃ t, first = some t ∧ Everywhere P t)
      ((keeps_expression h false).map fun t ht => ⟨t, rfl, ht⟩) ?_
    rintro _ ⟨t, rfl, ht⟩
    exact htarget _ t ht

theorem keeps_forStatement : Gives inner.forStatement (Everywhere P) := by
  refine (gives_demand _ _).bind fun _ _ => (gives_demand _ _).bind fun _ _ => ?_
  refine (keeps_forHead h).bind fun head hhead => (gives_demand _ _).bind fun _ _ => ?_
  refine (h.parse _).bind fun body hbody => ?_
  exact (gives_spanFrom _).bind fun _ _ => .pure (h.binary rfl hhead hbody)

theorem keeps_jumpStatement (hkind : kind.isCommon = true) :
    Gives (jumpStatement kind) (Everywhere P) := by
  refine gives_currentSpan.bind fun _ _ => gives_currentText.bind fun _ _ => ?_
  refine gives_advance.bind fun _ _ => gives_get.bind fun _ _ => ?_
  extract_lets rest
  have hrest : ∀ label : List ParseTree, (∀ c ∈ label, c.Everywhere P) →
      Gives (rest label) (Everywhere P) := by
    intro label hlabel
    refine (gives_spanFrom _).bind fun _ _ => gives_endStatement.bind fun _ _ => ?_
    exact .pure (h.node hkind hlabel)
  refine .ite (fun _ => ?_) fun _ => hrest [] nofun
  have hname : Gives (leaf .identifier) (Everywhere P) := keeps_leaf h rfl
  exact hname.bind fun name hname => hrest [name] (List.forall_mem_singleton.2 hname)

theorem keeps_returnStatement : Gives inner.returnStatement (Everywhere P) := by
  refine (gives_demand _ _).bind fun _ _ => gives_get.bind fun _ _ => ?_
  extract_lets ended rest
  have hrest : ∀ value : List ParseTree, (∀ c ∈ value, c.Everywhere P) →
      Gives (rest value) (Everywhere P) := by
    intro value hvalue
    refine (gives_spanFrom _).bind fun _ _ => gives_endStatement.bind fun _ _ => ?_
    exact .pure (h.node rfl hvalue)
  refine .ite (fun _ => hrest [] nofun) fun _ => ?_
  exact (keeps_expression h true).bind fun value hvalue =>
    hrest [value] (List.forall_mem_singleton.2 hvalue)

theorem keeps_throwStatement : Gives inner.throwStatement (Everywhere P) := by
  refine (gives_demand _ _).bind fun _ _ => gives_lineBreakBefore.bind fun _ _ => ?_
  refine .ite (fun _ => .unexpected_bind) fun _ => ?_
  refine (keeps_expression h true).bind fun value hvalue => (gives_spanFrom _).bind fun _ _ => ?_
  exact gives_endStatement.bind fun _ _ => .pure (h.unary rfl hvalue)

theorem keeps_caseClause : Gives inner.caseClause (Everywhere P) := by
  refine (gives_demand _ _).bind fun _ _ => ?_
  refine (keeps_expression h true).bind fun test htest => (gives_demand _ _).bind fun _ _ => ?_
  refine (keeps_statements h _).bind fun body hbody => (gives_spanFrom _).bind fun _ _ => ?_
  exact .pure (h.node rfl (List.forall_mem_cons.2 ⟨htest, hbody⟩))

theorem keeps_defaultClause : Gives inner.defaultClause (Everywhere P) := by
  refine (gives_demand _ _).bind fun _ _ => (gives_demand _ _).bind fun _ _ => ?_
  refine (keeps_statements h _).bind fun body hbody => (gives_spanFrom _).bind fun _ _ => ?_
  exact .pure (h.node rfl hbody)

theorem keeps_clauses (hasDefault : Bool) (bound : Nat) :
    Gives (inner.clauses hasDefault bound) fun found => ∀ c ∈ found, c.Everywhere P := by
  induction bound generalizing hasDefault with
  | zero => exact .throw
  | succ bound ih =>
    refine gives_token?.bind fun t _ => ?_
    split
    · refine (keeps_caseClause h).bind fun clause hclause => ?_
      exact (ih _).bind fun others hothers => .pure (List.forall_mem_cons.2 ⟨hclause, hothers⟩)
    · refine .ite (fun _ => .unexpected) fun _ => ?_
      refine (keeps_defaultClause h).bind fun clause hclause => ?_
      exact (ih _).bind fun others hothers => .pure (List.forall_mem_cons.2 ⟨hclause, hothers⟩)
    · exact .pure nofun

theorem keeps_switchStatement : Gives inner.switchStatement (Everywhere P) := by
  refine (gives_demand _ _).bind fun _ _ => ?_
  refine (keeps_condition h).bind fun discriminant hdiscriminant => ?_
  refine (gives_demand _ _).bind fun _ _ => (keeps_clauses h _ _).bind fun clauses hclauses => ?_
  refine (gives_demand _ _).bind fun _ _ => (gives_spanFrom _).bind fun _ _ => ?_
  exact .pure (h.node rfl (List.forall_mem_cons.2 ⟨hdiscriminant, hclauses⟩))

theorem keeps_catchClause : Gives inner.catchClause (Everywhere P) := by
  refine (gives_demand _ _).bind fun _ _ => (gives_demand _ _).bind fun _ _ => ?_
  refine (keeps_identifier h.common).bind fun binding hbinding => ?_
  refine (gives_demand _ _).bind fun _ _ => (keeps_block h).bind fun body hbody => ?_
  exact (gives_spanFrom _).bind fun _ _ => .pure (h.binary rfl hbinding hbody)

theorem keeps_finallyClause : Gives inner.finallyClause (Everywhere P) := by
  refine (gives_demand _ _).bind fun _ _ => (keeps_block h).bind fun body hbody => ?_
  exact (gives_spanFrom _).bind fun _ _ => .pure (h.unary rfl hbody)

theorem keeps_tryStatement : Gives inner.tryStatement (Everywhere P) := by
  refine (gives_demand _ _).bind fun _ _ => (keeps_block h).bind fun body hbody => ?_
  refine (gives_sees _).bind fun _ _ => ?_
  extract_lets afterHandler
  have hafter : ∀ handler : List ParseTree, (∀ c ∈ handler, c.Everywhere P) →
      Gives (afterHandler handler) (Everywhere P) := by
    intro handler hhandler
    refine (gives_sees _).bind fun _ _ => ?_
    extract_lets afterCleanup
    have hend : ∀ cleanup : List ParseTree, (∀ c ∈ cleanup, c.Everywhere P) →
        Gives (afterCleanup cleanup) (Everywhere P) := by
      intro cleanup hcleanup
      refine .ite (fun _ => .unexpected_bind) fun _ => (gives_spanFrom _).bind fun _ _ => ?_
      refine .pure (h.node rfl (List.forall_mem_cons.2 ⟨hbody, ?_⟩))
      exact List.forall_mem_append.2 ⟨hhandler, hcleanup⟩
    refine .ite (fun _ => ?_) fun _ => hend [] nofun
    exact (keeps_finallyClause h).bind fun c hc => hend [c] (List.forall_mem_singleton.2 hc)
  refine .ite (fun _ => ?_) fun _ => hafter [] nofun
  exact (keeps_catchClause h).bind fun c hc => hafter [c] (List.forall_mem_singleton.2 hc)

theorem keeps_expressionStatement : Gives inner.expressionStatement (Everywhere P) := by
  have hexpression : Gives (inner.expressionOf (inner.assignment true)) (Everywhere P) := by
    refine (gives_commaSeparated (keeps_assignment h true)).bind fun found hfound => ?_
    refine .ite (fun _ => .pure hfound.1) fun _ => (gives_spanFrom _).bind fun _ _ => ?_
    exact .pure (h.node rfl (List.forall_mem_cons.2 hfound))
  refine hexpression.bind fun e he => (gives_sees _).bind fun _ _ => .ite (fun _ => ?_) fun _ => ?_
  · refine gives_advance.bind fun _ _ => ?_
    exact (h.parse _).bind fun body hbody => .pure (h.binary rfl he hbody)
  · exact gives_endStatement.bind fun _ _ => .pure (h.unary rfl he)

theorem keeps_emptyStatement : Gives emptyStatement (Everywhere P) :=
  gives_currentSpan.bind fun _ _ => gives_advance.bind fun _ _ => .pure (h.node rfl nofun)

theorem keeps_debuggerStatement : Gives debuggerStatement (Everywhere P) := by
  have hnode : Gives (leaf .debugger) (Everywhere P) := keeps_leaf h rfl
  exact hnode.bind fun node hnode => gives_endStatement.bind fun _ _ => .pure hnode

/-- If `P` holds of all nodes of `if` statements too, nothing more is to be shown of them. -/
theorem keeps_ifStatement (hif : ∀ t : ParseTree, t.kind = .«if» → P t) :
    Gives inner.ifStatement (Everywhere P) := by
  refine (gives_demand _ _).bind fun _ _ => (keeps_condition h).bind fun test htest => ?_
  refine (h.parse _).bind fun consequent hconsequent => ?_
  refine (gives_accept _).bind fun _ _ => ?_
  extract_lets rest
  have hrest : ∀ alternate : List ParseTree, (∀ c ∈ alternate, c.Everywhere P) →
      Gives (rest alternate) (Everywhere P) := by
    intro alternate halternate
    refine (gives_spanFrom _).bind fun _ _ => .pure (.intro (hif _ rfl) ?_)
    exact List.forall_mem_cons.2 ⟨htest, List.forall_mem_cons.2 ⟨hconsequent, halternate⟩⟩
  refine .ite (fun _ => ?_) fun _ => hrest [] nofun
  exact (h.parse _).bind fun c hc => hrest [c] (List.forall_mem_singleton.2 hc)

variable (hif : Gives inner.ifStatement (Everywhere P))
include hif

theorem keeps_longStatement (token : Option Token) :
    Gives (inner.longStatement token) (Everywhere P) := by
  unfold longStatement
  split
  · exact keeps_block h
  · exact keeps_varStatement h
  · exact hif
  · exact keeps_doStatement h
  · exact keeps_whileStatement h
  · exact keeps_forStatement h
  · exact keeps_jumpStatement h rfl
  · exact keeps_jumpStatement h rfl
  · exact keeps_returnStatement h
  · exact keeps_withStatement h
  · exact keeps_switchStatement h
  · exact keeps_throwStatement h
  · exact keeps_tryStatement h
  · exact keeps_function h true
  · exact keeps_expressionStatement h

theorem keeps_production (goal : Goal) : Gives (inner.production goal) (Everywhere P) := by
  cases goal with
  | statement =>
    refine gives_enter.bind fun _ _ => gives_token?.bind fun t _ => ?_
    split
    · exact (keeps_emptyStatement h).thenLeaveIfOk
    · exact (keeps_debuggerStatement h).thenLeaveIfOk
    · exact (keeps_longStatement h hif _).thenLeave
  | assignment allowIn => exact keeps_assignment h allowIn
  | binary allowIn least => exact keeps_binary h allowIn least
  | unary => exact keeps_unary h
  | memberBase => exact keeps_memberBase h

end Inner

variable (hcommon : ∀ t : ParseTree, t.kind.isCommon = true → P t)
  (hproperty : ∀ inner : Inner, (∀ goal, Gives (inner.parse goal) (Everywhere P)) →
    Gives inner.property (Turn.Has (Everywhere P)))
  (hif : ∀ bound count, Inner.Keeps P ⟨count, parseWithin bound⟩ →
    Gives (Inner.ifStatement ⟨count, parseWithin bound⟩) (Everywhere P))
include hcommon hproperty hif

theorem parseWithin_keeps (bound count : Nat) : Inner.Keeps P ⟨count, parseWithin bound⟩ := by
  induction bound generalizing count with
  | zero => exact ⟨hcommon, fun _ => .throw, hproperty _ fun _ => .throw⟩
  | succ bound ih =>
    have hinner := ih (bound + 1)
    have hparse := Inner.keeps_production hinner (hif bound (bound + 1) hinner)
    exact ⟨hcommon, hparse, hproperty _ hparse⟩

theorem gives_program_everywhere :
    Gives ParserM.program fun root => ∀ t ∈ root, t.Everywhere P := by
  refine gives_get.bind fun s _ => ?_
  have hkeeps := parseWithin_keeps hcommon hproperty hif (s.cursor.rest.length + 2)
    (s.cursor.rest.length + 2)
  refine (Inner.keeps_statements hkeeps _).bind fun found hfound => ?_
  match found with
  | [] => exact .pure nofun
  | [only] => exact .pure (by rintro t ⟨⟩; exact hfound only (by simp))
  | first :: second :: others =>
    refine gives_get.bind fun u _ => .pure ?_
    rintro t ⟨⟩
    exact hkeeps.node rfl hfound

/-- What every common node has is everywhere in the tree of a source, if it is everywhere in each
entry of an object and each `if` statement that is read. -/
theorem parse_everywhere {limit : Nat} {source : String} {root : ParseTree}
    (hroot : parse limit source = .ok (some root)) : root.Everywhere P :=
  parse_of_gives (gives_program_everywhere hcommon hproperty hif) hroot

end Grammar
end Ecma3
