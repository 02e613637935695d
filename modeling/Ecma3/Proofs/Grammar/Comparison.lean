import Ecma3.Grammar.Program
import Ecma3.Proofs.Grammar.Run
import Ecma3.Proofs.Grammar.Leaf
import Ecma3.Proofs.ParseTree.Levels

/-!
Comparisons of two runs of a parser, errors included.

The runs may differ in their limits and in their texts. Their sessions match step by step until
something comes between them: the second run refuses a level that the first one takes, the text ends
for the first run alone, or a lexeme of the second run reaches further. What is known of the second
run is said up to there, and a ledger of the first run tells whether it has come to that.
-/
namespace Ecma3

open Grammar

/-- Tokens that neither end a statement nor can be taken for the beginning of a comment. -/
def Token.isOrdinary : Token → Bool
  | .punctuator .semicolon | .punctuator .slash => false
  | _ => true

/-- Some of the tokens that neither statements nor operands begin with. -/
def Token.isBarred : Token → Bool
  | .punctuator .star | .punctuator .starAssign | .reserved .«else» => true
  | _ => false

theorem Token.eq_of_isBarred {t : Token} (h : t.isBarred = true) :
    t = .punctuator .star ∨ t = .punctuator .starAssign ∨ t = .reserved .«else» := by
  unfold isBarred at h
  split at h
  · exact Or.inl rfl
  · exact Or.inr (Or.inl rfl)
  · exact Or.inr (Or.inr rfl)
  · cases h

namespace Grammar
open ParserM ParseTree

variable {α β : Type}

/-- The parser for the operand that must follow an operator or `new`. -/
inductive OperandParser : Token → ParserM ParseTree → Prop where
  | new (bound : Nat) : OperandParser (.reserved .new) (parseWithin bound .memberBase)
  | unary {t : Token} {kind : Kind} (h : unaryKind? t = some kind) (bound : Nat) :
    OperandParser t (parseWithin bound .unary)
  | binary {t : Token} {allowIn : Bool} {kind : Kind} {precedence : Nat}
    (h : binaryOperator? allowIn t = some (kind, precedence)) (bound : Nat) :
    OperandParser t (parseWithin bound (.binary allowIn (precedence + 1)))

/-- From `s` on, `w` is where a parser begins one level deeper, which comes back up only if it
succeeds: that of an operand, or of a statement that is a lone semicolon or `debugger`. -/
inductive Session.Opens (s : Session) : ParserM ParseTree → Session → Prop where
  | operand {t : Token} {p : ParserM ParseTree} {v w : Session} (ht : s.token? = some t)
    (hp : OperandParser t p) (hv : ParserM.advance s = .ok () v) (hw : ParserM.enter v = .ok () w) :
    s.Opens p w
  | empty {w : Session} (ht : s.token? = some (.punctuator .semicolon))
    (hw : ParserM.enter s = .ok () w) : s.Opens Inner.emptyStatement w
  | debugger {w : Session} (ht : s.token? = some (.reserved .debugger))
    (hw : ParserM.enter s = .ok () w) : s.Opens Inner.debuggerStatement w

/-- What is known where the first run is at the end of its text and the second one goes on. -/
structure Comparison.AtEnd (shift : Nat) (Ended : Nat → Session → Session → Prop)
    (Fails : Nat → SyntaxError → Session → Prop) : Prop where
  current {n s s'} : Ended n s s' → s.current = none
  notElse {n s s'} : Ended n s s' → s'.token? ≠ some (.reserved .«else»)
  lastEnd {n s s'} : Ended n s s' → s'.lastEnd = s.lastEnd + shift
  leave {n s s'} : Ended (n + 1) s s' →
    Ended n { s with depth := s.depth - 1 } { s' with depth := s'.depth - 1 }
  fails {n m s s' x t} : Ended n s s' → Fails m x t

/-- What is known where the runs have different lexemes. -/
structure Comparison.OutOfStep (Stuck : Session → Prop) (Lost : Nat → List ParseTree → Prop)
    (Fails : Nat → SyntaxError → Session → Prop) : Prop where
  depth {s} : Stuck s → ∀ depth, Stuck { s with depth }
  token {s t} : Stuck s → s.token? = some t → t = .punctuator .slash
  advance {s u} : Stuck s → s.current.isSome → ParserM.advance s = .ok () u →
    ∃ t, u.token? = some t ∧ t.isBarred = true
  regex {s tree u} : Stuck s → s.current.isSome → regexLiteral s = .ok tree u →
    Lost 0 tree.atoms
  fails {s m x t} : Stuck s → Fails m x t

theorem Comparison.AtEnd.never {shift : Nat} {Fails : Nat → SyntaxError → Session → Prop} :
    AtEnd shift (fun _ _ _ => False) Fails :=
  ⟨False.elim, False.elim, False.elim, False.elim, False.elim⟩

theorem Comparison.OutOfStep.never {Lost : Nat → List ParseTree → Prop}
    {Fails : Nat → SyntaxError → Session → Prop} : OutOfStep (fun _ => False) Lost Fails :=
  ⟨False.elim, False.elim, False.elim, False.elim, False.elim⟩

/-- Two runs of parsers, the second of which has all its places further on in its text. -/
structure Comparison where
  /-- The sessions match at this level of nesting. Less is said of them before a token is passed. -/
  Rel : (moved : Bool) → (level : Nat) → Session → Session → Prop
  /-- The first run is at the end of its text, behind a semicolon, and the second one goes on. -/
  Ended : (level : Nat) → Session → Session → Prop
  /-- The lexemes of the runs are not the same any more. -/
  Stuck : Session → Prop
  /-- The first run has gone this deep or has kept such atoms that the second one is lost. -/
  Lost : Nat → List ParseTree → Prop
  /-- Errors of the first run of which nothing is said but this. -/
  Fails : (level : Nat) → SyntaxError → Session → Prop
  /-- The second run comes to the other errors as well. -/
  common : Prop
  shift : Nat
  matched {moved n s s'} : Rel true n s s' → Rel moved n s s'
  token {moved n s s'} : Rel moved n s s' → s'.token? = s.token?
  text {moved n s s'} : Rel moved n s s' → s'.text = s.text
  start {moved n s s'} : Rel moved n s s' → s'.span.start = s.span.start + shift
  stop {moved n s s'} : Rel moved n s s' → s'.span.stop = s.span.stop + shift
  lastEnd {n s s'} : Rel true n s s' → s'.lastEnd = s.lastEnd + shift
  lineBreak {n s s'} : Rel true n s s' → s'.lineBreakBefore = s.lineBreakBefore
  refused {moved n s s'} : Rel moved n s s' →
    (∀ expected found, Fails n (.unexpected expected found s.span) s) ∨ common ∧ shift = 0
  advance_ok {moved n s s' t u} : Rel moved n s s' → s.token? = some t →
    ParserM.advance s = .ok () u → Stuck u ∨ ∃ u', ParserM.advance s' = .ok () u' ∧
      (Rel true n u u' ∨ t = .punctuator .semicolon ∧ Ended n u u')
  advance_error {moved n s s' t x u} : Rel moved n s s' → s.token? = some t →
    ParserM.advance s = .error x u →
      Fails n x u ∨ common ∧ ∃ u', ParserM.advance s' = .error x u'
  regex_ok {moved n s s' t tree u} : Rel moved n s s' → s.token? = some t →
    t.mayOpenRegex = true → regexLiteral s = .ok tree u → Lost 0 tree.atoms ∨ Stuck u ∨
      ∃ u', regexLiteral s' = .ok (tree.relocate (· + shift)) u' ∧ Rel true n u u'
  regex_error {moved n s s' t x u} : Rel moved n s s' → s.token? = some t →
    t.mayOpenRegex = true → regexLiteral s = .error x u →
      Fails n x u ∨ common ∧ ∃ u', regexLiteral s' = .error x u'
  enter_ok {moved n s s' u} : Rel moved n s s' → ParserM.enter s = .ok () u →
    Lost (n + 1) [] ∨ ∃ u', ParserM.enter s' = .ok () u' ∧ Rel moved (n + 1) u u'
  enter_error {moved n s s' x u} : Rel moved n s s' → ParserM.enter s = .error x u →
    Fails n x u ∨ common ∧ ∃ u', ParserM.enter s' = .error x u'
  leave {moved n s s'} : Rel moved (n + 1) s s' →
    Rel moved n { s with depth := s.depth - 1 } { s' with depth := s'.depth - 1 }
  leave_fails {n x s} : Fails (n + 1) x s → Fails n x { s with depth := s.depth - 1 }
  /-- A level that is not given back. -/
  leak {moved n s s' p w x u} : Rel moved n s s' → s.Opens p w → p w = .error x u →
    Fails (n + 1) x u → Fails n x u
  ended : Comparison.AtEnd shift Ended Fails
  stuck : Comparison.OutOfStep Stuck Lost Fails
  lost_mono {m n L M} : Lost m L → m ≤ n → L ⊆ M → Lost n M
  lost_fails {m L n x t} : Lost m L → Fails n x t

/-- What the first run has done from some point on: the atoms it has kept, the deepest level it has
come to, whether it has passed a token, whether it may be at its end behind a semicolon, and the
current token if it is known. -/
structure Ledger where
  atoms : List ParseTree
  deepest : Nat
  moved : Bool
  past : Bool
  next : Option Token

namespace Ledger

variable {c d : Ledger} {k : Nat} {t : ParseTree} {ts : List ParseTree} {token : Option Token}

/-- The ledger once the current token has been looked at. -/
def seeing (c : Ledger) (token : Option Token) : Ledger := { c with next := token }

/-- The ledger where the first run is not at its end. -/
def going (c : Ledger) : Ledger := { c with past := false }

/-- The ledger after a token that leaves nothing. -/
def passing (c : Ledger) : Ledger := { c with moved := true, past := false, next := none }

/-- The ledger after a tree that begins at level `k`. -/
def keeping (c : Ledger) (k : Nat) (t : ParseTree) : Ledger :=
  ⟨c.atoms ++ t.atoms, max c.deepest (k + t.inside), true, false, none⟩

/-- The ledger after any number of trees. -/
def keepingAll (c : Ledger) (k : Nat) (ts : List ParseTree) : Ledger :=
  ⟨c.atoms ++ ts.flatMap ParseTree.atoms, max c.deepest (ParseTree.deepest k ts),
    c.moved || !ts.isEmpty, false, none⟩

/-- The ledger where the first run may be at its end. -/
def ending (c : Ledger) : Ledger := { c with past := true, next := none }

/-- The current token is the one the ledger knows. -/
def Sees (c : Ledger) (s : Session) : Prop := ∀ t, c.next = some t → s.token? = some t

@[simp] theorem seeing_atoms : (c.seeing token).atoms = c.atoms := rfl

@[simp] theorem seeing_deepest : (c.seeing token).deepest = c.deepest := rfl

@[simp] theorem seeing_moved : (c.seeing token).moved = c.moved := rfl

@[simp] theorem seeing_past : (c.seeing token).past = c.past := rfl

@[simp] theorem passing_atoms : c.passing.atoms = c.atoms := rfl

@[simp] theorem passing_deepest : c.passing.deepest = c.deepest := rfl

@[simp] theorem passing_moved : c.passing.moved = true := rfl

@[simp] theorem passing_past : c.passing.past = false := rfl

@[simp] theorem keeping_atoms : (c.keeping k t).atoms = c.atoms ++ t.atoms := rfl

@[simp] theorem keeping_deepest : (c.keeping k t).deepest = max c.deepest (k + t.inside) := rfl

@[simp] theorem keeping_moved : (c.keeping k t).moved = true := rfl

@[simp] theorem keeping_past : (c.keeping k t).past = false := rfl

@[simp] theorem keepingAll_atoms :
    (c.keepingAll k ts).atoms = c.atoms ++ ts.flatMap ParseTree.atoms := rfl

@[simp] theorem keepingAll_deepest :
    (c.keepingAll k ts).deepest = max c.deepest (ParseTree.deepest k ts) := rfl

@[simp] theorem keepingAll_moved :
    (c.keepingAll k ts).moved = (c.moved || !ts.isEmpty) := rfl

@[simp] theorem keepingAll_past : (c.keepingAll k ts).past = false := rfl

@[simp] theorem ending_atoms : c.ending.atoms = c.atoms := rfl

@[simp] theorem ending_deepest : c.ending.deepest = c.deepest := rfl

@[simp] theorem ending_moved : c.ending.moved = c.moved := rfl

theorem le_keeping : k ≤ (c.keeping k t).deepest := by
  rw [keeping_deepest]
  omega

/-- Trees that stand side by side in a node go no deeper than the node. -/
theorem keepingAll_deepest_le {kind : Kind} {text : String} {span : Span} {n : Nat}
    (hfirst : k = n + kind.firstCost) (hrest : k = n + kind.restCost) :
    (c.keepingAll k ts).deepest ≤ max c.deepest (n + inside ⟨kind, text, span, ts⟩) := by
  have hle : ParseTree.deepest k ts ≤ n + inside ⟨kind, text, span, ts⟩ :=
    deepest_le_inside hfirst hrest
  rw [keepingAll_deepest]
  omega

/-- The ledger `c` says at least what `d` says, and keeps nothing that `d` does not. -/
structure Covers (c d : Ledger) : Prop where
  atoms : c.atoms ⊆ d.atoms
  deepest : c.deepest ≤ d.deepest
  moved : d.moved = true → c.moved = true
  past : c.past = true → d.past = true
  next : ∀ t, d.next = some t → c.next = some t

theorem Covers.sees {s : Session} (h : c.Covers d) (hs : c.Sees s) : d.Sees s :=
  fun t ht => hs t (h.next t ht)

theorem Covers.refl : c.Covers c :=
  ⟨List.Subset.refl _, Nat.le_refl _, id, id, fun _ => id⟩

@[simp] theorem covers_keeping : d.Covers (c.keeping k t) ↔ d.atoms ⊆ c.atoms ++ t.atoms ∧
    d.deepest ≤ max c.deepest (k + t.inside) ∧ d.moved = true ∧ d.past = false :=
  ⟨fun h => ⟨h.atoms, h.deepest, h.moved rfl, by simpa using h.past⟩,
    fun h => ⟨h.1, h.2.1, fun _ => h.2.2.1, by simp [h.2.2.2], nofun⟩⟩

@[simp] theorem covers_keepingAll : d.Covers (c.keepingAll k ts) ↔
    d.atoms ⊆ c.atoms ++ ts.flatMap ParseTree.atoms ∧
    d.deepest ≤ max c.deepest (ParseTree.deepest k ts) ∧
    ((c.moved || !ts.isEmpty) = true → d.moved = true) ∧ d.past = false :=
  ⟨fun h => ⟨h.atoms, h.deepest, h.moved, by simpa using h.past⟩,
    fun h => ⟨h.1, h.2.1, h.2.2.1, by simp [h.2.2.2], nofun⟩⟩

/-- A new token is not known yet. -/
theorem sees_of_none {s : Session} (h : c.next = none) : c.Sees s := fun t ht => by simp [h] at ht

theorem covers_unseen : c.Covers (c.seeing none) :=
  ⟨List.Subset.refl _, Nat.le_refl _, id, id, fun t ht => by cases ht⟩

end Ledger

namespace Comparison

variable {R : Comparison} {c d : Ledger} {n k : Nat} {s s' : Session}

/-- A place of the first run in the text of the second one. -/
def place (R : Comparison) (span : Span) : Span := ⟨span.start + R.shift, span.stop + R.shift⟩

/-- A tree of the first run as the second one gives it. -/
def tree (R : Comparison) : ParseTree → ParseTree := relocate (· + R.shift)

/-- The first run is at its end behind a semicolon, at whatever level. -/
def Gone (R : Comparison) (s : Session) : Prop :=
  ∃ n s' depth, R.Ended n { s with depth } s'

theorem Gone.current (h : R.Gone s) : s.current = none := by
  obtain ⟨_, _, depth, hended⟩ := h
  exact R.ended.current (s := { s with depth }) hended

theorem nested_outOfStep (R : Comparison) :
    OutOfStep (fun s => R.Stuck s ∨ R.Gone s) R.Lost R.Fails where
  depth h depth := h.imp (fun hstuck => R.stuck.depth hstuck depth)
    fun ⟨n, s', depth, hended⟩ => ⟨n, s', depth, hended⟩
  token h ht := h.elim (fun hstuck => R.stuck.token hstuck ht) fun hgone => by
    simp [Session.token?, hgone.current] at ht
  advance h hs := h.elim (fun hstuck => R.stuck.advance hstuck hs) fun hgone => by
    simp [hgone.current] at hs
  regex h hs := h.elim (fun hstuck => R.stuck.regex hstuck hs) fun hgone => by
    simp [hgone.current] at hs
  fails h := h.elim R.stuck.fails fun ⟨_, _, _, hended⟩ => R.ended.fails hended

/-- The same comparison inside brackets, where the end of the first text leads nowhere. -/
def nested (R : Comparison) : Comparison :=
  { R with
    Ended := fun _ _ _ => False
    Stuck := fun s => R.Stuck s ∨ R.Gone s
    advance_ok := by
      intro moved n s s' t u h ht hu
      rcases R.advance_ok h ht hu with hstuck | ⟨u', hu', hrel | ⟨-, hended⟩⟩
      · exact Or.inl (Or.inl hstuck)
      · exact Or.inr ⟨u', hu', Or.inl hrel⟩
      · exact Or.inl (Or.inr ⟨_, _, _, hended⟩)
    regex_ok := fun h ht hopen hu => (R.regex_ok h ht hopen hu).imp_right fun h => h.imp_left Or.inl
    ended := .never
    stuck := R.nested_outOfStep }

/-- Nothing more is said of the second run. -/
def Over (R : Comparison) (c : Ledger) (s : Session) : Prop :=
  R.Lost c.deepest c.atoms ∨ R.Stuck s

/-- The sessions match as far as the ledger says. -/
def Meets (R : Comparison) (c : Ledger) (n : Nat) (s s' : Session) : Prop :=
  R.Rel c.moved n s s' ∨ c.past = true ∧ R.Ended n s s'

/-- What the outcome of the first run tells about the one of the second: the same result, unless the
comparison is over, or the same error. Only the bounds may make the first run endless. -/
structure Follows (R : Comparison) (n : Nat) (after : α → Ledger) (g : α → α)
    (r r' : EStateM.Result SyntaxError Session α) : Prop where
  ok : ∀ {a t}, r = .ok a t →
    R.Over (after a) t ∨ ∃ t', r' = .ok (g a) t' ∧ R.Meets (after a) n t t'
  error : ∀ {x t}, r = .error x t →
    x = .endless ∨ R.Fails n x t ∨ R.common ∧ ∃ t', r' = .error x t'

theorem place_eq (h : R.shift = 0) (span : Span) : R.place span = span := by
  simp [place, h]

theorem Over.fails (h : R.Over c s) {x : SyntaxError} {t : Session} : R.Fails n x t := by
  rcases h with h | h
  · exact R.lost_fails h
  · exact R.stuck.fails h

theorem Over.mono (h : R.Over c s) (hd : c.Covers d) : R.Over d s :=
  h.imp_left fun hlost => R.lost_mono hlost hd.deepest hd.atoms

theorem Over.withDepth (h : R.Over c s) (depth : Nat) : R.Over c { s with depth } :=
  h.imp_right fun hstuck => R.stuck.depth hstuck depth

theorem Meets.mono (h : R.Meets c n s s') (hd : c.Covers d) : R.Meets d n s s' := by
  refine h.imp (fun hrel => ?_) fun hended => ⟨hd.past hended.1, hended.2⟩
  cases hmoved : d.moved with
  | true =>
    rw [hd.moved hmoved] at hrel
    exact hrel
  | false =>
    cases hc : c.moved with
    | true =>
      rw [hc] at hrel
      exact R.matched hrel
    | false =>
      rw [hc] at hrel
      exact hrel

theorem Meets.rel (h : R.Meets c n s s') (hpast : c.past = false) : R.Rel c.moved n s s' := by
  rcases h with h | ⟨hpast', -⟩
  · exact h
  · simp [hpast] at hpast'

theorem Meets.leave (h : R.Meets c (n + 1) s s') :
    R.Meets c n { s with depth := s.depth - 1 } { s' with depth := s'.depth - 1 } :=
  h.imp R.leave fun hended => ⟨hended.1, R.ended.leave hended.2⟩

end Comparison

/-- From the ledger `c` the first parser comes to the ledger `after` of what it returns, and what it
returns tells what the second one does. -/
structure Carries (R : Comparison) (n : Nat) (c : Ledger) (p p' : ParserM α) (after : α → Ledger)
    (g : α → α) : Prop where
  sees : ∀ {s a t}, c.Sees s → p s = .ok a t → (after a).Sees t
  stays : ∀ {s a t}, c.Sees s → R.Over c s → p s = .ok a t → R.Over (after a) t
  follow : ∀ {s s'}, c.Sees s → R.Meets c n s s' → R.Follows n after g (p s) (p' s')

namespace Carries

variable {R : Comparison} {n : Nat} {c : Ledger} {p p' q q' : ParserM α} {f f' : α → ParserM β}
  {mid after : α → Ledger} {last : β → Ledger} {g : α → α} {g' : β → β}

theorem pure {a a' : α} (ha : a' = g a) (hc : c.Covers (after a)) :
    Carries R n c (pure a) (pure a') after g := by
  refine ⟨fun hs h => ?_, fun _ hover h => ?_, fun {s s'} _ hmeets => ⟨fun h => ?_, fun h => ?_⟩⟩
  · cases h
    exact hc.sees hs
  · cases h
    exact hover.mono hc
  · cases h
    exact Or.inr ⟨s', by rw [ha]; rfl, hmeets.mono hc⟩
  · cases h

theorem bind (hp : Carries R n c p p' mid g)
    (hf : ∀ a, Carries R n (mid a) (f a) (f' (g a)) last g') :
    Carries R n c (p >>= f) (p' >>= f') last g' := by
  refine ⟨fun hs h => ?_, fun hs hover h => ?_, fun hs hmeets => ⟨fun h => ?_, fun {x t} h => ?_⟩⟩
  · obtain ⟨a, u, ha, h⟩ := of_bind_eq_ok h
    exact (hf a).sees (hp.sees hs ha) h
  · obtain ⟨a, u, ha, h⟩ := of_bind_eq_ok h
    exact (hf a).stays (hp.sees hs ha) (hp.stays hs hover ha) h
  · obtain ⟨a, u, ha, h⟩ := of_bind_eq_ok h
    have hu := hp.sees hs ha
    rcases (hp.follow hs hmeets).ok ha with hover | ⟨u', ha', hmeets'⟩
    · exact Or.inl ((hf a).stays hu hover h)
    · rw [bind_of_ok ha']
      exact ((hf a).follow hu hmeets').ok h
  · cases hr : p _ with
    | ok a u =>
      rw [bind_of_ok hr] at h
      rcases (hp.follow hs hmeets).ok hr with hover | ⟨u', ha', hmeets'⟩
      · cases hx : f a u with
        | ok b v => simp [hx] at h
        | error y v => exact Or.inr (Or.inl hover.fails)
      · rw [bind_of_ok ha']
        exact ((hf a).follow (hp.sees hs hr) hmeets').error h
    | error y u =>
      rw [bind_of_error hr] at h
      cases h
      refine ((hp.follow hs hmeets).error hr).imp_right fun h => h.imp_right fun h => ⟨h.1, ?_⟩
      obtain ⟨u', hu'⟩ := h.2
      exact ⟨u', bind_of_error hu'⟩

/-- A first step that gives the same in both runs. -/
theorem bind_same (hp : Carries R n c p p' mid id)
    (hf : ∀ a, Carries R n (mid a) (f a) (f' a) last g') :
    Carries R n c (p >>= f) (p' >>= f') last g' := hp.bind hf

theorem mono (h : Carries R n c p p' mid g) (hc : ∀ a, (mid a).Covers (after a)) :
    Carries R n c p p' after g := by
  refine ⟨fun hs ha => (hc _).sees (h.sees hs ha),
    fun hs hover ha => (h.stays hs hover ha).mono (hc _),
    fun hs hmeets => ⟨fun ha => ?_, (h.follow hs hmeets).error⟩⟩
  refine ((h.follow hs hmeets).ok ha).imp (fun hover => hover.mono (hc _)) ?_
  rintro ⟨t', ht', hmeets'⟩
  exact ⟨t', ht', hmeets'.mono (hc _)⟩

/-- The ledger may say more than the parsers need. -/
theorem of_covers {d : Ledger} (h : Carries R n d p p' after g) (hd : c.Covers d) :
    Carries R n c p p' after g :=
  ⟨fun hs => h.sees (hd.sees hs), fun hs hover => h.stays (hd.sees hs) (hover.mono hd),
    fun hs hmeets => h.follow (hd.sees hs) (hmeets.mono hd)⟩

/-- A first run that never comes to its end behind a semicolon is not there. -/
theorem settle (h : Carries R n c p p' (fun a => (after a).ending) g)
    (hended : ∀ n s s', ¬R.Ended n s s') (hnext : ∀ a, (after a).next = none) :
    Carries R n c p p' after g := by
  refine ⟨fun _ _ => Ledger.sees_of_none (hnext _), h.stays,
    fun hs hmeets => ⟨fun ha => ?_, (h.follow hs hmeets).error⟩⟩
  refine ((h.follow hs hmeets).ok ha).imp_right fun ⟨t', ht', hmeets'⟩ => ⟨t', ht', ?_⟩
  exact hmeets'.imp_right fun h => (hended _ _ _ h.2).elim

theorem ite {b : Prop} [Decidable b] (hp : b → Carries R n c p p' after g)
    (hq : ¬b → Carries R n c q q' after g) :
    Carries R n c (if b then p else q) (if b then p' else q') after g := by
  split
  · exact hp ‹_›
  · exact hq ‹_›

/-- A parser that only looks at the session. -/
theorem look (h h' : Session → α) (hp : ∀ s, p s = .ok (h s) s) (hp' : ∀ s, p' s = .ok (h' s) s)
    (hsees : ∀ s, c.Sees s → (after (h s)).Sees s) (hc : ∀ s, c.Covers ((after (h s)).seeing none))
    (hg : ∀ s s', R.Meets c n s s' → h' s' = g (h s)) : Carries R n c p p' after g := by
  refine ⟨fun hs ha => ?_, fun {s a t} _ hover ha => ?_,
    fun {s s'} _ hmeets => ⟨fun ha => ?_, fun ha => ?_⟩⟩
  all_goals rw [hp] at ha; cases ha
  · exact hsees _ hs
  · have hover' : R.Over ((after (h s)).seeing none) s := hover.mono (hc s)
    exact hover'
  · have hmeets' : R.Meets ((after (h s)).seeing none) n s s' := hmeets.mono (hc s)
    exact Or.inr ⟨s', by rw [hp', hg s s' hmeets], hmeets'⟩

end Carries

end Grammar
end Ecma3
