import Ecma3.Proofs.Grammar.Append.Before
import Ecma3.Proofs.Grammar.BareIn
import Ecma3.Proofs.Token.Gap

/-!
What the nodes of a tree say about the text that it comes from: that their places lie one inside the
other and one behind the other, and where lines end and statements are closed.
-/
namespace Ecma3

open Text (byteLength isLineTerminator IsSlice)

namespace Text

variable {source xs ys : List Char} {m k n : Nat}

/-- Two texts of which one stands right behind the other are one text. -/
theorem IsSlice.append (h : IsSlice source ⟨m, k⟩ xs) (h' : IsSlice source ⟨k, n⟩ ys) :
    IsSlice source ⟨m, n⟩ (xs ++ ys) := by
  obtain ⟨before, after, hsource, hm, hk⟩ := h
  obtain ⟨before', after', hsource', hk', hn⟩ := h'
  have hbefore : before ++ xs = before' := by
    refine initial_unique ⟨after, hsource.symm⟩ ⟨ys ++ after', ?_⟩ (hk.symm.trans hk')
    rw [hsource', List.append_assoc]
  refine ⟨before, after', ?_, hm, ?_⟩
  · rw [hsource', ← hbefore]
    simp only [List.append_assoc]
  · rw [hn, ← hbefore, List.append_assoc]

/-- A statement may end here without a semicolon of its own: behind the gap that follows there is a
semicolon, a closing brace or nothing, or the line ends in the gap. -/
def EndsStatement (source : List Char) (n : Nat) : Prop :=
  ∃ before gap rest, source = before ++ gap ++ rest ∧ n = byteLength before ∧ Gap gap rest ∧
    (rest = [] ∨ rest.head? = some ';' ∨ rest.head? = some '}' ∨
      ∃ x ∈ gap, isLineTerminator x = true)

end Text

/-- Statements that a semicolon ends, or the layout of the text in its place. -/
def Kind.isClosed : Kind → Bool
  | .expression | .var | .«return» | .«throw» | .«break» | .«continue» | .debugger => true
  | _ => false

/-- Kinds of which nothing is demanded but that places are nested. -/
def Kind.isQuiet : Kind → Bool
  | .«return» | .«throw» | .«break» | .«continue» | .postIncrement | .postDecrement | .forStep
  | .forIn | .unit | .block | .«default» | .«case» | .«if» | .«while» | .«with» | .«for»
  | .labelled | .«do» => false
  | _ => true

namespace ParseTree

variable {source : List Char} {t c : ParseTree} {ts us : List ParseTree} {kind : Kind}
  {text : String} {m k n lo hi : Nat} {P Q : ParseTree → Prop}

/-- The statements that stand right in the node: in a list of statements, or as the body of a
statement or a branch of it. -/
def statements (t : ParseTree) : List ParseTree :=
  match t.kind with
  | .unit | .block | .«default» => t.children
  | .«case» | .«if» | .«while» | .«with» | .«for» | .labelled => t.children.tail
  | .«do» => t.children.take 1
  | _ => []

/-- The child is the last clause of a counting loop, which is left out. The head of the loop ends
with its second semicolon, and the clause has its place at the parenthesis behind that. -/
structure Overhangs (source : List Char) (t c : ParseTree) : Prop where
  kind : t.kind = .forStep
  last : ∃ init test, t.children = [init, test, c]
  empty : c.children = [] ∧ c.span.start = c.span.stop
  gap : ∃ before gap rest, source = before ++ gap ++ ')' :: rest ∧ gap ≠ [] ∧
    Text.Gap gap (')' :: rest) ∧ t.span.stop = byteLength before ∧
    c.span.start = byteLength (before ++ gap)

/-- The place of the node is one in the text, and those of its children lie in it, one behind the
other. -/
structure Nested (source : List Char) (t : ParseTree) : Prop where
  ordered : t.span.start ≤ t.span.stop
  stop_le : t.span.stop ≤ byteLength source
  row : t.children.Pairwise fun a b => a.span.stop ≤ b.span.start
  inside : ∀ c ∈ t.children, t.span.start ≤ c.span.start ∧
    (c.span.stop ≤ t.span.stop ∨ t.Overhangs source c)

/-- The node begins with the word it is named for, and no line ends between the word and what
follows it in the node. -/
def FollowsWord (source : List Char) (t : ParseTree) : Prop :=
  ∀ c ∈ t.children, ∃ (word : ReservedWord) (gap : List Char), t.text = word.spelling ∧
    IsSlice source ⟨t.span.start, c.span.start⟩ (word.spelling.toList ++ gap) ∧
    ∀ x ∈ gap, isLineTerminator x = false

/-- The node ends with the operator it is named for, and no line ends between the operand and the
operator. -/
def PrecedesMark (source : List Char) (t : ParseTree) : Prop :=
  ∀ c ∈ t.children, ∃ (mark : Punctuator) (gap : List Char), t.text = mark.spelling ∧
    IsSlice source ⟨c.span.stop, t.span.stop⟩ (gap ++ mark.spelling.toList) ∧
    ∀ x ∈ gap, isLineTerminator x = false

/-- What comes first in the head of a loop has no bare `in`. Behind `var` it is a single name if the
loop goes over the properties of an object. -/
structure ClearHead (t : ParseTree) : Prop where
  step : t.kind = .forStep → ∃ init test update, t.children = [init, test, update] ∧ init.NoBareIn
  target : t.kind = .forIn → ∃ target object, t.children = [target, object] ∧ target.NoBareIn ∧
    ∀ v ∈ target.children, v.kind = .var → ∃ declarator, v.children = [declarator]

/-- A statement that needs an end has one. -/
def Ended (source : List Char) (t : ParseTree) : Prop :=
  t.kind.isClosed = true → Text.EndsStatement source t.span.stop

/-- What holds of a node of its kind besides that its place and those of its children are nested. -/
def Conforms (source : List Char) (t : ParseTree) : Prop :=
  match t.kind with
  | .«return» | .«throw» | .«break» | .«continue» => t.FollowsWord source
  | .postIncrement | .postDecrement => t.PrecedesMark source
  | .forStep | .forIn => t.ClearHead
  | .unit | .block | .«default» | .«case» | .«if» | .«while» | .«with» | .«for» | .labelled
  | .«do» => ∀ c ∈ t.statements, c.Ended source
  | _ => True

structure Regular (source : List Char) (t : ParseTree) : Prop where
  nested : t.Nested source
  conforms : t.Conforms source

namespace Conforms

theorem of_isQuiet {span : Span} (h : kind.isQuiet = true) :
    Conforms source ⟨kind, text, span, ts⟩ := by
  cases kind <;> first | exact trivial | cases h

theorem followsWord (h : t.Conforms source)
    (ht : t.kind = .«return» ∨ t.kind = .«throw» ∨ t.kind = .«break» ∨ t.kind = .«continue») :
    t.FollowsWord source := by
  unfold Conforms at h
  rcases ht with ht | ht | ht | ht <;> rw [ht] at h <;> exact h

theorem precedesMark (h : t.Conforms source)
    (ht : t.kind = .postIncrement ∨ t.kind = .postDecrement) : t.PrecedesMark source := by
  unfold Conforms at h
  rcases ht with ht | ht <;> rw [ht] at h <;> exact h

theorem clearHead (h : t.Conforms source) : t.ClearHead := by
  unfold Conforms at h
  constructor
  · intro ht
    rw [ht] at h
    exact h.step ht
  · intro ht
    rw [ht] at h
    exact h.target ht

theorem statements (h : t.Conforms source) : ∀ c ∈ t.statements, c.Ended source := by
  intro c hc
  have hmem := hc
  unfold ParseTree.statements at hmem
  unfold Conforms at h
  cases hk : t.kind <;> rw [hk] at h hmem
  all_goals first
    | exact h c hc
    | cases hmem

end Conforms

/-- The tree lies between two offsets, and each node of it is as its kind demands. -/
structure Within (source : List Char) (m : Nat) (t : ParseTree) (n : Nat) : Prop where
  low : m ≤ t.span.start
  high : t.span.stop ≤ n
  regular : t.Everywhere (Regular source)

/-- The trees lie between two offsets, one behind the other. -/
inductive Series (source : List Char) : Nat → List ParseTree → Nat → Prop where
  | nil {m n : Nat} (h : m ≤ n) : Series source m [] n
  | cons {m k n : Nat} {t : ParseTree} {ts : List ParseTree} (h : t.Within source m k)
    (hrest : Series source k ts n) : Series source m (t :: ts) n

namespace Within

theorem ordered (h : t.Within source m n) : t.span.start ≤ t.span.stop :=
  h.regular.root.nested.ordered

theorem le (h : t.Within source m n) : m ≤ n :=
  Nat.le_trans h.low (Nat.le_trans h.ordered h.high)

theorem mono (h : t.Within source m n) (hlow : lo ≤ m) (hhigh : n ≤ hi) : t.Within source lo hi :=
  ⟨Nat.le_trans hlow h.low, Nat.le_trans h.high hhigh, h.regular⟩

end Within

namespace Series

theorem one (h : t.Within source m n) : Series source m [t] n := .cons h (.nil (Nat.le_refl n))

theorem le (h : Series source m ts n) : m ≤ n := by
  induction h with
  | nil h => exact h
  | cons h _ ih => exact Nat.le_trans h.le ih

theorem mono (h : Series source m ts n) (hlow : lo ≤ m) (hhigh : n ≤ hi) :
    Series source lo ts hi := by
  induction h generalizing lo with
  | nil h => exact .nil (Nat.le_trans hlow (Nat.le_trans h hhigh))
  | cons h _ ih => exact .cons (h.mono hlow (Nat.le_refl _)) (ih (Nat.le_refl _) hhigh)

theorem append (h : Series source m ts k) (h' : Series source k us n) :
    Series source m (ts ++ us) n := by
  induction h with
  | nil h => exact h'.mono h (Nat.le_refl _)
  | cons h _ ih => exact .cons h (ih h')

theorem within (h : Series source m ts n) : ∀ t ∈ ts, t.Within source m n := by
  induction h with
  | nil => exact nofun
  | cons h hrest ih =>
    refine List.forall_mem_cons.2 ⟨h.mono (Nat.le_refl _) hrest.le, fun t ht => ?_⟩
    exact (ih t ht).mono h.le (Nat.le_refl _)

theorem pairwise (h : Series source m ts n) : ts.Pairwise fun a b => a.span.stop ≤ b.span.start := by
  induction h with
  | nil => exact .nil
  | cons h hrest ih =>
    exact .cons (fun t ht => Nat.le_trans h.high (hrest.within t ht).low) ih

/-- A tree around trees that lie in its place. -/
theorem tree (h : Series source m ts n) (hn : n ≤ byteLength source)
    (hconforms : Conforms source ⟨kind, text, ⟨m, n⟩, ts⟩) :
    Everywhere (Regular source) ⟨kind, text, ⟨m, n⟩, ts⟩ := by
  refine .intro ⟨⟨h.le, hn, h.pairwise, ?_⟩, hconforms⟩ fun c hc => (h.within c hc).regular
  intro c hc
  have hwithin := h.within c hc
  exact ⟨hwithin.low, Or.inl hwithin.high⟩

end Series

/-- A tree around another one with the same place. -/
theorem Within.wrap (h : t.Within source m n) (hkind : kind.isQuiet = true) :
    (wrap kind t).Within source m n := by
  have hown : t.Within source t.span.start t.span.stop :=
    ⟨Nat.le_refl _, Nat.le_refl _, h.regular⟩
  exact ⟨h.low, h.high, (Series.one hown).tree h.regular.root.nested.stop_le (.of_isQuiet hkind)⟩

/-! Where statements that need an end can stand. -/

theorem Binds.not_closed (h : t.Binds n) : t.kind.isClosed = false := by
  obtain ⟨k, hstrength, -⟩ := h
  cases hk : t.kind <;> rw [hk] at hstrength
  all_goals first
    | rfl
    | cases hstrength

theorem not_closed_of_kind (hkind : kind.isClosed = false) :
    ∀ a : ParseTree, a.kind = kind → a.kind.isClosed = false := by
  rintro a rfl
  exact hkind

theorem IsDeclarator.not_closed (h : t.IsDeclarator) : t.kind.isClosed = false := by
  rcases h with hname | ⟨hassign, -⟩
  · exact not_closed_of_kind rfl t hname
  · exact not_closed_of_kind rfl t hassign

theorem IsPropertyName.not_closed (h : t.IsPropertyName) : t.kind.isClosed = false := by
  rcases h with h | h | h | h <;> exact not_closed_of_kind rfl t h

/-- The children that need an end are among the statements that stand right in the node. -/
def SeatsStatements (t : ParseTree) : Prop :=
  ∀ c ∈ t.children, c.kind.isClosed = true → c ∈ t.statements

theorem seatsStatements_of_none (h : ∀ c ∈ t.children, c.kind.isClosed = false) :
    t.SeatsStatements := by
  intro c hc hclosed
  simp [h c hc] at hclosed

/-- Statements may stand behind the first child. -/
theorem seatsStatements_of_tail {first : ParseTree} (hchildren : t.children = first :: ts)
    (hfirst : first.kind.isClosed = false) (hstatements : t.statements = t.children.tail) :
    t.SeatsStatements := by
  intro c hc hclosed
  rw [hchildren] at hc
  rw [hstatements, hchildren]
  rcases List.mem_cons.1 hc with rfl | hrest
  · simp [hfirst] at hclosed
  · exact hrest

theorem Binary.seatsStatements {P Q : ParseTree → Prop} (h : t.Binary P Q)
    (hfirst : ∀ a, P a → a.kind.isClosed = false) (hstatements : t.statements = t.children.tail) :
    t.SeatsStatements := by
  obtain ⟨first, second, hchildren, hP, -⟩ := h
  exact seatsStatements_of_tail hchildren (hfirst first hP) hstatements

/-- Statements that need an end stand in a list of statements or are the body of a statement, unless
they are clauses in the head of a loop. -/
theorem Shape.seatsStatements (h : t.Shape) (hexpression : t.kind ≠ .expression)
    (hstep : t.kind ≠ .forStep) (hin : t.kind ≠ .forIn) : t.SeatsStatements := by
  have hbinds : ∀ (n : Nat) (a : ParseTree), a.Binds n → a.kind.isClosed = false :=
    fun _ _ ha => ha.not_closed
  unfold Shape at h
  cases heq : t.kind <;> rw [heq] at h
  case unit | block | «default» =>
    intro c hc _
    simpa only [statements, heq] using hc
  case var => exact seatsStatements_of_none fun c hc => (h.2 c hc).not_closed
  case expression => exact absurd heq hexpression
  case comma => exact seatsStatements_of_none fun c hc => (h.2 c hc).not_closed
  case namedValue =>
    exact seatsStatements_of_none
      (Binary.forall_children h (fun _ ha => ha.not_closed) (hbinds _))
  case function =>
    obtain ⟨name, parameters, body, hchildren, -, hname, hparameters, -, hbody⟩ := h
    refine seatsStatements_of_none fun c hc => ?_
    rw [hchildren, List.mem_append] at hc
    rcases hc with hc | hc
    · exact not_closed_of_kind rfl c (hname c hc)
    · simp only [List.mem_cons, List.not_mem_nil, or_false] at hc
      rcases hc with rfl | rfl
      · exact not_closed_of_kind rfl _ hparameters
      · exact not_closed_of_kind rfl _ hbody
  case «if» =>
    obtain ⟨test, consequent, alternate, hchildren, htest, -⟩ := h
    exact seatsStatements_of_tail hchildren htest.not_closed (by simp only [statements, heq])
  case conditional =>
    obtain ⟨test, consequent, alternate, hchildren, htest, hconsequent, halternate⟩ := h
    refine seatsStatements_of_none ?_
    rw [hchildren]
    simp only [List.forall_mem_cons, List.not_mem_nil, false_implies, implies_true, and_true]
    exact ⟨htest.not_closed, hconsequent.not_closed, halternate.not_closed⟩
  case switch =>
    obtain ⟨discriminant, clauses, hchildren, hdiscriminant, hclauses, -⟩ := h
    refine seatsStatements_of_none ?_
    rw [hchildren]
    refine List.forall_mem_cons.2 ⟨hdiscriminant.not_closed, fun c hc => ?_⟩
    rcases hclauses c hc with hcase | hdefault
    · exact not_closed_of_kind rfl c hcase
    · exact not_closed_of_kind rfl c hdefault
  case «case» =>
    obtain ⟨test, body, hchildren, htest, -⟩ := h
    exact seatsStatements_of_tail hchildren htest.not_closed (by simp only [statements, heq])
  case «try» =>
    obtain ⟨body, handler, cleanup, hchildren, hbody, hhandler, -, hcleanup, -⟩ := h
    refine seatsStatements_of_none ?_
    rw [hchildren]
    refine List.forall_mem_cons.2 ⟨not_closed_of_kind rfl _ hbody, ?_⟩
    refine List.forall_mem_append.2 ⟨?_, ?_⟩
    · exact fun c hc => not_closed_of_kind rfl c (hhandler c hc)
    · exact fun c hc => not_closed_of_kind rfl c (hcleanup c hc)
  case «while» | «with» =>
    exact Binary.seatsStatements h (hbinds _) (by simp only [statements, heq])
  case «do» =>
    obtain ⟨body, test, hchildren, -, htest⟩ := h
    intro c hc hclosed
    simp only [statements, heq, hchildren]
    rw [hchildren] at hc
    simp only [List.mem_cons, List.not_mem_nil, or_false] at hc
    rcases hc with rfl | rfl
    · exact List.mem_cons_self
    · simp [htest.not_closed] at hclosed
  case «for» =>
    refine Binary.seatsStatements h (fun head hhead => ?_) (by simp only [statements, heq])
    rcases hhead with hhead | hhead <;> exact not_closed_of_kind rfl _ hhead
  case forStep => exact absurd heq hstep
  case forIn => exact absurd heq hin
  case labelled =>
    exact Binary.seatsStatements h (not_closed_of_kind rfl) (by simp only [statements, heq])
  -- The parts of all other nodes are expressions, names or parts of statements.
  all_goals
    apply seatsStatements_of_none
    first
    | exact Unary.forall_children h (hbinds _)
    | exact Unary.forall_children h (not_closed_of_kind rfl)
    | exact AtMostOne.forall_children h (hbinds _)
    | exact AtMostOne.forall_children h (not_closed_of_kind rfl)
    | exact Binary.forall_children h (hbinds _) (hbinds _)
    | exact Binary.forall_children h (hbinds _) (not_closed_of_kind rfl)
    | exact Binary.forall_children h (not_closed_of_kind rfl) (not_closed_of_kind rfl)
    | exact fun c hc => (h c hc).not_closed
    | exact fun c hc => not_closed_of_kind rfl c (h c hc)
    | obtain ⟨p, -, hoperands⟩ := h
      exact hoperands.forall_children (hbinds _) (hbinds _)
    | simp [h]

end ParseTree
end Ecma3
