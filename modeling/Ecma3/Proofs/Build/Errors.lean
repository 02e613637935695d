import Ecma3.Build.Program
import Ecma3.Proofs.ParseTree.Nodes

/-!
The errors that building a tree can stop at, in the order in which it comes to them. A node is an
error by itself, or because it cannot have the label that is handed to it.
-/
namespace Ecma3

namespace Kind

/-- The order in which building comes to what the first child of a node has and to what the others
have. The arguments of a call come before what is called, and the name of a property is not
built. -/
def turns {α : Type} (kind : Kind) (first rest : List α) : List α :=
  match kind with
  | .call => rest ++ first
  | .namedValue => rest
  | _ => first ++ rest

/-- Building comes to the children of a node of this kind from the first to the last, and hands them
no label. -/
def isStraight : Kind → Bool
  | .call | .namedValue | .expression | .parenthesized | .labelled => false
  | _ => true

/-- Brackets hand a label on to what they hold. -/
def firstLabel (kind : Kind) (label : Option String) : Option String :=
  match kind with
  | .expression | .parenthesized => label
  | _ => none

/-- A labelled statement gets the name in front of it. -/
def restLabel (kind : Kind) (name : String) : Option String :=
  if kind = .labelled then some name else none

theorem filterMap_turns {α β : Type} (kind : Kind) (f : α → Option β) (first rest : List α) :
    (kind.turns first rest).filterMap f = kind.turns (first.filterMap f) (rest.filterMap f) := by
  unfold turns
  split
  · exact List.filterMap_append
  · rfl
  · exact List.filterMap_append

/-- Apart from the name of a property, nothing is left out and nothing is built twice. -/
theorem turns_perm {α : Type} (kind : Kind) (first rest : List α) :
    (kind.turns first rest).Perm ((if kind = .namedValue then [] else first) ++ rest) := by
  unfold turns
  split
  · exact List.perm_append_comm
  · exact .refl _
  · rw [if_neg ‹_›]

/-- Building comes to what is in a child that it does not leave out. -/
theorem sublist_turns {α : Type} (kind : Kind) (first rest : List α) :
    (kind ≠ .namedValue → first.Sublist (kind.turns first rest)) ∧
      rest.Sublist (kind.turns first rest) := by
  unfold turns
  split
  · exact ⟨fun _ => List.sublist_append_right _ _, List.sublist_append_left _ _⟩
  · exact ⟨fun h => absurd rfl h, .refl _⟩
  · exact ⟨fun _ => List.sublist_append_left _ _, List.sublist_append_right _ _⟩

theorem pairwise_turns {α : Type} {P : α → α → Prop} {kind : Kind} {first rest : List α}
    (hfirst : kind ≠ .namedValue → first.Pairwise P) (hrest : rest.Pairwise P)
    (hforth : ∀ a ∈ first, ∀ b ∈ rest, P a b)
    (hback : kind = .call → ∀ b ∈ rest, ∀ a ∈ first, P b a) :
    (kind.turns first rest).Pairwise P := by
  unfold turns
  split
  · exact List.pairwise_append.2 ⟨hrest, hfirst nofun, hback rfl⟩
  · exact hrest
  · exact List.pairwise_append.2 ⟨hfirst ‹_›, hrest, hforth⟩

/-- Operators and assignments are straight. -/
theorem isStraight_of_strength? {kind : Kind} {n : Nat} (h : kind.strength? = some n)
    (hn : n < 15) : kind.isStraight = true := by
  cases kind with
  | call | parenthesized =>
    cases h
    omega
  | namedValue | expression | labelled => cases h
  | _ => rfl

end Kind

namespace ParseTree
open Build

variable {t first name content target a b : ParseTree} {rest : List ParseTree}
  {label : Option String}

/-- The error that a node is wherever it stands: a `debugger` statement has no node, and the text of
a number may stand for none. -/
def fault? (t : ParseTree) : Option BuildError :=
  match t.kind with
  | .debugger => some (.unsupportedConstruct .debugger t.span)
  | .decimalLiteral =>
    if (Literal.decimal? t.text t.span).isSome then none
    else some (.invalidLiteral .number t.text t.span)
  | .hexLiteral =>
    if (Literal.hex? t.text t.span).isSome then none
    else some (.invalidLiteral .number t.text t.span)
  | _ => none

/-- The error that a node is with this label. -/
def errorWith? (label : Option String) (t : ParseTree) : Option BuildError :=
  match label with
  | none => t.fault?
  | some l => if takesLabel t.kind then t.fault? else some (.invalidLabelTarget l t.kind t.span)

mutual

/-- The nodes of the tree but for the names of properties, in the order in which building comes to
them, and with the labels that are handed to them. -/
def visits (label : Option String) : ParseTree → List (Option String × ParseTree)
  | ⟨kind, text, span, []⟩ => [(label, ⟨kind, text, span, []⟩)]
  | ⟨kind, text, span, first :: rest⟩ =>
    (label, ⟨kind, text, span, first :: rest⟩) ::
      kind.turns (visits (kind.firstLabel label) first) (visitsAll (kind.restLabel first.text) rest)

def visitsAll (label : Option String) : List ParseTree → List (Option String × ParseTree)
  | [] => []
  | t :: ts => visits label t ++ visitsAll label ts

end

/-- What is found inside a tree, when `found` is what is found in the trees below it. -/
def inTurn {α : Type} (found : Option String → ParseTree → List α) (label : Option String)
    (t : ParseTree) : List α :=
  match t.children with
  | [] => []
  | first :: rest =>
    t.kind.turns (found (t.kind.firstLabel label) first)
      (rest.flatMap (found (t.kind.restLabel first.text)))

/-- The errors of the tree, in the order in which building comes to them. -/
def errors (label : Option String) (t : ParseTree) : List BuildError :=
  (t.visits label).filterMap fun (label, u) => u.errorWith? label

/-- The errors inside the tree. -/
def errorsInside (label : Option String) (t : ParseTree) : List BuildError := t.inTurn errors label

theorem visitsAll_eq_flatMap (label : Option String) (ts : List ParseTree) :
    visitsAll label ts = ts.flatMap (visits label) := by
  induction ts with
  | nil => rfl
  | cons t ts ih => rw [visitsAll, ih, List.flatMap_cons]

/-- A node comes before what is inside it. -/
theorem filterMap_visits {α : Type} (f : Option String × ParseTree → Option α)
    (label : Option String) (t : ParseTree) : (t.visits label).filterMap f =
      (f (label, t)).toList ++ t.inTurn (fun label u => (u.visits label).filterMap f) label := by
  obtain ⟨kind, text, span, children⟩ := t
  cases children with
  | nil => cases h : f (label, ⟨kind, text, span, []⟩) <;> simp [visits, inTurn, h]
  | cons first rest =>
    have hinside : (kind.turns (visits (kind.firstLabel label) first)
        (visitsAll (kind.restLabel first.text) rest)).filterMap f =
          inTurn (fun label u => (u.visits label).filterMap f) label
            ⟨kind, text, span, first :: rest⟩ := by
      rw [Kind.filterMap_turns, visitsAll_eq_flatMap, List.filterMap_flatMap]
      rfl
    rw [visits, ← hinside]
    cases h : f (label, ⟨kind, text, span, first :: rest⟩) <;> simp [h]

theorem errors_eq (label : Option String) (t : ParseTree) :
    t.errors label = (t.errorWith? label).toList ++ t.errorsInside label :=
  filterMap_visits _ label t

/-- Only names, literals and `debugger` statements can be errors by themselves. -/
theorem fault?_eq_none (h : t.kind.isAtom = false) : t.fault? = none := by
  unfold fault?
  cases hkind : t.kind <;> rw [hkind] at h
  all_goals first
    | rfl
    | cases h

theorem errorsInside_of_nil (hchildren : t.children = []) : t.errorsInside label = [] := by
  rw [errorsInside, inTurn, hchildren]

theorem errorsInside_straight (h : t.kind.isStraight = true) :
    t.errorsInside label = t.children.flatMap (errors none) := by
  have hkind : t.kind.firstLabel label = none ∧ (∀ name, t.kind.restLabel name = none) ∧
      ∀ first rest : List BuildError, t.kind.turns first rest = first ++ rest := by
    cases hkind : t.kind with
    | call | namedValue | expression | parenthesized | labelled =>
      rw [hkind] at h
      cases h
    | _ => exact ⟨rfl, fun _ => rfl, fun _ _ => rfl⟩
  unfold errorsInside inTurn
  split
  · rename_i hchildren
    rw [hchildren, List.flatMap_nil]
  · rename_i first rest hchildren
    rw [hkind.1, hkind.2.1, hkind.2.2, hchildren, List.flatMap_cons]

theorem errorsInside_brackets (hkind : t.kind = .expression ∨ t.kind = .parenthesized)
    (hchildren : t.children = [content]) : t.errorsInside label = content.errors label := by
  rcases hkind with hkind | hkind <;>
    simp [errorsInside, inTurn, hchildren, hkind, Kind.turns, Kind.firstLabel]

theorem errorsInside_labelled (hkind : t.kind = .labelled) (hchildren : t.children = [name, target])
    (hname : name.errors none = []) : t.errorsInside label = target.errors (some name.text) := by
  simp [errorsInside, inTurn, hchildren, hkind, Kind.turns, Kind.firstLabel, Kind.restLabel, hname]

theorem errorsInside_call (hkind : t.kind = .call) (hchildren : t.children = [a, b]) :
    t.errorsInside label = b.errors none ++ a.errors none := by
  simp [errorsInside, inTurn, hchildren, hkind, Kind.turns, Kind.firstLabel, Kind.restLabel]

theorem errors_namedValue (hkind : t.kind = .namedValue) (hchildren : t.children = [a, b]) :
    t.errors none = b.errors none := by
  rw [errors_eq, errorWith?, fault?_eq_none (by rw [hkind]; rfl)]
  simp [errorsInside, inTurn, hchildren, hkind, Kind.turns, Kind.restLabel]

/-- A node that hands its errors on has those of its parts. -/
theorem errors_straight (h : t.kind.isStraight = true) (hatom : t.kind.isAtom = false) :
    t.errors none = t.children.flatMap (errors none) := by
  rw [errors_eq, errorWith?, fault?_eq_none hatom, errorsInside_straight h]
  rfl

theorem errorsInside_atom (h : t.Shape) (hatom : t.kind.isAtom = true) :
    t.errorsInside label = [] := errorsInside_of_nil (h.children_eq_nil hatom)

/-- Names are no errors. -/
theorem errors_name (h : t.Shape) (hk : t.kind = .identifier) : t.errors none = [] := by
  rw [errors_eq, errorsInside_atom h (by rw [hk]; rfl), errorWith?, fault?, hk]
  rfl

theorem errors_names {names : List ParseTree}
    (h : ∀ c ∈ names, c.WellFormed ∧ c.kind = .identifier) : names.flatMap (errors none) = [] :=
  List.flatMap_eq_nil_iff.2 fun c hc => errors_name (h c hc).1.root (h c hc).2

end ParseTree
end Ecma3
