import Ecma3.Proofs.Build.Expression
import Ecma3.Proofs.Build.Label.Statement

/-!
The label that a statement gets. Labels and the brackets around an expression leave no node of their
own, so a statement is stripped of them, and the innermost label belongs to what is left.
-/
namespace Ecma3

namespace ParseTree

/-- What is inside the labels and brackets of a statement, how many of them there are, and the
innermost label. -/
structure Stripped where
  label : Option String
  levels : Nat
  core : ParseTree

def strip : ParseTree → Stripped
  | ⟨.labelled, _, _, [name, body]⟩ =>
    let inside := strip body
    ⟨inside.label.or (some name.text), inside.levels + 1, inside.core⟩
  | ⟨.expression, _, _, [content]⟩ | ⟨.parenthesized, _, _, [content]⟩ =>
    let inside := strip content
    ⟨inside.label, inside.levels + 1, inside.core⟩
  | t => ⟨none, 0, t⟩

variable {t name body content : ParseTree}

theorem strip_labelled (hkind : t.kind = .labelled) (hchildren : t.children = [name, body]) :
    t.strip = ⟨body.strip.label.or (some name.text), body.strip.levels + 1, body.strip.core⟩ := by
  obtain ⟨kind, text, span, children⟩ := t
  cases hkind
  cases hchildren
  rfl

theorem strip_brackets (hkind : t.kind = .expression ∨ t.kind = .parenthesized)
    (hchildren : t.children = [content]) :
    t.strip = ⟨content.strip.label, content.strip.levels + 1, content.strip.core⟩ := by
  obtain ⟨kind, text, span, children⟩ := t
  cases hchildren
  rcases hkind with hkind | hkind <;> cases hkind <;> rfl

theorem strip_core (h : t.kind.isWrapper = false) : t.strip = ⟨none, 0, t⟩ := by
  unfold strip
  split <;> first | cases h | rfl

end ParseTree

namespace Build
open ParseTree

variable {tree name body content : ParseTree} {node : Node} {label outer : Option String}
  {limit levels : Nat} {build : ParseTree → Option String → Except BuildError Node}

/-- A statement or expression is a label or brackets around another one, or is no wrapper. -/
theorem Buildable.cases_wrapper (h : Buildable tree) :
    (tree.kind = .labelled ∧ ∃ name body, tree.children = [name, body] ∧ Buildable body) ∨
      ((tree.kind = .expression ∨ tree.kind = .parenthesized) ∧
        ∃ content, tree.children = [content] ∧ Buildable content) ∨
      tree.kind.isWrapper = false := by
  obtain ⟨hwell, hbuildable⟩ := h
  have hshape := hwell.root
  cases hkind : tree.kind
  case labelled =>
    simp only [Shape, hkind] at hshape
    obtain ⟨name, body, hchildren, -, hbody⟩ := hshape
    exact .inl ⟨rfl, name, body, hchildren, hwell.inside _ (by simp [hchildren]), .inr hbody⟩
  case parenthesized =>
    simp only [Shape, hkind] at hshape
    obtain ⟨content, hchildren, hcontent⟩ := hshape
    have hinside := hwell.inside content (by simp [hchildren])
    exact .inr (.inl ⟨.inr rfl, content, hchildren, buildable_of_binds hinside hcontent⟩)
  case expression =>
    rcases hbuildable with ⟨n, hn, -⟩ | hstatement
    · rw [hkind] at hn
      cases hn
    · obtain ⟨content, hchildren, hcontent⟩ := hstatement.2 hkind
      have hinside := hwell.inside content (by simp [hchildren])
      exact .inr (.inl ⟨.inl rfl, content, hchildren, buildable_of_binds hinside hcontent⟩)
  all_goals exact .inr (.inr rfl)

/-! What a level of nesting comes to for each of them. -/

/-- A label takes the place of those around it. -/
theorem within_labelled (hkind : tree.kind = .labelled) (hchildren : tree.children = [name, body]) :
    (within limit (levels + 1) tree outer : Except BuildError Node) =
      within limit levels body (some name.text) := by
  obtain ⟨kind, text, span, children⟩ := tree
  cases hkind
  cases hchildren
  cases outer <;> rfl

/-- Brackets hand the label on to what they hold. -/
theorem within_brackets (hkind : tree.kind = .expression ∨ tree.kind = .parenthesized)
    (hchildren : tree.children = [content]) :
    (within limit (levels + 1) tree outer : Except BuildError Node) =
      within limit levels content outer := by
  obtain ⟨kind, text, span, children⟩ := tree
  cases hchildren
  rcases hkind with hkind | hkind <;> cases hkind <;> cases outer <;> rfl

/-- Well-formed trees have well-formed trees inside, with or without the `new` at their base. -/
theorem tracks_wellFormed : Tracks WellFormed (fun _ => True) build where
  wellFormed _ ht := ht
  inside _ ht := ht.inside
  detached _ _ ht hd := (withoutNew?_operand ht hd).1
  built _ _ _ _ _ _ _ := trivial

/-- A statement that is built has its innermost label. If it has none, it has the one that it is
given. -/
theorem label_within (htree : Buildable tree)
    (h : (within limit levels tree outer : Except BuildError Node) = .ok node) :
    node.label = tree.strip.label.or outer := by
  induction levels generalizing tree outer with
  | zero => cases h
  | succ levels ih =>
    rcases htree.cases_wrapper with ⟨hkind, name, body, hchildren, hbody⟩ |
      ⟨hkind, content, hchildren, hcontent⟩ | hcore
    · rw [within_labelled hkind hchildren] at h
      rw [ih hbody h, strip_labelled hkind hchildren, Option.or_assoc, Option.some_or]
    · rw [within_brackets hkind hchildren] at h
      rw [ih hcontent h, strip_brackets hkind hchildren]
    · obtain ⟨hconstruct, hlabel⟩ := visit_eq_ok h
      have hcarries := carries_construct tracks_wellFormed htree.1 hcore hlabel hconstruct
      rw [hcarries.label, strip_core hcore, Option.none_or]

/-- A label in front of something that can have none is an error, which is found as soon as building
comes to it. -/
theorem within_invalidLabel {l : String} (htree : Buildable tree)
    (hlabel : tree.strip.label.or outer = some l)
    (hplain : tree.strip.core.kind.isLabelable = false) (hlevels : tree.strip.levels < levels) :
    (within limit levels tree outer : Except BuildError Node) =
      .error (.invalidLabelTarget l tree.strip.core.kind tree.strip.core.span) := by
  induction levels generalizing tree outer with
  | zero => cases hlevels
  | succ levels ih =>
    rcases htree.cases_wrapper with ⟨hkind, name, body, hchildren, hbody⟩ |
      ⟨hkind, content, hchildren, hcontent⟩ | hcore
    · rw [strip_labelled hkind hchildren] at hlabel hplain hlevels ⊢
      rw [Option.or_assoc, Option.some_or] at hlabel
      rw [within_labelled hkind hchildren]
      exact ih hbody hlabel hplain (Nat.lt_of_succ_lt_succ hlevels)
    · rw [strip_brackets hkind hchildren] at hlabel hplain hlevels ⊢
      rw [within_brackets hkind hchildren]
      exact ih hcontent hlabel hplain (Nat.lt_of_succ_lt_succ hlevels)
    · rw [strip_core hcore] at hlabel hplain ⊢
      obtain rfl : outer = some l := hlabel
      have htakes : takesLabel tree.kind = false := by rw [takesLabel_eq, hplain, hcore]; rfl
      have hvisit : (visit (within limit levels) tree (some l) : Except BuildError Node) =
          .error (.invalidLabelTarget l tree.kind tree.span) := by
        simp only [visit, htakes]
        rfl
      exact hvisit

end Build
end Ecma3
