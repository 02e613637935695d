import Ecma3.Proofs.Ast.Site

/-! What a syntax tree can be relied on for beyond the types of its fields. -/
namespace Ecma3

namespace Node

/-- The default of a `switch` is an unlabelled block if there is a default clause, and a null
otherwise. -/
structure ProperDefault (node default : Node) : Prop where
  shape : default.isNull = true ∨ ∃ content, default = .block content
  hasDefault : node.hasDefault = true ↔ ∃ content, default = .block content
  label : default.label = none

/-- The node is as its kind demands. What stands inside has demands of its own. -/
def WellFormed : Node → Prop
  | string _ quote _ => quote = '"' ∨ quote = '\''
  | regex pattern _ _ => pattern ≠ ""
  | function _ _ body _ => body.label = none
  | assignmentBlock nodes isDeclaration _ => isDeclaration = true → 2 ≤ nodes.length
  | «if» _ _ alternate isTernary label _ => isTernary = true → alternate.isSome ∧ label = none
  | switch discriminant cases default label span =>
    ProperDefault (switch discriminant cases default label span) default ∧
      ∀ c ∈ cases, c.body.label = none
  | «try» body handler cleanup _ _ =>
    body.label = none ∧ (∀ c ∈ handler, c.body.label = none) ∧ ∀ b ∈ cleanup, b.label = none
  | _ => True

end Node

namespace Site

/-- Every node in the part is well formed. -/
abbrev Sound (p : Site) : Prop := p.Everywhere Node.WellFormed

theorem sound_node {n : Node} (hown : n.WellFormed) (h : ∀ q ∈ n.sites, q.Sound) :
    (Site.node n).Sound := by
  refine Everywhere.intro ?_ h
  rintro _ ⟨⟩
  exact hown

theorem sound_block {b : Block} (h : ∀ n ∈ b.statements, (Site.node n).Sound) :
    (Site.block b).Sound :=
  Everywhere.intro nofun (List.forall_mem_map.2 h)

theorem sound_case {c : SwitchCase} (htest : (Site.node c.test).Sound)
    (hbody : (Site.block c.body).Sound) : (Site.case c).Sound :=
  Everywhere.intro nofun (List.forall_mem_cons.2 ⟨htest, List.forall_mem_singleton.2 hbody⟩)

theorem sound_handler {c : Catch} (hbody : (Site.block c.body).Sound) : (Site.handler c).Sound :=
  Everywhere.intro nofun (List.forall_mem_singleton.2 hbody)

end Site
end Ecma3
