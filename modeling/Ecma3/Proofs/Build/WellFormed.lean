import Ecma3.Proofs.Ast.WellFormed
import Ecma3.Proofs.Build.Made.Statement

/-!
The constructions make well-formed nodes, whatever trees they are given. The trees inside are taken to
be built into sound nodes, so what is left for a construction is the node that it puts around them.
-/
namespace Ecma3.Build

open List (forall_mem_cons forall_mem_map forall_mem_singleton)

variable {tree : ParseTree} {node x y : Node} {nodes : List Node} {label : Option String}
  {build : ParseTree → Option String → Except BuildError Node}

/-! Nodes of one shape. -/

theorem sound_empty (hown : node.WellFormed) (hsites : node.sites = []) :
    (Site.node node).Sound := by
  apply Site.sound_node hown
  rw [hsites]
  exact nofun

theorem sound_one (hown : node.WellFormed) (hsites : node.sites = [.node x])
    (hx : (Site.node x).Sound) : (Site.node node).Sound := by
  apply Site.sound_node hown
  rw [hsites]
  exact forall_mem_singleton.2 hx

theorem sound_two (hown : node.WellFormed) (hsites : node.sites = [.node x, .node y])
    (hx : (Site.node x).Sound) (hy : (Site.node y).Sound) : (Site.node node).Sound := by
  apply Site.sound_node hown
  rw [hsites]
  exact forall_mem_cons.2 ⟨hx, forall_mem_singleton.2 hy⟩

/-! Literals. -/

/-- A string has one of the two quotes, and a pattern a character. -/
theorem sound_leaf (h : (leaf tree : Except BuildError Node) = .ok node) :
    (Site.node node).Sound := by
  cases leaf_eq_ok h with
  | string hquote =>
    simp only [Literal.isQuote, Bool.or_eq_true, beq_iff_eq] at hquote
    exact sound_empty hquote rfl
  | regex hpattern => exact sound_empty hpattern rfl
  | identifier | integer | float | null | boolean => exact sound_empty trivial rfl

/-! What the constructions share. -/

variable (hbuild : ∀ t x, Builds build t x → (Site.node x).Sound)
include hbuild

theorem sound_all {trees : List ParseTree} (h : all build trees = .ok nodes) :
    ∀ x ∈ nodes, (Site.node x).Sound :=
  forall_mem_right (made_all h) hbuild

theorem sound_pair (h : pair build tree = .ok (x, y)) :
    (Site.node x).Sound ∧ (Site.node y).Sound := by
  obtain ⟨first, second, _, _, hx, hy⟩ := pair_eq_ok h
  exact ⟨hbuild first x ⟨none, hx⟩, hbuild second y ⟨none, hy⟩⟩

theorem sound_block {content : Block} (h : block build tree label = .ok content) :
    (Site.block content).Sound := by
  cases made_block h with
  | braces hnodes => exact Site.sound_block (forall_mem_right hnodes hbuild)
  | single hnode => exact Site.sound_block (forall_mem_singleton.2 (hbuild tree _ hnode))

/-! Expressions. -/

/-- The operands of a comma expression are no declarators, and may be any number. -/
theorem sound_sequence (h : sequence build tree = .ok node) : (Site.node node).Sound := by
  obtain ⟨nodes, hnodes, h⟩ := bind_eq_ok h
  cases h
  have hown : (Node.assignmentBlock nodes false tree.span).WellFormed := nofun
  exact Site.sound_node hown (forall_mem_map.2 (sound_all hbuild hnodes))

theorem sound_object (h : object build tree = .ok node) : (Site.node node).Sound := by
  obtain ⟨found, hfound, rfl⟩ := object_eq_ok h
  have hvalues := (made_properties hfound).forall_value hbuild nofun
  exact Site.sound_node trivial (forall_mem_map.2 hvalues)

theorem sound_array (h : array build tree = .ok node) : (Site.node node).Sound := by
  obtain ⟨found, hfound, h⟩ := bind_eq_ok h
  cases h
  have hmade := forall_mem_right (made_elements hfound) fun _ _ h => h.forall_mem hbuild
  have helements : ∀ x ∈ found.filterMap id, (Site.node x).Sound := by
    intro x hx
    obtain ⟨element, helement, rfl⟩ := List.mem_filterMap.1 hx
    exact hmade _ helement x rfl
  exact Site.sound_node trivial (forall_mem_map.2 helements)

theorem sound_function (h : function build tree = .ok node) : (Site.node node).Sound := by
  obtain ⟨_, _, _, _, content, -, -, -, hcontent, rfl⟩ := function_eq_ok h
  exact Site.sound_node (label_of_block hcontent)
    (forall_mem_singleton.2 (sound_block hbuild hcontent))

theorem sound_new (h : new build tree = .ok node) : (Site.node node).Sound := by
  obtain ⟨operand, _, x, _, hx, h⟩ := operand_eq_ok h
  cases h
  exact sound_one trivial rfl (hbuild operand x ⟨none, hx⟩)

theorem sound_call (h : call build tree = .ok node) : (Site.node node).Sound := by
  obtain ⟨_, _, bare, moved, x, nodes, -, harguments, -, hx, rfl⟩ := call_eq_ok h
  have hnodes : ∀ y ∈ nodes, (Site.node y).Sound := by
    rcases harguments with ⟨-, rfl⟩ | ⟨list, _, -, hlist⟩
    · exact nofun
    · exact (made_arguments hlist).forall_mem hbuild
  have hsites : ∀ q ∈ Site.node x :: nodes.map Site.node, q.Sound :=
    forall_mem_cons.2 ⟨hbuild bare x ⟨none, hx⟩, forall_mem_map.2 hnodes⟩
  split <;> exact Site.sound_node trivial hsites

theorem sound_access (h : access build tree = .ok node) : (Site.node node).Sound := by
  obtain ⟨_, member, _, bare, moved, x, access, -, -, hx, haccess, rfl⟩ := access_eq_ok h
  have hx := hbuild bare x ⟨none, hx⟩
  have haccess : (Site.node access).Sound := by
    rcases haccess with ⟨-, rfl⟩ | ⟨-, y, hy, rfl⟩
    · exact sound_one trivial rfl hx
    · exact sound_two trivial rfl hx (hbuild member y ⟨none, hy⟩)
  split
  · exact sound_one trivial rfl haccess
  · exact haccess

/-! Operators. -/

omit hbuild in
theorem sound_joins {span : Span} (hx : (Site.node x).Sound) (hy : (Site.node y).Sound)
    (h : Joins x y span node) : (Site.node node).Sound := by
  cases h <;> exact sound_two trivial rfl hx hy

omit hbuild in
/-- A compound assignment has its target in the value as well. -/
theorem sound_assignedValue (hx : (Site.node x).Sound) (hy : (Site.node y).Sound)
    (h : (assignedValue tree x y : Except BuildError Node) = .ok node) :
    (Site.node node).Sound := by
  rcases assignedValue_eq_ok h with ⟨-, rfl⟩ | ⟨-, hjoins⟩
  · exact hy
  · exact sound_joins hx hy hjoins

theorem sound_assignment (h : assignment build tree = .ok node) : (Site.node node).Sound := by
  obtain ⟨target, value, assigned, hpair, hassigned, rfl⟩ := assignment_eq_ok h
  obtain ⟨htarget, hvalue⟩ := sound_pair hbuild hpair
  exact sound_two trivial rfl htarget (sound_assignedValue htarget hvalue hassigned)

theorem sound_binary (h : binary build tree = .ok node) : (Site.node node).Sound := by
  obtain ⟨left, right, hpair, hjoins⟩ := binary_eq_ok h
  obtain ⟨hleft, hright⟩ := sound_pair hbuild hpair
  exact sound_joins hleft hright hjoins

theorem sound_step (h : step build tree = .ok node) : (Site.node node).Sound := by
  obtain ⟨operand, _, x, _, hx, h⟩ := operand_eq_ok h
  have hx := hbuild operand x ⟨none, hx⟩
  split at h
  · cases h
    exact sound_one trivial rfl hx
  · cases h
    exact sound_one trivial rfl hx
  · cases h
    have hone : (Site.node (.integer 1 tree.span)).Sound := sound_empty trivial rfl
    exact sound_two trivial rfl hx (sound_two trivial rfl hx hone)

theorem sound_unary (h : unary build tree = .ok node) : (Site.node node).Sound := by
  obtain ⟨operand, _, x, _, hx, h⟩ := operand_eq_ok h
  have hx := hbuild operand x ⟨none, hx⟩
  split at h <;> cases h <;> exact sound_one trivial rfl hx

end Ecma3.Build
