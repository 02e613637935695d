import Ecma3.Proofs.Ast.Leaves
import Ecma3.Proofs.Build.Inversion
import Ecma3.Proofs.ParseTree.Values

/-! Nodes with the names and values of the trees that they are built from. -/
namespace Ecma3

open ParseTree

namespace ParseTree

variable {t c : ParseTree}

/-- The names that an object gives its values. -/
def propertyNames (t : ParseTree) : List String :=
  t.children.filterMap fun entry =>
    entry.children.head?.map fun name => Build.Literal.propertyName name.text

/-- No object inside the tree has two values under one name. -/
def Distinct (t : ParseTree) : Prop :=
  ∀ u ∈ t.nodes, u.kind = .object → u.propertyNames.Nodup

instance (t : ParseTree) : Decidable t.Distinct :=
  inferInstanceAs (Decidable (∀ u ∈ t.nodes, u.kind = .object → u.propertyNames.Nodup))

theorem mem_nodes_self (t : ParseTree) : t ∈ t.nodes := by
  cases t
  rw [nodes_mk]
  exact List.mem_cons_self

theorem nodes_subset (h : c ∈ t.children) : c.nodes ⊆ t.nodes := by
  cases t
  intro u hu
  rw [nodes_mk]
  exact List.mem_cons_of_mem _ (List.mem_flatMap.2 ⟨c, h, hu⟩)

/-- A tree that comes from a text and gives each of its properties one value. -/
structure Proper (t : ParseTree) : Prop where
  wellFormed : t.WellFormed
  distinct : t.Distinct

theorem Proper.inside (h : t.Proper) : ∀ c ∈ t.children, c.Proper := fun c hc =>
  ⟨h.wellFormed.inside c hc, fun u hu => h.distinct u (nodes_subset hc hu)⟩

end ParseTree

namespace Build

variable {tree t : ParseTree} {node x y : Node} {nodes : List Node}
  {label : Option String}

/-- The node has the names and values of the tree, and no others. -/
def Faithful (node : Node) (t : ParseTree) : Prop := ∀ n, n ∈ node.leaves ↔ n ∈ t.values .use

/-- What builds the trees inside is faithful to each. -/
def Keeps (build : ParseTree → Option String → Except BuildError Node) : Prop :=
  ∀ t label node, t.Proper → build t label = .ok node → Faithful node t

theorem parts_of_atom (hwell : tree.WellFormed) (hk : tree.kind.isAtom = true) :
    tree.children = [] ∧ tree.supplied = [] := by
  refine ⟨hwell.root.children_eq_nil hk, ?_⟩
  unfold supplied
  cases hkind : tree.kind <;> simp_all [Kind.isAtom]

/-- A name that is kept in the node around it is no value. -/
theorem values_name (hwell : tree.WellFormed) (hk : tree.kind.isAtom = true) :
    tree.values .name = [] := by
  obtain ⟨hchildren, hsupplied⟩ := parts_of_atom hwell hk
  simp [values_eq, value, hchildren, hsupplied]

/-- A name or literal is built into what it stands for. -/
theorem faithful_leaf (hwell : tree.WellFormed) (hk : tree.kind.isAtom = true)
    (hdebugger : tree.kind ≠ .debugger) (h : (leaf tree : Except BuildError Node) = .ok node) :
    Faithful node tree := by
  have hvalues : tree.values .use = tree.value .use := by
    obtain ⟨hchildren, hsupplied⟩ := parts_of_atom hwell hk
    simp [values_eq, hchildren, hsupplied]
  have hleaves : node.leaves = tree.value .use := by
    unfold leaf at h
    unfold value
    cases hkind : tree.kind <;> simp only [hkind, Kind.isAtom, Bool.false_eq_true] at h hk
    case debugger => exact absurd hkind hdebugger
    case decimalLiteral =>
      have hnode := literal_eq_ok h
      rcases decimal?_eq_some hnode with ⟨_, rfl⟩ | ⟨_, rfl⟩ <;> simp [hnode]
    case hexLiteral =>
      have hnode := literal_eq_ok h
      obtain ⟨_, rfl⟩ := hex?_eq_some hnode
      simp [hnode]
    case stringLiteral =>
      have hnode := literal_eq_ok h
      obtain ⟨_, _, -, -, rfl⟩ := string?_eq_some hnode
      simp [hnode]
    case regexLiteral =>
      have hnode := literal_eq_ok h
      obtain ⟨_, _, -, rfl⟩ := regex?_eq_some hnode
      simp [hnode]
    all_goals
      cases h
      rfl
  intro n
  rw [hvalues, hleaves]

variable {build : ParseTree → Option String → Except BuildError Node} (hbuild : Keeps build)
include hbuild

theorem keeps_all {trees : List ParseTree} (ht : ∀ t ∈ trees, t.Proper)
    (h : all build trees = .ok nodes) (n : Node) :
    n ∈ nodeLeaves nodes ↔ n ∈ trees.flatMap (values .use) := by
  induction trees generalizing nodes with
  | nil =>
    cases h
    rfl
  | cons t trees ih =>
    obtain ⟨node, rest, hnode, hrest, rfl⟩ := all_cons_eq_ok h
    rw [List.forall_mem_cons] at ht
    simp only [nodeLeaves, List.flatMap_cons, List.mem_append, hbuild t none node ht.1 hnode n,
      ih ht.2 hrest]

theorem keeps_pair (htwo : tree.children.length = 2) (ht : tree.Proper)
    (h : pair build tree = .ok (x, y)) (n : Node) :
    n ∈ x.leaves ++ y.leaves ↔ n ∈ tree.children.flatMap (values .use) := by
  obtain ⟨a, b, rest, hchildren, hx, hy⟩ := pair_eq_ok h
  obtain rfl : rest = [] := by simpa [hchildren] using htwo
  have ha := hbuild a none x (ht.inside a (by simp [hchildren])) hx n
  have hb := hbuild b none y (ht.inside b (by simp [hchildren])) hy n
  simp [hchildren, ha, hb]

/-- What is made of the one operand of a construct has its values still to keep. -/
theorem keeps_operand {part : Part} (hone : tree.children.length ≤ 1) (ht : tree.Proper)
    {r : Node → Except BuildError Node}
    (h : (do let operand ← build (← child tree 0 part) none; r operand) = .ok node) :
    ∃ x, r x = .ok node ∧ ∀ n, n ∈ x.leaves ↔ n ∈ tree.children.flatMap (values .use) := by
  obtain ⟨operand, rest, x, hchildren, hx, h⟩ := operand_eq_ok h
  obtain rfl : rest = [] := by simpa [hchildren] using hone
  refine ⟨x, h, fun n => ?_⟩
  simpa [hchildren] using hbuild operand none x (ht.inside operand (by simp [hchildren])) hx n

theorem keeps_block {content : Block} (ht : tree.Proper)
    (h : block build tree label = .ok content) (n : Node) :
    n ∈ content.leaves ↔ n ∈ tree.values .use := by
  obtain ⟨nodes, rfl, ⟨hk, hnodes⟩ | ⟨-, x, hx, rfl⟩⟩ := block_eq_ok h
  · rw [values_of_isPlain (by rw [hk]; rfl)]
    exact keeps_all hbuild ht.inside hnodes n
  · simpa using hbuild tree none x ht hx n

end Build
end Ecma3
