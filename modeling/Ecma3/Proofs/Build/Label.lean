import Ecma3.Proofs.Ast.Label
import Ecma3.Proofs.Build.Made

/-!
Where the constructions put labels. Each puts the one that it is given on the node it makes and on
nothing inside, and those of expressions are given none.
-/
namespace Ecma3.Build

variable {tree : ParseTree} {node x y : Node} {nodes : List Node} {label : Option String}
  {build : ParseTree → Option String → Except BuildError Node}

/-- Whatever it comes to has `Q`. -/
def Makes {α : Type} (r : Except BuildError α) (Q : α → Prop) : Prop := ∀ a, r = .ok a → Q a

/-- A node with this label. What stands inside it and has a label has `P`. -/
structure Carries (P : Node → Prop) (label : Option String) (n : Node) : Prop where
  label : n.label = label
  parts : ∀ q ∈ n.parts, q.Marked P

theorem Carries.marked {P : Node → Prop} (h : Carries P none node) : (Piece.node node).Marked P :=
  Piece.marked_node (fun hlabel => absurd h.label hlabel) h.parts

theorem carries_null {P : Node → Prop} {span : Span} : Carries P none (.null span) := ⟨rfl, nofun⟩

/-- Trees with `T` are well formed, and what is built of them without a label has `P` wherever there
is a label in it. -/
structure Tracks (T : ParseTree → Prop) (P : Node → Prop)
    (build : ParseTree → Option String → Except BuildError Node) : Prop where
  wellFormed : ∀ t, T t → t.WellFormed
  inside : ∀ t, T t → ∀ c ∈ t.children, T c
  detached : ∀ t d, T t → t.withoutNew? = some d → T d.tree
  built : ∀ t, T t → Makes (build t none) (Piece.node · |>.Marked P)

section

variable {T : ParseTree → Prop} {P : Node → Prop} {trees : List ParseTree}

theorem carries_leaf (hnode : (leaf tree : Except BuildError Node) = .ok node) :
    Carries P none node := by
  cases leaf_eq_ok hnode <;> exact ⟨rfl, nofun⟩

theorem marked_one (hx : (Piece.node x).Marked P) : ∀ q ∈ [Piece.node x], q.Marked P :=
  List.forall_mem_singleton.2 hx

theorem marked_two (hx : (Piece.node x).Marked P) (hy : (Piece.node y).Marked P) :
    ∀ q ∈ [Piece.node x, .node y], q.Marked P :=
  List.forall_mem_cons.2 ⟨hx, marked_one hy⟩

theorem carries_joins {span : Span} (hx : (Piece.node x).Marked P) (hy : (Piece.node y).Marked P)
    (h : Joins x y span node) : Carries P none node := by
  cases h <;> exact ⟨rfl, marked_two hx hy⟩

theorem marked_assignedValue (hx : (Piece.node x).Marked P) (hy : (Piece.node y).Marked P)
    (hnode : (assignedValue tree x y : Except BuildError Node) = .ok node) :
    (Piece.node node).Marked P := by
  rcases assignedValue_eq_ok hnode with ⟨-, rfl⟩ | ⟨-, hjoins⟩
  · exact hy
  · exact (carries_joins hx hy hjoins).marked

variable (h : Tracks T P build)
include h

theorem marked_all (htrees : ∀ t ∈ trees, T t) (hnodes : all build trees = .ok nodes) :
    ∀ x ∈ nodes, (Piece.node x).Marked P := by
  induction trees generalizing nodes with
  | nil =>
    cases hnodes
    exact nofun
  | cons t trees ih =>
    rw [List.forall_mem_cons] at htrees
    obtain ⟨x, rest, hx, hrest, rfl⟩ := all_cons_eq_ok hnodes
    exact List.forall_mem_cons.2 ⟨h.built t htrees.1 x hx, ih htrees.2 hrest⟩

theorem marked_pair (htree : T tree) (hpair : pair build tree = .ok (x, y)) :
    (Piece.node x).Marked P ∧ (Piece.node y).Marked P := by
  obtain ⟨first, second, _, hchildren, hx, hy⟩ := pair_eq_ok hpair
  have hinside := h.inside tree htree
  exact ⟨h.built first (hinside first (by simp [hchildren])) x hx,
    h.built second (hinside second (by simp [hchildren])) y hy⟩

theorem marked_block {content : Block} (htree : T tree)
    (hcontent : block build tree label = .ok content) : (Piece.block content).Marked P := by
  obtain ⟨nodes, rfl, ⟨-, hnodes⟩ | ⟨-, x, hx, rfl⟩⟩ := block_eq_ok hcontent
  · exact Piece.marked_block (marked_all h (h.inside tree htree) hnodes)
  · exact Piece.marked_block (List.forall_mem_singleton.2 (h.built tree htree x hx))

theorem carries_sequence (htree : T tree) (hnode : sequence build tree = .ok node) :
    Carries P none node := by
  obtain ⟨nodes, hnodes, hnode⟩ := bind_eq_ok hnode
  cases hnode
  exact ⟨rfl, List.forall_mem_map.2 (marked_all h (h.inside tree htree) hnodes)⟩

theorem marked_properties {known found : List Property} (htrees : ∀ t ∈ trees, T t)
    (hknown : ∀ p ∈ known, (Piece.node p.value).Marked P)
    (hfound : properties build known trees = .ok found) :
    ∀ p ∈ found, (Piece.node p.value).Marked P := by
  induction trees generalizing known with
  | nil =>
    cases hfound
    exact hknown
  | cons entry trees ih =>
    rw [List.forall_mem_cons] at htrees
    obtain ⟨_, content, _, value, -, hchildren, hvalue, hfound⟩ := properties_cons_eq_ok hfound
    have hcontent := h.inside entry htrees.1 content (by simp [hchildren])
    refine ih htrees.2 (fun p hp => ?_) hfound
    rcases Property.mem_put hp with heq | hp
    · rw [heq]
      exact h.built content hcontent value hvalue
    · exact hknown p hp

theorem carries_object (htree : T tree) (hnode : object build tree = .ok node) :
    Carries P none node := by
  obtain ⟨found, hfound, rfl⟩ := object_eq_ok hnode
  exact ⟨rfl, List.forall_mem_map.2 (marked_properties h (h.inside tree htree) (by simp) hfound)⟩

theorem marked_elements {found : List (Option Node)} (htrees : ∀ t ∈ trees, T t)
    (hfound : elements build trees = .ok found) :
    ∀ x ∈ found.filterMap id, (Piece.node x).Marked P := by
  induction trees generalizing found with
  | nil =>
    cases hfound
    exact nofun
  | cons item trees ih =>
    rw [List.forall_mem_cons] at htrees
    obtain ⟨element, rest, rfl, hrest, helement⟩ := elements_cons_eq_ok hfound
    have hrest := ih htrees.2 hrest
    rcases helement with ⟨-, -, rfl⟩ | ⟨content, x, hcontent, hx, rfl⟩
    · exact hrest
    · have htree : T content := by
        rcases hcontent with ⟨-, hcontent⟩ | ⟨-, rfl⟩
        · exact h.inside item htrees.1 content (List.mem_of_mem_head? hcontent)
        · exact htrees.1
      exact List.forall_mem_cons.2 ⟨h.built content htree x hx, hrest⟩

theorem carries_array (htree : T tree) (hnode : array build tree = .ok node) :
    Carries P none node := by
  obtain ⟨found, hfound, hnode⟩ := bind_eq_ok hnode
  cases hnode
  exact ⟨rfl, List.forall_mem_map.2 (marked_elements h (h.inside tree htree) hfound)⟩

theorem carries_function (htree : T tree) (hnode : function build tree = .ok node) :
    Carries P none node := by
  obtain ⟨_, _, _, body, content, -, -, hbody, hcontent, rfl⟩ := function_eq_ok hnode
  have hbody := h.inside tree htree body (List.mem_of_getElem? hbody)
  exact ⟨rfl, List.forall_mem_singleton.2 (marked_block h hbody hcontent)⟩

theorem marked_operand {part : Part} {r : Node → Except BuildError Node} (htree : T tree)
    (hnode : (do let operand ← build (← child tree 0 part) none; r operand) = .ok node) :
    ∃ x, (Piece.node x).Marked P ∧ r x = .ok node := by
  obtain ⟨operand, _, x, hchildren, hx, hnode⟩ := operand_eq_ok hnode
  exact ⟨x, h.built operand (h.inside tree htree operand (by simp [hchildren])) x hx, hnode⟩

theorem carries_new (htree : T tree) (hnode : new build tree = .ok node) :
    Carries P none node := by
  obtain ⟨x, hx, hnode⟩ := marked_operand h htree hnode
  cases hnode
  exact ⟨rfl, marked_one hx⟩

theorem marked_arguments (htree : T tree) (hnodes : arguments build tree = .ok nodes) :
    ∀ x ∈ nodes, (Piece.node x).Marked P := by
  rcases arguments_eq_ok hnodes with ⟨-, hnodes⟩ | ⟨x, hx, rfl⟩
  · exact marked_all h (h.inside tree htree) hnodes
  · exact List.forall_mem_singleton.2 (h.built tree htree x hx)

theorem tracks_detach {bare : ParseTree} {moved : Bool} (htree : T tree)
    (hdetach : (detach tree : Except BuildError (ParseTree × Bool)) = .ok (bare, moved)) :
    T bare := by
  rcases detach_eq_ok hdetach with ⟨rfl, -⟩ | ⟨d, hd, rfl, -⟩
  · exact htree
  · exact h.detached tree d htree hd

theorem carries_call (htree : T tree) (hnode : call build tree = .ok node) :
    Carries P none node := by
  obtain ⟨callee, _, bare, moved, x, nodes, hchildren, harguments, hdetach, hx, rfl⟩ :=
    call_eq_ok hnode
  have hinside := h.inside tree htree
  have hbare := tracks_detach h (hinside callee (by simp [hchildren])) hdetach
  have hnodes : ∀ y ∈ nodes, (Piece.node y).Marked P := by
    rcases harguments with ⟨-, rfl⟩ | ⟨list, _, rfl, hlist⟩
    · exact nofun
    · exact marked_arguments h (hinside list (by simp [hchildren])) hlist
  have hparts : ∀ q ∈ .node x :: nodes.map Piece.node, q.Marked P :=
    List.forall_mem_cons.2 ⟨h.built bare hbare x hx, List.forall_mem_map.2 hnodes⟩
  split <;> exact ⟨rfl, hparts⟩

theorem carries_access (htree : T tree) (hnode : access build tree = .ok node) :
    Carries P none node := by
  obtain ⟨object, member, _, bare, moved, x, access, hchildren, hdetach, hx, haccess, rfl⟩ :=
    access_eq_ok hnode
  have hinside := h.inside tree htree
  have hbare := tracks_detach h (hinside object (by simp [hchildren])) hdetach
  have hx := h.built bare hbare x hx
  have haccess : Carries P none access := by
    rcases haccess with ⟨-, rfl⟩ | ⟨-, y, hy, rfl⟩
    · exact ⟨rfl, marked_one hx⟩
    · exact ⟨rfl, marked_two hx (h.built member (hinside member (by simp [hchildren])) y hy)⟩
  split
  · exact ⟨rfl, marked_one haccess.marked⟩
  · exact haccess

theorem carries_assignment (htree : T tree) (hnode : assignment build tree = .ok node) :
    Carries P none node := by
  obtain ⟨x, y, z, hpair, hz, rfl⟩ := assignment_eq_ok hnode
  obtain ⟨hx, hy⟩ := marked_pair h htree hpair
  exact ⟨rfl, marked_two hx (marked_assignedValue hx hy hz)⟩

theorem carries_binary (htree : T tree) (hnode : binary build tree = .ok node) :
    Carries P none node := by
  obtain ⟨x, y, hpair, hjoins⟩ := binary_eq_ok hnode
  obtain ⟨hx, hy⟩ := marked_pair h htree hpair
  exact carries_joins hx hy hjoins

theorem carries_step (htree : T tree) (hnode : step build tree = .ok node) :
    Carries P none node := by
  obtain ⟨x, hx, hnode⟩ := marked_operand h htree hnode
  split at hnode
  · cases hnode
    exact ⟨rfl, marked_one hx⟩
  · cases hnode
    exact ⟨rfl, marked_one hx⟩
  · cases hnode
    have hone : (Piece.node (.integer 1 tree.span)).Marked P := Carries.marked ⟨rfl, nofun⟩
    have hvalue : ∀ operator, (Piece.node (.binary operator x (.integer 1 tree.span)
        tree.span)).Marked P := fun _ => Carries.marked ⟨rfl, marked_two hx hone⟩
    exact ⟨rfl, marked_two hx (hvalue _)⟩

theorem carries_unary (htree : T tree) (hnode : unary build tree = .ok node) :
    Carries P none node := by
  obtain ⟨x, hx, hnode⟩ := marked_operand h htree hnode
  split at hnode <;> cases hnode <;> exact ⟨rfl, marked_one hx⟩

end

end Ecma3.Build
