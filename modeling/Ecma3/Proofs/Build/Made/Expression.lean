import Ecma3.Proofs.Build.Made

/-! The constructions of expressions make a node around what their parts are built into. -/
namespace Ecma3.Build

open List (Forall₂)

variable {tree : ParseTree} {node : Node} {nodes : List Node}
  {build : ParseTree → Option String → Except BuildError Node}

theorem made_sequence (h : sequence build tree = .ok node) : Made (Builds build) tree node := by
  obtain ⟨nodes, hnodes, h⟩ := bind_eq_ok h
  cases h
  exact .nodes (List.Subperm.refl _) (made_all hnodes) ⟨rfl, nofun⟩

theorem made_properties {entries : List ParseTree} {known found : List Property}
    (h : properties build known entries = .ok found) :
    MadeProperties (Builds build) known entries found := by
  induction entries generalizing known with
  | nil =>
    cases h
    exact .nil
  | cons entry entries ih =>
    obtain ⟨_, content, _, value, -, hchildren, hvalue, h⟩ := properties_cons_eq_ok h
    have hcontent : content ∈ entry.children := by simp [hchildren]
    exact .cons hcontent ⟨none, hvalue⟩ (ih h)

theorem made_object (h : object build tree = .ok node) : Made (Builds build) tree node := by
  obtain ⟨found, hfound, rfl⟩ := object_eq_ok h
  exact .object (made_properties hfound)

theorem made_elements {items : List ParseTree} {found : List (Option Node)}
    (h : elements build items = .ok found) : Forall₂ (MadeElement (Builds build)) items found := by
  induction items generalizing found with
  | nil =>
    cases h
    exact .nil
  | cons item items ih =>
    obtain ⟨element, rest, rfl, hrest, helement⟩ := elements_cons_eq_ok h
    refine .cons ?_ (ih hrest)
    rcases helement with ⟨-, -, rfl⟩ | ⟨content, x, ⟨-, hcontent⟩ | ⟨-, rfl⟩, hx, rfl⟩
    · exact .hole
    · exact .item (List.mem_of_mem_head? hcontent) ⟨none, hx⟩
    · exact .bare ⟨none, hx⟩

theorem made_array (h : array build tree = .ok node) : Made (Builds build) tree node := by
  obtain ⟨found, hfound, h⟩ := bind_eq_ok h
  cases h
  exact .array (made_elements hfound)

theorem made_function (h : function build tree = .ok node) : Made (Builds build) tree node := by
  obtain ⟨_, _, parameters, body, content, -, hparameters, hbody, hcontent, rfl⟩ := function_eq_ok h
  exact .function (pair_sublist hparameters hbody) (made_block hcontent)

theorem made_new (h : new build tree = .ok node) : Made (Builds build) tree node := by
  obtain ⟨operand, rest, x, hchildren, hx, h⟩ := operand_eq_ok h
  cases h
  exact .ofFirst hchildren ⟨none, hx⟩ ⟨rfl, nofun⟩

theorem made_arguments (h : arguments build tree = .ok nodes) :
    MadeArguments (Builds build) (some tree) nodes := by
  rcases arguments_eq_ok h with ⟨-, hnodes⟩ | ⟨x, hx, rfl⟩
  · exact .list (made_all hnodes)
  · exact .single ⟨none, hx⟩

theorem made_call (h : call build tree = .ok node) : Made (Builds build) tree node := by
  obtain ⟨callee, rest, _, moved, x, nodes, hchildren, harguments, hdetach, hx, rfl⟩ := call_eq_ok h
  have hholds : Node.Holds (if moved then .new x (some nodes) tree.span else .call x nodes tree.span)
      (.node x :: nodes.map .node) := by
    split <;> exact ⟨rfl, nofun⟩
  rcases harguments with ⟨rfl, rfl⟩ | ⟨list, more, rfl, hnodes⟩
  · have htrees : [callee].Sublist tree.children := by simp [hchildren]
    exact .call htrees (made_detach hdetach) ⟨none, hx⟩ .none hholds
  · have htrees : [callee, list].Sublist tree.children := by simp [hchildren]
    exact .call htrees (made_detach hdetach) ⟨none, hx⟩ (made_arguments hnodes) hholds

theorem made_access (h : access build tree = .ok node) : Made (Builds build) tree node := by
  obtain ⟨object, member, _, _, moved, x, access, hchildren, hdetach, hx, haccess, hnode⟩ :=
    access_eq_ok h
  have htrees : [object, member].Sublist tree.children := by simp [hchildren]
  refine .access htrees (made_detach hdetach) ⟨none, hx⟩ ?_ hnode
  rcases haccess with ⟨-, rfl⟩ | ⟨-, y, hy, rfl⟩
  · exact .inl ⟨rfl, nofun⟩
  · exact .inr ⟨y, ⟨none, hy⟩, rfl, nofun⟩

/-! Operators. -/

theorem holds_joins {x y : Node} {span : Span} (h : Joins x y span node) :
    node.Holds [.node x, .node y] := by
  cases h <;> exact ⟨rfl, nofun⟩

theorem made_assignment (hk : tree.kind = .assign ∨ tree.kind.copiesTarget = true)
    (h : assignment build tree = .ok node) : Made (Builds build) tree node := by
  obtain ⟨_, _, z, hpair, hz, rfl⟩ := assignment_eq_ok h
  obtain ⟨first, second, rest, hchildren, hx, hy⟩ := pair_eq_ok hpair
  rcases assignedValue_eq_ok hz with ⟨-, rfl⟩ | ⟨hassign, hz⟩
  · exact .ofPair hchildren ⟨none, hx⟩ ⟨none, hy⟩ ⟨rfl, nofun⟩
  · exact .compound (hk.resolve_left hassign) hchildren ⟨none, hx⟩ ⟨none, hy⟩ (holds_joins hz)

theorem made_binary (h : binary build tree = .ok node) : Made (Builds build) tree node := by
  obtain ⟨x, y, hpair, hnode⟩ := binary_eq_ok h
  obtain ⟨first, second, rest, hchildren, hx, hy⟩ := pair_eq_ok hpair
  exact .ofPair hchildren ⟨none, hx⟩ ⟨none, hy⟩ (holds_joins hnode)

theorem made_step (hk : tree.kind = .postIncrement ∨ tree.kind = .postDecrement ∨
      tree.kind.copiesTarget = true) (h : step build tree = .ok node) :
    Made (Builds build) tree node := by
  obtain ⟨operand, rest, x, hchildren, hx, h⟩ := operand_eq_ok h
  split at h
  · cases h
    exact .ofFirst hchildren ⟨none, hx⟩ ⟨rfl, nofun⟩
  · cases h
    exact .ofFirst hchildren ⟨none, hx⟩ ⟨rfl, nofun⟩
  · cases h
    exact .step (by tauto) hchildren ⟨none, hx⟩

theorem made_unary (h : unary build tree = .ok node) : Made (Builds build) tree node := by
  obtain ⟨operand, rest, x, hchildren, hx, h⟩ := operand_eq_ok h
  refine .ofFirst hchildren ⟨none, hx⟩ ?_
  split at h <;> cases h <;> exact ⟨rfl, nofun⟩

end Ecma3.Build
