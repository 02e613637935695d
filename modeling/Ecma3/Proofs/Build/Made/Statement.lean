import Ecma3.Proofs.Build.Inversion.Statement
import Ecma3.Proofs.Build.Made.Expression

/-! The constructions of statements make a node around what their parts are built into, and so do all
constructions together. -/
namespace Ecma3.Build

open List (Forall₂)

variable {tree : ParseTree} {node x y : Node} {nodes : List Node} {label : Option String}
  {build : ParseTree → Option String → Except BuildError Node}

theorem made_grouping (h : grouping build tree label = .ok node) :
    Made (Builds build) tree node := by
  obtain ⟨content, rest, hchildren, hcontent⟩ := grouping_eq_ok h
  have hmem : content ∈ tree.children := by simp [hchildren]
  exact .inner hmem ⟨label, hcontent⟩

theorem made_labelled (h : labelled build tree label = .ok node) :
    Made (Builds build) tree node := by
  obtain ⟨name, target, rest, hchildren, htarget⟩ := labelled_eq_ok h
  have hmem : target ∈ tree.children := by simp [hchildren]
  exact .inner hmem ⟨_, htarget⟩

theorem made_blockStatement (hk : tree.kind = .block)
    (h : Node.block <$> block build tree label = .ok node) : Made (Builds build) tree node := by
  obtain ⟨content, hcontent, rfl⟩ := map_eq_ok h
  obtain ⟨nodes, rfl, ⟨-, hnodes⟩ | ⟨hne, -⟩⟩ := block_eq_ok hcontent
  · exact .block hk (made_all hnodes)
  · exact absurd hk hne

theorem made_declarator (h : declarator build tree = .ok node) :
    MadeDeclarator (Builds build) tree node := by
  rcases declarator_eq_ok h with
    ⟨-, rfl⟩ | ⟨target, value, rest, x, y, -, hchildren, hx, hy, rfl⟩ | ⟨-, -, hx⟩
  · exact .name
  · rcases hx with ⟨-, rfl⟩ | ⟨-, hx⟩
    · exact .named hchildren ⟨none, hy⟩
    · exact .assign hchildren ⟨none, hx⟩ ⟨none, hy⟩
  · exact .other ⟨none, hx⟩

theorem made_declarators {trees : List ParseTree} (h : declarators build trees = .ok nodes) :
    Forall₂ (MadeDeclarator (Builds build)) trees nodes := by
  induction trees generalizing nodes with
  | nil =>
    cases h
    exact .nil
  | cons t trees ih =>
    obtain ⟨x, rest, hx, hrest, rfl⟩ := declarators_cons_eq_ok h
    exact .cons (made_declarator hx) (ih hrest)

theorem made_var (h : var build tree = .ok node) : Made (Builds build) tree node := by
  obtain ⟨nodes, hnodes, rfl | ⟨-, rfl⟩⟩ := var_eq_ok h
  · have hmade := made_declarators hnodes
    generalize hchildren : tree.children = trees at hmade
    obtain _ | ⟨hfirst, -⟩ := hmade
    exact .declarator (by rw [hchildren]; exact List.mem_cons_self) hfirst
  · exact .declarators (made_declarators hnodes)

theorem made_conditional (h : conditional build tree label = .ok node) :
    Made (Builds build) tree node := by
  obtain ⟨test, consequent, rest, x, y, alternate, hchildren, hx, hy, halternate, rfl⟩ :=
    conditional_eq_ok h
  rcases halternate with ⟨rfl, -, rfl⟩ | ⟨other, more, z, rfl, hz, rfl⟩
  · exact .ofPair hchildren ⟨none, hx⟩ ⟨none, hy⟩ ⟨rfl, nofun⟩
  · have htrees : [test, consequent, other].Sublist tree.children := by
      simp [hchildren]
    exact .nodes htrees.subperm (.cons ⟨none, hx⟩ (.cons ⟨none, hy⟩ (.cons ⟨none, hz⟩ .nil)))
      ⟨rfl, nofun⟩

theorem made_whileLoop (h : whileLoop build tree label = .ok node) :
    Made (Builds build) tree node := by
  obtain ⟨x, y, hpair, hnode⟩ := whileLoop_eq_ok h
  obtain ⟨first, second, rest, hchildren, hx, hy⟩ := pair_eq_ok hpair
  rcases hnode with rfl | rfl
  · refine .nodes ?_ (.cons ⟨none, hy⟩ (.cons ⟨none, hx⟩ .nil)) ⟨rfl, nofun⟩
    rw [hchildren]
    exact (List.Perm.swap first second []).subperm.trans
      (List.sublist_append_left [first, second] rest).subperm
  · exact .ofPair hchildren ⟨none, hx⟩ ⟨none, hy⟩ ⟨rfl, nofun⟩

theorem made_withStatement (h : withStatement build tree label = .ok node) :
    Made (Builds build) tree node := by
  obtain ⟨x, y, hpair, rfl⟩ := withStatement_eq_ok h
  obtain ⟨first, second, rest, hchildren, hx, hy⟩ := pair_eq_ok hpair
  exact .ofPair hchildren ⟨none, hx⟩ ⟨none, hy⟩ ⟨rfl, nofun⟩

theorem made_jump (h : jump build tree = .ok node) : Made (Builds build) tree node := by
  rcases jump_eq_ok h with
    ⟨value, rest, x, hchildren, hx, hnode⟩ | ⟨hkind, -, rfl⟩ | ⟨-, -, _, rfl | rfl⟩
  · refine .ofFirst hchildren ⟨none, hx⟩ ?_
    rcases hnode with ⟨-, rfl⟩ | ⟨-, rfl⟩ <;> exact ⟨rfl, nofun⟩
  · exact .returnNothing hkind
  · exact .leaf ⟨rfl, nofun⟩
  · exact .leaf ⟨rfl, nofun⟩

theorem made_clauses {whole : ParseTree} {cases : List SwitchCase} {default : Option Node}
    {trees : List ParseTree} {found : List SwitchCase × Option Node}
    (h : clauses build whole cases default trees = .ok found) :
    MadeClauses (Builds build) cases default trees found := by
  induction trees generalizing cases default with
  | nil =>
    cases h
    exact .nil
  | cons clause trees ih =>
    rcases clauses_cons_eq_ok h with
      ⟨test, body, x, nodes, -, hchildren, hx, hnodes, h⟩ | ⟨nodes, -, rfl, hnodes, h⟩
    · exact .case hchildren ⟨none, hx⟩ (made_all hnodes) (ih h)
    · exact .default (made_all hnodes) (ih h)

theorem made_switch (hk : tree.kind = .switch) (h : switch build tree label = .ok node) :
    Made (Builds build) tree node := by
  obtain ⟨discriminant, found, x, cases, default, hchildren, hx, hclauses, rfl⟩ := switch_eq_ok h
  exact .switch hk hchildren ⟨none, hx⟩ (made_clauses hclauses)

theorem made_handlers {handler : Option Catch} {cleanup : Option Block} {trees : List ParseTree}
    {found : Option Catch × Option Block} (h : handlers build handler cleanup trees = .ok found) :
    MadeHandlers (Builds build) handler cleanup trees found := by
  induction trees generalizing handler cleanup with
  | nil =>
    cases h
    exact .nil
  | cons clause trees ih =>
    rcases handlers_cons_eq_ok h with
      ⟨_, body, _, content, -, hchildren, hcontent, h⟩ | ⟨body, _, content, -, hchildren, hcontent, h⟩
    · have hbody : body ∈ clause.children := by simp [hchildren]
      exact .catch hbody (made_block hcontent) (ih h)
    · have hbody : body ∈ clause.children := by simp [hchildren]
      exact .finally hbody (made_block hcontent) (ih h)

theorem made_tryStatement (hk : tree.kind = .«try») (h : tryStatement build tree label = .ok node) :
    Made (Builds build) tree node := by
  obtain ⟨body, found, content, handler, cleanup, hchildren, hcontent, hclauses, rfl⟩ :=
    tryStatement_eq_ok h
  exact .tryStatement hk hchildren (made_block hcontent) (made_handlers hclauses)

theorem made_clause {missing : Span → Node} (hmissing : ∀ span, (missing span).Holds [])
    (h : clause build missing tree = .ok node) : MadeClause (Builds build) tree node := by
  rcases clause_eq_ok h with ⟨-, -, rfl⟩ | ⟨content, rest, -, hchildren, hx⟩ | ⟨-, hx⟩
  · exact .missing (hmissing _)
  · have hmem : content ∈ tree.children := by simp [hchildren]
    exact .inner hmem ⟨none, hx⟩
  · exact .bare ⟨none, hx⟩

theorem made_forLoop (h : forLoop build tree label = .ok node) : Made (Builds build) tree node := by
  obtain ⟨head, body, rest, w, hchildren, hw, hloop⟩ := forLoop_eq_ok h
  have htrees : [head, body].Sublist tree.children := by
    simp [hchildren]
  rcases hloop with ⟨init, test, update, more, x, y, z, -, hclauses, hx, hy, hz, rfl⟩ |
    ⟨target, object, more, x, y, -, hclauses, hx, hy, rfl⟩
  · have hhead : [init, test, update].Sublist head.children := by
      simp [hclauses]
    refine .loop htrees hhead (.cons (made_clause ?_ hx) (.cons (made_clause ?_ hy)
      (.cons (made_clause ?_ hz) .nil))) ⟨none, hw⟩ ⟨rfl, nofun⟩
    all_goals exact fun _ => ⟨rfl, nofun⟩
  · have hhead : [target, object].Sublist head.children := by
      simp [hclauses]
    refine .loop htrees hhead (.cons (made_clause ?_ hx) (.cons (made_clause ?_ hy) .nil))
      ⟨none, hw⟩ ⟨rfl, nofun⟩
    all_goals exact fun _ => ⟨rfl, nofun⟩

/-! All constructions. -/

theorem copiesTarget_of_assignment {kind : Kind} (h : kind.strength? = some 1) :
    kind = .assign ∨ kind.copiesTarget = true := by
  cases kind <;> first | exact .inl rfl | exact .inr rfl | cases h

theorem copiesTarget_of_step {kind : Kind} (h : kind = .increment ∨ kind = .decrement ∨
      kind = .postIncrement ∨ kind = .postDecrement) :
    kind = .postIncrement ∨ kind = .postDecrement ∨ kind.copiesTarget = true := by
  rcases h with rfl | rfl | rfl | rfl <;> decide

/-- A tree is built into what its construction makes. -/
theorem made_construct (h : construct build tree label = .ok node) :
    Made (Builds build) tree node := by
  obtain ⟨c, hc, hconstruct⟩ := exists_constructs tree.kind
  rw [hconstruct rfl] at h
  cases hc with
  | grouping => exact made_grouping h
  | labelled => exact made_labelled h
  | block hk => exact made_blockStatement hk h
  | var => exact made_var h
  | sequence => exact made_sequence h
  | object => exact made_object h
  | array => exact made_array h
  | function => exact made_function h
  | call => exact made_call h
  | new => exact made_new h
  | access => exact made_access h
  | conditional => exact made_conditional h
  | switch hk => exact made_switch hk h
  | tryStatement hk => exact made_tryStatement hk h
  | whileLoop => exact made_whileLoop h
  | forLoop => exact made_forLoop h
  | withStatement => exact made_withStatement h
  | jump => exact made_jump h
  | leaf => exact .leaf (holds_leaf h)
  | assignment hk => exact made_assignment (copiesTarget_of_assignment hk) h
  | binary => exact made_binary h
  | step hk => exact made_step (copiesTarget_of_step hk) h
  | unary => exact made_unary h
  | unsupported => cases h

/-- What a tree is built into is made around what the trees inside are built into with a level less. -/
theorem made_within {limit levels : Nat}
    (h : (within limit (levels + 1) tree label : Except BuildError Node) = .ok node) :
    Made (Builds (within limit levels)) tree node :=
  made_construct (visit_eq_ok h).1

end Ecma3.Build
