import Ecma3.Proofs.Build.Inversion

/-! What the constructions of statements have built once they have made a node. -/
namespace Ecma3.Build

variable {tree : ParseTree} {trees : List ParseTree} {node : Node} {nodes : List Node}
  {label : Option String} {build : ParseTree → Option String → Except BuildError Node}

theorem grouping_eq_ok (h : grouping build tree label = .ok node) : ∃ content rest,
    tree.children = content :: rest ∧ build content label = .ok node := by
  obtain ⟨content, hcontent, h⟩ := bind_eq_ok h
  obtain ⟨rest, hchildren⟩ := cons_of_getElem? (child_eq_ok hcontent)
  exact ⟨content, rest, hchildren, h⟩

/-- The label behind takes the place of one in front. -/
theorem labelled_eq_ok (h : labelled build tree label = .ok node) : ∃ name target rest,
    tree.children = name :: target :: rest ∧ build target (some name.text) = .ok node := by
  obtain ⟨name, hname, h⟩ := bind_eq_ok h
  obtain ⟨target, htarget, h⟩ := bind_eq_ok h
  obtain ⟨rest, hchildren⟩ := cons_cons_of_getElem? (child_eq_ok hname) (child_eq_ok htarget)
  cases label with
  | none => exact ⟨name, target, rest, hchildren, h⟩
  | some outer => exact ⟨name, target, rest, hchildren, h⟩

theorem declarator_eq_ok (h : declarator build tree = .ok node) :
    tree.kind = .identifier ∧ node = .identifier tree.text true tree.span ∨
      (∃ target value rest x y, tree.kind = .assign ∧ tree.children = target :: value :: rest ∧
        (target.kind = .identifier ∧ x = .identifier target.text true target.span ∨
          target.kind ≠ .identifier ∧ build target none = .ok x) ∧
        build value none = .ok y ∧ node = .assign x y tree.span) ∨
      tree.kind ≠ .identifier ∧ tree.kind ≠ .assign ∧ build tree none = .ok node := by
  unfold declarator at h
  split at h
  · cases h
    exact .inl ⟨‹_›, rfl⟩
  · rename_i hkind
    obtain ⟨target, htarget, h⟩ := bind_eq_ok h
    obtain ⟨value, hvalue, h⟩ := bind_eq_ok h
    obtain ⟨rest, hchildren⟩ := cons_cons_of_getElem? (child_eq_ok htarget) (child_eq_ok hvalue)
    split at h
    · rename_i hname
      obtain ⟨x, hx, h⟩ := bind_eq_ok h
      obtain ⟨y, hy, h⟩ := bind_eq_ok h
      cases hx
      cases h
      exact .inr (.inl ⟨target, value, rest, _, y, hkind, hchildren, .inl ⟨hname, rfl⟩, hy, rfl⟩)
    · rename_i hname
      obtain ⟨x, hx, h⟩ := bind_eq_ok h
      obtain ⟨y, hy, h⟩ := bind_eq_ok h
      cases h
      exact .inr (.inl ⟨target, value, rest, x, y, hkind, hchildren, .inr ⟨hname, hx⟩, hy, rfl⟩)
  · exact .inr (.inr ⟨‹_›, ‹_›, h⟩)

/-- A declarator is a name, or a name with its first value. -/
theorem declared_eq_ok (hd : tree.IsDeclarator) (h : declarator build tree = .ok node) :
    tree.kind = .identifier ∧ node = .identifier tree.text true tree.span ∨
      ∃ name value y, tree.kind = .assign ∧ tree.children = [name, value] ∧
        name.kind = .identifier ∧ build value none = .ok y ∧
        node = .assign (.identifier name.text true name.span) y tree.span := by
  rcases declarator_eq_ok h with
    hname | ⟨name, value, rest, x, y, hk, hassign, hx, hy, rfl⟩ | ⟨hname, hassign, -⟩
  · exact .inl hname
  · rcases hd with hkind | ⟨-, _, _, hchildren, hname⟩
    · cases hk.symm.trans hkind
    · cases hassign.symm.trans hchildren
      obtain ⟨-, rfl⟩ := hx.resolve_right fun hx => hx.1 hname
      exact .inr ⟨name, value, y, hk, hchildren, hname, hy, rfl⟩
  · rcases hd with hkind | ⟨hkind, -⟩
    · exact absurd hkind hname
    · exact absurd hkind hassign

theorem declarators_cons_eq_ok {t : ParseTree} (h : declarators build (t :: trees) = .ok nodes) :
    ∃ x rest, declarator build t = .ok x ∧ declarators build trees = .ok rest ∧
      nodes = x :: rest := by
  obtain ⟨x, hx, h⟩ := bind_eq_ok h
  obtain ⟨rest, hrest, h⟩ := bind_eq_ok h
  cases h
  exact ⟨x, rest, hx, hrest, rfl⟩

/-- A single declarator stands for the whole statement. -/
theorem var_eq_ok (h : var build tree = .ok node) : ∃ nodes,
    declarators build tree.children = .ok nodes ∧
      (nodes = [node] ∨ 2 ≤ nodes.length ∧ node = .assignmentBlock nodes true tree.span) := by
  obtain ⟨nodes, hnodes, h⟩ := bind_eq_ok h
  refine ⟨nodes, hnodes, ?_⟩
  rcases nodes with _ | ⟨first, _ | ⟨second, rest⟩⟩
  · cases h
  · cases h
    exact .inl rfl
  · cases h
    exact .inr ⟨by simp, rfl⟩

/-- A conditional expression must have an alternate. -/
theorem conditional_eq_ok (h : conditional build tree label = .ok node) :
    ∃ test consequent rest x y alternate,
      tree.children = test :: consequent :: rest ∧ build test none = .ok x ∧
      build consequent none = .ok y ∧
      (rest = [] ∧ tree.kind ≠ .conditional ∧ alternate = none ∨
        ∃ other more z, rest = other :: more ∧ build other none = .ok z ∧ alternate = some z) ∧
      node = .«if» x y alternate (tree.kind = .conditional) label tree.span := by
  obtain ⟨test, htest, h⟩ := bind_eq_ok h
  obtain ⟨x, hx, h⟩ := bind_eq_ok h
  obtain ⟨consequent, hconsequent, h⟩ := bind_eq_ok h
  obtain ⟨y, hy, h⟩ := bind_eq_ok h
  obtain ⟨rest, hchildren⟩ := cons_cons_of_getElem? (child_eq_ok htest) (child_eq_ok hconsequent)
  refine ⟨test, consequent, rest, x, y, ?_⟩
  split at h
  · obtain ⟨other, hother, h⟩ := bind_eq_ok h
    obtain ⟨_, halternate, h⟩ := bind_eq_ok h
    obtain ⟨z, hz, rfl⟩ := map_eq_ok halternate
    have hfirst := child_eq_ok hother
    rw [hchildren, List.getElem?_cons_succ, List.getElem?_cons_succ] at hfirst
    obtain ⟨more, rfl⟩ := cons_of_getElem? hfirst
    cases h
    exact ⟨some z, hchildren, hx, hy, .inr ⟨other, more, z, rfl, hz, rfl⟩, rfl⟩
  · rename_i hkind
    rw [hchildren, List.getElem?_cons_succ, List.getElem?_cons_succ] at h
    cases rest with
    | nil =>
      cases h
      exact ⟨none, hchildren, hx, hy, .inl ⟨rfl, hkind, rfl⟩, rfl⟩
    | cons other more =>
      obtain ⟨_, halternate, h⟩ := bind_eq_ok h
      obtain ⟨z, hz, rfl⟩ := map_eq_ok halternate
      cases h
      exact ⟨some z, hchildren, hx, hy, .inr ⟨other, more, z, rfl, hz, rfl⟩, rfl⟩

theorem whileLoop_eq_ok (h : whileLoop build tree label = .ok node) : ∃ x y,
    pair build tree = .ok (x, y) ∧
      (node = .«while» y x .postTest label tree.span ∨
        node = .«while» x y .preTest label tree.span) := by
  obtain ⟨⟨x, y⟩, hpair, h⟩ := bind_eq_ok h
  refine ⟨x, y, hpair, ?_⟩
  dsimp only at h
  split at h <;> cases h
  · exact .inl rfl
  · exact .inr rfl

theorem withStatement_eq_ok (h : withStatement build tree label = .ok node) : ∃ x y,
    pair build tree = .ok (x, y) ∧ node = .«with» x y label tree.span := by
  obtain ⟨⟨x, y⟩, hpair, h⟩ := bind_eq_ok h
  cases h
  exact ⟨x, y, hpair, rfl⟩

/-- A `return` without a value gives a null, and the other jumps have nothing inside. -/
theorem jump_eq_ok (h : jump build tree = .ok node) :
    (∃ value rest x, tree.children = value :: rest ∧ build value none = .ok x ∧
        (tree.kind = .«return» ∧ node = .«return» x tree.span ∨
          tree.kind = .«throw» ∧ node = .«throw» x tree.span)) ∨
      tree.kind = .«return» ∧ tree.children = [] ∧ node = .«return» (.null tree.span) tree.span ∨
      tree.kind ≠ .«return» ∧ tree.kind ≠ .«throw» ∧
        ∃ name, node = .«break» name tree.span ∨ node = .«continue» name tree.span := by
  unfold jump at h
  split at h
  · rename_i hkind
    split at h
    · rename_i value hvalue
      obtain ⟨rest, hchildren⟩ := cons_of_getElem? hvalue
      obtain ⟨x, hx, h⟩ := bind_eq_ok h
      cases h
      exact .inl ⟨value, rest, x, hchildren, hx, .inl ⟨hkind, rfl⟩⟩
    · rename_i hnone
      cases h
      exact .inr (.inl ⟨hkind, by simpa using hnone, rfl⟩)
  · rename_i hkind
    obtain ⟨value, rest, x, hchildren, hx, h⟩ := operand_eq_ok h
    cases h
    exact .inl ⟨value, rest, x, hchildren, hx, .inr ⟨hkind, rfl⟩⟩
  · rename_i hkind
    cases h
    exact .inr (.inr ⟨by simp [hkind], by simp [hkind], _, .inl rfl⟩)
  · cases h
    exact .inr (.inr ⟨‹_›, ‹_›, _, .inr rfl⟩)

/-- There is no second default. -/
theorem clauses_cons_eq_ok {whole clause : ParseTree} {cases : List SwitchCase}
    {default : Option Node} {found : List SwitchCase × Option Node}
    (h : clauses build whole cases default (clause :: trees) = .ok found) :
    (∃ test body x nodes, clause.kind = .«case» ∧ clause.children = test :: body ∧
        build test none = .ok x ∧ all build body = .ok nodes ∧
        clauses build whole (cases ++ [⟨x, ⟨nodes, none, clause.span⟩, clause.span⟩]) default
          trees = .ok found) ∨
      ∃ nodes, clause.kind = .«default» ∧ default = none ∧ all build clause.children = .ok nodes ∧
        clauses build whole cases (some (.block ⟨nodes, none, clause.span⟩)) trees = .ok found := by
  unfold clauses at h
  split at h
  · rename_i hkind
    obtain ⟨test, htest, h⟩ := bind_eq_ok h
    obtain ⟨x, hx, h⟩ := bind_eq_ok h
    obtain ⟨nodes, hnodes, h⟩ := bind_eq_ok h
    obtain ⟨body, hchildren⟩ := cons_of_getElem? (child_eq_ok htest)
    rw [hchildren] at hnodes
    exact .inl ⟨test, body, x, nodes, hkind, hchildren, hx, hnodes, h⟩
  · rename_i hkind
    cases default with
    | some _ => cases h
    | none =>
      obtain ⟨nodes, hnodes, h⟩ := bind_eq_ok h
      exact .inr ⟨nodes, hkind, rfl, hnodes, h⟩
  · cases h

theorem switch_eq_ok (h : switch build tree label = .ok node) :
    ∃ discriminant found x cases default,
      tree.children = discriminant :: found ∧ build discriminant none = .ok x ∧
      clauses build tree [] none found = .ok (cases, default) ∧
      node = .switch x cases (default.getD (.null tree.span)) label tree.span := by
  obtain ⟨discriminant, found, x, hchildren, hx, h⟩ := operand_eq_ok h
  obtain ⟨⟨cases, default⟩, hclauses, h⟩ := bind_eq_ok h
  cases h
  rw [hchildren] at hclauses
  exact ⟨discriminant, found, x, cases, default, hchildren, hx, hclauses, rfl⟩

/-- The later of two clauses of one kind takes the place of the earlier. -/
theorem handlers_cons_eq_ok {clause : ParseTree} {handler : Option Catch} {cleanup : Option Block}
    {found : Option Catch × Option Block}
    (h : handlers build handler cleanup (clause :: trees) = .ok found) :
    (∃ binding body rest content, clause.kind = .«catch» ∧
        clause.children = binding :: body :: rest ∧ block build body none = .ok content ∧
        handlers build (some ⟨binding.text, content, clause.span⟩) cleanup trees = .ok found) ∨
      ∃ body rest content, clause.kind = .«finally» ∧ clause.children = body :: rest ∧
        block build body none = .ok content ∧
        handlers build handler (some content) trees = .ok found := by
  unfold handlers at h
  split at h
  · rename_i hkind
    obtain ⟨binding, hbinding, h⟩ := bind_eq_ok h
    obtain ⟨body, hbody, h⟩ := bind_eq_ok h
    obtain ⟨content, hcontent, h⟩ := bind_eq_ok h
    obtain ⟨rest, hchildren⟩ := cons_cons_of_getElem? (child_eq_ok hbinding) (child_eq_ok hbody)
    exact .inl ⟨binding, body, rest, content, hkind, hchildren, hcontent, h⟩
  · rename_i hkind
    obtain ⟨body, hbody, h⟩ := bind_eq_ok h
    obtain ⟨content, hcontent, h⟩ := bind_eq_ok h
    obtain ⟨rest, hchildren⟩ := cons_of_getElem? (child_eq_ok hbody)
    exact .inr ⟨body, rest, content, hkind, hchildren, hcontent, h⟩
  · cases h

theorem tryStatement_eq_ok (h : tryStatement build tree label = .ok node) :
    ∃ body found content handler cleanup, tree.children = body :: found ∧
      block build body none = .ok content ∧
      handlers build none none found = .ok (handler, cleanup) ∧
      node = .«try» content handler cleanup label tree.span := by
  obtain ⟨body, hbody, h⟩ := bind_eq_ok h
  obtain ⟨content, hcontent, h⟩ := bind_eq_ok h
  obtain ⟨⟨handler, cleanup⟩, hclauses, h⟩ := bind_eq_ok h
  cases h
  obtain ⟨found, hchildren⟩ := cons_of_getElem? (child_eq_ok hbody)
  rw [hchildren] at hclauses
  exact ⟨body, found, content, handler, cleanup, hchildren, hcontent, hclauses, rfl⟩

/-- What is missing stands for a clause that is left out. -/
theorem clause_eq_ok {missing : Span → Node} (h : clause build missing tree = .ok node) :
    tree.kind = .expression ∧ tree.children = [] ∧ node = missing tree.span ∨
      (∃ content rest, tree.kind = .expression ∧ tree.children = content :: rest ∧
        build content none = .ok node) ∨
      tree.kind ≠ .expression ∧ build tree none = .ok node := by
  unfold clause at h
  split at h
  · rename_i hkind
    split at h
    · rename_i content hcontent
      obtain ⟨rest, hchildren⟩ := cons_of_getElem? hcontent
      exact .inr (.inl ⟨content, rest, hkind, hchildren, h⟩)
    · rename_i hnone
      cases h
      exact .inl ⟨hkind, by simpa using hnone, rfl⟩
  · exact .inr (.inr ⟨‹_›, h⟩)

/-- The three clauses of a counting loop, or the two of a loop over properties, before the body. -/
theorem forLoop_eq_ok (h : forLoop build tree label = .ok node) : ∃ head body rest w,
    tree.children = head :: body :: rest ∧ build body none = .ok w ∧
      ((∃ init test update more x y z, head.kind = .forStep ∧
          head.children = init :: test :: update :: more ∧
          clause build .null init = .ok x ∧ clause build (.boolean true) test = .ok y ∧
          clause build .null update = .ok z ∧ node = .forStep x y z w label tree.span) ∨
        ∃ target object more x y, head.kind = .forIn ∧ head.children = target :: object :: more ∧
          clause build .null target = .ok x ∧ clause build .null object = .ok y ∧
          node = .forIn x y w label tree.span) := by
  obtain ⟨head, hhead, h⟩ := bind_eq_ok h
  obtain ⟨body, hbody, h⟩ := bind_eq_ok h
  obtain ⟨rest, hchildren⟩ := cons_cons_of_getElem? (child_eq_ok hhead) (child_eq_ok hbody)
  split at h
  · rename_i hkind
    obtain ⟨init, hinit, h⟩ := bind_eq_ok h
    obtain ⟨x, hx, h⟩ := bind_eq_ok h
    obtain ⟨test, htest, h⟩ := bind_eq_ok h
    obtain ⟨y, hy, h⟩ := bind_eq_ok h
    obtain ⟨update, hupdate, h⟩ := bind_eq_ok h
    obtain ⟨z, hz, h⟩ := bind_eq_ok h
    obtain ⟨w, hw, h⟩ := bind_eq_ok h
    cases h
    obtain ⟨more, hclauses⟩ := cons_cons_cons_of_getElem? (child_eq_ok hinit) (child_eq_ok htest)
      (child_eq_ok hupdate)
    exact ⟨head, body, rest, w, hchildren, hw,
      .inl ⟨init, test, update, more, x, y, z, hkind, hclauses, hx, hy, hz, rfl⟩⟩
  · rename_i hkind
    obtain ⟨target, htarget, h⟩ := bind_eq_ok h
    obtain ⟨x, hx, h⟩ := bind_eq_ok h
    obtain ⟨object, hobject, h⟩ := bind_eq_ok h
    obtain ⟨y, hy, h⟩ := bind_eq_ok h
    obtain ⟨w, hw, h⟩ := bind_eq_ok h
    cases h
    obtain ⟨more, hclauses⟩ := cons_cons_of_getElem? (child_eq_ok htarget) (child_eq_ok hobject)
    exact ⟨head, body, rest, w, hchildren, hw,
      .inr ⟨target, object, more, x, y, hkind, hclauses, hx, hy, rfl⟩⟩
  · cases h

end Ecma3.Build
