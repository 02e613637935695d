import Ecma3.Proofs.Build.Inversion.Statement
import Ecma3.Proofs.Build.Leaves

/-! The constructions of statements keep the names and values of their parts. -/
namespace Ecma3.Build

open ParseTree

variable {tree : ParseTree} {node : Node} {nodes : List Node} {label : Option String}

/-- A declarator is built into its name, which is declared there, and its first value. -/
theorem values_declarator {name value : ParseTree} (hk : tree.kind = .assign)
    (hchildren : tree.children = [name, value]) :
    tree.values .declarator = name.values .declarator ++ value.values .use := by
  rw [values_eq, hchildren]
  simp [ParseTree.value, supplied, hk, Role.child, Kind.childRole]

theorem values_declared (hwell : tree.WellFormed) (hk : tree.kind = .identifier) :
    tree.values .declarator = [.identifier tree.text true tree.span] := by
  obtain ⟨hchildren, hsupplied⟩ := parts_of_atom hwell (by rw [hk]; rfl)
  rw [values_eq, hchildren, hsupplied]
  simp [value, hk]

variable {build : ParseTree → Option String → Except BuildError Node} (hbuild : Keeps build)
include hbuild

theorem keeps_grouping (ht : tree.Proper)
    (hk : tree.kind = .expression ∨ tree.kind = .parenthesized)
    (h : grouping build tree label = .ok node) : Faithful node tree := by
  have hplain : tree.kind.isPlain = true ∧ tree.children.length ≤ 1 := by
    have hshape := ht.wellFormed.root
    rcases hk with hk | hk <;> simp only [Shape, hk] at hshape
    · exact ⟨by rw [hk]; rfl, hshape⟩
    · obtain ⟨e, hchildren, -⟩ := hshape
      exact ⟨by rw [hk]; rfl, by simp [hchildren]⟩
  obtain ⟨content, rest, hchildren, hcontent⟩ := grouping_eq_ok h
  obtain rfl : rest = [] := by simpa [hchildren] using hplain.2
  intro n
  rw [values_of_isPlain hplain.1, hchildren]
  simpa using hbuild content label node (ht.inside content (by simp [hchildren])) hcontent n

theorem keeps_declarator (ht : tree.Proper) (hd : tree.IsDeclarator)
    (h : declarator build tree = .ok node) (n : Node) :
    n ∈ node.leaves ↔ n ∈ tree.values .declarator := by
  rcases declared_eq_ok hd h with ⟨hk, rfl⟩ | ⟨name, value, y, hk, hchildren, hname, hy, rfl⟩
  · rw [values_declared ht.wellFormed hk, Node.leaves]
  · have hvalue := hbuild value none y (ht.inside value (by simp [hchildren])) hy n
    rw [values_declarator hk hchildren,
      values_declared (ht.wellFormed.inside name (by simp [hchildren])) hname]
    simp [hvalue]

theorem keeps_declarators {trees : List ParseTree} (ht : ∀ c ∈ trees, c.Proper ∧ c.IsDeclarator)
    (h : declarators build trees = .ok nodes) (n : Node) :
    n ∈ nodeLeaves nodes ↔ n ∈ trees.flatMap (values .declarator) := by
  induction trees generalizing nodes with
  | nil =>
    cases h
    rfl
  | cons t trees ih =>
    obtain ⟨node, rest, hnode, hrest, rfl⟩ := declarators_cons_eq_ok h
    rw [List.forall_mem_cons] at ht
    simp only [nodeLeaves, List.flatMap_cons, List.mem_append,
      keeps_declarator hbuild ht.1.1 ht.1.2 hnode n, ih ht.2 hrest]

theorem keeps_var (ht : tree.Proper) (hk : tree.kind = .var) (h : var build tree = .ok node) :
    Faithful node tree := by
  have hshape := ht.wellFormed.root
  simp only [Shape, hk] at hshape
  obtain ⟨nodes, hnodes, hnode⟩ := var_eq_ok h
  have hvalues : tree.values .use = tree.children.flatMap (values .declarator) := by
    rw [values_use (by rw [hk]; rfl), hk]
    exact valuesFrom_of_role fun _ _ => rfl
  intro n
  rw [hvalues, ← keeps_declarators hbuild (fun c hc => ⟨ht.inside c hc, hshape.2 c hc⟩) hnodes n]
  rcases hnode with rfl | ⟨-, rfl⟩
  · simp
  · rfl

theorem keeps_conditional (ht : tree.Proper) (hk : tree.kind = .«if» ∨ tree.kind = .conditional)
    (h : conditional build tree label = .ok node) : Faithful node tree := by
  obtain ⟨test, consequent, rest, x, y, alternate, hchildren, hx, hy, halternate, rfl⟩ :=
    conditional_eq_ok h
  have hplain : tree.kind.isPlain = true := by
    rcases hk with hk | hk <;> rw [hk] <;> rfl
  have hrest := shape_conditional ht.wellFormed.root hk hchildren
  have hinside := ht.inside
  simp only [hchildren, List.forall_mem_cons] at hinside
  intro n
  have htest := hbuild test none x hinside.1 hx n
  have hconsequent := hbuild consequent none y hinside.2.1 hy n
  rw [values_of_isPlain hplain, hchildren]
  rcases halternate with ⟨rfl, -, rfl⟩ | ⟨other, more, z, rfl, hz, rfl⟩
  · simp [htest, hconsequent]
  · obtain rfl : more = [] := by simpa using hrest
    simp [htest, hconsequent, hbuild other none z (hinside.2.2 other (by simp)) hz n]

theorem keeps_whileLoop (ht : tree.Proper) (hk : tree.kind = .«while» ∨ tree.kind = .«do»)
    (h : whileLoop build tree label = .ok node) : Faithful node tree := by
  have hbinary : tree.kind.isPlain = true ∧ tree.children.length = 2 := by
    have hshape := ht.wellFormed.root
    rcases hk with hk | hk <;> simp only [Shape, hk] at hshape <;>
      exact ⟨by rw [hk]; rfl, hshape.length_eq⟩
  obtain ⟨x, y, hpair, hnode⟩ := whileLoop_eq_ok h
  intro n
  rw [values_of_isPlain hbinary.1, ← keeps_pair hbuild hbinary.2 ht hpair n]
  rcases hnode with rfl | rfl
  · simp [or_comm]
  · rfl

theorem keeps_withStatement (ht : tree.Proper) (hk : tree.kind = .«with»)
    (h : withStatement build tree label = .ok node) : Faithful node tree := by
  have hshape := ht.wellFormed.root
  simp only [Shape, hk] at hshape
  obtain ⟨x, y, hpair, rfl⟩ := withStatement_eq_ok h
  intro n
  rw [values_of_isPlain (by rw [hk]; rfl)]
  exact keeps_pair hbuild hshape.length_eq ht hpair n

theorem keeps_return (ht : tree.Proper) (hk : tree.kind = .«return»)
    (h : jump build tree = .ok node) : Faithful node tree := by
  have hshape := ht.wellFormed.root
  simp only [Shape, hk] at hshape
  intro n
  rw [values_of_isSupplied (by rw [hk]; rfl)]
  rcases jump_eq_ok h with ⟨value, rest, x, hchildren, hx, hnode⟩ | ⟨-, hchildren, rfl⟩ | ⟨hne, -⟩
  · obtain ⟨-, rfl⟩ := hnode.resolve_right (by simp [hk])
    obtain rfl : rest = [] := by simpa [hchildren] using hshape.length_le
    have hvalue := hbuild value none x (ht.inside value (by simp [hchildren])) hx n
    simp [supplied, hk, hchildren, hvalue]
  · simp [supplied, hk, hchildren]
  · exact absurd hk hne

theorem keeps_throw (ht : tree.Proper) (hk : tree.kind = .«throw»)
    (h : jump build tree = .ok node) : Faithful node tree := by
  have hshape := ht.wellFormed.root
  simp only [Shape, hk] at hshape
  intro n
  rw [values_of_isPlain (by rw [hk]; rfl)]
  rcases jump_eq_ok h with ⟨value, rest, x, hchildren, hx, hnode⟩ | ⟨hreturn, -⟩ | ⟨-, hne, -⟩
  · obtain ⟨-, rfl⟩ := hnode.resolve_left (by simp [hk])
    obtain rfl : rest = [] := by simpa [hchildren] using hshape.length_eq
    simpa [hchildren] using hbuild value none x (ht.inside value (by simp [hchildren])) hx n
  · cases hk.symm.trans hreturn
  · exact absurd hk hne

omit hbuild in
/-- A jump keeps its label as a name. -/
theorem keeps_jump (ht : tree.Proper) (hk : tree.kind = .«break» ∨ tree.kind = .«continue»)
    (h : jump build tree = .ok node) : Faithful node tree := by
  have hlabel : tree.AtMostOne (·.kind = .identifier) ∧
      tree.values .use = tree.children.flatMap (values .name) := by
    have hshape := ht.wellFormed.root
    rcases hk with hk | hk <;> simp only [Shape, hk] at hshape <;>
      refine ⟨hshape, ?_⟩ <;> rw [values_use (by rw [hk]; rfl), hk] <;>
      exact valuesFrom_of_role fun _ _ => rfl
  have hvalues : tree.values .use = [] := by
    rw [hlabel.2, List.flatMap_eq_nil_iff]
    intro c hc
    rcases hlabel.1 with hchildren | ⟨name, hchildren, hname⟩
    · simp [hchildren] at hc
    · rw [hchildren, List.mem_singleton] at hc
      exact values_name (ht.wellFormed.inside c (by simp [hchildren, hc])) (by rw [hc, hname]; rfl)
  intro n
  rw [hvalues]
  rcases jump_eq_ok h with ⟨_, _, _, -, -, hnode⟩ | ⟨hreturn, -⟩ | ⟨-, -, _, rfl | rfl⟩
  · rcases hk with hk | hk <;> simp [hk] at hnode
  · rcases hk with hk | hk <;> cases hk.symm.trans hreturn
  · rfl
  · rfl

/-- What the clauses of a `switch` add to the cases and the default before them. -/
theorem keeps_clauses {whole : ParseTree} {cases cases' : List SwitchCase}
    {default default' : Option Node} {found : List ParseTree}
    (ht : ∀ c ∈ found, c.Proper)
    (h : clauses build whole cases default found = .ok (cases', default')) :
    (∀ n, n ∈ caseLeaves cases' ++ nodeLeaves default'.toList ↔
      n ∈ caseLeaves cases ++ nodeLeaves default.toList ++ found.flatMap (values .use)) ∧
    default'.isSome = (default.isSome || found.any (·.kind == .«default»)) := by
  induction found generalizing cases default with
  | nil =>
    cases h
    simp
  | cons clause found ih =>
    obtain ⟨hproper, hfound⟩ := List.forall_mem_cons.1 ht
    rcases clauses_cons_eq_ok h with
      ⟨test, body, x, nodes, hk, hchildren, hx, hnodes, h⟩ | ⟨nodes, hk, rfl, hnodes, h⟩
    · have hinside := hproper.inside
      rw [hchildren, List.forall_mem_cons] at hinside
      obtain ⟨hleaves, hdefault⟩ := ih hfound h
      have hcase : (clause.kind == .«default») = false := by rw [hk]; rfl
      refine ⟨fun n => ?_, by rw [hdefault, List.any_cons, hcase, Bool.false_or]⟩
      have htest := hbuild test none x hinside.1 hx n
      have hbody := keeps_all hbuild hinside.2 hnodes n
      rw [hleaves n, List.flatMap_cons, values_of_isPlain (by rw [hk]; rfl), hchildren,
        caseLeaves_append]
      simp only [caseLeaves, Block.leaves, List.flatMap_cons, List.append_nil, List.mem_append,
        htest, hbody]
      grind
    · obtain ⟨hleaves, hdefault⟩ := ih hfound h
      refine ⟨fun n => ?_, by simpa [hk] using hdefault⟩
      have hbody := keeps_all hbuild hproper.inside hnodes n
      rw [hleaves n, List.flatMap_cons, values_of_isPlain (by rw [hk]; rfl)]
      simp [hbody]

theorem keeps_switch (ht : tree.Proper) (hk : tree.kind = .switch)
    (h : switch build tree label = .ok node) : Faithful node tree := by
  have hshape := ht.wellFormed.root
  simp only [Shape, hk] at hshape
  obtain ⟨discriminant, found, hchildren, hbinds, -⟩ := hshape
  obtain ⟨_, _, x, cases, default, hswitch, hx, hclauses, rfl⟩ := switch_eq_ok h
  cases hchildren.symm.trans hswitch
  have hinside := ht.inside
  rw [hchildren, List.forall_mem_cons] at hinside
  obtain ⟨hleaves, hdefault⟩ := keeps_clauses hbuild hinside.2 hclauses
  -- The clauses are looked for among all parts, and the discriminant is none of them.
  have hnot : (discriminant.kind == .«default») = false := by
    obtain ⟨p, hp, -⟩ := hbinds
    rw [beq_eq_false_iff_ne]
    intro hkind
    simp [hkind, Kind.strength?, Grammar.precedence?] at hp
  intro n
  have hdiscriminant := hbuild discriminant none x hinside.1 hx n
  have hleaves := hleaves n
  rw [values_of_isSupplied (by rw [hk]; rfl)]
  simp only [supplied, hk, hchildren, List.any_cons, hnot, Bool.false_or, List.flatMap_cons]
  simp only [Option.isSome_none, Bool.false_or] at hdefault
  cases default with
  | none =>
    simp only [Option.isSome_none] at hdefault
    simp only [caseLeaves, nodeLeaves, Option.toList_none, List.append_nil,
      List.nil_append] at hleaves
    simp only [Node.leaves, Option.getD_none, ← hdefault, List.mem_append, hdiscriminant, hleaves]
    simp [or_comm]
  | some block =>
    simp only [Option.isSome_some] at hdefault
    simp only [caseLeaves, nodeLeaves, Option.toList_none, Option.toList_some, List.append_nil,
      List.nil_append] at hleaves
    rw [← hdefault, Node.leaves, Option.getD_some, List.append_assoc, List.mem_append, hleaves,
      hdiscriminant]
    simp

/-- A handler keeps the name of the exception as a name. -/
theorem handlers_catch {handler : Option Catch} {cleanup : Option Block} {clause : ParseTree}
    {rest : List ParseTree} {found : Option Catch × Option Block} (ht : clause.Proper)
    (hk : clause.kind = .«catch»)
    (h : handlers build handler cleanup (clause :: rest) = .ok found) :
    ∃ caught : Catch, handlers build (some caught) cleanup rest = .ok found ∧
      ∀ n, n ∈ handlerLeaves (some caught) ↔ n ∈ clause.values .use := by
  have hshape := ht.wellFormed.root
  simp only [Shape, hk] at hshape
  obtain ⟨binding, body, hchildren, hbinding, -⟩ := hshape
  rcases handlers_cons_eq_ok h with
    ⟨_, _, _, content, -, hcatch, hcontent, h⟩ | ⟨_, _, _, hfinally, -⟩
  · cases hchildren.symm.trans hcatch
    refine ⟨_, h, fun n => ?_⟩
    have hname : binding.values .name = [] :=
      values_name (ht.wellFormed.inside binding (by simp [hchildren])) (by rw [hbinding]; rfl)
    rw [values_use (by rw [hk]; rfl), hk, hchildren]
    simpa [Kind.childRole, hname] using
      keeps_block hbuild (ht.inside body (by simp [hchildren])) hcontent n
  · cases hk.symm.trans hfinally

theorem handlers_finally {handler : Option Catch} {cleanup : Option Block} {clause : ParseTree}
    {rest : List ParseTree} {found : Option Catch × Option Block} (ht : clause.Proper)
    (hk : clause.kind = .«finally»)
    (h : handlers build handler cleanup (clause :: rest) = .ok found) :
    ∃ content : Block, handlers build handler (some content) rest = .ok found ∧
      ∀ n, n ∈ cleanupLeaves (some content) ↔ n ∈ clause.values .use := by
  have hshape := ht.wellFormed.root
  simp only [Shape, hk] at hshape
  rcases handlers_cons_eq_ok h with
    ⟨_, _, _, _, hcatch, -⟩ | ⟨body, more, content, -, hchildren, hcontent, h⟩
  · cases hk.symm.trans hcatch
  · obtain rfl : more = [] := by simpa [hchildren] using hshape.length_eq
    refine ⟨content, h, fun n => ?_⟩
    rw [values_of_isPlain (by rw [hk]; rfl), hchildren]
    simpa using keeps_block hbuild (ht.inside body (by simp [hchildren])) hcontent n

/-- There is at most one clause of either kind, so that none takes the place of another. -/
theorem keeps_handlers {handler cleanup : List ParseTree} {caught : Option Catch}
    {ended : Option Block} (ht : ∀ c ∈ handler ++ cleanup, c.Proper)
    (hhandler : ∀ c ∈ handler, c.kind = .«catch») (hone : handler.length ≤ 1)
    (hcleanup : ∀ c ∈ cleanup, c.kind = .«finally») (hlast : cleanup.length ≤ 1)
    (h : handlers build none none (handler ++ cleanup) = .ok (caught, ended)) (n : Node) :
    n ∈ handlerLeaves caught ++ cleanupLeaves ended ↔
      n ∈ (handler ++ cleanup).flatMap (values .use) := by
  rcases nil_or_singleton hone with rfl | ⟨c, rfl⟩ <;>
    rcases nil_or_singleton hlast with rfl | ⟨f, rfl⟩
  · cases h
    rfl
  · obtain ⟨content, h, hf⟩ := handlers_finally hbuild (ht f (by simp)) (hcleanup f (by simp)) h
    cases h
    rw [List.mem_append, hf n]
    simp
  · obtain ⟨caught, h, hc⟩ := handlers_catch hbuild (ht c (by simp)) (hhandler c (by simp)) h
    cases h
    rw [List.mem_append, hc n]
    simp
  · obtain ⟨caught, h, hc⟩ := handlers_catch hbuild (ht c (by simp)) (hhandler c (by simp)) h
    obtain ⟨content, h, hf⟩ := handlers_finally hbuild (ht f (by simp)) (hcleanup f (by simp)) h
    cases h
    rw [List.mem_append, hc n, hf n]
    simp

theorem keeps_tryStatement (ht : tree.Proper) (hk : tree.kind = .«try»)
    (h : tryStatement build tree label = .ok node) : Faithful node tree := by
  have hshape := ht.wellFormed.root
  simp only [Shape, hk] at hshape
  obtain ⟨body, handler, cleanup, hchildren, -, hhandler, hone, hcleanup, hlast, -⟩ := hshape
  obtain ⟨_, _, content, caught, ended, htry, hcontent, hfound, rfl⟩ := tryStatement_eq_ok h
  cases hchildren.symm.trans htry
  have hinside := ht.inside
  rw [hchildren, List.forall_mem_cons] at hinside
  intro n
  have hbody := keeps_block hbuild hinside.1 hcontent n
  have hclauses := keeps_handlers hbuild hinside.2 hhandler hone hcleanup hlast hfound n
  rw [values_of_isPlain (by rw [hk]; rfl), hchildren, List.flatMap_cons, List.mem_append,
    ← hbody, ← hclauses]
  simp

/-- What is missing stands for a clause that is left out. -/
theorem keeps_clause {missing : Span → Node}
    (hmissing : ∀ span, (missing span).leaves = [missing span])
    (ht : tree.Proper) (hc : tree.IsClause) (h : clause build missing tree = .ok node) (n : Node) :
    n ∈ node.leaves ↔ n ∈ suppliedFor missing tree ++ tree.values .use := by
  rw [values_of_isPlain (by rw [hc.1]; rfl), suppliedFor]
  rcases clause_eq_ok h with ⟨hk, hchildren, rfl⟩ | ⟨content, rest, -, hchildren, hx⟩ | ⟨hne, -⟩
  · simp [hk, hchildren, hmissing]
  · obtain rfl : rest = [] := by simpa [hchildren] using hc.length_le
    simpa [hchildren] using hbuild content none node (ht.inside content (by simp [hchildren])) hx n
  · exact absurd hc.1 hne

/-- The clauses of a counting loop stand for themselves or for what is missing, and nothing is missing
in the head of a loop over properties. -/
theorem keeps_forLoop (ht : tree.Proper) (hk : tree.kind = .«for»)
    (h : forLoop build tree label = .ok node) : Faithful node tree := by
  have hshape := ht.wellFormed.root
  simp only [Shape, hk] at hshape
  obtain ⟨head, body, rest, w, hchildren, hw, hloop⟩ := forLoop_eq_ok h
  obtain rfl : rest = [] := by simpa [hchildren] using hshape.length_eq
  have hhead : head.Proper := ht.inside head (by simp [hchildren])
  have hparts := hhead.inside
  intro n
  have hw := hbuild body none w (ht.inside body (by simp [hchildren])) hw n
  rw [values_of_isPlain (by rw [hk]; rfl), hchildren, List.flatMap_cons]
  rcases hloop with ⟨_, _, _, _, x, y, z, hstep, hclauses, hx, hy, hz, rfl⟩ |
    ⟨_, _, _, x, y, hin, hclauses, hx, hy, rfl⟩
  · have hshape := hhead.wellFormed.root
    simp only [Shape, hstep] at hshape
    obtain ⟨init, test, update, hthree, hinit, htest, hupdate⟩ := hshape
    cases hthree.symm.trans hclauses
    simp only [hthree, List.forall_mem_cons] at hparts
    have hx := keeps_clause hbuild (fun _ => rfl) hparts.1 hinit hx n
    have hy := keeps_clause hbuild (fun _ => rfl) hparts.2.1 htest hy n
    have hz := keeps_clause hbuild (fun _ => rfl) hparts.2.2.1 hupdate hz n
    rw [values_of_isSupplied (by rw [hstep]; rfl)]
    simp only [Node.leaves, supplied, hstep, hthree, List.mem_append, hw, hx, hy, hz,
      List.flatMap_cons, List.flatMap_nil, List.append_nil]
    grind
  · have hshape := hhead.wellFormed.root
    simp only [Shape, hin] at hshape
    obtain ⟨target, object, htwo, ⟨htarget, hsome⟩, hobject, hsome'⟩ := hshape
    cases htwo.symm.trans hclauses
    simp only [htwo, List.forall_mem_cons] at hparts
    have hx := keeps_clause hbuild (fun _ => rfl) hparts.1 htarget hx n
    have hy := keeps_clause hbuild (fun _ => rfl) hparts.2.1 hobject hy n
    simp only [suppliedFor, hsome, hsome', and_false, ↓reduceIte, List.nil_append] at hx hy
    rw [values_of_isPlain (by rw [hin]; rfl), htwo]
    simp [hx, hy, hw]

theorem keeps_labelled (ht : tree.Proper) (hk : tree.kind = .labelled)
    (h : labelled build tree label = .ok node) : Faithful node tree := by
  have hshape := ht.wellFormed.root
  simp only [Shape, hk] at hshape
  obtain ⟨name, target, hchildren, hname, -⟩ := hshape
  have hno : name.values .name = [] :=
    values_name (ht.wellFormed.inside name (by simp [hchildren])) (by rw [hname]; rfl)
  obtain ⟨_, _, _, hlabelled, hbuilt⟩ := labelled_eq_ok h
  cases hchildren.symm.trans hlabelled
  intro n
  rw [values_use (by rw [hk]; rfl), hk, hchildren]
  simpa [Kind.childRole, hno] using
    hbuild target _ node (ht.inside target (by simp [hchildren])) hbuilt n

end Ecma3.Build
