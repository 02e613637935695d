import Ecma3.Proofs.Build.Inversion.Statement
import Ecma3.Proofs.Build.Leaves.Expression
import Ecma3.Proofs.Grammar.Program
import Ecma3.Proofs.ParseTree.Levels

/-!
Building takes at least as many levels as a tree has. Every tree inside that is a level of its own is
built with one level less, up to the `new` that moves out of a chain and takes its level with it.
-/
namespace Ecma3

open ParseTree

namespace ParseTree

variable {t : ParseTree} {d : Detached}

/-- A chain has at most one level less without the `new` at its base. -/
theorem inside_withoutNew? (h : t.WellFormed) (hd : t.withoutNew? = some d) :
    t.inside ≤ d.tree.inside + 1 := by
  fun_induction withoutNew? t generalizing d with
  | case1 => simp at hd
  | case2 kind text span first rest haccess ih =>
    obtain ⟨e, he, rfl⟩ := Option.map_eq_some_iff.1 hd
    have hfirst := ih (h.inside first (by simp)) he
    simp only [inside_cons]
    omega
  | case3 text span first rest haccess =>
    cases hd
    obtain ⟨operand, hchildren, -⟩ : Unary (Binds 16) _ := h.root
    cases hchildren
    simp [Kind.firstCost, Nat.add_comm]
  | case4 => simp at hd

end ParseTree

namespace Build

variable {tree a b : ParseTree} {node x y : Node} {nodes : List Node} {label : Option String} {n : Nat}

/-- Only trees with fewer levels inside than this are built. -/
def Bounded (n : Nat) (build : ParseTree → Option String → Except BuildError Node) : Prop :=
  ∀ t label node, t.WellFormed → build t label = .ok node → t.inside < n

theorem inside_of_atom (hwell : tree.WellFormed) (hk : tree.kind.isAtom = true) : tree.inside = 0 :=
  inside_of_nil (parts_of_atom hwell hk).1

/-- A chain is built with one level less than it has, if a `new` moves out of it. -/
theorem detach_levels {bare : ParseTree} {moved : Bool} (h : tree.WellFormed)
    (hdetach : (detach tree : Except BuildError (ParseTree × Bool)) = .ok (bare, moved)) :
    bare.WellFormed ∧ tree.inside ≤ bare.inside + 1 := by
  rcases detach_eq_ok hdetach with ⟨rfl, -⟩ | ⟨d, hd, rfl, -⟩
  · exact ⟨h, Nat.le_succ _⟩
  · exact ⟨(withoutNew?_operand h hd).1, inside_withoutNew? h hd⟩

variable {build : ParseTree → Option String → Except BuildError Node} (hbuild : Bounded n build)
include hbuild

theorem bounds_all {trees : List ParseTree} (ht : ∀ t ∈ trees, t.WellFormed)
    (h : all build trees = .ok nodes) : ∀ t ∈ trees, t.inside < n := by
  induction trees generalizing nodes with
  | nil => simp
  | cons t trees ih =>
    obtain ⟨node, rest, hnode, hrest, rfl⟩ := all_cons_eq_ok h
    rw [List.forall_mem_cons] at ht ⊢
    exact ⟨hbuild t none node ht.1 hnode, ih ht.2 hrest⟩

theorem bounds_pair (htwo : tree.children.length = 2) (ht : tree.WellFormed)
    (h : pair build tree = .ok (x, y)) : tree.inside ≤ n := by
  obtain ⟨a, b, rest, hchildren, hx, hy⟩ := pair_eq_ok h
  obtain rfl : rest = [] := by simpa [hchildren] using htwo
  have ha := hbuild a none x (ht.inside a (by simp [hchildren])) hx
  have hb := hbuild b none y (ht.inside b (by simp [hchildren])) hy
  exact inside_le_of_lt (by simp [hchildren, ha, hb])

/-- A construct with one child at most is bounded if that child is built. -/
theorem bounds_only {a : ParseTree} {rest : List ParseTree} (hone : tree.children.length ≤ 1)
    (ht : tree.WellFormed) (hchildren : tree.children = a :: rest)
    (h : build a label = .ok node) : tree.inside ≤ n := by
  obtain rfl : rest = [] := by simpa [hchildren] using hone
  have ha := hbuild a label node (ht.inside a (by simp [hchildren])) h
  exact inside_le_of_lt (by simp [hchildren, ha])

theorem bounds_operand {part : Part} (hone : tree.children.length ≤ 1) (ht : tree.WellFormed)
    {r : Node → Except BuildError Node}
    (h : (do let operand ← build (← child tree 0 part) none; r operand) = .ok node) :
    tree.inside ≤ n := by
  obtain ⟨operand, rest, x, hchildren, hx, -⟩ := operand_eq_ok h
  exact bounds_only hbuild hone ht hchildren hx

theorem bounds_block {content : Block} (ht : tree.WellFormed)
    (h : block build tree label = .ok content) : tree.inside ≤ n := by
  obtain ⟨nodes, -, ⟨-, hnodes⟩ | ⟨-, x, hx, -⟩⟩ := block_eq_ok h
  · exact inside_le_of_lt (bounds_all hbuild ht.inside hnodes)
  · exact Nat.le_of_lt (hbuild tree none x ht hx)

/-! Expressions. -/

theorem bounds_sequence (ht : tree.WellFormed) (h : sequence build tree = .ok node) :
    tree.inside ≤ n := by
  obtain ⟨nodes, hnodes, h⟩ := bind_eq_ok h
  exact inside_le_of_lt (bounds_all hbuild ht.inside hnodes)

theorem bounds_properties {entries : List ParseTree} {known found : List Property}
    (ht : ∀ c ∈ entries, c.WellFormed ∧ c.kind = .namedValue)
    (h : properties build known entries = .ok found) : ∀ c ∈ entries, c.inside ≤ n := by
  induction entries generalizing known with
  | nil => simp
  | cons entry entries ih =>
    obtain ⟨⟨hwell, hk⟩, hentries⟩ := List.forall_mem_cons.1 ht
    have hshape := hwell.root
    simp only [Shape, hk] at hshape
    obtain ⟨name, value, hchildren, hname, -⟩ := hshape
    obtain ⟨_, _, _, built, -, hentry, hbuilt, h⟩ := properties_cons_eq_ok h
    cases hchildren.symm.trans hentry
    have hvalue := hbuild value none built (hwell.inside value (by simp [hchildren])) hbuilt
    have hatom : name.inside = 0 := by
      refine inside_of_atom (hwell.inside name (by simp [hchildren])) ?_
      rcases hname with hname | hname | hname | hname <;> rw [hname] <;> rfl
    have hentry : entry.inside ≤ n := inside_le_of_lt (by simp [hchildren, hvalue, hatom]; omega)
    exact List.forall_mem_cons.2 ⟨hentry, ih hentries h⟩

theorem bounds_object (ht : tree.WellFormed) (hk : tree.kind = .object)
    (h : object build tree = .ok node) : tree.inside ≤ n := by
  have hshape := ht.root
  simp only [Shape, hk] at hshape
  obtain ⟨found, hfound, -⟩ := object_eq_ok h
  refine inside_le_of_le (by rw [hk]; rfl) (by rw [hk]; rfl) ?_
  exact bounds_properties hbuild (fun c hc => ⟨ht.inside c hc, hshape c hc⟩) hfound

theorem bounds_elements {items : List ParseTree} {found : List (Option Node)}
    (ht : ∀ c ∈ items, c.WellFormed ∧ c.kind = .item) (h : elements build items = .ok found) :
    ∀ c ∈ items, c.inside ≤ n := by
  induction items generalizing found with
  | nil => simp
  | cons item items ih =>
    obtain ⟨⟨hwell, hk⟩, hitems⟩ := List.forall_mem_cons.1 ht
    have hshape := hwell.root
    simp only [Shape, hk] at hshape
    obtain ⟨element, rest, -, hrest, helement⟩ := elements_cons_eq_ok h
    refine List.forall_mem_cons.2 ⟨?_, ih hitems hrest⟩
    rcases helement with ⟨-, hchildren, -⟩ | ⟨content, x, hcontent, hx, -⟩
    · simp [inside_of_nil hchildren]
    · obtain ⟨-, hcontent⟩ := hcontent.resolve_right fun hcontent => hcontent.1 hk
      obtain ⟨rest, hchildren⟩ := List.head?_eq_some_iff.1 hcontent
      exact bounds_only hbuild hshape.length_le hwell hchildren hx

theorem bounds_array (ht : tree.WellFormed) (hk : tree.kind = .array)
    (h : array build tree = .ok node) : tree.inside ≤ n := by
  have hshape := ht.root
  simp only [Shape, hk] at hshape
  obtain ⟨found, hfound, h⟩ := bind_eq_ok h
  refine inside_le_of_le (by rw [hk]; rfl) (by rw [hk]; rfl) ?_
  exact bounds_elements hbuild (fun c hc => ⟨ht.inside c hc, hshape c hc⟩) hfound

/-- The parameters are names, and the body is built in place of the function. -/
theorem bounds_function (ht : tree.WellFormed) (hk : tree.kind = .function)
    (h : function build tree = .ok node) : tree.inside ≤ n := by
  have hshape := ht.root
  simp only [Shape, hk] at hshape
  obtain ⟨name, parameters, body, hchildren, hlength, hname, hlist, hparameters, -⟩ := hshape
  obtain ⟨_, _, content, hcontent, rfl⟩ := function_body_eq_ok hchildren hlength h
  have hinside := ht.inside
  simp only [hchildren, List.forall_mem_append, List.forall_mem_cons] at hinside
  obtain ⟨hnames, hwell, hbody, -⟩ := hinside
  refine inside_le_of_le (by rw [hk]; rfl) (by rw [hk]; rfl) ?_
  simp only [hchildren, List.forall_mem_append, List.forall_mem_cons]
  refine ⟨fun c hc => ?_, ?_, bounds_block hbuild hbody hcontent, by simp⟩
  · rw [inside_of_atom (hnames c hc) (by rw [hname c hc]; rfl)]
    omega
  · refine inside_le_of_le (by rw [hlist]; rfl) (by rw [hlist]; rfl) fun c hc => ?_
    rw [inside_of_atom (hwell.inside c hc) (by rw [hparameters c hc]; rfl)]
    omega

theorem bounds_new (ht : tree.WellFormed) (hk : tree.kind = .new) (h : new build tree = .ok node) :
    tree.inside ≤ n := by
  have hshape : tree.Unary (Binds 16) := by simpa only [Shape, hk] using ht.root
  exact bounds_operand hbuild (Nat.le_of_eq hshape.length_eq) ht h

/-- A list of arguments is no level of its own. -/
theorem bounds_arguments (ht : tree.WellFormed) (hk : tree.kind = .arguments)
    (h : arguments build tree = .ok nodes) : tree.inside ≤ n - 1 := by
  rcases arguments_eq_ok h with ⟨-, hnodes⟩ | ⟨x, hx, -⟩
  · refine inside_le_of_le (by rw [hk]; rfl) (by rw [hk]; rfl) fun c hc => ?_
    exact Nat.le_sub_one_of_lt (bounds_all hbuild ht.inside hnodes c hc)
  · exact Nat.le_sub_one_of_lt (hbuild tree none x ht hx)

theorem bounds_call (ht : tree.WellFormed) (hk : tree.kind = .call)
    (h : call build tree = .ok node) : tree.inside ≤ n := by
  have hshape := ht.root
  simp only [Shape, hk] at hshape
  obtain ⟨callee, list, hchildren, -, hlist⟩ := hshape
  obtain ⟨_, _, bare, _, x, nodes, hcall, harguments, hdetach, hx, -⟩ := call_eq_ok h
  cases hchildren.symm.trans hcall
  obtain ⟨_, _, hrest, hnodes⟩ := harguments.resolve_left (by simp)
  cases hrest
  obtain ⟨hbare, hlevels⟩ := detach_levels (ht.inside callee (by simp [hchildren])) hdetach
  have hcallee := hbuild bare none x hbare hx
  have hwithin := bounds_arguments hbuild (ht.inside list (by simp [hchildren])) hlist hnodes
  refine inside_le ?_ ?_ <;> simp [hchildren, hk, Kind.firstCost, Kind.restCost] <;> omega

theorem bounds_access (ht : tree.WellFormed) (hk : isAccess tree.kind = true)
    (h : access build tree = .ok node) : tree.inside ≤ n := by
  obtain ⟨object, member, hchildren, -, -⟩ := shape_access ht.root hk
  obtain ⟨_, _, _, bare, _, x, _, haccess, hdetach, hx, hmade, -⟩ := access_eq_ok h
  cases hchildren.symm.trans haccess
  obtain ⟨hbare, hlevels⟩ := detach_levels (ht.inside object (by simp [hchildren])) hdetach
  have hobject := hbuild bare none x hbare hx
  have hmember : member.inside < n := by
    rcases hmade with ⟨hfield, -⟩ | ⟨-, y, hy, -⟩
    · have hshape := ht.root
      simp only [Shape, hfield] at hshape
      obtain ⟨a, b, hab, -, hname⟩ := hshape
      cases hchildren.symm.trans hab
      rw [inside_of_atom (ht.inside member (by simp [hchildren])) (by rw [hname]; rfl)]
      omega
    · exact hbuild member none y (ht.inside member (by simp [hchildren])) hy
  have hfirst : tree.kind.firstCost = 0 := by
    rcases isAccess_cases hk with hk | hk <;> rw [hk] <;> rfl
  have hrest := restCost_le tree.kind
  refine inside_le ?_ ?_ <;> simp [hchildren, hfirst] <;> omega

theorem bounds_assignment (ht : tree.WellFormed) (hk : tree.kind.strength? = some 1)
    (h : assignment build tree = .ok node) : tree.inside ≤ n := by
  obtain ⟨x, y, _, hpair, -⟩ := assignment_eq_ok h
  exact bounds_pair hbuild (shape_assignment ht.root hk).length_eq ht hpair

theorem bounds_binary (ht : tree.WellFormed) (hk : (Grammar.precedence? tree.kind).isSome = true)
    (h : binary build tree = .ok node) : tree.inside ≤ n := by
  obtain ⟨p, hp⟩ := Option.isSome_iff_exists.1 hk
  obtain ⟨⟨x, y⟩, hpair, -⟩ := bind_eq_ok h
  exact bounds_pair hbuild (shape_binary ht.root hp).length_eq ht hpair

theorem bounds_step (ht : tree.WellFormed)
    (hk : tree.kind.strength? = some 13 ∨ tree.kind.strength? = some 14)
    (h : step build tree = .ok node) : tree.inside ≤ n :=
  bounds_operand hbuild (Nat.le_of_eq (shape_unary ht.root hk).length_eq) ht h

theorem bounds_unary (ht : tree.WellFormed) (hk : tree.kind.strength? = some 13)
    (h : unary build tree = .ok node) : tree.inside ≤ n :=
  bounds_operand hbuild (Nat.le_of_eq (shape_unary ht.root (.inl hk)).length_eq) ht h

/-! Statements. -/

theorem bounds_grouping (ht : tree.WellFormed)
    (hk : tree.kind = .expression ∨ tree.kind = .parenthesized)
    (h : grouping build tree label = .ok node) : tree.inside ≤ n := by
  have hone : tree.children.length ≤ 1 := by
    have hshape := ht.root
    rcases hk with hk | hk <;> simp only [Shape, hk] at hshape
    · exact hshape
    · exact Nat.le_of_eq hshape.length_eq
  obtain ⟨content, rest, hchildren, hcontent⟩ := grouping_eq_ok h
  exact bounds_only hbuild hone ht hchildren hcontent

theorem bounds_declarator (ht : tree.WellFormed) (hd : tree.IsDeclarator)
    (h : declarator build tree = .ok node) : tree.inside ≤ n := by
  rcases declared_eq_ok hd h with ⟨hk, -⟩ | ⟨name, value, y, -, hchildren, hname, hy, -⟩
  · rw [inside_of_atom ht (by rw [hk]; rfl)]
    omega
  · have hvalue := hbuild value none y (ht.inside value (by simp [hchildren])) hy
    have hatom := inside_of_atom (ht.inside name (by simp [hchildren])) (by rw [hname]; rfl)
    exact inside_le_of_lt (by simp [hchildren, hvalue, hatom]; omega)

theorem bounds_declarators {trees : List ParseTree}
    (ht : ∀ c ∈ trees, c.WellFormed ∧ c.IsDeclarator) (h : declarators build trees = .ok nodes) :
    ∀ c ∈ trees, c.inside ≤ n := by
  induction trees generalizing nodes with
  | nil => simp
  | cons t trees ih =>
    obtain ⟨node, rest, hnode, hrest, rfl⟩ := declarators_cons_eq_ok h
    rw [List.forall_mem_cons] at ht ⊢
    exact ⟨bounds_declarator hbuild ht.1.1 ht.1.2 hnode, ih ht.2 hrest⟩

theorem bounds_var (ht : tree.WellFormed) (hk : tree.kind = .var) (h : var build tree = .ok node) :
    tree.inside ≤ n := by
  have hshape := ht.root
  simp only [Shape, hk] at hshape
  obtain ⟨nodes, hnodes, -⟩ := var_eq_ok h
  refine inside_le_of_le (by rw [hk]; rfl) (by rw [hk]; rfl) ?_
  exact bounds_declarators hbuild (fun c hc => ⟨ht.inside c hc, hshape.2 c hc⟩) hnodes

theorem bounds_conditional (ht : tree.WellFormed)
    (hk : tree.kind = .«if» ∨ tree.kind = .conditional)
    (h : conditional build tree label = .ok node) : tree.inside ≤ n := by
  obtain ⟨test, consequent, rest, x, y, _, hchildren, hx, hy, halternate, -⟩ := conditional_eq_ok h
  have hrest := shape_conditional ht.root hk hchildren
  have hinside := ht.inside
  simp only [hchildren, List.forall_mem_cons] at hinside
  have htest := hbuild test none x hinside.1 hx
  have hconsequent := hbuild consequent none y hinside.2.1 hy
  rcases halternate with ⟨rfl, -⟩ | ⟨other, more, z, rfl, hz, -⟩
  · exact inside_le_of_lt (by simp [hchildren, htest, hconsequent])
  · obtain rfl : more = [] := by simpa using hrest
    have hother := hbuild other none z (hinside.2.2 other (by simp)) hz
    exact inside_le_of_lt (by simp [hchildren, htest, hconsequent, hother])

theorem bounds_whileLoop (ht : tree.WellFormed) (hk : tree.kind = .«while» ∨ tree.kind = .«do»)
    (h : whileLoop build tree label = .ok node) : tree.inside ≤ n := by
  have htwo : tree.children.length = 2 := by
    have hshape := ht.root
    rcases hk with hk | hk <;> simp only [Shape, hk] at hshape <;> exact hshape.length_eq
  obtain ⟨x, y, hpair, -⟩ := whileLoop_eq_ok h
  exact bounds_pair hbuild htwo ht hpair

theorem bounds_withStatement (ht : tree.WellFormed) (hk : tree.kind = .«with»)
    (h : withStatement build tree label = .ok node) : tree.inside ≤ n := by
  have hshape := ht.root
  simp only [Shape, hk] at hshape
  obtain ⟨x, y, hpair, -⟩ := withStatement_eq_ok h
  exact bounds_pair hbuild hshape.length_eq ht hpair

/-- What a jump is built with is a value, if it has one. -/
theorem bounds_valueJump (ht : tree.WellFormed)
    (hk : tree.kind = .«return» ∨ tree.kind = .«throw») (h : jump build tree = .ok node) :
    tree.inside ≤ n := by
  have hone : tree.children.length ≤ 1 := by
    have hshape := ht.root
    rcases hk with hk | hk <;> simp only [Shape, hk] at hshape
    · exact hshape.length_le
    · exact Nat.le_of_eq hshape.length_eq
  rcases jump_eq_ok h with ⟨value, rest, x, hchildren, hx, -⟩ | ⟨-, hchildren, -⟩ | ⟨hreturn, hthrow, -⟩
  · exact bounds_only hbuild hone ht hchildren hx
  · simp [inside_of_nil hchildren]
  · exact absurd hk (not_or.2 ⟨hreturn, hthrow⟩)

omit hbuild in
/-- A label is no level. -/
theorem bounds_jump (ht : tree.WellFormed) (hk : tree.kind = .«break» ∨ tree.kind = .«continue») :
    tree.inside ≤ n := by
  have hlabel : tree.AtMostOne (·.kind = .identifier) := by
    have hshape := ht.root
    rcases hk with hk | hk <;> simpa only [Shape, hk] using hshape
  have hcost : tree.kind.firstCost = 0 ∧ tree.kind.restCost = 0 := by
    rcases hk with hk | hk <;> rw [hk] <;> exact ⟨rfl, rfl⟩
  refine inside_le_of_le hcost.1 hcost.2 fun c hc => ?_
  rcases hlabel with hchildren | ⟨name, hchildren, hname⟩
  · simp [hchildren] at hc
  · rw [hchildren, List.mem_singleton] at hc
    rw [inside_of_atom (ht.inside c (by simp [hchildren, hc])) (by rw [hc, hname]; rfl)]
    omega

theorem bounds_clauses {whole : ParseTree} {cases cases' : List SwitchCase}
    {default default' : Option Node} {found : List ParseTree} (ht : ∀ c ∈ found, c.WellFormed)
    (h : clauses build whole cases default found = .ok (cases', default')) :
    ∀ c ∈ found, c.inside ≤ n := by
  induction found generalizing cases default with
  | nil => simp
  | cons clause found ih =>
    obtain ⟨hwell, hfound⟩ := List.forall_mem_cons.1 ht
    rw [List.forall_mem_cons]
    rcases clauses_cons_eq_ok h with
      ⟨test, body, x, nodes, -, hchildren, hx, hnodes, h⟩ | ⟨nodes, -, -, hnodes, h⟩
    · have hinside := hwell.inside
      rw [hchildren, List.forall_mem_cons] at hinside
      refine ⟨inside_le_of_lt ?_, ih hfound h⟩
      rw [hchildren, List.forall_mem_cons]
      exact ⟨hbuild test none x hinside.1 hx, bounds_all hbuild hinside.2 hnodes⟩
    · exact ⟨inside_le_of_lt (bounds_all hbuild hwell.inside hnodes), ih hfound h⟩

/-- The clauses of a `switch` are no level of their own. -/
theorem bounds_switch (ht : tree.WellFormed) (hk : tree.kind = .switch)
    (h : switch build tree label = .ok node) : tree.inside ≤ n := by
  obtain ⟨discriminant, found, x, _, _, hchildren, hx, hclauses, -⟩ := switch_eq_ok h
  have hinside := ht.inside
  rw [hchildren, List.forall_mem_cons] at hinside
  have hdiscriminant := hbuild discriminant none x hinside.1 hx
  have hrest := bounds_clauses hbuild hinside.2 hclauses
  rw [inside_of_cons hchildren, hk, Nat.max_le]
  exact ⟨by simp only [Kind.firstCost]; omega, deepest_le.2 fun c hc => by
    simpa [Kind.restCost] using hrest c hc⟩

theorem bounds_handlers {handler handler' : Option Catch} {cleanup cleanup' : Option Block}
    {found : List ParseTree} (ht : ∀ c ∈ found, c.WellFormed)
    (h : handlers build handler cleanup found = .ok (handler', cleanup')) :
    ∀ c ∈ found, c.inside ≤ n := by
  induction found generalizing handler cleanup with
  | nil => simp
  | cons clause found ih =>
    obtain ⟨hwell, hfound⟩ := List.forall_mem_cons.1 ht
    have hshape := hwell.root
    rw [List.forall_mem_cons]
    rcases handlers_cons_eq_ok h with
      ⟨binding, body, _, _, hk, hchildren, hcontent, h⟩ | ⟨body, rest, _, hk, hchildren, hcontent, h⟩
    · simp only [Shape, hk] at hshape
      obtain ⟨_, _, hpair, hbinding, -⟩ := hshape
      cases hchildren.symm.trans hpair
      have hbody := bounds_block hbuild (hwell.inside body (by simp [hchildren])) hcontent
      have hatom :=
        inside_of_atom (hwell.inside binding (by simp [hchildren])) (by rw [hbinding]; rfl)
      refine ⟨inside_le_of_le (by rw [hk]; rfl) (by rw [hk]; rfl) ?_, ih hfound h⟩
      simp [hchildren, hatom, hbody]
    · simp only [Shape, hk] at hshape
      obtain rfl : rest = [] := by simpa [hchildren] using hshape.length_eq
      have hbody := bounds_block hbuild (hwell.inside body (by simp [hchildren])) hcontent
      refine ⟨inside_le_of_le (by rw [hk]; rfl) (by rw [hk]; rfl) ?_, ih hfound h⟩
      simp [hchildren, hbody]

theorem bounds_tryStatement (ht : tree.WellFormed) (hk : tree.kind = .«try»)
    (h : tryStatement build tree label = .ok node) : tree.inside ≤ n := by
  obtain ⟨body, found, content, _, _, hchildren, hcontent, hfound, -⟩ := tryStatement_eq_ok h
  have hinside := ht.inside
  rw [hchildren, List.forall_mem_cons] at hinside
  refine inside_le_of_le (by rw [hk]; rfl) (by rw [hk]; rfl) ?_
  rw [hchildren, List.forall_mem_cons]
  exact ⟨bounds_block hbuild hinside.1 hcontent, bounds_handlers hbuild hinside.2 hfound⟩

theorem bounds_clause {missing : Span → Node} (ht : tree.WellFormed) (hc : tree.IsClause)
    (h : clause build missing tree = .ok node) : tree.inside ≤ n := by
  rcases clause_eq_ok h with ⟨-, hchildren, -⟩ | ⟨content, rest, -, hchildren, hx⟩ | ⟨hne, -⟩
  · simp [inside_of_nil hchildren]
  · exact bounds_only hbuild hc.length_le ht hchildren hx
  · exact absurd hc.1 hne

theorem bounds_forLoop (ht : tree.WellFormed) (hk : tree.kind = .«for»)
    (h : forLoop build tree label = .ok node) : tree.inside ≤ n := by
  have hshape := ht.root
  simp only [Shape, hk] at hshape
  obtain ⟨head, body, rest, w, hchildren, hw, hloop⟩ := forLoop_eq_ok h
  obtain rfl : rest = [] := by simpa [hchildren] using hshape.length_eq
  have hhead : head.WellFormed := ht.inside head (by simp [hchildren])
  have hbody := hbuild body none w (ht.inside body (by simp [hchildren])) hw
  have hclauses : head.inside ≤ n := by
    have hshape := hhead.root
    have hparts := hhead.inside
    rcases hloop with ⟨_, _, _, _, x, y, z, hk, hclauses, hx, hy, hz, -⟩ |
      ⟨_, _, _, x, y, hk, hclauses, hx, hy, -⟩ <;> simp only [Shape, hk] at hshape
    · obtain ⟨init, test, update, hthree, hinit, htest, hupdate⟩ := hshape
      cases hthree.symm.trans hclauses
      simp only [hthree, List.forall_mem_cons] at hparts
      refine inside_le_of_le (by rw [hk]; rfl) (by rw [hk]; rfl) ?_
      simp [hthree, bounds_clause hbuild hparts.1 hinit hx,
        bounds_clause hbuild hparts.2.1 htest hy, bounds_clause hbuild hparts.2.2.1 hupdate hz]
    · obtain ⟨target, object, htwo, ⟨htarget, -⟩, hobject, -⟩ := hshape
      cases htwo.symm.trans hclauses
      simp only [htwo, List.forall_mem_cons] at hparts
      refine inside_le_of_le (by rw [hk]; rfl) (by rw [hk]; rfl) ?_
      simp [htwo, bounds_clause hbuild hparts.1 htarget hx,
        bounds_clause hbuild hparts.2.1 hobject hy]
  refine inside_le ?_ ?_ <;> simp [hchildren, hk, Kind.firstCost, Kind.restCost] <;> omega

theorem bounds_labelled (ht : tree.WellFormed) (hk : tree.kind = .labelled)
    (h : labelled build tree label = .ok node) : tree.inside ≤ n := by
  have hshape := ht.root
  simp only [Shape, hk] at hshape
  obtain ⟨name, target, hchildren, hname, -⟩ := hshape
  have hatom := inside_of_atom (ht.inside name (by simp [hchildren])) (by rw [hname]; rfl)
  obtain ⟨_, _, _, hlabelled, hbuilt⟩ := labelled_eq_ok h
  cases hchildren.symm.trans hlabelled
  have htarget := hbuild target _ node (ht.inside target (by simp [hchildren])) hbuilt
  exact inside_le_of_lt (by simp [hchildren, hatom, htarget]; omega)

theorem bounds_construct (ht : tree.WellFormed) (h : construct build tree label = .ok node) :
    tree.inside ≤ n := by
  obtain ⟨c, hc, hconstruct⟩ := exists_constructs tree.kind
  rw [hconstruct rfl] at h
  cases hc with
  | grouping hk => exact bounds_grouping hbuild ht hk h
  | labelled hk => exact bounds_labelled hbuild ht hk h
  | block =>
    obtain ⟨content, hcontent, rfl⟩ := map_eq_ok h
    exact bounds_block hbuild ht hcontent
  | var hk => exact bounds_var hbuild ht hk h
  | sequence => exact bounds_sequence hbuild ht h
  | object hk => exact bounds_object hbuild ht hk h
  | array hk => exact bounds_array hbuild ht hk h
  | function hk => exact bounds_function hbuild ht hk h
  | call hk => exact bounds_call hbuild ht hk h
  | new hk => exact bounds_new hbuild ht hk h
  | access hk => exact bounds_access hbuild ht hk h
  | conditional hk => exact bounds_conditional hbuild ht hk h
  | switch hk => exact bounds_switch hbuild ht hk h
  | tryStatement hk => exact bounds_tryStatement hbuild ht hk h
  | whileLoop hk => exact bounds_whileLoop hbuild ht hk h
  | forLoop hk => exact bounds_forLoop hbuild ht hk h
  | withStatement hk => exact bounds_withStatement hbuild ht hk h
  | jump hk =>
    rcases or_assoc.2 hk with hk | hk
    · exact bounds_valueJump hbuild ht hk h
    · exact bounds_jump ht hk
  | leaf hatom => simp [inside_of_atom ht hatom]
  | assignment hk => exact bounds_assignment hbuild ht hk h
  | binary hk => exact bounds_binary hbuild ht hk h
  | step hk => exact bounds_step hbuild ht (strength?_of_step hk) h
  | unary hk => exact bounds_unary hbuild ht (strength?_of_unary hk) h
  | unsupported => cases h

theorem bounds_visit : Bounded (n + 1) (visit build) := fun _ _ _ ht h =>
  Nat.lt_succ_of_le (bounds_construct hbuild ht (visit_eq_ok h).1)

omit hbuild in
/-- Nothing is built that has more levels than there are left. -/
theorem bounds_within (limit levels : Nat) : Bounded levels (within limit levels) := by
  induction levels with
  | zero =>
    intro tree label node _ h
    cases h
  | succ levels ih => exact bounds_visit ih

omit hbuild in
/-- A program that is built takes no more levels than the limit. -/
theorem program_levels {limit : Nat} {root : Option ParseTree} (ht : ∀ t ∈ root, t.IsRoot)
    (h : (program limit root : Except BuildError (List Node)) = .ok nodes) :
    deepest 1 root.toList ≤ limit := by
  have hnode : Bounded limit (Build.node limit) := bounds_within limit limit
  match root with
  | none => simp
  | some root =>
    obtain ⟨hwell, hkind⟩ := ht root rfl
    rw [Option.toList_some, deepest_cons, deepest_nil, Nat.max_zero]
    unfold program at h
    by_cases hk : root.kind = .unit
    · simp only [hk, ↓reduceIte] at h
      obtain ⟨built, hbuilt, h⟩ := bind_eq_ok h
      have hbounds := bounds_all hnode hwell.inside hbuilt
      have hpos : 0 < limit := by
        have hstatements : 2 ≤ root.children.length := by
          simpa [IsStatement, hk, Kind.isStatement] using hkind
        exact Nat.zero_lt_of_lt (hbounds _ (List.getElem_mem (n := 0) (by omega)))
      have hinside : root.inside ≤ limit - 1 := by
        refine inside_le_of_le (by rw [hk]; rfl) (by rw [hk]; rfl) fun c hc => ?_
        exact Nat.le_sub_one_of_lt (hbounds c hc)
      omega
    · simp only [hk, ↓reduceIte, pure_bind] at h
      obtain ⟨built, hbuilt, h⟩ := bind_eq_ok h
      have hlt := hnode root none built hwell hbuilt
      omega

end Build
end Ecma3
