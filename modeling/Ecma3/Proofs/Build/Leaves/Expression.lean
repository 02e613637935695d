import Ecma3.Proofs.Build.Expression
import Ecma3.Proofs.Build.Leaves

/-! The constructions of expressions keep the names and values of their parts. -/
namespace Ecma3

open ParseTree

namespace ParseTree

variable {t : ParseTree} {d : Detached}

/-- Without the `new` at its base a chain of member accesses has the same values. -/
theorem values_withoutNew? (h : t.WellFormed) (hd : t.withoutNew? = some d) :
    d.tree.values .use = t.values .use := by
  fun_induction withoutNew? t generalizing d with
  | case1 => simp at hd
  | case2 kind text span first rest haccess ih =>
    obtain ⟨e, he, rfl⟩ := Option.map_eq_some_iff.1 hd
    have hfirst := ih (h.inside first (by simp)) he
    rcases isAccess_cases haccess with rfl | rfl <;>
      rw [values_use rfl, values_use rfl] <;> simp [Kind.childRole, hfirst]
  | case3 text span first rest haccess =>
    cases hd
    obtain ⟨operand, hchildren, -⟩ : Unary (Binds 16) _ := h.root
    cases hchildren
    simp [values_of_isPlain (t := ⟨.new, text, span, [first]⟩) rfl]
  | case4 => simp at hd

/-- What is inside the chain then was there before, up to the accesses themselves. -/
theorem nodes_withoutNew? (hd : t.withoutNew? = some d) :
    ∀ u ∈ d.tree.nodes, u ∈ t.nodes ∨ isAccess u.kind = true := by
  fun_induction withoutNew? t generalizing d with
  | case1 => simp at hd
  | case2 kind text span first rest haccess ih =>
    obtain ⟨e, he, rfl⟩ := Option.map_eq_some_iff.1 hd
    intro u hu
    simp only [nodes_mk, List.flatMap_cons, List.mem_cons, List.mem_append] at hu ⊢
    rcases hu with rfl | hu | hu
    · exact Or.inr haccess
    · exact (ih he u hu).imp (fun h => Or.inr (Or.inl h)) id
    · exact Or.inl (Or.inr (Or.inr hu))
  | case3 text span first rest haccess =>
    cases hd
    exact fun u hu => Or.inl (nodes_subset List.mem_cons_self hu)
  | case4 => simp at hd

end ParseTree

namespace Build

variable {tree : ParseTree} {node : Node}

/-- A chain loses no names and values when a `new` moves out of it. -/
theorem detach_proper {bare : ParseTree} {moved : Bool} (h : tree.Proper)
    (hdetach : (detach tree : Except BuildError (ParseTree × Bool)) = .ok (bare, moved)) :
    bare.Proper ∧ bare.values .use = tree.values .use := by
  rcases detach_eq_ok hdetach with ⟨rfl, -⟩ | ⟨d, hd, rfl, -⟩
  · exact ⟨h, rfl⟩
  · refine ⟨⟨(withoutNew?_operand h.wellFormed hd).1, fun u hu hk => ?_⟩,
      values_withoutNew? h.wellFormed hd⟩
    rcases nodes_withoutNew? hd u hu with hu | haccess
    · exact h.distinct u hu hk
    · simp [hk, isAccess] at haccess

/-- The names of the parameters of a function are no values. -/
theorem values_parameters (hwell : tree.WellFormed) (hk : tree.kind = .arguments)
    (hchildren : ∀ c ∈ tree.children, c.kind = .identifier) : tree.values .name = [] := by
  have hvalues : tree.values .name = tree.children.flatMap (values .name) := by
    have hrole : ∀ i, Role.name.child tree.kind tree.children.length i = .name := fun _ => rfl
    rw [values_eq, valuesFrom_of_role fun i _ => hrole i]
    simp [value, supplied, hk]
  rw [hvalues, List.flatMap_eq_nil_iff]
  exact fun c hc => values_name (hwell.inside c hc) (by rw [hchildren c hc]; rfl)

variable {build : ParseTree → Option String → Except BuildError Node} (hbuild : Keeps build)
include hbuild

theorem keeps_sequence (ht : tree.Proper) (hk : tree.kind = .comma)
    (h : sequence build tree = .ok node) : Faithful node tree := by
  obtain ⟨nodes, hnodes, h⟩ := bind_eq_ok h
  cases h
  intro n
  rw [values_of_isPlain (by rw [hk]; rfl)]
  exact keeps_all hbuild ht.inside hnodes n

/-- Properties with new names are added to those before them. -/
theorem keeps_properties {entries : List ParseTree} {known found : List Property}
    (ht : ∀ c ∈ entries, c.Proper ∧ c.kind = .namedValue)
    (hfresh : (known.map (·.name) ++ entries.filterMap fun entry => entry.children.head?.map
      fun name => Literal.propertyName name.text).Nodup)
    (h : properties build known entries = .ok found) (n : Node) :
    n ∈ propertyLeaves found ↔ n ∈ propertyLeaves known ++ entries.flatMap (values .use) := by
  induction entries generalizing known with
  | nil =>
    cases h
    simp
  | cons entry entries ih =>
    obtain ⟨⟨hproper, hk⟩, hentries⟩ := List.forall_mem_cons.1 ht
    have hshape := hproper.wellFormed.root
    simp only [Shape, hk] at hshape
    obtain ⟨name, value, hchildren, hname, -⟩ := hshape
    obtain ⟨_, _, _, built, -, hentry, hbuilt, h⟩ := properties_cons_eq_ok h
    cases hchildren.symm.trans hentry
    have hvalue := hbuild value none built (hproper.inside value (by simp [hchildren])) hbuilt n
    have hatom : name.values .name = [] := by
      refine values_name (hproper.wellFormed.inside name (by simp [hchildren])) ?_
      rcases hname with hname | hname | hname | hname <;> rw [hname] <;> rfl
    have hentry : entry.values .use = value.values .use := by
      rw [values_use (by rw [hk]; rfl), hk, hchildren]
      simp [Kind.childRole, hatom]
    rw [List.filterMap_cons_some (by rw [hchildren]; rfl)] at hfresh
    -- Without this the value would take the place of an earlier one.
    have hnew : Literal.propertyName name.text ∉ known.map (·.name) := by
      intro hmem
      exact (List.nodup_append.1 hfresh).2.2 _ hmem _ List.mem_cons_self rfl
    rw [Property.put_of_notMem hnew] at h
    have hrest := ih hentries (by simpa [List.append_assoc] using hfresh) h
    rw [hrest, propertyLeaves_append, List.flatMap_cons, hentry]
    simp only [propertyLeaves, List.append_nil, List.mem_append, hvalue, or_assoc]

theorem keeps_object (ht : tree.Proper) (hk : tree.kind = .object)
    (h : object build tree = .ok node) : Faithful node tree := by
  have hshape := ht.wellFormed.root
  simp only [Shape, hk] at hshape
  obtain ⟨found, hfound, rfl⟩ := object_eq_ok h
  intro n
  have hnames : tree.propertyNames.Nodup := ht.distinct tree (mem_nodes_self tree) hk
  have hentries := keeps_properties hbuild (fun c hc => ⟨ht.inside c hc, hshape c hc⟩)
    (by simpa [propertyNames] using hnames) hfound n
  rw [values_of_isPlain (by rw [hk]; rfl)]
  simpa using hentries

theorem keeps_elements {items : List ParseTree} {found : List (Option Node)}
    (ht : ∀ c ∈ items, c.Proper ∧ c.kind = .item) (h : elements build items = .ok found)
    (n : Node) :
    n ∈ elementLeaves found ↔ n ∈ items.flatMap (values .use) := by
  induction items generalizing found with
  | nil =>
    cases h
    rfl
  | cons item items ih =>
    obtain ⟨⟨hproper, hk⟩, hitems⟩ := List.forall_mem_cons.1 ht
    have hshape := hproper.wellFormed.root
    simp only [Shape, hk] at hshape
    obtain ⟨element, rest, rfl, hrest, helement⟩ := elements_cons_eq_ok h
    rw [List.flatMap_cons, values_of_isPlain (by rw [hk]; rfl)]
    rcases hshape with hchildren | ⟨content, hchildren, -⟩
    · have hnone : element = none := by simpa [hk, hchildren] using helement
      simp [hchildren, hnone, ih hitems hrest]
    · obtain ⟨x, hx, rfl⟩ : ∃ x, build content none = .ok x ∧ element = some x := by
        simpa [hk, hchildren] using helement
      have hcontent := hbuild content none x (hproper.inside content (by simp [hchildren])) hx n
      simp [hchildren, hcontent, ih hitems hrest]

theorem keeps_array (ht : tree.Proper) (hk : tree.kind = .array)
    (h : array build tree = .ok node) : Faithful node tree := by
  have hshape := ht.wellFormed.root
  simp only [Shape, hk] at hshape
  obtain ⟨found, hfound, h⟩ := bind_eq_ok h
  cases h
  intro n
  rw [values_of_isPlain (by rw [hk]; rfl)]
  exact keeps_elements hbuild (fun c hc => ⟨ht.inside c hc, hshape c hc⟩) hfound n

omit hbuild in
/-- Only the body of a function has values. -/
theorem values_function {name : List ParseTree} {parameters body : ParseTree}
    (hwell : tree.WellFormed) (hk : tree.kind = .function)
    (hchildren : tree.children = name ++ [parameters, body]) (hlength : name.length ≤ 1)
    (hname : ∀ c ∈ name, c.kind = .identifier) (hlist : parameters.kind = .arguments)
    (hparameters : ∀ c ∈ parameters.children, c.kind = .identifier) :
    tree.values .use = body.values .use := by
  have hno : parameters.values .name = [] :=
    values_parameters (hwell.inside parameters (by simp [hchildren])) hlist hparameters
  rw [values_use (by rw [hk]; rfl), hk]
  rcases nil_or_singleton hlength with rfl | ⟨first, rfl⟩
  · simp [hchildren, Kind.childRole, hno]
  · have hfirst : first.values .name = [] :=
      values_name (hwell.inside first (by simp [hchildren]))
        (by rw [hname first List.mem_cons_self]; rfl)
    simp [hchildren, Kind.childRole, hno, hfirst]

theorem keeps_function (ht : tree.Proper) (hk : tree.kind = .function)
    (h : function build tree = .ok node) : Faithful node tree := by
  have hshape := ht.wellFormed.root
  simp only [Shape, hk] at hshape
  obtain ⟨name, parameters, body, hchildren, hlength, hname, hlist, hparameters, -⟩ := hshape
  obtain ⟨_, _, content, hcontent, rfl⟩ := function_body_eq_ok hchildren hlength h
  intro n
  rw [values_function ht.wellFormed hk hchildren hlength hname hlist hparameters]
  exact keeps_block hbuild (ht.inside body (by simp [hchildren])) hcontent n

theorem keeps_new (ht : tree.Proper) (hk : tree.kind = .new) (h : new build tree = .ok node) :
    Faithful node tree := by
  have hshape : tree.Unary (Binds 16) := by simpa only [Shape, hk] using ht.wellFormed.root
  obtain ⟨x, h, hx⟩ := keeps_operand hbuild (Nat.le_of_eq hshape.length_eq) ht h
  cases h
  intro n
  rw [values_of_isPlain (by rw [hk]; rfl), ← hx n]
  rfl

theorem keeps_arguments {nodes : List Node} (ht : tree.Proper) (hk : tree.kind = .arguments)
    (h : arguments build tree = .ok nodes) (n : Node) :
    n ∈ nodeLeaves nodes ↔ n ∈ tree.values .use := by
  rcases arguments_eq_ok h with ⟨-, hnodes⟩ | ⟨x, hx, rfl⟩
  · rw [values_of_isPlain (by rw [hk]; rfl)]
    exact keeps_all hbuild ht.inside hnodes n
  · simpa using hbuild tree none x ht hx n

theorem keeps_call (ht : tree.Proper) (hk : tree.kind = .call) (h : call build tree = .ok node) :
    Faithful node tree := by
  have hshape := ht.wellFormed.root
  simp only [Shape, hk] at hshape
  obtain ⟨callee, list, hchildren, -, hlist⟩ := hshape
  obtain ⟨_, _, bare, moved, x, nodes, hcall, harguments, hdetach, hx, rfl⟩ := call_eq_ok h
  cases hchildren.symm.trans hcall
  obtain ⟨_, _, hrest, hnodes⟩ := harguments.resolve_left (by simp)
  cases hrest
  obtain ⟨hbare, hvalues⟩ := detach_proper (ht.inside callee (by simp [hchildren])) hdetach
  intro n
  have hcallee := hbuild bare none x hbare hx n
  have harguments := keeps_arguments hbuild (ht.inside list (by simp [hchildren])) hlist hnodes n
  rw [values_of_isPlain (by rw [hk]; rfl), hchildren]
  split <;> simp [hcallee, harguments, hvalues]

theorem keeps_access (ht : tree.Proper) (hk : isAccess tree.kind = true)
    (h : access build tree = .ok node) : Faithful node tree := by
  obtain ⟨object, member, hchildren, -, -⟩ := shape_access ht.wellFormed.root hk
  obtain ⟨_, _, _, bare, moved, x, access, haccess, hdetach, hx, hmade, rfl⟩ := access_eq_ok h
  cases hchildren.symm.trans haccess
  obtain ⟨hbare, hvalues⟩ := detach_proper (ht.inside object (by simp [hchildren])) hdetach
  intro n
  have hobject := hbuild bare none x hbare hx n
  rw [hvalues] at hobject
  have haccess : n ∈ access.leaves ↔ n ∈ tree.values .use := by
    rcases hmade with ⟨hfield, rfl⟩ | ⟨hfield, y, hy, rfl⟩
    · have hshape := ht.wellFormed.root
      simp only [Shape, hfield] at hshape
      obtain ⟨a, b, hab, -, hname⟩ := hshape
      cases hchildren.symm.trans hab
      have hatom : member.values .name = [] :=
        values_name (ht.wellFormed.inside member (by simp [hchildren])) (by rw [hname]; rfl)
      rw [values_use (by rw [hfield]; rfl), hfield, hchildren]
      simp [Kind.childRole, hatom, hobject]
    · have hindex := (isAccess_cases hk).resolve_left hfield
      have hmember := hbuild member none y (ht.inside member (by simp [hchildren])) hy n
      rw [values_of_isPlain (by rw [hindex]; rfl), hchildren]
      simp [hobject, hmember]
  rw [← haccess]
  split <;> simp

/-! Operators. -/

omit hbuild in
theorem leaves_joins {x y : Node} {span : Span} (h : Joins x y span node) :
    node.leaves = x.leaves ++ y.leaves := by
  cases h <;> rfl

theorem keeps_assignment (ht : tree.Proper) (hk : tree.kind.strength? = some 1)
    (h : assignment build tree = .ok node) : Faithful node tree := by
  obtain ⟨target, value, assigned, hpair, hassigned, rfl⟩ := assignment_eq_ok h
  intro n
  -- The target may stand in the value too.
  have hleaves : n ∈ target.leaves ++ assigned.leaves ↔ n ∈ target.leaves ++ value.leaves := by
    rcases assignedValue_eq_ok hassigned with ⟨-, rfl⟩ | ⟨-, hjoins⟩
    · rfl
    · simp [leaves_joins hjoins]
  have hplain : tree.kind.isPlain = true := by
    cases hkind : tree.kind <;>
      simp_all [Kind.isPlain, Kind.hasValue, Kind.isSupplied, Kind.strength?, Grammar.precedence?]
  rw [values_of_isPlain hplain, Node.leaves, hleaves]
  exact keeps_pair hbuild (shape_assignment ht.wellFormed.root hk).length_eq ht hpair n

theorem keeps_binary (ht : tree.Proper) (hk : (Grammar.precedence? tree.kind).isSome = true)
    (h : binary build tree = .ok node) : Faithful node tree := by
  obtain ⟨p, hp⟩ := Option.isSome_iff_exists.1 hk
  obtain ⟨left, right, hpair, hjoins⟩ := binary_eq_ok h
  have hplain : tree.kind.isPlain = true := by
    cases hkind : tree.kind <;>
      simp_all [Kind.isPlain, Kind.hasValue, Kind.isSupplied, Grammar.precedence?]
  intro n
  rw [values_of_isPlain hplain, leaves_joins hjoins]
  exact keeps_pair hbuild (shape_binary ht.wellFormed.root hp).length_eq ht hpair n

theorem keeps_step (ht : tree.Proper)
    (hk : tree.kind = .increment ∨ tree.kind = .decrement ∨ tree.kind = .postIncrement ∨
      tree.kind = .postDecrement) (h : step build tree = .ok node) : Faithful node tree := by
  have hone := Nat.le_of_eq (shape_unary ht.wellFormed.root (strength?_of_step hk)).length_eq
  obtain ⟨target, h, htarget⟩ := keeps_operand hbuild hone ht h
  intro n
  have htarget := htarget n
  have htwice : ∀ leaves : List Node, n ∈ leaves ++ (leaves ++ [.integer 1 tree.span]) ↔
      n ∈ [.integer 1 tree.span] ++ leaves := by
    simp [or_comm]
  rcases hk with hk | hk | hk | hk <;> simp only [hk] at h <;> cases h
  · rw [values_of_isSupplied (by rw [hk]; rfl), List.mem_append, ← htarget, ← List.mem_append]
    simpa [supplied, hk] using htwice target.leaves
  · rw [values_of_isSupplied (by rw [hk]; rfl), List.mem_append, ← htarget, ← List.mem_append]
    simpa [supplied, hk] using htwice target.leaves
  · rwa [values_of_isPlain (by rw [hk]; rfl)]
  · rwa [values_of_isPlain (by rw [hk]; rfl)]

theorem keeps_unary (ht : tree.Proper)
    (hk : tree.kind = .bitNot ∨ tree.kind = .logicalNot ∨ tree.kind = .negate ∨ tree.kind = .plus ∨
      tree.kind = .typeOf ∨ tree.kind = .void ∨ tree.kind = .delete)
    (h : unary build tree = .ok node) : Faithful node tree := by
  have hplain : tree.kind.isPlain = true := by
    rcases hk with hk | hk | hk | hk | hk | hk | hk <;> rw [hk] <;> rfl
  have hstrength := strength?_of_unary hk
  have hone := Nat.le_of_eq (shape_unary ht.wellFormed.root (.inl hstrength)).length_eq
  obtain ⟨operand, h, hoperand⟩ := keeps_operand hbuild hone ht h
  intro n
  rw [values_of_isPlain hplain, ← hoperand n]
  split at h <;> cases h <;> rfl

end Build
end Ecma3
