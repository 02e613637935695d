import Ecma3.Proofs.Build.Leaves.Expression
import Ecma3.Proofs.Build.Leaves.Literal
import Ecma3.Proofs.Build.Leaves.Statement
import Ecma3.Proofs.Build.Program

/-! What is built from a source has the names and values of its parse tree. -/
namespace Ecma3

namespace ParseTree

variable {t u : ParseTree} {role inner : Role} {roles : Nat → Role}

theorem mem_placedFrom {i : Nat} {ts : List ParseTree} {p : Role × ParseTree} :
    p ∈ placedFrom roles i ts ↔ ∃ (j : Nat) (c : ParseTree),
      ts[j]? = some c ∧ p ∈ c.placed (roles (i + j)) := by
  induction ts generalizing i with
  | nil => simp [placedFrom]
  | cons t ts ih =>
    rw [placedFrom, List.mem_append, ih]
    constructor
    · rintro (h | ⟨j, c, hc, h⟩)
      · exact ⟨0, t, rfl, h⟩
      · exact ⟨j + 1, c, hc, by rwa [Nat.add_right_comm] at h⟩
    · rintro ⟨_ | j, c, hc, h⟩
      · cases hc
        exact Or.inl h
      · exact Or.inr ⟨j, c, hc, by rwa [Nat.add_right_comm]⟩

theorem mem_placed : (inner, u) ∈ t.placed role ↔ (inner, u) = (role, t) ∨
    ∃ (j : Nat) (c : ParseTree), t.children[j]? = some c ∧
      (inner, u) ∈ c.placed (role.child t.kind t.children.length j) := by
  obtain ⟨kind, text, span, children⟩ := t
  rw [placed, List.mem_cons, mem_placedFrom]
  simp only [Nat.zero_add]

/-- All that stands inside a name is part of it. -/
theorem role_of_name (h : (inner, u) ∈ t.placed .name) : inner = .name := by
  induction t using induction with
  | step t ih =>
    rcases mem_placed.1 h with heq | ⟨j, c, hc, hin⟩
    · cases heq
      rfl
    · exact ih c (List.mem_of_getElem? hc) hin

/-- What is no name is built. -/
theorem exists_visit (h : (inner, u) ∈ t.placed role) (hinner : inner ≠ .name)
    (label : Option String) : ∃ l, (l, u) ∈ t.visits label := by
  induction t using induction generalizing role label with
  | step t ih =>
    have hvisits : t.visits label = (label, t) :: t.inTurn visits label := by
      simpa using filterMap_visits some label t
    rw [hvisits]
    rcases mem_placed.1 h with heq | ⟨j, c, hc, hin⟩
    · cases heq
      exact ⟨label, List.mem_cons_self⟩
    · cases hchildren : t.children with
      | nil => simp [hchildren] at hc
      | cons first rest =>
        rw [inTurn, hchildren]
        obtain ⟨l, hl⟩ := ih c (List.mem_of_getElem? hc) hin
          (if j = 0 then t.kind.firstLabel label else t.kind.restLabel first.text)
        refine ⟨l, List.mem_cons_of_mem _ ((Kind.turns_perm _ _ _).mem_iff.2 (List.mem_append.2 ?_))⟩
        rw [hchildren] at hc
        cases j with
        | zero =>
          cases hc
          -- The name of a property is not built.
          have hkind : t.kind ≠ .namedValue := by
            intro hkind
            have hrole : role.child t.kind t.children.length 0 = .name := by
              cases role <;> simp [Role.child, Kind.childRole, hkind]
            rw [hrole] at hin
            exact hinner (role_of_name hin)
          rw [if_neg hkind]
          exact Or.inl hl
        | succ j => exact Or.inr (List.mem_flatMap.2 ⟨c, List.mem_of_getElem? hc, hl⟩)

theorem mem_nodes_of_mem_placed (h : (inner, u) ∈ t.placed role) : u ∈ t.nodes := by
  induction t using induction generalizing role with
  | step t ih =>
    rw [nodes_eq, List.mem_cons, List.mem_flatMap]
    rcases mem_placed.1 h with heq | ⟨j, c, hc, hin⟩
    · cases heq
      exact Or.inl rfl
    · exact Or.inr ⟨c, List.mem_of_getElem? hc, ih c (List.mem_of_getElem? hc) hin⟩

/-- A name or literal that is no error stands for something. -/
theorem exists_denotes (hshape : u.Shape) (hatom : u.kind.isAtom = true) (hinner : inner ≠ .name)
    (hfault : u.fault? = none) : ∃ n, u.Denotes inner n := by
  suffices hvalue : ∃ n, n ∈ u.value inner by
    obtain ⟨n, hn⟩ := hvalue
    exact ⟨n, (mem_value.1 hn).2⟩
  unfold fault? at hfault
  rw [value, if_neg hinner]
  cases hkind : u.kind <;> simp only [hkind, Kind.isAtom, Bool.false_eq_true] at hatom hfault
  case decimalLiteral | hexLiteral =>
    obtain ⟨n, hn⟩ := Option.ne_none_iff_exists'.1 (by simpa using hfault)
    exact ⟨n, Option.mem_toList.2 hn⟩
  case stringLiteral | regexLiteral =>
    simp only [Shape, hkind] at hshape
    obtain ⟨n, hn⟩ := Option.isSome_iff_exists.1 hshape.2
    exact ⟨n, Option.mem_toList.2 hn⟩
  case debugger => cases hfault
  all_goals exact ⟨_, List.mem_singleton_self _⟩

end ParseTree

namespace Build

open ParseTree

variable {build : ParseTree → Option String → Except BuildError Node} {tree : ParseTree}
  {node : Node} {label : Option String} {limit : Nat}

theorem keeps_construct (hbuild : Keeps build) (ht : tree.Proper)
    (h : construct build tree label = .ok node) : Faithful node tree := by
  obtain ⟨c, hc, hconstruct⟩ := exists_constructs tree.kind
  rw [hconstruct rfl] at h
  cases hc with
  | grouping hk => exact keeps_grouping hbuild ht hk h
  | labelled hk => exact keeps_labelled hbuild ht hk h
  | block =>
    obtain ⟨content, hcontent, rfl⟩ := map_eq_ok h
    exact keeps_block hbuild ht hcontent
  | var hk => exact keeps_var hbuild ht hk h
  | sequence hk => exact keeps_sequence hbuild ht hk h
  | object hk => exact keeps_object hbuild ht hk h
  | array hk => exact keeps_array hbuild ht hk h
  | function hk => exact keeps_function hbuild ht hk h
  | call hk => exact keeps_call hbuild ht hk h
  | new hk => exact keeps_new hbuild ht hk h
  | access hk => exact keeps_access hbuild ht hk h
  | conditional hk => exact keeps_conditional hbuild ht hk h
  | switch hk => exact keeps_switch hbuild ht hk h
  | tryStatement hk => exact keeps_tryStatement hbuild ht hk h
  | whileLoop hk => exact keeps_whileLoop hbuild ht hk h
  | forLoop hk => exact keeps_forLoop hbuild ht hk h
  | withStatement hk => exact keeps_withStatement hbuild ht hk h
  | jump hk =>
    rcases hk with hk | hk | hk
    · exact keeps_return hbuild ht hk h
    · exact keeps_throw hbuild ht hk h
    · exact keeps_jump ht hk h
  | leaf hatom hdebugger => exact faithful_leaf ht.wellFormed hatom hdebugger h
  | assignment hk => exact keeps_assignment hbuild ht hk h
  | binary hk => exact keeps_binary hbuild ht hk h
  | step hk => exact keeps_step hbuild ht hk h
  | unary hk => exact keeps_unary hbuild ht hk h
  | unsupported => cases h

theorem keeps_visit (hbuild : Keeps build) : Keeps (visit build) := by
  intro tree label node ht h
  obtain ⟨-, -, h⟩ := bind_eq_ok h
  cases label with
  | none => exact keeps_construct hbuild ht h
  | some name =>
    dsimp only at h
    split at h
    · cases h
    · exact keeps_construct hbuild ht h

theorem keeps_within (levels : Nat) : Keeps (within limit levels) := by
  induction levels with
  | zero =>
    intro tree label node _ h
    cases h
  | succ levels ih => exact keeps_visit ih

/-- What has been built has no part that is an error. -/
theorem fault?_of_built {root u : ParseTree} {role : Role} {nodes : List Node} (hroot : root.IsRoot)
    (hnodes : (program limit (some root) : Except BuildError (List Node)) = .ok nodes)
    (hu : (role, u) ∈ root.placed .use) (hrole : role ≠ .name) : u.fault? = none := by
  obtain ⟨label, hvisit⟩ := exists_visit hu hrole none
  have herror : u.errorWith? label = none :=
    List.filterMap_eq_nil_iff.1 ((stops_program hroot).ok nodes hnodes) _ hvisit
  cases label with
  | none => exact herror
  | some name =>
    rw [errorWith?] at herror
    split at herror
    · exact herror
    · cases herror

/-- No name or value is lost or invented: if a source gives each property of its objects one
value, the names and values in what is built from it are those that are written in its parse tree,
but for names of properties, parameters, functions, caught exceptions and labels, and those that
are supplied for what is left out. -/
theorem program_leaves {parseLimit buildLimit : Nat} {source : String} {root : ParseTree}
    {nodes : List Node} (hroot : Grammar.parse parseLimit source = .ok (some root))
    (hdistinct : root.Distinct)
    (hnodes : (program buildLimit (some root) : Except BuildError (List Node)) = .ok nodes) :
    (∀ role t, (role, t) ∈ root.placed .use → role ≠ .name → t.kind.isAtom = true →
      ∃ n, t.Denotes role n) ∧
    ∀ n, n ∈ nodes.flatMap Node.leaves ↔ ∃ role t, (role, t) ∈ root.placed .use ∧
      (role ≠ .name ∧ t.Denotes role n ∨ n ∈ t.supplied) := by
  have hnode : Keeps (node buildLimit) := keeps_within buildLimit
  have hisRoot := Grammar.parse_isRoot hroot
  have hproper : root.Proper := ⟨hisRoot.1, hdistinct⟩
  refine ⟨fun role t ht hrole hatom => ?_, fun n => ?_⟩
  · exact exists_denotes (hproper.wellFormed.of_mem_nodes (mem_nodes_of_mem_placed ht)).root hatom
      hrole (fault?_of_built hisRoot hnodes ht hrole)
  · have hvalues : n ∈ root.values .use ↔ ∃ role t, (role, t) ∈ root.placed .use ∧
        (role ≠ .name ∧ t.Denotes role n ∨ n ∈ t.supplied) := by
      simp only [values, List.mem_flatMap, List.mem_append, mem_value, Prod.exists]
    rw [← hvalues, ← nodeLeaves_eq_flatMap]
    unfold program at hnodes
    by_cases hk : root.kind = .unit
    · simp only [hk, ↓reduceIte] at hnodes
      obtain ⟨built, hbuilt, h⟩ := bind_eq_ok hnodes
      cases h
      rw [values_of_isPlain (by rw [hk]; rfl)]
      exact keeps_all hnode hproper.inside hbuilt n
    · simp only [hk, ↓reduceIte, pure_bind] at hnodes
      obtain ⟨built, hbuilt, h⟩ := bind_eq_ok hnodes
      cases h
      simpa using hnode root none built hproper hbuilt n

theorem program_leaves_loop : ∃ root nodes,
    Grammar.parse 9 "for (var i = 0; ; ++i) new f(i).g" = .ok (some root) ∧
    (program 9 (some root) : Except BuildError (List Node)) = .ok nodes ∧
    (∀ role t, (role, t) ∈ root.placed .use → role ≠ .name → t.kind.isAtom = true →
      ∃ n, t.Denotes role n) ∧
    ∀ n, n ∈ nodes.flatMap Node.leaves ↔ ∃ role t, (role, t) ∈ root.placed .use ∧
      (role ≠ .name ∧ t.Denotes role n ∨ n ∈ t.supplied) := by
  have hsource : (Grammar.parse 9 "for (var i = 0; ; ++i) new f(i).g").toOption.map (fun root =>
      root.any fun root => decide root.Distinct &&
        (program 9 (some root) : Except BuildError (List Node)).toOption.isSome) = some true := by
    decide +kernel
  cases hroot : Grammar.parse 9 "for (var i = 0; ; ++i) new f(i).g" with
  | error e => simp [hroot, Except.toOption] at hsource
  | ok root =>
    simp only [hroot, Except.toOption, Option.map_some, Option.some.injEq, Option.any_eq_true,
      Bool.and_eq_true, decide_eq_true_eq] at hsource
    obtain ⟨root, rfl, hdistinct, hbuild⟩ := hsource
    cases hnodes : (program 9 (some root) : Except BuildError (List Node)) with
    | error e => simp [hnodes] at hbuild
    | ok nodes => exact ⟨root, nodes, rfl, hnodes, program_leaves hroot hdistinct hnodes⟩

end Build
end Ecma3
