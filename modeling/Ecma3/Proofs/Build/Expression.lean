import Ecma3.Proofs.Build.Construct
import Ecma3.Proofs.Build.Outcome
import Ecma3.Proofs.ParseTree.Detached

/-! The constructions of expressions stop at the first error of the nodes that the grammar makes for
them. -/
namespace Ecma3

open ParseTree

namespace ParseTree

variable {t : ParseTree} {d : Detached} {m n : Nat}

/-- A member access stays one with another object. -/
theorem shape_access (h : t.Shape) (hk : isAccess t.kind = true) :
    ∃ object member, t.children = [object, member] ∧ object.Binds 15 ∧
      ∀ object' : ParseTree, object'.Binds 15 → Shape { t with children := [object', member] } := by
  rcases isAccess_cases hk with hkind | hkind <;>
    simp only [Shape, hkind] at h ⊢ <;>
    obtain ⟨object, member, hchildren, hobject, hmember⟩ := h
  · exact ⟨object, member, hchildren, hobject, fun o ho => ⟨o, member, rfl, ho, hmember⟩⟩
  · exact ⟨object, member, hchildren, hobject, fun o ho => ⟨o, member, rfl, ho, hmember⟩⟩

/-- Without the `new` at its base a chain of member accesses is still one. -/
theorem withoutNew?_operand (h : t.WellFormed) (hd : t.withoutNew? = some d) :
    d.tree.WellFormed ∧ d.tree.Binds 15 := by
  fun_induction withoutNew? t generalizing d with
  | case1 => simp at hd
  | case2 kind text span first rest haccess ih =>
    obtain ⟨e, he, rfl⟩ := Option.map_eq_some_iff.1 hd
    obtain ⟨object, member, hchildren, -, hshape⟩ := shape_access h.root haccess
    obtain ⟨rfl, rfl⟩ := List.cons.inj hchildren
    obtain ⟨hwell, hbinds⟩ := ih (h.inside first (by simp)) he
    refine ⟨.intro (hshape e.tree hbinds) ?_, 15, isAccess_strength haccess, Nat.le_refl _⟩
    simpa using ⟨hwell, h.inside member (by simp)⟩
  | case3 text span first rest haccess =>
    cases hd
    obtain ⟨operand, hchildren, hoperand⟩ : Unary (Binds 16) _ := h.root
    cases hchildren
    exact ⟨h.inside first (by simp), hoperand.mono (by omega)⟩
  | case4 => simp at hd

/-- An access has the errors of its object and those of its member. -/
theorem errors_access {object member : ParseTree} (hk : isAccess t.kind = true)
    (hchildren : t.children = [object, member]) :
    t.errors none = object.errors none ++ member.errors none := by
  have hkind : t.kind.isStraight = true ∧ t.kind.isAtom = false := by
    rcases isAccess_cases hk with hk | hk <;> rw [hk] <;> exact ⟨rfl, rfl⟩
  rw [errors_straight hkind.1 hkind.2, hchildren]
  simp

/-- Without the `new` at its base a chain of member accesses has the same errors. -/
theorem errors_withoutNew? (h : t.WellFormed) (hd : t.withoutNew? = some d) :
    d.tree.errors none = t.errors none := by
  fun_induction withoutNew? t generalizing d with
  | case1 => simp at hd
  | case2 kind text span first rest haccess ih =>
    obtain ⟨e, he, rfl⟩ := Option.map_eq_some_iff.1 hd
    obtain ⟨object, member, hchildren, -, -⟩ := shape_access h.root haccess
    obtain ⟨rfl, rfl⟩ := List.cons.inj hchildren
    have hfirst := ih (h.inside first (by simp)) he
    have haround : ∀ object, errors none ⟨kind, text, span, [object, member]⟩ =
        object.errors none ++ member.errors none := fun _ => errors_access haccess rfl
    exact (haround e.tree).trans (hfirst ▸ (haround first).symm)
  | case3 text span first rest haccess =>
    cases hd
    obtain ⟨operand, hchildren, -⟩ : Unary (Binds 16) _ := h.root
    cases hchildren
    have haround : errors none ⟨.new, text, span, [first]⟩ = [first].flatMap (errors none) :=
      errors_straight rfl rfl
    rw [haround, List.flatMap_singleton]
  | case4 => simp at hd

/-- A primary expression has no `new` to detach. -/
theorem withoutNew?_primary (h : t.Binds 17) : t.withoutNew? = none := by
  obtain ⟨n, hn, hle⟩ := h
  unfold withoutNew?
  split
  · rfl
  · rename_i kind text span first rest
    have hkind : isAccess kind = false ∧ kind ≠ .new := by
      constructor
      · cases haccess : isAccess kind with
        | false => rfl
        | true =>
          cases hn.symm.trans (isAccess_strength haccess)
          omega
      · rintro rfl
        cases hn
        omega
    simp [hkind]

end ParseTree

namespace Build

variable {limit : Nat} {build : ParseTree → Option String → Except BuildError Node}
  {tree : ParseTree} {label : Option String} (hbuild : Inside limit build)
include hbuild

theorem stops_sequence (h : tree.WellFormed) (hk : tree.kind = .comma) :
    Stops limit (tree.errorsInside label) (sequence build tree) := by
  have hshape := h.root
  simp only [Shape, hk] at hshape
  rw [errorsInside_straight (by rw [hk]; rfl)]
  exact (stops_all hbuild fun c hc => buildable_of_binds (h.inside c hc) (hshape.2 c hc)).last
    fun _ _ => .pure

theorem stops_properties {trees : List ParseTree} {known : List Property}
    (h : ∀ c ∈ trees, c.WellFormed ∧ c.kind = .namedValue) :
    Stops limit (trees.flatMap (errors none)) (properties build known trees) := by
  induction trees generalizing known with
  | nil => exact .pure
  | cons entry trees ih =>
    obtain ⟨⟨hwell, hk⟩, htrees⟩ := List.forall_mem_cons.1 h
    have hshape := hwell.root
    simp only [Shape, hk] at hshape
    obtain ⟨name, value, hchildren, -, hvalue⟩ := hshape
    have hbuildable := buildable_of_binds (hwell.inside value (by simp [hchildren])) hvalue
    rw [properties_cons hk hchildren, List.flatMap_cons, errors_namedValue hk hchildren]
    exact (hbuild value none hbuildable).bind fun _ _ => ih htrees

theorem stops_object (h : tree.WellFormed) (hk : tree.kind = .object) :
    Stops limit (tree.errorsInside label) (object build tree) := by
  have hshape := h.root
  simp only [Shape, hk] at hshape
  rw [errorsInside_straight (by rw [hk]; rfl), object_eq_properties]
  exact (stops_properties hbuild fun c hc => ⟨h.inside c hc, hshape c hc⟩).last fun _ _ => .pure

theorem stops_elements {items : List ParseTree} (h : ∀ c ∈ items, c.WellFormed ∧ c.kind = .item) :
    Stops limit (items.flatMap (errors none)) (elements build items) := by
  induction items with
  | nil => exact .pure
  | cons item items ih =>
    obtain ⟨⟨hwell, hk⟩, hitems⟩ := List.forall_mem_cons.1 h
    have hshape := hwell.root
    simp only [Shape, hk] at hshape
    simp only [elements, hk, ↓reduceIte]
    rw [List.flatMap_cons, errors_straight (by rw [hk]; rfl) (by rw [hk]; rfl)]
    rcases hshape with hchildren | ⟨element, hchildren, helement⟩
    · simp only [hchildren]
      exact (ih hitems).last fun _ _ => .pure
    · have hbuildable := buildable_of_binds (hwell.inside element (by simp [hchildren])) helement
      simp only [hchildren, List.flatMap_singleton]
      refine (hbuild element none hbuildable).map.bind fun _ _ => ?_
      exact (ih hitems).last fun _ _ => .pure

theorem stops_array (h : tree.WellFormed) (hk : tree.kind = .array) :
    Stops limit (tree.errorsInside label) (array build tree) := by
  have hshape := h.root
  simp only [Shape, hk] at hshape
  rw [errorsInside_straight (by rw [hk]; rfl)]
  exact (stops_elements hbuild fun c hc => ⟨h.inside c hc, hshape c hc⟩).last fun _ _ => .pure

/-- Only the body of a function can have errors. -/
theorem stops_function (h : tree.WellFormed) (hk : tree.kind = .function) :
    Stops limit (tree.errorsInside label) (function build tree) := by
  have hshape := h.root
  simp only [Shape, hk] at hshape
  obtain ⟨name, parameters, body, hchildren, hlength, hname, hlist, hparameters, hbody⟩ := hshape
  have hblock : Stops limit (body.errors none) (block build body none) :=
    stops_block hbuild (h.inside body (by simp [hchildren])) ⟨by rw [hbody]; rfl, by simp [hbody]⟩
  have hwell := h.inside parameters (by simp [hchildren])
  have hparameters : parameters.errors none = [] := by
    rw [errors_straight (by rw [hlist]; rfl) (by rw [hlist]; rfl)]
    exact errors_names fun c hc => ⟨hwell.inside c hc, hparameters c hc⟩
  have hname : name.flatMap (errors none) = [] :=
    errors_names fun c hc => ⟨h.inside c (by simp [hchildren, hc]), hname c hc⟩
  rw [errorsInside_straight (by rw [hk]; rfl), hchildren, List.flatMap_append, hname,
    List.flatMap_cons, hparameters, List.flatMap_singleton, List.nil_append, List.nil_append]
  unfold function
  rcases nil_or_singleton hlength with rfl | ⟨first, rfl⟩
  · simp only [hchildren, List.nil_append, List.length_cons, List.length_nil, Nat.reduceAdd,
      Nat.reduceLT, ↓reduceIte]
    rw [child_eq (t := parameters) (by simp [hchildren]),
      child_eq (t := body) (by simp [hchildren])]
    exact hblock.last fun _ _ => .pure
  · simp only [hchildren, List.cons_append, List.nil_append, List.length_cons, List.length_nil,
      Nat.reduceAdd, Nat.reduceLT, ↓reduceIte]
    rw [child_eq (t := first) (by simp [hchildren]),
      child_eq (t := parameters) (by simp [hchildren]),
      child_eq (t := body) (by simp [hchildren])]
    exact hblock.last fun _ _ => .pure

theorem stops_new (h : tree.WellFormed) (hk : tree.kind = .new) :
    Stops limit (tree.errorsInside label) (new build tree) := by
  have hshape := h.root
  simp only [Shape, hk] at hshape
  obtain ⟨operand, hchildren, hoperand⟩ := hshape
  unfold new
  rw [child_eq (t := operand) (by simp [hchildren]), errorsInside_straight (by rw [hk]; rfl),
    hchildren, List.flatMap_singleton]
  have hinside := h.inside operand (by simp [hchildren])
  exact (hbuild operand none (buildable_of_binds hinside hoperand)).last
    fun _ _ => .pure

theorem stops_arguments (h : tree.WellFormed) (hk : tree.kind = .arguments) :
    Stops limit (tree.errors none) (arguments build tree) := by
  have hshape := h.root
  simp only [Shape, hk] at hshape
  simp only [arguments, hk, ↓reduceIte]
  rw [errors_straight (by rw [hk]; rfl) (by rw [hk]; rfl)]
  exact stops_all hbuild fun c hc => buildable_of_binds (h.inside c hc) (hshape c hc)

omit hbuild in
/-- What is left when a `new` has moved out is still an object, with the same errors. -/
theorem detach_ok (h : tree.WellFormed) (hn : tree.Binds 15) :
    ∃ object moved, (detach tree : Except BuildError (ParseTree × Bool)) = pure (object, moved) ∧
      Buildable object ∧ object.errors none = tree.errors none := by
  rw [ParseTree.detach_eq_withoutNew?]
  split
  · exact ⟨tree, false, rfl, buildable_of_binds h hn, rfl⟩
  · rename_i d hd
    have hoperand := withoutNew?_operand h hd
    exact ⟨d.tree, true, rfl, buildable_of_binds hoperand.1 hoperand.2, errors_withoutNew? h hd⟩

theorem stops_call (h : tree.WellFormed) (hk : tree.kind = .call) :
    Stops limit (tree.errorsInside label) (call build tree) := by
  have hshape := h.root
  simp only [Shape, hk] at hshape
  obtain ⟨callee, arguments, hchildren, hcallee, harguments⟩ := hshape
  obtain ⟨object, moved, hdetach, hobject, herrors⟩ :=
    detach_ok (h.inside callee (by simp [hchildren])) hcallee
  unfold call
  rw [child_eq (t := callee) (by simp [hchildren]), errorsInside_call hk hchildren, ← herrors]
  simp only [hchildren]
  refine (stops_arguments hbuild (h.inside arguments (by simp [hchildren])) harguments).bind
    fun _ _ => ?_
  simp only [hdetach]
  exact (hbuild object none hobject).last fun _ _ => by split <;> exact .pure

theorem stops_access (h : tree.WellFormed) (hk : isAccess tree.kind = true) :
    Stops limit (tree.errorsInside label) (access build tree) := by
  obtain ⟨object, member, hchildren, hobject, -⟩ := shape_access h.root hk
  obtain ⟨object', moved, hdetach, hobject', herrors⟩ :=
    detach_ok (h.inside object (by simp [hchildren])) hobject
  have hwell := h.inside member (by simp [hchildren])
  have hshape := h.root
  unfold access
  rw [child_eq (t := object) (by simp [hchildren]), child_eq (t := member) (by simp [hchildren])]
  simp only [hdetach, pure_bind]
  rcases isAccess_cases hk with hk | hk <;> simp only [Shape, hk] at hshape <;>
    obtain ⟨a, b, hab, -, hmember⟩ := hshape <;> cases hchildren.symm.trans hab <;>
    rw [errorsInside_straight (by rw [hk]; rfl), hchildren, List.flatMap_cons, ← herrors]
  · simp only [hk, ↓reduceIte, List.flatMap_singleton, errors_name hwell.root hmember,
      List.append_nil]
    exact (hbuild object' none hobject').last fun node _ => by split <;> exact .pure
  · simp only [hk, reduceCtorEq, ↓reduceIte, List.flatMap_singleton]
    refine (hbuild object' none hobject').bind fun node _ => ?_
    refine (hbuild member none ?_).last fun _ _ => by split <;> exact .pure
    exact buildable_of_binds hwell hmember

/-! Operators. -/

theorem stops_assignment (h : tree.WellFormed) (hk : tree.kind.strength? = some 1) :
    Stops limit (tree.errorsInside label) (assignment build tree) := by
  obtain ⟨target, value, hchildren, htarget, hvalue⟩ := shape_assignment h.root hk
  rw [errorsInside_straight (Kind.isStraight_of_strength? hk (by decide))]
  refine (stops_pair hbuild hchildren
    (buildable_of_binds (h.inside target (by simp [hchildren])) htarget)
    (buildable_of_binds (h.inside value (by simp [hchildren])) hvalue)).last fun _ _ => ?_
  have hassigned : ∀ target value, Stops limit [] (assignedValue tree target value) := by
    intro target value
    unfold assignedValue
    cases hkind : tree.kind <;>
      simp only [hkind, Kind.strength?, Grammar.precedence?, Option.map_none, Option.map_some,
        Option.some.injEq, reduceCtorEq] at hk
    all_goals first
      | exact .pure
      | omega
  exact (hassigned _ _).last fun _ _ => .pure

theorem stops_binary (h : tree.WellFormed) (hk : (Grammar.precedence? tree.kind).isSome = true) :
    Stops limit (tree.errorsInside label) (binary build tree) := by
  obtain ⟨p, hp⟩ := Option.isSome_iff_exists.1 hk
  obtain ⟨left, right, hchildren, hleft, hright⟩ := shape_binary h.root hp
  have hstrength := Grammar.precedence?_strength hp
  have hrange := Grammar.precedence?_range hp
  rw [errorsInside_straight (Kind.isStraight_of_strength? hstrength (by omega))]
  refine (stops_pair hbuild hchildren
    (buildable_of_binds (h.inside left (by simp [hchildren])) hleft)
    (buildable_of_binds (h.inside right (by simp [hchildren])) hright)).last fun _ _ => ?_
  cases hkind : tree.kind <;>
    simp only [hkind, Grammar.precedence?, reduceCtorEq] at hp <;> exact .pure

theorem stops_operand (h : tree.WellFormed)
    (hk : tree.kind.strength? = some 13 ∨ tree.kind.strength? = some 14) :
    ∃ operand, (child tree 0 .operand : Except BuildError ParseTree) = pure operand ∧
      Stops limit (tree.errorsInside label) (build operand none) := by
  obtain ⟨operand, hchildren, hoperand⟩ := shape_unary h.root hk
  have hstraight : tree.kind.isStraight = true := by
    rcases hk with hk | hk <;> exact Kind.isStraight_of_strength? hk (by decide)
  refine ⟨operand, child_eq (by simp [hchildren]), ?_⟩
  rw [errorsInside_straight hstraight, hchildren, List.flatMap_singleton]
  exact hbuild operand none (buildable_of_binds (h.inside operand (by simp [hchildren])) hoperand)

theorem stops_step (h : tree.WellFormed)
    (hk : tree.kind.strength? = some 13 ∨ tree.kind.strength? = some 14) :
    Stops limit (tree.errorsInside label) (step build tree) := by
  obtain ⟨operand, hchild, hoperand⟩ := stops_operand hbuild h hk
  simp only [step, hchild, pure_bind]
  exact hoperand.last fun _ _ => by split <;> exact .pure

theorem stops_unary (h : tree.WellFormed)
    (hk : tree.kind.strength? = some 13 ∨ tree.kind.strength? = some 14) :
    Stops limit (tree.errorsInside label) (unary build tree) := by
  obtain ⟨operand, hchild, hoperand⟩ := stops_operand hbuild h hk
  simp only [unary, hchild, pure_bind]
  exact hoperand.last fun _ _ => by split <;> exact .pure

end Build
end Ecma3
