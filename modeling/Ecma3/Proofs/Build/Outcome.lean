import Ecma3.Proofs.Build.Errors
import Ecma3.Proofs.Build.Properties

/-! What building can come to for the trees that a source gives, and for the parts that all nodes
share. -/
namespace Ecma3.Build

open ParseTree

variable {α β : Type} {r : Except BuildError α} {f : α → Except BuildError β} {tree t : ParseTree}
  {what : LiteralClass} {node? : Option Node} {label : Option String}

theorem bind_eq_ok {b : β} (h : r >>= f = .ok b) : ∃ a, r = .ok a ∧ f a = .ok b := by
  cases r with
  | error e => cases h
  | ok a => exact ⟨a, rfl, h⟩

theorem map_eq_ok {g : α → β} {b : β} (h : g <$> r = .ok b) : ∃ a, r = .ok a ∧ g a = b := by
  cases r with
  | error e => cases h
  | ok a =>
    cases h
    exact ⟨a, rfl, rfl⟩

/-- A tree that is built takes the label that it is built with. -/
theorem visit_eq_ok {build : ParseTree → Option String → Except BuildError Node} {node : Node}
    (h : visit build tree label = .ok node) :
    construct build tree label = .ok node ∧ (label = none ∨ takesLabel tree.kind = true) := by
  obtain ⟨_, -, h⟩ := bind_eq_ok h
  cases label with
  | none => exact ⟨h, .inl rfl⟩
  | some name =>
    dsimp only at h
    split at h
    · cases h
    · rename_i htakes
      exact ⟨h, .inr (by simpa using htakes)⟩

/-- The nodes of a source are those of its statements, or that of the one statement it is. -/
theorem program_eq_ok {limit : Nat} {root : ParseTree} {nodes : List Node}
    (h : (program limit (some root) : Except BuildError (List Node)) = .ok nodes) :
    (root.kind = .unit ∧
        (all (node limit) root.children : Except BuildError (List Node)) = .ok nodes) ∨
      ∃ built, (node limit root none : Except BuildError Node) = .ok built ∧ nodes = [built] := by
  unfold program at h
  extract_lets rest at h
  dsimp only at h
  split at h
  · rename_i hkind
    obtain ⟨found, hfound, h⟩ := bind_eq_ok h
    cases h
    exact Or.inl ⟨hkind, hfound⟩
  · obtain ⟨built, hbuilt, h⟩ := bind_eq_ok h
    cases h
    exact Or.inr ⟨built, hbuilt, rfl⟩

/-- An error that the tree of a source can give: it names a construct without a node, a label in
front of something else than a statement, a number out of range or too many levels. -/
def BuildError.Admissible : BuildError → Prop
  | .unsupportedConstruct kind _ => kind = .debugger
  | .invalidLabelTarget .. | .nestingTooDeep .. => True
  | .invalidLiteral what _ _ => what = .number
  | .malformedNode .. => False

/-- The outcome is a value or an admissible error. -/
def Fits (r : Except BuildError α) : Prop := ∀ e, r = .error e → e.Admissible

theorem Fits.pure {a : α} : Fits (Pure.pure a) := by
  intro e he
  cases he

/-- The outcome is a value if there are no errors, and otherwise the first of them. Only an error
about the nesting can come before it. -/
structure Stops (limit : Nat) (errors : List BuildError) (r : Except BuildError α) : Prop where
  ok : ∀ a, r = .ok a → errors = []
  error : ∀ e, r = .error e → errors.head? = some e ∨ ∃ span, e = .nestingTooDeep limit span

namespace Stops

variable {limit : Nat} {es es' : List BuildError}

theorem pure {a : α} : Stops limit [] (Pure.pure a : Except BuildError α) := by
  refine ⟨fun _ _ => rfl, fun e he => ?_⟩
  cases he

theorem throw {e : BuildError} (h : es.head? = some e) :
    Stops limit es (throw e : Except BuildError α) := by
  refine ⟨nofun, ?_⟩
  rintro _ ⟨⟩
  exact .inl h

/-- What comes first stops first. -/
theorem bind (hr : Stops limit es r) (hf : ∀ a, r = .ok a → Stops limit es' (f a)) :
    Stops limit (es ++ es') (r >>= f) := by
  cases r with
  | error e =>
    refine ⟨nofun, ?_⟩
    rintro _ ⟨⟩
    refine (hr.error e rfl).imp_left fun h => ?_
    rw [List.head?_append, h, Option.some_or]
  | ok a =>
    rw [hr.ok a rfl, List.nil_append]
    exact hf a rfl

/-- Nothing behind it stops. -/
theorem last (hr : Stops limit es r) (hf : ∀ a, r = .ok a → Stops limit [] (f a)) :
    Stops limit es (r >>= f) := by
  simpa using hr.bind hf

theorem map {g : α → β} (hr : Stops limit es r) : Stops limit es (g <$> r) := by
  rw [map_eq_pure_bind]
  exact hr.last fun _ _ => .pure

end Stops

/-- A tree that has a construction of its own: an expression or a statement. -/
def Buildable (t : ParseTree) : Prop := t.WellFormed ∧ (t.Binds 0 ∨ t.IsStatement)

theorem buildable_of_binds {n : Nat} (h : t.WellFormed) (hn : t.Binds n) : Buildable t :=
  ⟨h, Or.inl (hn.mono (Nat.zero_le n))⟩

/-- What builds the trees inside stops at the first error of each that has a construction. -/
def Inside (limit : Nat) (build : ParseTree → Option String → Except BuildError Node) : Prop :=
  ∀ t label, Buildable t → Stops limit (t.errors label) (build t label)

theorem child_eq {i : Nat} {part : Part} (h : tree.children[i]? = some t) :
    (child tree i part : Except BuildError ParseTree) = pure t := by
  simp [child, h]

/-- The name of an entry is at hand, so that only its value can fail. -/
theorem properties_cons {build : ParseTree → Option String → Except BuildError Node}
    {entry name value : ParseTree} {entries : List ParseTree} {known : List Property}
    (hkind : entry.kind = .namedValue) (hchildren : entry.children = [name, value]) :
    properties build known (entry :: entries) = (do
      let node ← build value none
      properties build (Property.put (Literal.propertyName name.text) node known) entries) := by
  simp only [properties, hkind, ne_eq, not_true_eq_false, if_false]
  rw [child_eq (t := name) (by simp [hchildren]), child_eq (t := value) (by simp [hchildren])]
  rfl

theorem stops_number {limit : Nat} (h : tree.fault? =
    if node?.isSome then none else some (.invalidLiteral .number tree.text tree.span)) :
    Stops limit tree.fault?.toList (literal .number tree node? : Except BuildError Node) := by
  rw [h]
  cases node? with
  | none => exact .throw rfl
  | some node => exact .pure

theorem stops_literal {limit : Nat} (hfault : tree.fault? = none) (h : node?.isSome = true) :
    Stops limit tree.fault?.toList (literal what tree node? : Except BuildError Node) := by
  rw [hfault]
  cases node? with
  | none => simp at h
  | some node => exact .pure

/-- A name or literal can only be a number that is none. -/
theorem stops_leaf {limit : Nat} (h : tree.WellFormed) (hatom : tree.kind.isAtom = true)
    (hdebugger : tree.kind ≠ .debugger) :
    Stops limit (tree.fault?.toList ++ tree.errorsInside label)
      (leaf tree : Except BuildError Node) := by
  have hshape := h.root
  rw [errorsInside_atom hshape hatom, List.append_nil]
  unfold leaf
  cases hkind : tree.kind <;> simp only [hkind, Kind.isAtom, Bool.false_eq_true] at hatom ⊢
  case debugger => exact absurd hkind hdebugger
  case decimalLiteral | hexLiteral => exact stops_number (by rw [fault?, hkind])
  case stringLiteral | regexLiteral =>
    simp only [Shape, hkind] at hshape
    exact stops_literal (by rw [fault?, hkind]) hshape.2
  all_goals
    rw [fault?, hkind]
    exact .pure

variable {limit : Nat} {build : ParseTree → Option String → Except BuildError Node}
  (hbuild : Inside limit build)
include hbuild

theorem stops_all {trees : List ParseTree} (h : ∀ t ∈ trees, Buildable t) :
    Stops limit (trees.flatMap (errors none)) (all build trees) := by
  induction trees with
  | nil => exact .pure
  | cons t trees ih =>
    obtain ⟨ht, htrees⟩ := List.forall_mem_cons.1 h
    refine (hbuild t none ht).bind fun _ _ => ?_
    exact (ih htrees).last fun _ _ => .pure

theorem stops_pair {a b : ParseTree} (h : tree.children = [a, b]) (ha : Buildable a)
    (hb : Buildable b) :
    Stops limit (tree.children.flatMap (errors none)) (pair build tree) := by
  unfold pair
  rw [child_eq (t := a) (by simp [h]), child_eq (t := b) (by simp [h]), h, List.flatMap_cons,
    List.flatMap_singleton]
  refine (hbuild a none ha).bind fun _ _ => ?_
  exact (hbuild b none hb).last fun _ _ => .pure

/-- A block is built from its statements, and any other statement as the only one. -/
theorem stops_block (h : tree.WellFormed) (hs : tree.IsStatement) :
    Stops limit (tree.errors none) (block build tree label) := by
  unfold block
  split
  · rename_i hkind
    have hshape := h.root
    simp only [Shape, hkind] at hshape
    rw [errors_straight (by rw [hkind]; rfl) (by rw [hkind]; rfl)]
    exact (stops_all hbuild fun c hc => ⟨h.inside c hc, Or.inr (hshape c hc)⟩).last
      fun _ _ => .pure
  · exact (hbuild tree none ⟨h, Or.inr hs⟩).last fun _ _ => .pure

end Ecma3.Build
