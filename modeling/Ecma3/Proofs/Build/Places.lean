import Ecma3.Build.Program
import Ecma3.Proofs.Ast.Piece
import Ecma3.Proofs.Ast.Site
import Ecma3.Proofs.Build.Inversion
import Ecma3.Proofs.ParseTree.Places

/-!
Where the constructions place what they make: whatever is made of a tree lies in the place of the
tree, and so does the start of every error.
-/
namespace Ecma3.Build

open ParseTree (withoutNew?)
open Text (IsBoundary)

variable {source : List Char} {α β : Type} {m n : Nat} {tree : ParseTree} {label : Option String}

/-- The place of the error begins between two characters of the text. -/
def BuildError.Located (source : List Char) (e : BuildError) : Prop :=
  IsBoundary source e.span.start

/-- The outcome is a value with `Q`, or an error with a place in the text. -/
def Lands (source : List Char) (Q : α → Prop) : Except BuildError α → Prop
  | .ok a => Q a
  | .error e => e.Located source

namespace Lands

variable {Q Q' : α → Prop} {R : β → Prop} {p q : Except BuildError α} {f : α → Except BuildError β}

theorem pure {a : α} (h : Q a) : Lands source Q (pure a) := h

theorem mono (h : Lands source Q p) (hQ : ∀ a, Q a → Q' a) : Lands source Q' p := by
  cases p with
  | ok a => exact hQ a h
  | error e => exact h

theorem bind (h : Lands source Q p) (hf : ∀ a, Q a → Lands source R (f a)) :
    Lands source R (p >>= f) := by
  cases p with
  | ok a => exact hf a h
  | error e => exact h

theorem map {g : α → β} (h : Lands source Q p) (hg : ∀ a, Q a → R (g a)) :
    Lands source R (g <$> p) := by
  cases p with
  | ok a => exact hg a h
  | error e => exact h

theorem ite {c : Prop} [Decidable c] (hp : c → Lands source Q p) (hq : ¬c → Lands source Q q) :
    Lands source Q (if c then p else q) := by
  split
  · exact hp ‹_›
  · exact hq ‹_›

end Lands

/-- The node lies in the place of the tree, with everything inside it. -/
abbrev Fills (source : List Char) (tree : ParseTree) (node : Node) : Prop :=
  (Site.node node).Lies source tree.span.start tree.span.stop

/-- What is built of a tree that lies somewhere in the text fills it. Of the head of a loop, which
may have no proper place, nothing is built. -/
def Settles (source : List Char) (build : ParseTree → Option String → Except BuildError Node) :
    Prop :=
  ∀ (t : ParseTree) (label : Option String) (m n : Nat), t.Inside source m n →
    Lands source (fun node => t.Lies source m n ∧ Fills source t node) (build t label)

/-! What is done without building a tree inside. -/

theorem lands_child (h : tree.Inside source m n) (i : Nat) (part : Part) :
    Lands source (fun t => t ∈ tree.children ∧ t.Inside source m n) (child tree i part) := by
  unfold child
  split
  · rename_i t ht
    have hmem := List.mem_of_getElem? ht
    exact .pure ⟨hmem, h.children t hmem⟩
  · exact h.start

theorem lands_unsupported {Q : α → Prop} (h : IsBoundary source tree.span.start) :
    Lands source Q (unsupported tree) := h

/-- A node with the place of the tree, around parts that lie there. -/
theorem fills_node {node : Node} (h : tree.span.Lies source tree.span.start tree.span.stop)
    (hspan : node.span = tree.span)
    (hsites : ∀ q ∈ node.sites, q.Lies source tree.span.start tree.span.stop) :
    Fills source tree node := by
  refine Site.lies_node (hspan ▸ h) ?_
  rw [hspan]
  exact hsites

/-- A node without anything inside. -/
theorem fills_empty {node : Node} (h : tree.span.Lies source tree.span.start tree.span.stop)
    (hspan : node.span = tree.span) (hsites : node.sites = []) : Fills source tree node := by
  refine fills_node h hspan ?_
  rw [hsites]
  exact nofun

/-- A node around two others. -/
theorem fills_two {node x y : Node}
    (h : tree.span.Lies source tree.span.start tree.span.stop) (hspan : node.span = tree.span)
    (hsites : node.sites = [.node x, .node y])
    (hx : (Site.node x).Lies source tree.span.start tree.span.stop)
    (hy : (Site.node y).Lies source tree.span.start tree.span.stop) : Fills source tree node := by
  refine fills_node h hspan ?_
  rw [hsites]
  exact List.forall_mem_cons.2 ⟨hx, List.forall_mem_singleton.2 hy⟩

theorem lands_assignedValue {target value : Node}
    (h : tree.span.Lies source tree.span.start tree.span.stop)
    (htarget : (Site.node target).Lies source tree.span.start tree.span.stop)
    (hvalue : (Site.node value).Lies source tree.span.start tree.span.stop) :
    Lands source (Fills source tree) (assignedValue tree target value) := by
  unfold assignedValue
  split
  · exact .pure hvalue
  · exact .pure (fills_two h rfl rfl htarget hvalue)
  · split
    · exact .pure (fills_two h rfl rfl htarget hvalue)
    · exact lands_unsupported h.first

theorem lands_leaf (h : tree.span.Lies source tree.span.start tree.span.stop) :
    Lands source (Fills source tree) (leaf tree) := by
  cases hleaf : (leaf tree : Except BuildError Node) with
  | ok node => cases leaf_eq_ok hleaf <;> exact fills_empty h rfl rfl
  | error e =>
    obtain ⟨what, rfl⟩ := leaf_eq_error hleaf
    exact h.first

/-- A chain keeps its place when the `new` at its base is taken out. -/
theorem withoutNew?_inside : ∀ (t : ParseTree) {d : ParseTree.Detached} {m n : Nat},
    withoutNew? t = some d → t.Inside source m n → d.tree.Inside source m n
  | ⟨kind, text, span, []⟩, d, m, n, hd, h => by simp [withoutNew?] at hd
  | ⟨kind, text, span, first :: rest⟩, d, m, n, hd, h => by
    rw [withoutNew?] at hd
    split at hd
    · obtain ⟨inner, hinner, rfl⟩ := Option.map_eq_some_iff.1 hd
      have hrest : ∀ {a b : Nat}, (∀ c ∈ first :: rest, c.Inside source a b) →
          ∀ c ∈ inner.tree :: rest, c.Inside source a b := fun hchildren => by
        rw [List.forall_mem_cons] at hchildren ⊢
        exact ⟨withoutNew?_inside first hinner hchildren.1, hchildren.2⟩
      cases h with
      | tree place children => exact .tree place (hrest children)
      | head kind start le children => exact .head kind start le (hrest children)
    · split at hd
      · cases hd
        exact h.children first List.mem_cons_self
      · cases hd

theorem lands_detach (h : tree.Inside source m n) :
    Lands source (fun found => found.1.Inside source m n) (detach tree) := by
  rw [ParseTree.detach_eq_withoutNew?]
  split
  · exact .pure h
  · exact .pure (withoutNew?_inside tree ‹_› h)

/-! The constructions, around trees that are built in their places. -/

variable {build : ParseTree → Option String → Except BuildError Node}
  (hbuild : Settles source build)
include hbuild

theorem lands_build (h : tree.Inside source m n) (label : Option String) :
    Lands source (fun node => (Site.node node).Lies source m n) (build tree label) :=
  (hbuild tree label m n h).mono fun _ hnode => hnode.2.mono hnode.1.place.low hnode.1.place.high

/-- A child is built as soon as it is found. -/
theorem lands_built (h : tree.Inside source m n) (i : Nat) (part : Part) (label : Option String) :
    Lands source (fun node => (Site.node node).Lies source m n)
      (do build (← child tree i part) label) :=
  (lands_child h i part).bind fun _ ht => lands_build hbuild ht.2 label

theorem lands_all {trees : List ParseTree} (h : ∀ t ∈ trees, t.Inside source m n) :
    Lands source (fun nodes => ∀ q ∈ nodes.map Site.node, q.Lies source m n) (all build trees) := by
  induction trees with
  | nil => exact .pure nofun
  | cons t trees ih =>
    rw [List.forall_mem_cons] at h
    refine (lands_build hbuild h.1 none).bind fun node hnode => ?_
    exact (ih h.2).bind fun nodes hnodes => .pure (List.forall_mem_cons.2 ⟨hnode, hnodes⟩)

theorem lands_pair (h : tree.Inside source m n) :
    Lands source (fun nodes => (Site.node nodes.1).Lies source m n ∧
      (Site.node nodes.2).Lies source m n) (pair build tree) := by
  refine (lands_child h _ _).bind fun first hfirst => ?_
  refine (lands_child h _ _).bind fun second hsecond => ?_
  refine (lands_build hbuild hfirst.2 none).bind fun x hx => ?_
  exact (lands_build hbuild hsecond.2 none).bind fun y hy => .pure ⟨hx, hy⟩

/-- A block has the place of the tree that it is made of, be it braces or a single statement. -/
theorem lands_block (h : tree.Inside source m n) (label : Option String) :
    Lands source (fun b => (Site.block b).Lies source m n) (block build tree label) := by
  unfold block
  refine .ite (fun hkind => ?_) fun _ => ?_
  · have htree := h.lies (by simp [hkind]) (by simp [hkind])
    exact (lands_all hbuild htree.children).bind fun nodes hnodes =>
      .pure (.intro htree.place hnodes)
  · refine (hbuild tree none m n h).bind fun node hnode => .pure (.intro hnode.1.place ?_)
    exact List.forall_mem_singleton.2 hnode.2

/-! Expressions. -/

theorem lands_properties {entries : List ParseTree} {known : List Property}
    (h : ∀ t ∈ entries, t.Inside source m n)
    (hknown : ∀ p ∈ known, (Site.node p.value).Lies source m n) :
    Lands source (fun found => ∀ p ∈ found, (Site.node p.value).Lies source m n)
      (properties build known entries) := by
  induction entries generalizing known with
  | nil => exact .pure hknown
  | cons entry entries ih =>
    rw [List.forall_mem_cons] at h
    unfold properties
    split
    · exact lands_unsupported h.1.start
    · refine (lands_child h.1 _ _).bind fun name _ => ?_
      refine (lands_child h.1 _ _).bind fun content hcontent => ?_
      refine (lands_build hbuild hcontent.2 none).bind fun value hvalue => ih h.2 fun p hp => ?_
      rcases Property.mem_put hp with hnew | hold
      · rwa [hnew]
      · exact hknown p hold

theorem lands_elements {items : List ParseTree} (h : ∀ t ∈ items, t.Inside source m n) :
    Lands source (fun found => ∀ q ∈ (found.filterMap id).map Site.node, q.Lies source m n)
      (elements build items) := by
  induction items with
  | nil => exact .pure nofun
  | cons item items ih =>
    rw [List.forall_mem_cons] at h
    have hcontent : ∀ content ∈ (if item.kind = .item then item.children[0]? else some item),
        content.Inside source m n := fun content hcontent => by
      split at hcontent
      · exact h.1.children content (List.mem_of_getElem? hcontent)
      · cases hcontent
        exact h.1
    simp only [elements]
    generalize (if item.kind = .item then item.children[0]? else some item) = content at hcontent ⊢
    have hrest : ∀ element : Option Node, (∀ x ∈ element, (Site.node x).Lies source m n) →
        Lands source (fun found => ∀ q ∈ (found.filterMap id).map Site.node, q.Lies source m n)
          (do return element :: (← elements build items)) := fun element helement => by
      refine (ih h.2).bind fun rest hrest => .pure ?_
      cases element with
      | none => exact hrest
      | some x => exact List.forall_mem_cons.2 ⟨helement x rfl, hrest⟩
    cases content with
    | none => exact hrest none (by simp)
    | some content =>
      refine Lands.bind ((lands_build hbuild (hcontent content rfl) none).map fun x hx => ?_) hrest
      rintro _ ⟨⟩
      exact hx

theorem lands_arguments (h : tree.Inside source m n) :
    Lands source (fun nodes => ∀ q ∈ nodes.map Site.node, q.Lies source m n)
      (arguments build tree) := by
  unfold arguments
  refine .ite (fun _ => lands_all hbuild h.children) fun _ => ?_
  exact (lands_build hbuild h none).bind fun node hnode =>
    .pure (List.forall_mem_singleton.2 hnode)

variable (h : tree.Lies source tree.span.start tree.span.stop)
include h

theorem lands_sequence : Lands source (Fills source tree) (sequence build tree) :=
  (lands_all hbuild h.children).bind fun _ hnodes => .pure (fills_node h.place rfl hnodes)

theorem lands_object : Lands source (Fills source tree) (object build tree) := by
  have hnone : ∀ p ∈ ([] : List Property),
      (Site.node p.value).Lies source tree.span.start tree.span.stop := nofun
  rw [object_eq_properties]
  refine (lands_properties hbuild h.children hnone).bind fun found hfound => ?_
  exact .pure (fills_node h.place rfl (List.forall_mem_map.2 hfound))

theorem lands_array : Lands source (Fills source tree) (array build tree) :=
  (lands_elements hbuild h.children).bind fun _ hfound => .pure (fills_node h.place rfl hfound)

theorem lands_function : Lands source (Fills source tree) (function build tree) := by
  unfold function
  extract_lets named first rest
  have hrest : ∀ name, Lands source (Fills source tree) (rest name) := fun name => by
    refine (lands_child h.inside _ _).bind fun parameters _ => ?_
    refine (lands_child h.inside _ _).bind fun body hbody => ?_
    refine (lands_block hbuild hbody.2 none).bind fun content hcontent => ?_
    exact .pure (fills_node h.place rfl (List.forall_mem_singleton.2 hcontent))
  refine .ite (fun _ => ?_) fun _ =>
    Lands.bind (Q := fun _ => True) trivial fun name _ => hrest name
  exact Lands.bind (Q := fun _ => True)
    ((lands_child h.inside _ _).map fun _ _ => trivial) fun name _ => hrest name

theorem lands_new : Lands source (Fills source tree) (new build tree) := by
  refine (lands_child h.inside _ _).bind fun operand hoperand => ?_
  refine (lands_build hbuild hoperand.2 none).bind fun x hx => ?_
  exact .pure (fills_node h.place rfl (List.forall_mem_singleton.2 hx))

/-- A call lies where its tree does, also with a `new` that is moved out to it. -/
theorem lands_call : Lands source (Fills source tree) (call build tree) := by
  refine (lands_child h.inside _ _).bind fun callee hcallee => ?_
  extract_lets rest
  have hrest : ∀ arguments, (∀ q ∈ arguments.map Site.node,
      q.Lies source tree.span.start tree.span.stop) →
      Lands source (Fills source tree) (rest arguments) := fun arguments harguments => by
    refine (lands_detach hcallee.2).bind fun found hfound => ?_
    refine (lands_build hbuild hfound none).bind fun x hx => ?_
    have hsites : ∀ q ∈ Site.node x :: arguments.map Site.node,
        q.Lies source tree.span.start tree.span.stop := List.forall_mem_cons.2 ⟨hx, harguments⟩
    exact .ite (fun _ => .pure (fills_node h.place rfl hsites))
      fun _ => .pure (fills_node h.place rfl hsites)
  split
  · have hlist := h.children _ (List.mem_of_getElem? ‹_›)
    exact (lands_arguments hbuild hlist).bind fun arguments harguments => hrest arguments harguments
  · exact Lands.bind (Q := fun arguments => arguments = []) rfl fun arguments harguments =>
      hrest arguments (by simp [harguments])

theorem lands_access : Lands source (Fills source tree) (access build tree) := by
  refine (lands_child h.inside _ _).bind fun object hobject => ?_
  refine (lands_child h.inside _ _).bind fun member hmember => ?_
  refine (lands_detach hobject.2).bind fun found hfound => ?_
  refine (lands_build hbuild hfound none).bind fun x hx => ?_
  extract_lets rest
  have hrest : ∀ access, Fills source tree access →
      Lands source (Fills source tree) (rest access) := fun access haccess =>
    .ite (fun _ => .pure (fills_node h.place rfl (List.forall_mem_singleton.2 haccess)))
      fun _ => .pure haccess
  refine .ite (fun _ => ?_) fun _ => ?_
  · refine Lands.bind (Q := Fills source tree) (.pure ?_) hrest
    exact fills_node h.place rfl (List.forall_mem_singleton.2 hx)
  · refine (lands_build hbuild hmember.2 none).bind fun y hy => ?_
    refine Lands.bind (Q := Fills source tree) (.pure ?_) hrest
    exact fills_node h.place rfl (List.forall_mem_cons.2 ⟨hx, List.forall_mem_singleton.2 hy⟩)

/-! Operators. -/

/-- A compound assignment has its target twice, both times where the target stands. -/
theorem lands_assignment : Lands source (Fills source tree) (assignment build tree) := by
  refine (lands_pair hbuild h.inside).bind fun nodes hnodes => ?_
  refine (lands_assignedValue h.place hnodes.1 hnodes.2).bind fun value hvalue => ?_
  exact .pure (fills_two h.place rfl rfl hnodes.1 hvalue)

theorem lands_binary : Lands source (Fills source tree) (binary build tree) := by
  refine (lands_pair hbuild h.inside).bind fun nodes hnodes => ?_
  dsimp only
  split
  any_goals exact .pure (fills_two h.place rfl rfl hnodes.1 hnodes.2)
  split
  · exact .pure (fills_two h.place rfl rfl hnodes.1 hnodes.2)
  · exact lands_unsupported h.place.first

/-- The number one that a step adds has the place of the step. -/
theorem lands_step : Lands source (Fills source tree) (step build tree) := by
  refine (lands_child h.inside _ _).bind fun operand hoperand => ?_
  refine (lands_build hbuild hoperand.2 none).bind fun x hx => ?_
  split
  · exact .pure (fills_node h.place rfl (List.forall_mem_singleton.2 hx))
  · exact .pure (fills_node h.place rfl (List.forall_mem_singleton.2 hx))
  · have hone : Fills source tree (.integer 1 tree.span) := fills_empty h.place rfl rfl
    exact .pure (fills_two h.place rfl rfl hx (fills_two h.place rfl rfl hx hone))

theorem lands_unary : Lands source (Fills source tree) (unary build tree) := by
  refine (lands_child h.inside _ _).bind fun operand hoperand => ?_
  refine (lands_build hbuild hoperand.2 none).bind fun x hx => ?_
  split <;> exact .pure (fills_node h.place rfl (List.forall_mem_singleton.2 hx))

end Ecma3.Build
