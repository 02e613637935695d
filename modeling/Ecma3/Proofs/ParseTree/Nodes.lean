import Ecma3.Proofs.ParseTree.Shape
import Ecma3.Proofs.ParseTree.Words

/-! The nodes of a tree in the order of the text, and trees whose places are moved. -/
namespace Ecma3

/-- Names and literals: nodes of these kinds come from a single token. -/
def Kind.isAtom : Kind → Bool
  | .«this» | .identifier | .debugger | .decimalLiteral | .hexLiteral | .stringLiteral
  | .regexLiteral | .nullLiteral | .trueLiteral | .falseLiteral => true
  | _ => false

namespace ParseTree

variable {kind : Kind} {text : String} {span : Span} {children : List ParseTree} {t : ParseTree}
  {f : Nat → Nat}

mutual

/-- All nodes of the tree, each before its children. -/
def nodes : ParseTree → List ParseTree
  | ⟨kind, text, span, children⟩ => ⟨kind, text, span, children⟩ :: nodesOf children

def nodesOf : List ParseTree → List ParseTree
  | [] => []
  | t :: ts => nodes t ++ nodesOf ts

end

mutual

/-- The tree with each of its places moved. -/
def relocate (f : Nat → Nat) : ParseTree → ParseTree
  | ⟨kind, text, span, children⟩ =>
    ⟨kind, text, ⟨f span.start, f span.stop⟩, relocateAll f children⟩

def relocateAll (f : Nat → Nat) : List ParseTree → List ParseTree
  | [] => []
  | t :: ts => relocate f t :: relocateAll f ts

end

/-- The names and literals of the tree, from the first to the last. -/
def atoms (t : ParseTree) : List ParseTree := t.nodes.filter (·.kind.isAtom)

theorem sizeOf_lt_of_mem_children {c : ParseTree} (h : c ∈ t.children) : sizeOf c < sizeOf t := by
  obtain ⟨kind, text, span, children⟩ := t
  have hlt : sizeOf c < sizeOf children := List.sizeOf_lt_of_mem h
  rw [mk.sizeOf_spec]
  omega

/-- What holds of a tree as soon as it holds of its children holds of every tree. -/
@[elab_as_elim] theorem induction {P : ParseTree → Prop}
    (step : ∀ t, (∀ c ∈ t.children, P c) → P t) (t : ParseTree) : P t :=
  step t fun c _ => induction step c
termination_by sizeOf t
decreasing_by exact sizeOf_lt_of_mem_children ‹_›

theorem nodesOf_eq_flatMap (ts : List ParseTree) : nodesOf ts = ts.flatMap nodes := by
  induction ts with
  | nil => rfl
  | cons t ts ih => simp [nodesOf, ih]

theorem nodes_mk : nodes ⟨kind, text, span, children⟩ =
    ⟨kind, text, span, children⟩ :: children.flatMap nodes := by
  rw [nodes, nodesOf_eq_flatMap]

theorem nodes_eq (t : ParseTree) : t.nodes = t :: t.children.flatMap nodes := by
  obtain ⟨kind, text, span, children⟩ := t
  exact nodes_mk

/-- What holds everywhere in a tree holds everywhere in the tree of each of its nodes. -/
theorem Everywhere.of_mem_nodes {P : ParseTree → Prop} {u : ParseTree} (h : t.Everywhere P)
    (hu : u ∈ t.nodes) : u.Everywhere P := by
  induction h with
  | @intro t root inside ih =>
    obtain ⟨kind, text, span, children⟩ := t
    rw [nodes_mk] at hu
    rcases List.mem_cons.1 hu with rfl | hu
    · exact .intro root inside
    · obtain ⟨c, hc, hmem⟩ := List.mem_flatMap.1 hu
      exact ih c hc hmem

theorem Everywhere.nodes {P : ParseTree → Prop} (h : t.Everywhere P) : ∀ u ∈ t.nodes, P u :=
  fun _ hu => (h.of_mem_nodes hu).root

/-- What is inside a node of the tree is inside the tree. -/
theorem nodes_sublist {c : ParseTree} (hc : c ∈ t.nodes) : c.nodes.Sublist t.nodes := by
  induction t using induction with
  | step t ih =>
    rw [nodes_eq t, List.mem_cons] at hc
    rcases hc with rfl | hc
    · exact .refl _
    · obtain ⟨d, hd, hc⟩ := List.mem_flatMap.1 hc
      rw [nodes_eq t]
      exact ((ih d hd hc).trans (List.sublist_flatten_of_mem (List.mem_map_of_mem hd))).cons _

theorem relocateAll_eq_map (ts : List ParseTree) : relocateAll f ts = ts.map (relocate f) := by
  induction ts with
  | nil => rfl
  | cons t ts ih => simp [relocateAll, ih]

@[simp] theorem relocate_mk : relocate f ⟨kind, text, span, children⟩ =
    ⟨kind, text, ⟨f span.start, f span.stop⟩, children.map (relocate f)⟩ := by
  rw [relocate, relocateAll_eq_map]

@[simp] theorem relocate_leaf : (leaf kind text span).relocate f =
    leaf kind text ⟨f span.start, f span.stop⟩ := relocate_mk

@[simp] theorem relocate_kind : (t.relocate f).kind = t.kind := by
  cases t
  rw [relocate_mk]

@[simp] theorem relocate_text : (t.relocate f).text = t.text := by
  cases t
  rw [relocate_mk]

@[simp] theorem relocate_children : (t.relocate f).children = t.children.map (relocate f) := by
  cases t
  rw [relocate_mk]

@[simp] theorem relocate_span : (t.relocate f).span = ⟨f t.span.start, f t.span.stop⟩ := by
  cases t
  rw [relocate_mk]

mutual

/-- A tree without places is one whose places are all moved to the start. -/
theorem relocate_zero : ∀ t : ParseTree, t.relocate (fun _ => 0) = t.spanless
  | ⟨kind, text, span, children⟩ => by rw [relocate, spanless, relocateAll_zero children]

theorem relocateAll_zero : ∀ ts : List ParseTree, relocateAll (fun _ => 0) ts = spanlessOf ts
  | [] => rfl
  | t :: ts => by rw [relocateAll, spanlessOf, relocate_zero t, relocateAll_zero ts]

end

mutual

theorem relocate_id : ∀ t : ParseTree, t.relocate (fun n => n) = t
  | ⟨kind, text, span, children⟩ => by rw [relocate, relocateAll_id children]

theorem relocateAll_id : ∀ ts : List ParseTree, relocateAll (fun n => n) ts = ts
  | [] => rfl
  | t :: ts => by rw [relocateAll, relocate_id t, relocateAll_id ts]

end

/-- Names and literals have nothing inside. -/
theorem Shape.children_eq_nil (h : t.Shape) (hatom : t.kind.isAtom = true) : t.children = [] := by
  unfold Shape at h
  cases hk : t.kind <;> simp only [hk, Kind.isAtom, Bool.false_eq_true] at h hatom
  case stringLiteral | regexLiteral => exact h.1
  all_goals exact h

theorem Shape.isAtom_eq_false (h : t.Shape) (hchildren : t.children ≠ []) :
    t.kind.isAtom = false := by
  rw [Bool.eq_false_iff]
  exact fun hatom => hchildren (h.children_eq_nil hatom)

theorem atoms_of_isAtom (h : kind.isAtom = true) :
    (leaf kind text span).atoms = [leaf kind text span] := by
  simp [atoms, leaf, nodes_mk, h]

theorem atoms_of_not_isAtom (h : kind.isAtom = false) :
    atoms ⟨kind, text, span, children⟩ = children.flatMap atoms := by
  have hatoms : atoms = fun t : ParseTree => t.nodes.filter (·.kind.isAtom) := rfl
  rw [atoms, nodes_mk, List.filter_cons_of_neg (by simp [h]), hatoms, List.filter_flatMap]

theorem atoms_of_cons {first : ParseTree} {rest : List ParseTree} (hatom : t.kind.isAtom = false)
    (h : t.children = first :: rest) : t.atoms = first.atoms ++ rest.flatMap atoms := by
  obtain ⟨kind, text, span, children⟩ := t
  obtain rfl : children = first :: rest := h
  rw [atoms_of_not_isAtom hatom, List.flatMap_cons]

theorem atoms_sublist {c : ParseTree} (hc : c ∈ t.nodes) : c.atoms.Sublist t.atoms :=
  (nodes_sublist hc).filter _

theorem flatMap_atoms (ts : List ParseTree) :
    ts.flatMap atoms = (ts.flatMap nodes).filter (·.kind.isAtom) := by
  rw [List.filter_flatMap]
  rfl

theorem atoms_group (h : kind.isAtom = false) :
    (group kind span children).atoms = children.flatMap atoms := atoms_of_not_isAtom h

theorem atoms_wrap (h : kind.isAtom = false) : (wrap kind t).atoms = t.atoms := by
  rw [wrap, atoms_group h, List.flatMap_singleton]

end ParseTree
end Ecma3
