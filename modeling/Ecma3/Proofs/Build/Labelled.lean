import Ecma3.Proofs.Build.Label.Stripped
import Ecma3.Proofs.Build.Leaves.Expression
import Ecma3.Proofs.Build.WellFormed.Statement
import Ecma3.Proofs.Grammar.Precedence

/-!
Where labels are in the syntax tree of a source. Labels are handed on by wrappers alone, so what has
one is what a labelled statement is built into.
-/
namespace Ecma3

open ParseTree

namespace ParseTree

variable {t u : ParseTree} {ts : List ParseTree}

/-- The tree is well formed, and its labelled statements are among these. -/
structure LabelsAmong (ts : List ParseTree) (t : ParseTree) : Prop where
  wellFormed : t.WellFormed
  labelled : ∀ u ∈ t.nodes, u.kind = .labelled → u ∈ ts

theorem LabelsAmong.inside (h : t.LabelsAmong ts) : ∀ c ∈ t.children, c.LabelsAmong ts :=
  fun c hc => ⟨h.wellFormed.inside c hc, fun u hu => h.labelled u (nodes_subset hc hu)⟩

theorem LabelsAmong.detached {d : Detached} (h : t.LabelsAmong ts) (hd : t.withoutNew? = some d) :
    d.tree.LabelsAmong ts := by
  refine ⟨(withoutNew?_operand h.wellFormed hd).1, fun u hu hkind => ?_⟩
  rcases nodes_withoutNew? hd u hu with hu | haccess
  · exact h.labelled u hu hkind
  · rw [hkind] at haccess
    cases haccess

end ParseTree

namespace Build

variable {tree root : ParseTree} {ts : List ParseTree} {node : Node} {nodes : List Node}
  {label : Option String} {limit levels : Nat}

/-- The node is what one of the labelled statements among the trees is built into. -/
def IsLabelled (limit : Nat) (ts : List ParseTree) (n : Node) : Prop :=
  ∃ t ∈ ts, t.kind = .labelled ∧
    ∃ levels ≤ limit, (within limit levels t none : Except BuildError Node) = .ok n

theorem tracks_labelsAmong {build : ParseTree → Option String → Except BuildError Node}
    {P : Node → Prop}
    (h : ∀ t, t.LabelsAmong ts → Makes (build t none) (Piece.node · |>.Marked P)) :
    Tracks (LabelsAmong ts) P build :=
  ⟨fun _ ht => ht.wellFormed, fun _ ht => ht.inside, fun _ _ ht hd => ht.detached hd, h⟩

/-- Any label in what is built is that of a labelled statement, up to one on the node itself that
was handed to it. -/
theorem marked_within (hlevels : levels ≤ limit) (htree : tree.LabelsAmong ts)
    (h : (within limit levels tree label : Except BuildError Node) = .ok node) :
    (∀ q ∈ node.parts, q.Marked (IsLabelled limit ts)) ∧
      (label = none → (Piece.node node).Marked (IsLabelled limit ts)) := by
  induction levels generalizing tree label node with
  | zero => cases h
  | succ levels ih =>
    have hle : levels ≤ limit := Nat.le_of_succ_le hlevels
    have htracks : Tracks (LabelsAmong ts) (IsLabelled limit ts) (within limit levels) :=
      tracks_labelsAmong fun _ ht _ hx => (ih hle ht hx).2 rfl
    obtain ⟨hconstruct, hlabel⟩ := visit_eq_ok h
    cases hwrapper : tree.kind.isWrapper with
    | false =>
      have hcarries := carries_construct htracks htree hwrapper hlabel hconstruct
      refine ⟨hcarries.parts, ?_⟩
      rintro rfl
      exact hcarries.marked
    | true =>
      rcases Kind.isWrapper_cases hwrapper with hkind | hkind
      · have hshape := htree.wellFormed.root
        simp only [Shape, hkind] at hshape
        obtain ⟨name, body, hchildren, -, -⟩ := hshape
        have hbody : body ∈ tree.children := by simp [hchildren]
        have hinside := h
        rw [within_labelled hkind hchildren] at hinside
        have hparts := (ih hle (htree.inside body hbody) hinside).1
        refine ⟨hparts, ?_⟩
        rintro rfl
        have hself := htree.labelled tree (mem_nodes_self tree) hkind
        exact Piece.marked_node (fun _ => ⟨tree, hself, hkind, levels + 1, hlevels, h⟩) hparts
      · have hbrackets : (grouping (within limit levels) tree label : Except BuildError Node) =
            .ok node := by
          unfold construct at hconstruct
          rcases hkind with hkind | hkind <;> rw [hkind] at hconstruct <;> exact hconstruct
        obtain ⟨content, _, hchildren, hinside⟩ := grouping_eq_ok hbrackets
        exact ih hle (htree.inside content (by simp [hchildren])) hinside

theorem marked_program (hroot : root.WellFormed)
    (h : (program limit (some root) : Except BuildError (List Node)) = .ok nodes) :
    ∀ node ∈ nodes, (Piece.node node).Marked (IsLabelled limit root.nodes) := by
  have htree : root.LabelsAmong root.nodes := ⟨hroot, fun u hu _ => hu⟩
  have hmarked : ∀ t, t.LabelsAmong root.nodes → Makes (node limit t none)
      (Piece.node · |>.Marked (IsLabelled limit root.nodes)) := fun _ ht _ hx =>
    (marked_within (Nat.le_refl limit) ht hx).2 rfl
  rcases program_eq_ok h with ⟨-, hall⟩ | ⟨built, hbuilt, rfl⟩
  · exact marked_all (tracks_labelsAmong hmarked) htree.inside hall
  · exact List.forall_mem_singleton.2 (hmarked root htree built hbuilt)

/-- Only nodes have labels, and only those of labelled statements. -/
theorem isLabelled_of_program {l : String} {p : Piece} (hroot : root.WellFormed)
    (h : (program limit (some root) : Except BuildError (List Node)) = .ok nodes)
    (hnode : node ∈ nodes) (hp : (Piece.node node).IsWithin p) (hlabel : p.label = some l) :
    ∃ n, p = .node n ∧ IsLabelled limit root.nodes n := by
  cases p with
  | node n =>
    have hsome : n.label ≠ none := by
      intro hnone
      cases hlabel.symm.trans hnone
    exact ⟨n, rfl, marked_program hroot h node hnode n hp hsome⟩
  | block b =>
    have hsound : (Site.node node).Sound := by
      rcases program_eq_ok h with ⟨-, hall⟩ | ⟨built, hbuilt, rfl⟩
      · exact sound_all (sound_within limit) hall node hnode
      · cases List.mem_singleton.1 hnode
        exact sound_within limit root node ⟨none, hbuilt⟩
    cases hlabel.symm.trans (Site.Sound.label_body hsound hp)

/-- Where the labels of a source are in what is built. -/
structure LabelsBelong (root : Option ParseTree) : Prop where
  /-- A statement that is built has its innermost label, or else the one that is handed to it. -/
  innermost : ∀ t ∈ root.toList.flatMap ParseTree.nodes, t.IsStatement →
    ∀ limit levels outer node, (within limit levels t outer : Except BuildError Node) = .ok node →
      node.label = t.strip.label.or outer
  /-- A label in front of something that can have none is an error about that. -/
  invalid : ∀ t ∈ root.toList.flatMap ParseTree.nodes, t.IsStatement →
    ∀ limit levels outer l, t.strip.label.or outer = some l →
      t.strip.core.kind.isLabelable = false → t.strip.levels < levels →
      (within limit levels t outer : Except BuildError Node) =
        .error (.invalidLabelTarget l t.strip.core.kind t.strip.core.span)
  /-- A node or block with a label is the node that a statement with this label is built into. -/
  nowhereElse : ∀ limit nodes, (program limit root : Except BuildError (List Node)) = .ok nodes →
    ∀ node ∈ nodes, ∀ p, (Piece.node node).IsWithin p → ∀ l, p.label = some l →
      ∃ n, p = .node n ∧ ∃ t ∈ root.toList.flatMap ParseTree.nodes, t.kind = .labelled ∧
        t.strip.label = some l ∧
        ∃ levels ≤ limit, (within limit levels t none : Except BuildError Node) = .ok n

/-- Whatever labels and brackets stand around the statements of a source, each label that counts is
attached to the one node it is meant for. -/
theorem labels_of_source {parseLimit : Nat} {source : String} {root : Option ParseTree}
    (hroot : Grammar.parse parseLimit source = .ok root) : LabelsBelong root := by
  have hwell : ∀ t ∈ root.toList.flatMap ParseTree.nodes, t.WellFormed := by
    intro t ht
    obtain ⟨u, hu, hmem⟩ := List.mem_flatMap.1 ht
    obtain rfl : root = some u := Option.mem_toList.1 hu
    exact (Grammar.parse_isRoot hroot).1.of_mem_nodes hmem
  have hbuildable : ∀ t ∈ root.toList.flatMap ParseTree.nodes, t.IsStatement → Buildable t :=
    fun t ht hstatement => ⟨hwell t ht, .inr hstatement⟩
  refine ⟨fun t ht hstatement _ _ _ _ => label_within (hbuildable t ht hstatement),
    fun t ht hstatement _ _ _ _ => within_invalidLabel (hbuildable t ht hstatement), ?_⟩
  intro limit nodes hprogram node hnode p hp l hlabel
  cases root with
  | none =>
    cases hprogram
    cases List.mem_singleton.1 hnode
    rcases Relation.ReflTransGen.cases_head hp with rfl | ⟨q, hq, -⟩
    · cases hlabel
    · cases hq
  | some root =>
    have hnodes : (some root).toList.flatMap ParseTree.nodes = root.nodes := by simp
    rw [hnodes] at hwell hbuildable ⊢
    obtain ⟨n, rfl, t, ht, hkind, levels, hlevels, hbuilt⟩ :=
      isLabelled_of_program (hwell root (mem_nodes_self root)) hprogram hnode hp hlabel
    have hstatement : t.IsStatement := by
      refine ⟨by rw [hkind]; rfl, fun h => ?_⟩
      cases hkind.symm.trans h
    have hinner := label_within (hbuildable t ht hstatement) hbuilt
    rw [Option.or_none] at hinner
    exact ⟨n, rfl, t, ht, hkind, hinner.symm.trans hlabel, levels, hlevels, hbuilt⟩

/-- The inner one of two labels on a loop counts, and the block in its body has one of its own. -/
theorem labels_of_source_stacked : ∃ root nodes,
    Grammar.parse 9 "a: b: while (c) { d: { continue b } }" = .ok root ∧
    (program 9 root : Except BuildError (List Node)) = .ok nodes ∧
    (∃ node ∈ nodes, node.label = some "b") ∧ LabelsBelong root := by
  have hsource : (Grammar.parse 9 "a: b: while (c) { d: { continue b } }").toOption.any
      (fun root => (program 9 root : Except BuildError (List Node)).toOption.any
        fun nodes => nodes.any fun node => node.label == some "b") = true := by
    decide +kernel
  simp only [Option.any_eq_true, toOption_eq_some, List.any_eq_true, beq_iff_eq] at hsource
  obtain ⟨root, hroot, nodes, hnodes, hlabel⟩ := hsource
  exact ⟨root, nodes, hroot, hnodes, hlabel, labels_of_source hroot⟩

end Build
end Ecma3
