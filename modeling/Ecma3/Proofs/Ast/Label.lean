import Ecma3.Proofs.Ast.Piece
import Ecma3.Proofs.Ast.WellFormed

/-! What stands anywhere inside a piece of a syntax tree, and that a body has no label there. -/
namespace Ecma3

namespace Piece

variable {p q root : Piece} {P : Node → Prop} {n : Node} {b : Block}

/-- The label of a statement. The body of a function, of a case or of a part of a `try` has none. -/
def label : Piece → Option String
  | .node n => n.label
  | .block b => b.label

/-- The piece stands somewhere inside the root, or is the root. -/
def IsWithin : Piece → Piece → Prop := Nests parts

/-- Every node in the piece that has a label has the property. -/
def Marked (P : Node → Prop) (p : Piece) : Prop := ∀ n, p.IsWithin (.node n) → n.label ≠ none → P n

theorem Marked.intro (hown : ∀ n, p = .node n → n.label ≠ none → P n)
    (h : ∀ q ∈ p.parts, q.Marked P) : p.Marked P := by
  have hnests := forall_nests (Q := fun q => ∀ n, q = .node n → n.label ≠ none → P n) hown
    fun q hq _ hr n hn => h q hq n (hn ▸ hr)
  exact fun n hn => hnests _ hn n rfl

theorem Marked.parts (h : p.Marked P) : ∀ q ∈ p.parts, q.Marked P := fun _ hq n hn =>
  h n (hn.cons hq)

theorem marked_node (hown : n.label ≠ none → P n) (h : ∀ q ∈ n.parts, q.Marked P) :
    (Piece.node n).Marked P := by
  refine .intro ?_ h
  rintro _ ⟨⟩
  exact hown

theorem marked_block (h : ∀ x ∈ b.statements, (Piece.node x).Marked P) :
    (Piece.block b).Marked P := .intro nofun (List.forall_mem_map.2 h)

/-- The piece as a part with a place. -/
def site : Piece → Site
  | .node n => .node n
  | .block b => .block b

/-- What is directly inside a piece is inside it in the other sense too, in one step or in two. -/
theorem isWithin_site_of_mem (h : q ∈ p.parts) : p.site.IsWithin q.site := by
  have hstep : ∀ {a b : Site}, b ∈ a.inner → a.IsWithin b := fun h => .single h
  rcases p with n | b
  · cases n
    case switch discriminant cases default _ _ =>
      simp only [parts, Node.parts, Node.children, List.cons_append, List.mem_cons, List.mem_append,
        List.mem_flatMap, List.not_mem_nil, or_false] at h
      rcases h with rfl | ⟨c, hc, hq⟩ | rfl
      · exact hstep (by simp [site])
      · refine Relation.ReflTransGen.trans (hstep (b := .case c) (by simp [site, hc])) ?_
        rcases hq with rfl | rfl <;> exact hstep (by simp [site])
      · exact hstep (by simp [site])
    case «try» body handler cleanup _ _ =>
      simp only [parts, Node.parts, Node.children, List.cons_append, List.mem_cons, List.mem_append,
        List.mem_map, Option.mem_toList] at h
      rcases h with rfl | ⟨c, hc, rfl⟩ | ⟨b, hb, rfl⟩
      · exact hstep (by simp [site])
      · refine Relation.ReflTransGen.trans (hstep (b := .handler c) (by simp_all [site])) ?_
        exact hstep (by simp [site])
      · exact hstep (by simp_all [site])
    case block content =>
      refine Relation.ReflTransGen.trans (hstep (b := .block content) (by simp [site])) (hstep ?_)
      simpa [site, Function.comp_def] using List.mem_map_of_mem (f := site) h
    all_goals
      refine hstep ?_
      simpa [site, Function.comp_def] using List.mem_map_of_mem (f := site) h
  · refine hstep ?_
    simpa [site, Function.comp_def] using List.mem_map_of_mem (f := site) h

theorem IsWithin.site (h : root.IsWithin p) : root.site.IsWithin p.site := by
  induction h with
  | refl => exact .refl
  | tail _ hq ih => exact ih.trans (isWithin_site_of_mem hq)

end Piece

/-- Bodies of a well-formed node have no label. -/
theorem Node.WellFormed.label_body {n : Node} {b : Block} (h : n.WellFormed)
    (hb : Piece.block b ∈ n.parts) : b.label = none := by
  cases n
  case function =>
    cases List.mem_singleton.1 hb
    exact h
  case switch =>
    simp only [Node.parts, Node.children, List.cons_append, List.mem_cons, List.mem_append,
      List.mem_flatMap, List.not_mem_nil, reduceCtorEq, false_or, or_false] at hb
    obtain ⟨c, hc, hb⟩ := hb
    cases hb
    exact h.2 c hc
  case «try» =>
    simp only [Node.parts, Node.children, List.cons_append, List.mem_cons, List.mem_append,
      List.mem_map, Option.mem_toList] at hb
    rcases hb with hb | ⟨c, hc, hb⟩ | ⟨b, hcleanup, hb⟩ <;> cases hb
    · exact h.1
    · exact h.2.1 c hc
    · exact h.2.2 b hcleanup
  all_goals simp at hb

namespace Site

/-- Among the pieces of a sound node, only nodes have labels. -/
theorem Sound.label_body {n : Node} {b : Block} (h : (Site.node n).Sound)
    (hb : (Piece.node n).IsWithin (.block b)) : b.label = none := by
  rcases Relation.ReflTransGen.cases_tail hb with heq | ⟨p, hp, hmem⟩
  · cases heq
  · cases p with
    | node m => exact (h m (Piece.IsWithin.site hp)).label_body hmem
    | block outer => simp at hmem

end Site
end Ecma3
