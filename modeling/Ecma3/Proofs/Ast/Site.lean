import Ecma3.Proofs.Ast.Children
import Ecma3.Proofs.Text.Boundary

/-! Everything in a syntax tree that has a place in the text, and what stands directly inside it. -/
namespace Ecma3

variable {source : List Char} {m n lo hi : Nat}

/-- A part of a syntax tree with a place of its own. -/
inductive Site where
  | node (n : Node)
  | block (b : Block)
  | case (c : SwitchCase)
  | handler (c : Catch)

/-- What stands directly inside a node. A block that is a statement has its block inside. -/
@[simp] def Node.sites : Node → List Site :=
  Node.children .node .block .handler (fun c => [.case c]) fun b => [.block b]

namespace Site

@[simp] def span : Site → Span
  | .node n => n.span
  | .block b => b.span
  | .case c => c.span
  | .handler c => c.span

/-- What stands directly inside. -/
@[simp] def inner : Site → List Site
  | .node n => n.sites
  | .block b => b.statements.map .node
  | .case c => [.node c.test, .block c.body]
  | .handler c => [.block c.body]

variable {p q root : Site}

theorem forall_mem_cases {P : Site → Prop} {cases : List SwitchCase} :
    (∀ q ∈ cases.flatMap fun c => [.case c], P q) ↔ ∀ c ∈ cases, P (.case c) := by
  rw [← List.map_eq_flatMap, List.forall_mem_map]

/-- What stands directly inside a node is smaller. -/
theorem sizeOf_lt_of_mem_sites {n : Node} (h : q ∈ n.sites) : sizeOf q < sizeOf (Site.node n) := by
  cases n <;> simp only [Node.sites, Node.children, List.mem_cons, List.mem_append,
    List.mem_map, List.mem_flatMap, List.not_mem_nil, or_false] at h
  case array =>
    obtain ⟨x, hx, rfl⟩ := h
    obtain ⟨element, helement, rfl⟩ := List.mem_filterMap.1 hx
    have hlt := List.sizeOf_lt_of_mem helement
    simp at hlt ⊢
    omega
  case object =>
    obtain ⟨⟨name, value⟩, hp, rfl⟩ := h
    have hlt := List.sizeOf_lt_of_mem hp
    simp at hlt ⊢
    omega
  case assignmentBlock =>
    obtain ⟨x, hx, rfl⟩ := h
    have hlt := List.sizeOf_lt_of_mem hx
    simp
    omega
  case call =>
    rcases h with rfl | ⟨x, hx, rfl⟩
    · simp
      omega
    · have hlt := List.sizeOf_lt_of_mem hx
      simp
      omega
  case new arguments _ =>
    rcases h with rfl | ⟨x, hx, rfl⟩
    · simp
      omega
    · cases arguments with
      | none => cases hx
      | some arguments =>
        have hlt : sizeOf x < sizeOf arguments := List.sizeOf_lt_of_mem hx
        simp
        omega
  case «if» =>
    rcases h with rfl | rfl | ⟨x, hx, rfl⟩
    · simp
      omega
    · simp
      omega
    · cases Option.mem_toList.1 hx
      simp
      omega
  case switch =>
    rcases h with (rfl | ⟨c, hc, rfl⟩) | rfl
    · simp
      omega
    · have hlt := List.sizeOf_lt_of_mem hc
      simp
      omega
    · simp
      omega
  case «try» =>
    rcases h with (rfl | ⟨c, hc, rfl⟩) | ⟨b, hb, rfl⟩
    · simp
      omega
    · cases Option.mem_toList.1 hc
      simp
      omega
    · cases Option.mem_toList.1 hb
      simp
      omega
  all_goals (try rcases h with rfl | rfl | rfl | rfl) <;> simp <;> omega

theorem sizeOf_lt (h : q ∈ p.inner) : sizeOf q < sizeOf p := by
  cases p with
  | node n => exact sizeOf_lt_of_mem_sites h
  | block b =>
    obtain ⟨n, hn, rfl⟩ := List.mem_map.1 h
    have hlt := List.sizeOf_lt_of_mem hn
    cases b
    simp at hlt ⊢
    omega
  | case c =>
    obtain ⟨test, body, span⟩ := c
    simp only [inner, List.mem_cons, List.not_mem_nil, or_false] at h
    rcases h with rfl | rfl <;> simp <;> omega
  | handler c =>
    obtain ⟨binding, body, span⟩ := c
    cases List.mem_singleton.1 h
    simp
    omega

/-- What holds of a part if it holds of all that stands directly inside holds of every part. -/
@[elab_as_elim] theorem induction {P : Site → Prop} (step : ∀ p, (∀ q ∈ p.inner, P q) → P p)
    (p : Site) : P p :=
  step p fun q _ => induction step q
termination_by sizeOf p
decreasing_by exact sizeOf_lt ‹_›

/-- The part stands somewhere inside the root, or is the root. -/
def IsWithin : Site → Site → Prop := Nests inner

/-- Every node in the part has the property. -/
def Everywhere (P : Node → Prop) (p : Site) : Prop := ∀ n, p.IsWithin (.node n) → P n

/-- The part lies between two offsets, and everything in it has the place of whatever contains it
around its own. -/
inductive Lies (source : List Char) : Nat → Site → Nat → Prop where
  | intro {lo hi : Nat} {p : Site} (place : p.span.Lies source lo hi)
    (inner : ∀ q ∈ p.inner, Lies source p.span.start q p.span.stop) : Lies source lo p hi

namespace Everywhere

variable {P : Node → Prop}

theorem intro (hown : ∀ n, p = .node n → P n) (h : ∀ q ∈ p.inner, q.Everywhere P) :
    p.Everywhere P := by
  have hnests := forall_nests (Q := fun q => ∀ n, q = .node n → P n) hown
    fun q hq _ hr n hn => h q hq n (hn ▸ hr)
  exact fun n hn => hnests _ hn n rfl

theorem own {n : Node} (h : (Site.node n).Everywhere P) : P n := h n .refl

theorem inner (h : p.Everywhere P) : ∀ q ∈ p.inner, q.Everywhere P := fun _ hq n hn =>
  h n (hn.cons hq)

end Everywhere

namespace Lies

theorem place (h : p.Lies source m n) : p.span.Lies source m n := by
  cases h
  assumption

theorem inner (h : p.Lies source m n) :
    ∀ q ∈ p.inner, q.Lies source p.span.start p.span.stop := by
  cases h
  assumption

/-- The part lies in its own place. -/
theorem tight (h : p.Lies source m n) : p.Lies source p.span.start p.span.stop :=
  .intro (h.place.within (Nat.le_refl _) (Nat.le_refl _)) h.inner

theorem mono (h : p.Lies source m n) (hlow : lo ≤ m) (hhigh : n ≤ hi) : p.Lies source lo hi :=
  .intro (h.place.mono hlow hhigh) h.inner

theorem isWithin (h : root.Lies source m n) (hp : root.IsWithin p) : p.Lies source m n := by
  induction hp with
  | refl => exact h
  | tail _ hq ih => exact (ih.inner _ hq).mono ih.place.low ih.place.high

end Lies

/-- Whatever stands in the node lies in its place. -/
theorem lies_node {node : Node} (hplace : node.span.Lies source m n)
    (h : ∀ q ∈ node.sites, q.Lies source node.span.start node.span.stop) :
    (Site.node node).Lies source m n := .intro hplace h

end Site
end Ecma3
