import Ecma3.Proofs.ParseTree.Nodes

/-!
How many levels of nesting a tree takes. Parsing and building count levels at different places; the
count here is for the nodes that are a level of their own in both. A level costs one, and the parts of
some constructs, such as the clauses of a `switch`, are no deeper than the construct itself.
-/
namespace Ecma3

/-- How much deeper the first child of such a node is than the node. -/
def Kind.firstCost : Kind → Nat
  | .byField | .byIndex | .call | .«for» => 0
  | .unit | .var | .array | .object | .function | .arguments | .«try» | .«catch» | .«finally»
  | .forStep | .forIn | .«break» | .«continue» => 0
  | _ => 1

/-- How much deeper the other children are. -/
def Kind.restCost : Kind → Nat
  | .switch => 0
  | .unit | .var | .array | .object | .function | .arguments | .«try» | .«catch» | .«finally»
  | .forStep | .forIn | .«break» | .«continue» => 0
  | _ => 1

namespace ParseTree

variable {kind : Kind} {text : String} {span : Span} {first t : ParseTree} {rest ts : List ParseTree}
  {n cost : Nat}

mutual

/-- The levels inside a tree, without its own. -/
def inside : ParseTree → Nat
  | ⟨_, _, _, []⟩ => 0
  | ⟨kind, _, _, first :: rest⟩ =>
    max (kind.firstCost + first.inside) (deepest kind.restCost rest)

/-- The levels inside the deepest of some trees, each of which costs so much. -/
def deepest (cost : Nat) : List ParseTree → Nat
  | [] => 0
  | t :: ts => max (cost + t.inside) (deepest cost ts)

end

/-- The levels of nesting that a tree takes. -/
def levels (t : ParseTree) : Nat := t.inside + 1

@[simp] theorem inside_nil : inside ⟨kind, text, span, []⟩ = 0 := by rw [inside]

@[simp] theorem inside_cons : inside ⟨kind, text, span, first :: rest⟩ =
    max (kind.firstCost + first.inside) (deepest kind.restCost rest) := by rw [inside]

@[simp] theorem inside_leaf : (leaf kind text span).inside = 0 := inside_nil

@[simp] theorem inside_group_nil : (group kind span []).inside = 0 := inside_nil

@[simp] theorem inside_group_cons : (group kind span (first :: rest)).inside =
    max (kind.firstCost + first.inside) (deepest kind.restCost rest) := inside_cons

@[simp] theorem inside_wrap : (wrap kind t).inside = kind.firstCost + t.inside := by
  rw [wrap, inside_group_cons, deepest, Nat.max_zero]

@[simp] theorem deepest_nil : deepest cost [] = 0 := by rw [deepest]

@[simp] theorem deepest_cons :
    deepest cost (t :: ts) = max (cost + t.inside) (deepest cost ts) := by rw [deepest]

theorem deepest_le : deepest cost ts ≤ n ↔ ∀ t ∈ ts, cost + t.inside ≤ n := by
  induction ts with
  | nil => simp
  | cons t ts ih => rw [deepest_cons, Nat.max_le, ih, List.forall_mem_cons]

@[simp] theorem deepest_append {us : List ParseTree} :
    deepest cost (ts ++ us) = max (deepest cost ts) (deepest cost us) := by
  induction ts with
  | nil => simp
  | cons t ts ih => simp [ih, Nat.max_assoc]

/-- The same trees from a deeper level on. -/
theorem deepest_add_le (n cost : Nat) : deepest (n + cost) ts ≤ n + deepest cost ts := by
  refine deepest_le.2 fun t ht => ?_
  have hle := deepest_le.1 (Nat.le_refl (deepest cost ts)) t ht
  omega

/-- Children that all cost the same go no deeper than their node. -/
theorem deepest_le_inside (hfirst : cost = n + kind.firstCost) (hrest : cost = n + kind.restCost) :
    deepest cost ts ≤ n + inside ⟨kind, text, span, ts⟩ := by
  cases ts with
  | nil => simp
  | cons first rest =>
    have hle : deepest (n + kind.restCost) rest ≤ n + deepest kind.restCost rest :=
      deepest_add_le n kind.restCost
    rw [← hrest] at hle
    rw [deepest_cons, inside_cons]
    omega

theorem firstCost_le (kind : Kind) : kind.firstCost ≤ 1 := by
  unfold Kind.firstCost
  split <;> decide

theorem restCost_le (kind : Kind) : kind.restCost ≤ 1 := by
  unfold Kind.restCost
  split <;> decide

theorem inside_of_nil (h : t.children = []) : t.inside = 0 := by
  cases t
  cases h
  exact inside_nil

theorem inside_of_cons (h : t.children = first :: rest) :
    t.inside = max (t.kind.firstCost + first.inside) (deepest t.kind.restCost rest) := by
  cases t
  cases h
  exact inside_cons

theorem inside_le (hfirst : ∀ c ∈ t.children.head?, t.kind.firstCost + c.inside ≤ n)
    (hrest : ∀ c ∈ t.children.tail, t.kind.restCost + c.inside ≤ n) : t.inside ≤ n := by
  cases hchildren : t.children with
  | nil => simp [inside_of_nil hchildren]
  | cons first rest =>
    rw [hchildren] at hfirst hrest
    rw [inside_of_cons hchildren, Nat.max_le]
    exact ⟨hfirst first rfl, deepest_le.2 hrest⟩

/-- A child costs at most one level. -/
theorem inside_le_of_lt (h : ∀ c ∈ t.children, c.inside < n) : t.inside ≤ n := by
  refine inside_le (fun c hc => ?_) fun c hc => ?_
  · have hlt := h c (List.mem_of_mem_head? hc)
    have hcost := firstCost_le t.kind
    omega
  · have hlt := h c (List.mem_of_mem_tail hc)
    have hcost := restCost_le t.kind
    omega

/-- Parts that are no level of their own. -/
theorem inside_le_of_le (hfirst : t.kind.firstCost = 0) (hrest : t.kind.restCost = 0)
    (h : ∀ c ∈ t.children, c.inside ≤ n) : t.inside ≤ n := by
  refine inside_le (fun c hc => ?_) fun c hc => ?_
  · rw [hfirst, Nat.zero_add]
    exact h c (List.mem_of_mem_head? hc)
  · rw [hrest, Nat.zero_add]
    exact h c (List.mem_of_mem_tail hc)

end ParseTree
end Ecma3
