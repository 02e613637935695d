import Ecma3.Proofs.Build.Made.Statement

/-!
Paths through syntax trees. A level of nesting puts at most two pieces on a path, so the limit on
nesting bounds the paths of everything that is built.
-/
namespace Ecma3.Build

open List (Forall₂)
open Piece (shallow_of_parts_eq_nil)

variable {B : ParseTree → Node → Prop} {n : Nat} {tree : ParseTree} {node : Node}
  {trees : List ParseTree} {nodes : List Node}

theorem shallow_pair {p q : Piece} (hp : p.Shallow n) (hq : q.Shallow n) :
    ∀ r ∈ [p, q], r.Shallow n :=
  List.forall_mem_cons.2 ⟨hp, List.forall_mem_singleton.2 hq⟩

section

-- What the trees inside are built into has no path longer than `n`.
variable (hB : ∀ t node, B t node → (Piece.node node).Shallow n)
include hB

theorem shallow_nodes (h : Forall₂ B trees nodes) : ∀ q ∈ nodes.map Piece.node, q.Shallow n :=
  List.forall_mem_map.2 (forall_mem_right h hB)

theorem MadeBlock.shallow {content : Block} (h : MadeBlock B tree content) :
    (Piece.block content).Shallow (n + 1) := by
  cases h with
  | braces h => exact shallow_nodes hB h
  | single h => exact List.forall_mem_singleton.2 (hB _ _ h)

/-- A declared name is on no longer path than the value that it is given. -/
theorem MadeDeclarator.shallow (h : MadeDeclarator B tree node) :
    (Piece.node node).Shallow (n + 1) := by
  cases h with
  | name => exact shallow_of_parts_eq_nil rfl (by omega)
  | named _ h =>
    have hvalue := hB _ _ h
    exact shallow_pair (shallow_of_parts_eq_nil rfl hvalue.pos) hvalue
  | assign _ hx hy => exact shallow_pair (hB _ _ hx) (hB _ _ hy)
  | other h => exact (hB _ _ h).mono (Nat.le_succ n)

theorem MadeClauses.shallow {cases : List SwitchCase} {default : Option Node}
    {clauses : List ParseTree} {found : List SwitchCase × Option Node}
    (h : MadeClauses B cases default clauses found)
    (hcases : ∀ c ∈ cases, (Piece.node c.test).Shallow n ∧ (Piece.block c.body).Shallow (n + 1))
    (hdefault : ∀ x ∈ default, (Piece.node x).Shallow (n + 1)) :
    (∀ c ∈ found.1, (Piece.node c.test).Shallow n ∧ (Piece.block c.body).Shallow (n + 1)) ∧
      ∀ x ∈ found.2, (Piece.node x).Shallow (n + 1) := by
  induction h with
  | nil => exact ⟨hcases, hdefault⟩
  | case _ htest hbody _ ih =>
    refine ih (List.forall_mem_append.2 ⟨hcases, List.forall_mem_singleton.2 ⟨hB _ _ htest, ?_⟩⟩)
      hdefault
    exact shallow_nodes hB hbody
  | default h _ ih =>
    refine ih hcases ?_
    rintro x ⟨⟩
    exact shallow_nodes hB h

theorem MadeHandlers.shallow {handler : Option Catch} {cleanup : Option Block}
    {clauses : List ParseTree} {found : Option Catch × Option Block}
    (h : MadeHandlers B handler cleanup clauses found)
    (hhandler : ∀ c ∈ handler, (Piece.block c.body).Shallow (n + 1))
    (hcleanup : ∀ b ∈ cleanup, (Piece.block b).Shallow (n + 1)) :
    (∀ c ∈ found.1, (Piece.block c.body).Shallow (n + 1)) ∧
      ∀ b ∈ found.2, (Piece.block b).Shallow (n + 1) := by
  induction h with
  | nil => exact ⟨hhandler, hcleanup⟩
  | «catch» _ hbody _ ih =>
    refine ih ?_ hcleanup
    rintro c ⟨⟩
    exact hbody.shallow hB
  | «finally» _ hbody _ ih =>
    refine ih hhandler ?_
    rintro b ⟨⟩
    exact hbody.shallow hB

theorem MadeClause.shallow (h : MadeClause B tree node) : (Piece.node node).Shallow (n + 1) := by
  cases h with
  | missing h => exact shallow_of_parts_eq_nil h.parts (by omega)
  | inner _ h => exact (hB _ _ h).mono (Nat.le_succ n)
  | bare h => exact (hB _ _ h).mono (Nat.le_succ n)

/-- One more level puts at most two more pieces on a path. -/
theorem Made.shallow (h : Made B tree node) : (Piece.node node).Shallow (n + 2) := by
  have hnode : ∀ {t x}, B t x → (Piece.node x).Shallow (n + 1) := fun h =>
    (hB _ _ h).mono (Nat.le_succ n)
  cases h with
  | leaf h => exact shallow_of_parts_eq_nil h.parts (by omega)
  | inner _ h => exact (hB _ _ h).mono (by omega)
  | nodes _ h hholds => exact (hholds.shallow (shallow_nodes hB h)).mono (by omega)
  | block _ h => exact fun q hq => (shallow_nodes hB h q hq).mono (by omega)
  | object h =>
    intro q hq
    obtain ⟨p, hp, rfl⟩ := List.mem_map.1 hq
    exact (h.forall_value hB (by simp) p hp).mono (by omega)
  | array h =>
    intro q hq
    obtain ⟨x, hx, rfl⟩ := List.mem_map.1 hq
    obtain ⟨element, helement, rfl⟩ := List.mem_filterMap.1 hx
    have hmade := forall_mem_right h (fun _ _ h => h.forall_mem hB) _ helement
    exact (hmade x rfl).mono (by omega)
  | function _ h => exact List.forall_mem_singleton.2 (h.shallow hB)
  | call _ _ hx h hholds =>
    refine hholds.shallow (List.forall_mem_cons.2 ⟨hnode hx, List.forall_mem_map.2 ?_⟩)
    exact h.forall_mem fun _ _ hx => hnode hx
  | @access _ _ _ moved _ access _ _ _ hx haccess hmoved =>
    have hshallow : (Piece.node access).Shallow (n + 1) := by
      rcases haccess with hholds | ⟨y, hy, hholds⟩
      · exact hholds.shallow (List.forall_mem_singleton.2 (hB _ _ hx))
      · exact hholds.shallow (shallow_pair (hB _ _ hx) (hB _ _ hy))
    rw [hmoved]
    split
    · exact List.forall_mem_singleton.2 hshallow
    · exact hshallow.mono (by omega)
  | compound _ _ hx hy hz =>
    refine shallow_pair (hnode hx) (hz.shallow ?_)
    exact shallow_pair (hB _ _ hx) (hB _ _ hy)
  | step _ _ hx =>
    have hone : (Piece.node (.integer 1 tree.span)).Shallow n :=
      shallow_of_parts_eq_nil rfl (hB _ _ hx).pos
    refine shallow_pair (hnode hx) ?_
    exact shallow_pair (hB _ _ hx) hone
  | declarator _ h => exact (h.shallow hB).mono (Nat.le_succ _)
  | declarators h =>
    exact List.forall_mem_map.2 (forall_mem_right h fun _ _ h => h.shallow hB)
  | returnNothing _ => exact List.forall_mem_singleton.2 (shallow_of_parts_eq_nil rfl (by omega))
  | @switch _ _ _ _ default _ _ _ hx h =>
    obtain ⟨hcases, hdefault⟩ := h.shallow hB (by simp) (by simp)
    intro q hq
    simp only [Piece.parts, Node.parts, Node.children, List.cons_append, List.mem_cons,
      List.mem_append, List.mem_flatMap, List.not_mem_nil, or_false] at hq
    rcases hq with rfl | ⟨c, hc, rfl | rfl⟩ | rfl
    · exact hnode hx
    · exact (hcases c hc).1.mono (Nat.le_succ n)
    · exact (hcases c hc).2
    · cases default with
      | none => exact shallow_of_parts_eq_nil rfl (by omega)
      | some x => exact hdefault x rfl
  | tryStatement _ _ hbody h =>
    obtain ⟨hhandler, hcleanup⟩ := h.shallow hB (by simp) (by simp)
    intro q hq
    simp only [Piece.parts, Node.parts, Node.children, List.cons_append, List.mem_cons,
      List.mem_append, List.mem_map, Option.mem_toList] at hq
    rcases hq with rfl | ⟨c, hc, rfl⟩ | ⟨b, hb, rfl⟩
    · exact hbody.shallow hB
    · exact hhandler c hc
    · exact hcleanup b hb
  | loop _ _ h hx hholds =>
    refine hholds.shallow (List.forall_mem_append.2 ⟨?_, List.forall_mem_singleton.2 (hnode hx)⟩)
    exact List.forall_mem_map.2 (forall_mem_right h fun _ _ h => h.shallow hB)

end

theorem shallow_within {limit levels : Nat} {label : Option String}
    (h : (within limit levels tree label : Except BuildError Node) = .ok node) :
    (Piece.node node).Shallow (2 * levels) := by
  induction levels generalizing tree label node with
  | zero => cases h
  | succ levels ih =>
    refine (made_within h).shallow fun t x hx => ?_
    obtain ⟨label, hx⟩ := hx
    exact ih hx

/-- No path through what is built under a limit passes more pieces than twice that limit. -/
theorem length_path_le {m : Nat} {root : ParseTree}
    (h : (program m (some root) : Except BuildError (List Node)) = .ok nodes) (hnode : node ∈ nodes)
    {path : List Piece} (hpath : Piece.IsPath path) (hhead : path.head? = some (.node node)) :
    path.length ≤ 2 * m := by
  have hshallow : ∀ x ∈ nodes, (Piece.node x).Shallow (2 * m) := by
    rcases program_eq_ok h with ⟨-, hall⟩ | ⟨built, hbuilt, rfl⟩
    · exact forall_mem_right (made_all hall) fun _ _ ⟨_, hx⟩ => shallow_within hx
    · exact List.forall_mem_singleton.2 (shallow_within hbuilt)
  cases path with
  | nil => simp at hhead
  | cons p path =>
    cases hhead
    exact (hshallow node hnode).length_le hpath

/-- A function in the body of another takes all that the limit allows. -/
theorem length_path_functions : ∃ (root : ParseTree) (outer inner : Node) (body empty : Block),
    (program 2 (some root) : Except BuildError (List Node)) = .ok [outer] ∧
    Piece.IsPath [.node outer, .block body, .node inner, .block empty] ∧
    [Piece.node outer, .block body, .node inner, .block empty].length = 2 * 2 ∧
    [Piece.node outer, .block body, .node inner, .block empty].length ≤ 2 * 2 := by
  let place : Span := ⟨0, 0⟩
  let functionOf (statements : List ParseTree) : ParseTree :=
    ⟨.function, "", place, [⟨.arguments, "", place, []⟩, ⟨.block, "", place, statements⟩]⟩
  let empty : Block := ⟨[], none, place⟩
  let inner : Node := .function none [] empty place
  let body : Block := ⟨[inner], none, place⟩
  let outer : Node := .function none [] body place
  have hbuilt : (program 2 (some (functionOf [functionOf []])) : Except BuildError (List Node)) =
      .ok [outer] := rfl
  have hpath : Piece.IsPath [.node outer, .block body, .node inner, .block empty] := by
    simp [Piece.IsPath, outer, body, inner]
  exact ⟨_, outer, inner, body, empty, hbuilt, hpath, rfl,
    length_path_le hbuilt List.mem_cons_self hpath rfl⟩

end Ecma3.Build
