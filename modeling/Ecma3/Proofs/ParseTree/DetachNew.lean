import Ecma3.Proofs.ParseTree.Detached
import Ecma3.Proofs.ParseTree.Nodes

/-!
What detaching a `new` does to a tree. The objects of member accesses lead down to one node, and
only if that is a `new` does its operand take its place; every other node stays what and where it
was.
-/
namespace Ecma3

open Build (BuildError detach)
open List (replicate)

namespace ParseTree

variable {t u v w y z first : ParseTree} {rest : List ParseTree} {path : List Nat} {m n : Nat}

/-- The node at the end of a path, which says which child to go to at each step. -/
def at? : ParseTree → List Nat → Option ParseTree
  | t, [] => some t
  | t, i :: path => t.children[i]?.bind (at? · path)

/-- What a node is without its children, and how many of them there are. -/
def shell (t : ParseTree) : Kind × String × Span × Nat :=
  (t.kind, t.text, t.span, t.children.length)

/-- From the tree so many first children lead to `z`: past member accesses that have children, to
the first node that is no such access. -/
inductive Spine : ParseTree → Nat → ParseTree → Prop where
  | base {t : ParseTree} (h : isAccess t.kind = true → t.children = []) : Spine t 0 t
  | access {t first z : ParseTree} {rest : List ParseTree} {n : Nat}
    (hkind : isAccess t.kind = true) (hchildren : t.children = first :: rest)
    (hfirst : Spine first n z) : Spine t (n + 1) z

/-- `v` is `u` at the path, and is what `t` is everywhere else. -/
structure Exchanged (t : ParseTree) (path : List Nat) (u v : ParseTree) : Prop where
  inside : ∀ q, v.at? (path ++ q) = u.at? q
  outside : ∀ q, ¬path <+: q → (v.at? q).map shell = (t.at? q).map shell

theorem at?_of_getElem? {c : ParseTree} {i : Nat} (h : t.children[i]? = some c) :
    t.at? (i :: path) = c.at? path := by
  rw [at?, h, Option.bind_some]

/-- A tree is given by what its nodes are. -/
theorem eq_of_shells (h : ∀ q, (t.at? q).map shell = (u.at? q).map shell) : t = u := by
  induction t using ParseTree.induction generalizing u with
  | step t ih =>
    have hroot := h []
    simp only [at?, Option.map_some, Option.some.injEq, shell, Prod.mk.injEq] at hroot
    obtain ⟨hkind, htext, hspan, hlength⟩ := hroot
    have hchildren : t.children = u.children := by
      refine List.ext_getElem hlength fun i hi hi' => ?_
      refine ih _ (List.getElem_mem hi) fun q => ?_
      have hchild := h (i :: q)
      rwa [at?_of_getElem? (List.getElem?_eq_getElem hi),
        at?_of_getElem? (List.getElem?_eq_getElem hi')] at hchild
    cases t
    cases u
    simp_all

/-- There is one way to put a tree in the place of another. -/
theorem Exchanged.unique (hv : Exchanged t path u v) (hw : Exchanged t path u w) : v = w := by
  refine eq_of_shells fun q => ?_
  by_cases hq : path <+: q
  · obtain ⟨r, rfl⟩ := hq
    rw [hv.inside, hw.inside]
  · rw [hv.outside q hq, hw.outside q hq]

/-- The tree itself is at the empty path. -/
theorem exchanged_root : Exchanged t [] u u :=
  ⟨fun _ => rfl, fun _ hq => absurd List.nil_prefix hq⟩

/-- What is exchanged in the first child is exchanged in the tree, one step further down. -/
theorem Exchanged.inFirst (hchildren : t.children = first :: rest) (h : Exchanged first path u v) :
    Exchanged t (0 :: path) u { t with children := v :: rest } := by
  have hv : ∀ q, at? { t with children := v :: rest } (0 :: q) = v.at? q := fun _ =>
    at?_of_getElem? rfl
  refine ⟨fun q => (hv _).trans (h.inside q), fun q hq => ?_⟩
  match q with
  | [] => simp [at?, shell, hchildren]
  | 0 :: q =>
    rw [hv, at?_of_getElem? (c := first) (by rw [hchildren]; rfl)]
    exact h.outside q fun hprefix => hq (List.cons_prefix_cons.2 ⟨rfl, hprefix⟩)
  | (i + 1) :: q => simp [at?, hchildren]

namespace Spine

theorem at?_eq (h : Spine t n z) : t.at? (replicate n 0) = some z := by
  induction h with
  | base => rfl
  | access _ hchildren _ ih =>
    rw [List.replicate_succ, at?_of_getElem? (by rw [hchildren]; rfl), ih]

theorem exists_spine (t : ParseTree) : ∃ n z, Spine t n z := by
  induction t using ParseTree.induction with
  | step t ih =>
    by_cases hbase : isAccess t.kind = true → t.children = []
    · exact ⟨0, t, .base hbase⟩
    · obtain ⟨hkind, hsome⟩ := Classical.not_imp.1 hbase
      obtain ⟨first, rest, hchildren⟩ := List.exists_cons_of_ne_nil hsome
      obtain ⟨n, z, h⟩ := ih first (by simp [hchildren])
      exact ⟨n + 1, z, .access hkind hchildren h⟩

theorem unique (h : Spine t n z) (h' : Spine t m y) : m = n ∧ y = z := by
  induction h generalizing m with
  | base hbase =>
    cases h' with
    | base => exact ⟨rfl, rfl⟩
    | access hkind hchildren => simp [hbase hkind] at hchildren
  | access hkind hchildren _ ih =>
    cases h' with
    | base hbase => simp [hbase hkind] at hchildren
    | access _ hchildren' hfirst =>
      cases hchildren.symm.trans hchildren'
      obtain ⟨rfl, rfl⟩ := ih hfirst
      exact ⟨rfl, rfl⟩

/-- A `new` at the end of the spine comes out from under the accesses. -/
theorem withoutNew?_eq_some (h : Spine t n z) (hkind : z.kind = .new)
    (hchildren : z.children = first :: rest) : ∃ v, t.withoutNew? = some ⟨v, z.span, n⟩ ∧
      Exchanged t (replicate n 0) first v ∧ v.nodes.length < t.nodes.length := by
  induction h with
  | @base t =>
    obtain ⟨kind, text, span, children⟩ := t
    cases hkind
    cases hchildren
    refine ⟨first, rfl, exchanged_root, ?_⟩
    rw [nodes_mk, List.length_cons, List.flatMap_cons, List.length_append]
    omega
  | @access t object z others n haccess hobject hspine ih =>
    obtain ⟨v, hdetach, hexchanged, hlt⟩ := ih hkind hchildren
    refine ⟨{ t with children := v :: others }, ?_, hexchanged.inFirst hobject, ?_⟩
    · obtain ⟨kind, text, span, children⟩ := t
      cases hobject
      simp only at haccess
      simp [withoutNew?, haccess, hdetach]
    · obtain ⟨kind, text, span, children⟩ := t
      cases hobject
      simpa [nodes_mk] using hlt

theorem withoutNew?_eq_none (h : Spine t n z) (hz : z.kind = .new → z.children = []) :
    t.withoutNew? = none := by
  induction h with
  | @base t hbase =>
    unfold withoutNew?
    split
    · rfl
    · simp_all
  | @access t object z others n haccess hobject hspine ih =>
    obtain ⟨kind, text, span, children⟩ := t
    cases hobject
    simp only at haccess
    simp [withoutNew?, haccess, ih hz]

end Spine

/-- What becomes of a tree whose spine ends at `z` when a `new` there is detached. -/
structure DetachesAt (t : ParseTree) (n : Nat) (z v : ParseTree) (moved : Bool) : Prop where
  spine : ∀ m y, Spine t m y ↔ m = n ∧ y = z
  /-- The end of the spine is where first children alone lead to. -/
  place : t.at? (replicate n 0) = some z
  moved_iff : moved = true ↔ z.kind = .new ∧ z.children ≠ []
  stays : moved = false → v = t
  exchanged : ∀ first rest, z.kind = .new → z.children = first :: rest →
    ∀ w, Exchanged t (replicate n 0) first w ↔ w = v
  le : v.nodes.length ≤ t.nodes.length
  lt : moved = true → v.nodes.length < t.nodes.length

/-- The operand of a `new` at the end of the spine takes its place, and nothing else changes. A tree
that has no such `new` stays as it is. The loop with its stack does this, with the number of accesses
it has gone past, and the recursion down the spine says the same. -/
theorem detach_spine (t : ParseTree) : ∃ n z v moved, DetachesAt t n z v moved ∧
    t.detachNew = (v, if moved then some (z.span, n) else none) ∧
    t.withoutNew? = (if moved then some ⟨v, z.span, n⟩ else none) ∧
    (detach t : Except BuildError (ParseTree × Bool)) = pure (v, moved) := by
  obtain ⟨n, z, hspine⟩ := Spine.exists_spine t
  have hunique : ∀ m y, Spine t m y ↔ m = n ∧ y = z := by
    intro m y
    constructor
    · exact hspine.unique
    · rintro ⟨rfl, rfl⟩
      exact hspine
  by_cases hnew : z.kind = .new ∧ z.children ≠ []
  · obtain ⟨hkind, hsome⟩ := hnew
    obtain ⟨first, rest, hchildren⟩ := List.exists_cons_of_ne_nil hsome
    obtain ⟨v, hdetach, hexchanged, hlt⟩ := hspine.withoutNew?_eq_some hkind hchildren
    have hloop : t.detachNew = (v, some (z.span, n)) := by rw [detachNew_eq_withoutNew?, hdetach]
    refine ⟨n, z, v, true, ?_, hloop, hdetach, by rw [detach, hloop]; rfl⟩
    refine ⟨hunique, hspine.at?_eq, by simp [hkind, hsome], by simp, ?_, Nat.le_of_lt hlt,
      fun _ => hlt⟩
    intro first' rest' _ hchildren' w
    cases hchildren.symm.trans hchildren'
    constructor
    · exact fun hw => hw.unique hexchanged
    · rintro rfl
      exact hexchanged
  · have hdetach := hspine.withoutNew?_eq_none fun hkind => by simpa [hkind] using hnew
    have hloop : t.detachNew = (t, none) := by rw [detachNew_eq_withoutNew?, hdetach]
    refine ⟨n, z, t, false, ?_, hloop, hdetach, by rw [detach, hloop]⟩
    refine ⟨hunique, hspine.at?_eq, by simp [hnew], fun _ => rfl, ?_, Nat.le_refl _, by simp⟩
    intro first rest hkind hchildren
    exact absurd ⟨hkind, by simp [hchildren]⟩ hnew

end ParseTree
end Ecma3
