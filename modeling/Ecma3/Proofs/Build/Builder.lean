import Ecma3.Build.Builder
import Ecma3.Proofs.Build.Correspondence

/-!
A builder comes out of every call with the levels it went in with, whether or not the call fails. A new
builder therefore answers each of many calls as if it were the only one.
-/
namespace Ecma3.Build
open Log

variable {α β : Type} {b : Builder} {p : BuilderM α} {r : Except BuildError α} {tree : ParseTree}

namespace BuilderM

/-- At `b` the computation has the outcome `r`, and leaves the builder as it was. -/
def Yields (b : Builder) (p : BuilderM α) (r : Except BuildError α) : Prop :=
  p b = match r with
    | .ok a => .ok a b
    | .error e => .error e b

/-- A level is counted before it is compared with the limit. -/
theorem enter_eq (b : Builder) (tree : ParseTree) :
    enter tree b = (if b.limit < b.depth + 1 then throw (.nestingTooDeep b.limit tree.span)
      else pure () : BuilderM Unit) { b with depth := b.depth + 1 } := rfl

namespace Yields

theorem bind {f : α → BuilderM β} {g : α → Except BuildError β} (h : Yields b p r)
    (hf : ∀ a, Yields b (f a) (g a)) : Yields b (p >>= f) (r >>= g) := by
  unfold Yields at h ⊢
  cases r with
  | error e => simp only [Bind.bind, EStateM.bind, h, Except.bind]
  | ok a =>
    simp only [Bind.bind, EStateM.bind, h, Except.bind]
    exact hf a

/-- One level further in, a computation yields what it yields there. -/
theorem level (hb : b.depth < b.limit) (h : Yields { b with depth := b.depth + 1 } p r) :
    Yields b (thenLeave do enter tree; p) r := by
  have henter : enter tree b = .ok () { b with depth := b.depth + 1 } := by
    rw [enter_eq, if_neg (by omega)]
    rfl
  unfold Yields at h ⊢
  simp only [thenLeave, Bind.bind, EStateM.bind, henter, h]
  cases r <;> rfl

/-- There is no level beyond the limit. -/
theorem noLevel (hb : b.limit ≤ b.depth) :
    Yields b (thenLeave do enter tree; p) (.error (.nestingTooDeep b.limit tree.span)) := by
  have henter : enter tree b =
      .error (.nestingTooDeep b.limit tree.span) { b with depth := b.depth + 1 } := by
    rw [enter_eq, if_pos (by omega)]
    rfl
  simp only [Yields, thenLeave, Bind.bind, EStateM.bind, henter, Nat.add_sub_cancel]

end Yields

/-- Constructions by a builder answer to those that count no levels. -/
def correspondence (b : Builder) : Correspondence BuilderM (Except BuildError) where
  Rel := Yields b
  pure _ := rfl
  bind := .bind
  throw _ := rfl
  note _ := rfl

theorem yields_within (levels : Nat) (hb : b.limit - b.depth = levels) (tree : ParseTree)
    (label : Option String) :
    Yields b (within levels tree label) (Build.within b.limit levels tree label) := by
  induction levels generalizing b tree label with
  | zero => exact .noLevel (by omega)
  | succ levels ih =>
    refine .level (by omega) ?_
    refine (correspondence { b with depth := b.depth + 1 }).rel_visit fun t label => ?_
    exact ih (show b.limit - (b.depth + 1) = levels by omega) t label

theorem yields_node (b : Builder) (tree : ParseTree) (label : Option String) :
    Yields b (node tree label) (Build.within b.limit (b.limit - b.depth) tree label) :=
  yields_within _ rfl tree label

/-- A tree is built one level further in, and so is each tree inside it. -/
theorem node_eq (tree : ParseTree) (label : Option String) :
    node tree label = thenLeave (do enter tree; visit node tree label) := by
  funext b
  by_cases hb : b.depth < b.limit
  · have hnode := yields_node b tree label
    obtain ⟨levels, hlevels⟩ : ∃ levels, b.limit - b.depth = levels + 1 :=
      ⟨b.limit - b.depth - 1, by omega⟩
    have hvisit : Yields b (thenLeave do enter tree; visit node tree label)
        (Build.within b.limit (levels + 1) tree label) := by
      refine .level hb ((correspondence { b with depth := b.depth + 1 }).rel_visit fun t label => ?_)
      have h := yields_node { b with depth := b.depth + 1 } t label
      rwa [show b.limit - (b.depth + 1) = levels by omega] at h
    rw [hlevels] at hnode
    exact hnode.trans hvisit.symm
  · have hlevels : b.limit - b.depth = 0 := by omega
    have hnode := yields_node b tree label
    rw [hlevels] at hnode
    exact hnode.trans (Yields.noLevel (by omega)).symm

theorem yields_program (hb : b.depth = 0) (root : Option ParseTree) :
    Yields b (program root) (Build.program b.limit root) := by
  have hnode : ∀ t label, Yields b (node t label) (Build.node b.limit t label) := fun t label => by
    have h := yields_node b t label
    rwa [hb] at h
  cases root with
  | none => rfl
  | some root =>
    unfold program Build.program
    extract_lets rest rest'
    have hrest : ∀ nodes, Yields b (rest nodes) (rest' nodes) := fun nodes =>
      .bind ((correspondence b).note _) fun _ => (correspondence b).pure nodes
    refine (correspondence b).ite (fun _ => ?_) fun _ => ?_
    · exact .bind ((correspondence b).rel_all hnode _) hrest
    · exact .bind (hnode root none) fun node => hrest [node]

end BuilderM

/-- The outcome of a call to a builder that is in no level. -/
def Call.outcome (limit : Nat) : Call → Except BuildError (List Node)
  | program root => Build.program limit root
  | build tree => return [← Build.node limit tree none]
  | node tree label => return [← Build.node limit tree label]

namespace Builder

theorem call_fresh (limit : Nat) (c : Call) :
    (fresh limit).call c = (c.outcome limit, fresh limit) := by
  have hrun : BuilderM.Yields (fresh limit) c.run (c.outcome limit) := by
    cases c with
    | program root => exact BuilderM.yields_program rfl root
    | build tree => exact .bind (BuilderM.yields_node _ tree none) fun _ => rfl
    | node tree label => exact .bind (BuilderM.yields_node _ tree label) fun _ => rfl
  unfold BuilderM.Yields at hrun
  unfold call
  rw [hrun]
  cases c.outcome limit <;> rfl

/-- Of any calls in a row, failed ones included, each has the outcome that it has with a new builder. -/
theorem calls_fresh (limit : Nat) (cs : List Call) :
    (fresh limit).calls cs = (cs.map fun c => ((fresh limit).call c).1, fresh limit) := by
  induction cs with
  | nil => rfl
  | cons c cs ih => simp only [calls, List.map_cons, call_fresh, ih]

end Builder
end Ecma3.Build
