import Ecma3.Build.Expression

/-!
What taking a chain apart and putting it back comes to: the recursion down the objects of the
accesses, which rebuilds each access around what it finds below.
-/
namespace Ecma3

open Build (detach)
open Log

namespace ParseTree

/-- Follows the objects of member accesses down to a `new` and puts its operand in its place. Nothing
if the chain has another base. -/
def withoutNew? : ParseTree → Option Detached
  | ⟨_, _, _, []⟩ => none
  | ⟨kind, text, span, first :: rest⟩ =>
    if isAccess kind then
      (withoutNew? first).map fun d => ⟨⟨kind, text, span, d.tree :: rest⟩, d.newSpan, d.accesses + 1⟩
    else if kind = .new then some ⟨first, span, 0⟩
    else none

variable {d : Detached} {spine : List ParseTree}

/-- What was taken apart is put back as it was. -/
theorem putBack_takeApart (t : ParseTree) :
    putBack (takeApart spine t).1 (takeApart spine t).2 = putBack spine t := by
  fun_induction takeApart spine t with
  | case1 => rfl
  | case2 spine kind text span object rest haccess ih => rw [ih, putBack]
  | case3 => rfl

/-- Without a `new` to detach, the base has no operand. -/
theorem operand?_takeApart_none (t : ParseTree) (h : t.withoutNew? = none) :
    (takeApart spine t).2.operand? = none := by
  fun_induction takeApart spine t with
  | case1 => simp [operand?]
  | case2 spine kind text span object rest haccess ih =>
    exact ih (by simpa [withoutNew?, haccess] using h)
  | case3 spine kind text span object rest haccess =>
    have hkind : kind ≠ .new := by simpa [withoutNew?, haccess] using h
    simp [operand?, hkind]

/-- The operand of the base, put back under the accesses on the stack, is the chain without its
`new`, and the stack has grown by the accesses over that `new`. -/
theorem operand?_takeApart_some (spine : List ParseTree) (t : ParseTree) (h : t.withoutNew? = some d) :
    ∃ operand, (takeApart spine t).2.operand? = some operand ∧
      (takeApart spine t).2.span = d.newSpan ∧
      putBack (takeApart spine t).1 operand = putBack spine d.tree ∧
      (takeApart spine t).1.length = d.accesses + spine.length := by
  fun_induction takeApart spine t generalizing d with
  | case1 => simp [withoutNew?] at h
  | case2 spine kind text span object rest haccess ih =>
    obtain ⟨below, hbelow, rfl⟩ : ∃ below, object.withoutNew? = some below ∧
        ⟨⟨kind, text, span, below.tree :: rest⟩, below.newSpan, below.accesses + 1⟩ = d := by
      simpa [withoutNew?, haccess] using h
    obtain ⟨operand, hoperand, hspan, hback, hlength⟩ := ih hbelow
    refine ⟨operand, hoperand, hspan, by rw [hback, putBack], ?_⟩
    rw [hlength, List.length_cons, Nat.add_right_comm, Nat.add_assoc]
  | case3 spine kind text span object rest haccess =>
    obtain ⟨rfl, rfl⟩ : kind = .new ∧ ⟨object, span, 0⟩ = d := by
      simpa [withoutNew?, haccess] using h
    exact ⟨object, by simp [operand?], rfl, rfl, by simp⟩

/-- The loop with its stack does what the recursion says. -/
theorem detachNew_eq_withoutNew? (t : ParseTree) : t.detachNew =
    match t.withoutNew? with
    | none => (t, none)
    | some d => (d.tree, some (d.newSpan, d.accesses)) := by
  rw [detachNew]
  cases h : t.withoutNew? with
  | none => simp only [operand?_takeApart_none t h, putBack_takeApart, putBack]
  | some d =>
    obtain ⟨operand, hoperand, hspan, hback, hlength⟩ := operand?_takeApart_some [] t h
    simp only [hoperand, hspan, hback, hlength, putBack, List.length_nil, Nat.add_zero]

theorem detach_eq_withoutNew? {m : Type → Type} [Monad m] [MonadLog m] (t : ParseTree) :
    (detach t : m (ParseTree × Bool)) =
      match t.withoutNew? with
      | none => pure (t, false)
      | some d => do
        note (.movedNew d.newSpan d.accesses)
        return (d.tree, true) := by
  rw [detach, detachNew_eq_withoutNew?]
  cases t.withoutNew? <;> rfl

end ParseTree
end Ecma3
