import Ecma3.Proofs.Build.Correspondence

/-! Fewer levels of nesting change an outcome at most into an error about the nesting. -/
namespace Ecma3.Build

variable {α β : Type} {limit : Nat} {r r' : Except BuildError α} {f f' : α → Except BuildError β}

/-- The outcomes are the same, or the first one is an error about the nesting. -/
def Under (limit : Nat) (r r' : Except BuildError α) : Prop :=
  r = r' ∨ ∃ span, r = .error (.nestingTooDeep limit span)

namespace Under

theorem refl : Under limit r r := Or.inl rfl

theorem bind (h : Under limit r r') (hf : ∀ a, Under limit (f a) (f' a)) :
    Under limit (r >>= f) (r' >>= f') := by
  rcases h with rfl | ⟨span, rfl⟩
  · cases r with
    | error e => exact refl
    | ok a => exact hf a
  · exact Or.inr ⟨span, rfl⟩

/-- An outcome other than an error about the nesting stays. -/
theorem ok {a : α} (h : Under limit r r') (hr : r = .ok a) : r' = .ok a := by
  rcases h with rfl | ⟨span, rfl⟩
  · exact hr
  · cases hr

end Under

/-- Being under holds of a construction as it holds of the trees inside. -/
def Under.correspondence (limit : Nat) :
    Correspondence (Except BuildError) (Except BuildError) where
  Rel := Under limit
  pure _ := .refl
  bind := .bind
  throw _ := .refl
  note _ := .refl

variable {tree : ParseTree} {label : Option String}

theorem under_within {levels levels' : Nat} (hle : levels ≤ levels') (limit' : Nat)
    (tree : ParseTree) (label : Option String) :
    Under limit (within limit levels tree label) (within limit' levels' tree label) := by
  induction levels generalizing levels' tree label with
  | zero => exact Or.inr ⟨_, rfl⟩
  | succ levels ih =>
    obtain ⟨levels', rfl⟩ := Nat.exists_eq_succ_of_ne_zero (show levels' ≠ 0 by omega)
    exact (Under.correspondence limit).rel_visit fun t label => ih (by omega) t label

/-- What can be built stays the same with more levels. -/
theorem within_ok {levels levels' : Nat} {n : Node} (hle : levels ≤ levels')
    (hn : (within limit levels tree label : Except BuildError Node) = .ok n) :
    (within limit levels' tree label : Except BuildError Node) = .ok n :=
  (under_within hle limit tree label).ok hn

/-- A limit only ever turns the nodes of a source into an error about the nesting. -/
theorem under_program {limit' : Nat} (hle : limit ≤ limit') (root : Option ParseTree) :
    Under limit (program limit root) (program limit' root) := by
  have hnode : ∀ t label, Under limit (node limit t label) (node limit' t label) :=
    fun t label => under_within hle limit' t label
  cases root with
  | none => exact .refl
  | some root =>
    refine (Under.correspondence limit).ite (fun _ => ?_) fun _ => ?_
    · exact ((Under.correspondence limit).rel_all hnode _).bind fun _ => .refl
    · exact (hnode root none).bind fun _ => .refl

end Ecma3.Build
