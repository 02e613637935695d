import Ecma3.Proofs.Grammar.Comparison.Statement
import Ecma3.Proofs.Grammar.Simulation.Program

/-! How whole programs carry a comparison. -/
namespace Ecma3.Grammar
open ParserM ParseTree

variable {R : Comparison} {inner inner' : Inner} {n m m' : Nat} {c : Ledger} {s s' t : Session}
  {root : Option ParseTree} {x : SyntaxError}

theorem carries_production (h : inner.Compared R inner') (goal : Goal) :
    CarriesGoal R n goal (inner.production goal) (inner'.production goal) := by
  cases goal with
  | statement => exact Inner.carries_statement h
  | assignment allowIn => exact Inner.carries_assignment h allowIn
  | binary allowIn least => exact Inner.carries_binary h allowIn least
  | unary => exact Inner.carries_unary h
  | memberBase => exact Inner.carries_memberBase h

/-- The second run may go as deep as the first one or deeper before its bound ends it. -/
theorem carries_parseWithin (R : Comparison) (hm : m ≤ m') (n : Nat) (goal : Goal) :
    CarriesGoal R n goal (parseWithin m goal) (parseWithin m' goal) := by
  induction m generalizing R m' n goal with
  | zero => exact fun _ _ => carries_endless
  | succ m ih =>
    obtain ⟨m', rfl⟩ := Nat.exists_eq_succ_of_ne_zero (Nat.ne_zero_of_lt hm)
    have hle := Nat.le_of_succ_le_succ hm
    exact carries_production ⟨⟨m, rfl⟩, hm, ih R hle, ih R.nested hle, parseWithin_barred⟩ goal

/-- The ledger before anything is parsed. -/
def Ledger.empty : Ledger := ⟨[], 0, false, false, none⟩

theorem carries_program (hended : ∀ n s s', ¬R.Ended n s s') (hm : m ≤ m') :
    Carries R 0 .empty (Inner.program ⟨m, parseWithin m⟩) (Inner.program ⟨m', parseWithin m'⟩)
      (fun root => Ledger.empty.keepingAll 1 root.toList) (Option.map R.tree) := by
  have hstatements : Carries R 0 .empty (Inner.statements ⟨m, parseWithin m⟩ fun _ => false)
      (Inner.statements ⟨m', parseWithin m'⟩ fun _ => false) (Ledger.empty.keepingAll 1)
      (List.map R.tree) :=
    Inner.carries_statements hended hm (carries_parseWithin R hm 0 .statement) _ rfl
  refine hstatements.bind fun found => ?_
  match found with
  | [] => exact .pure rfl .refl
  | [only] => exact .pure rfl .refl
  | first :: second :: others =>
    refine carries_get rfl rfl fun s s' _ _ _ hend => .pure ?_ ?_
    · simp [R.tree_group, Comparison.place, hend]
    · have hle : deepest 1 others ≤ 1 + deepest 0 others := deepest_add_le 1 0
      simp [Kind.firstCost, Kind.restCost, atoms_group (show Kind.isAtom .unit = false from rfl)]
      omega

/-- What a call finds in the first run tells what it finds in the second one, where there is at least
as much text left. -/
theorem program_compares (hended : ∀ n s s', ¬R.Ended n s s') (hrel : R.Rel false 0 s s')
    (hle : s.cursor.rest.length ≤ s'.cursor.rest.length) :
    R.Follows 0 (fun root => Ledger.empty.keepingAll 1 root.toList) (Option.map R.tree)
      (ParserM.program s) (ParserM.program s') :=
  (carries_program hended (Nat.add_le_add_right hle 2)).follow nofun (Or.inl hrel)

/-- A call is never endless. -/
theorem program_ne_endless : ParserM.program s ≠ .error .endless t := by
  intro h
  have hmoves := program_moves s
  unfold Leads at hmoves
  simp only [h] at hmoves
  exact hmoves.1 rfl

end Ecma3.Grammar
