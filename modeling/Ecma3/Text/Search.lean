/-!
Search in an ordered table by halving: a hit is the place of the key, and a miss the place where the
key would have to be inserted.
-/

namespace Ecma3.Text

/-- Halves the part of the table that is left, of so many places from `base` on, until it is one
place. -/
def narrow (table : Array Nat) (key : Nat) (base : Fin table.size) (left : Nat)
    (h : base + left ≤ table.size) : Fin table.size :=
  if hleft : 1 < left then
    let half := left / 2
    have hmid : base + half < table.size := by omega
    if key < table[base + half] then narrow table key base (left - half) (by omega)
    else narrow table key ⟨base + half, hmid⟩ (left - half) (by simp only; omega)
  else base

def search (table : Array Nat) (key : Nat) : Except (Fin (table.size + 1)) (Fin table.size) :=
  if h : 0 < table.size then
    let base := narrow table key ⟨0, h⟩ table.size (Nat.le_of_eq (Nat.zero_add _))
    match compare table[base] key with
    | .eq => .ok base
    | .lt => .error base.succ
    | .gt => .error base.castSucc
  else .error 0

/-- A key is not inserted in front of a number that is no greater than the key. -/
theorem search_ne_zero {table : Array Nat} {first key : Nat} {i : Fin (table.size + 1)}
    (hfirst : table[0]? = some first) (hle : first ≤ key) (h : search table key = .error i) :
    i ≠ 0 := by
  obtain ⟨hsize, hzero⟩ := Array.getElem?_eq_some_iff.1 hfirst
  rintro rfl
  rw [search, dif_pos hsize] at h
  extract_lets base at h
  split at h
  · cases h
  · exact Fin.succ_ne_zero _ (Except.error.inj h)
  · rename_i hgreater
    have hbase : base.val = 0 := congrArg Fin.val (Except.error.inj h)
    simp only [Fin.getElem_fin, hbase, hzero] at hgreater
    exact Nat.not_lt_of_le hle (Nat.compare_eq_gt.1 hgreater)

end Ecma3.Text
