import Ecma3.Text.Search

/-!
What a search in an ordered table finds. The part that is left always has the last number that is no
greater than the key, if there is one.
-/
namespace Ecma3.Text

variable {table : Array Nat} {key left : Nat} {base : Fin table.size}

/-- The numbers grow from each place to the next. -/
def Increasing (table : Array Nat) : Prop :=
  ∀ i j (hi : i < table.size) (hj : j < table.size), i < j → table[i] < table[j]

theorem Increasing.le (h : Increasing table) {i j : Nat} (hi : i < table.size) (hj : j < table.size)
    (hij : i ≤ j) : table[i] ≤ table[j] := by
  rcases Nat.lt_or_eq_of_le hij with hlt | rfl
  · exact Nat.le_of_lt (h i j hi hj hlt)
  · exact Nat.le_refl _

/-- The place that is left is the one to begin with, or has a number no greater than the key. -/
theorem narrow_eq_or_le (h : base + left ≤ table.size) :
    ∃ i, narrow table key base left h = i ∧ (i = base ∨ table[i] ≤ key) := by
  fun_induction narrow table key base left h with
  | case1 base left h hleft half hmid hlt ih => exact ih
  | case2 base left h hleft half hmid hlt ih =>
    obtain ⟨i, hi, hbase | hle⟩ := ih
    · exact ⟨i, hi, Or.inr (by rw [hbase]; exact Nat.le_of_not_lt hlt)⟩
    · exact ⟨i, hi, Or.inr hle⟩
  | case3 base left h hleft => exact ⟨base, rfl, Or.inl rfl⟩

/-- What is behind the part that is left is greater than the key. -/
theorem lt_of_narrow_lt (h : base + left ≤ table.size) (hincreasing : Increasing table)
    (hleft : 0 < left) (hbehind : ∀ i (hi : i < table.size), base + left ≤ i → key < table[i])
    {i : Nat} (hi : i < table.size) (hend : narrow table key base left h < i) : key < table[i] := by
  fun_induction narrow table key base left h with
  | case1 base left h hmore half hmid hlt ih =>
    refine ih (by omega) (fun j hj hle => ?_) hend
    exact Nat.lt_of_lt_of_le hlt (hincreasing.le hmid hj (by omega))
  | case2 base left h hmore half hmid hlt ih =>
    exact ih (by omega) (fun j hj hle => hbehind j hj (by simp only at hle; omega)) hend
  | case3 base left h hmore => exact hbehind i hi (by omega)

/-- A hit is a place of the key. -/
theorem search_eq_ok {i : Fin table.size} (h : search table key = .ok i) : table[i] = key := by
  unfold search at h
  split at h
  · extract_lets base at h
    split at h
    · next heq =>
      rw [← Except.ok.inj h]
      exact Nat.compare_eq_eq.1 heq
    · cases h
    · cases h
  · cases h

/-- A miss parts the table: what stands before it is smaller than the key, and the rest is greater. -/
theorem search_eq_error (hincreasing : Increasing table) {i : Fin (table.size + 1)}
    (h : search table key = .error i) : (∀ j (hj : j < table.size), j < i.val → table[j] < key) ∧
      ∀ j (hj : j < table.size), i.val ≤ j → key < table[j] := by
  unfold search at h
  split at h
  · next hsize =>
    extract_lets base at h
    have hbehind : ∀ j (hj : j < table.size), base.val < j → key < table[j] := fun j hj =>
      lt_of_narrow_lt _ hincreasing hsize (fun k hk hle => by simp only at hle; omega) hj
    split at h
    · cases h
    · next hless =>
      rw [← Except.error.inj h, Fin.val_succ]
      refine ⟨fun j hj hlt => ?_, fun j hj hle => hbehind j hj hle⟩
      exact Nat.lt_of_le_of_lt (hincreasing.le hj base.isLt (Nat.le_of_lt_succ hlt))
        (Nat.compare_eq_lt.1 hless)
    · next hgreater =>
      have hgreater := Nat.compare_eq_gt.1 hgreater
      -- A place behind the first one is only left over if its number is no greater than the key.
      have hzero : base.val = 0 := by
        have hwhole : (⟨0, hsize⟩ : Fin table.size) + table.size ≤ table.size :=
          Nat.le_of_eq (Nat.zero_add _)
        obtain ⟨i, hi, hfirst | hle⟩ := narrow_eq_or_le hwhole
        · exact congrArg Fin.val (hi.trans hfirst)
        · exact absurd (hi ▸ hgreater) (Nat.not_lt_of_le hle)
      rw [← Except.error.inj h, Fin.val_castSucc]
      refine ⟨fun j hj hlt => by omega, fun j hj hle => ?_⟩
      exact Nat.lt_of_lt_of_le hgreater (hincreasing.le base.isLt hj hle)
  · next hsize =>
    exact ⟨fun j hj => by omega, fun j hj => by omega⟩

end Ecma3.Text
