import Ecma3.Build.PropertyTable

/-!
Properties as one list, in which a name is looked for among the properties themselves. The vector with
its map of places goes through the same lists.
-/
namespace Ecma3

namespace Property

/-- Gives a name its value: in the place of the value it had, or at the end. -/
def put (name : String) (value : Node) : List Property → List Property
  | [] => [⟨name, value⟩]
  | p :: rest => if p.name = name then ⟨name, value⟩ :: rest else p :: put name value rest

variable {name : String} {value : Node} {p : Property} {properties : List Property} {i : Nat}

/-- A name that is new is put at the end. -/
theorem put_of_notMem (h : name ∉ properties.map (·.name)) :
    put name value properties = properties ++ [⟨name, value⟩] := by
  induction properties with
  | nil => rfl
  | cons p rest ih =>
    simp only [List.map_cons, List.mem_cons, not_or] at h
    rw [put, if_neg (Ne.symm h.1), ih h.2, List.cons_append]

/-- A name that is there has its value put in the first place that it is at. -/
theorem put_eq_set (h : properties[i]?.map (·.name) = some name)
    (hfirst : ∀ j < i, properties[j]?.map (·.name) ≠ some name) :
    put name value properties = properties.set i ⟨name, value⟩ := by
  induction properties generalizing i with
  | nil => simp at h
  | cons p rest ih =>
    cases i with
    | zero =>
      have hname : p.name = name := by simpa using h
      rw [put, if_pos hname, List.set_cons_zero]
    | succ i =>
      have hname : p.name ≠ name := by simpa using hfirst 0 (Nat.succ_pos i)
      rw [put, if_neg hname, List.set_cons_succ, ih (by simpa using h)]
      exact fun j hj => by simpa using hfirst (j + 1) (Nat.succ_lt_succ hj)

theorem mem_put (h : p ∈ put name value properties) : p.value = value ∨ p ∈ properties := by
  induction properties with
  | nil =>
    rw [List.mem_singleton.1 h]
    exact Or.inl rfl
  | cons q rest ih =>
    rw [put] at h
    split at h
    · rcases List.mem_cons.1 h with rfl | h
      · exact Or.inl rfl
      · exact Or.inr (List.mem_cons_of_mem q h)
    · rcases List.mem_cons.1 h with rfl | h
      · exact Or.inr List.mem_cons_self
      · exact (ih h).imp_right (List.mem_cons_of_mem q)

end Property

namespace PropertyTable

variable (table : PropertyTable) {name : String} {i j : Nat}

/-- A name has one place. -/
theorem place_unique (hi : table.properties[i]?.map (·.name) = some name)
    (hj : table.properties[j]?.map (·.name) = some name) : i = j :=
  Option.some.inj (((table.inStep name i).2 hi).symm.trans ((table.inStep name j).2 hj))

/-- The map finds the place that a search through the properties would find, and nothing where the
search would find nothing. -/
theorem toList_enter (name : String) (value : Node) :
    (table.enter name value).properties.toList =
      Property.put name value table.properties.toList := by
  rw [enter]
  split
  next i h =>
    have hplace := (table.inStep name i).1 h
    rw [Property.put_eq_set (i := i) (by simpa using hplace) fun j hj hname =>
      Nat.ne_of_lt hj (table.place_unique (by simpa using hname) hplace)]
    have hi := lt_size h
    have hname : table.properties[i].name = name := by simpa [hi] using hplace
    simp [replace, hname]
  next h =>
    rw [Property.put_of_notMem fun hmem => ?_]
    · simp [append]
    · obtain ⟨i, hi⟩ := List.mem_iff_getElem?.1 hmem
      exact name_ne_of_lookup_eq_none h (i := i) (by simpa using hi)

end PropertyTable
end Ecma3
