import Ecma3.Ast.Node

/-!
The properties of an object while it is built. They stand in the order in which their names came up,
and a map beside them gives the place of each name.
-/

namespace Ecma3

/-- A vector of properties and a map from their names to their places in it. -/
structure PropertyTable where
  properties : Array Property
  positions : List (String × Nat)
  /-- The map gives a place for a name exactly if the property there has that name. -/
  inStep : ∀ name i, positions.lookup name = some i ↔ properties[i]?.map (·.name) = some name

namespace PropertyTable

def empty : PropertyTable where
  properties := #[]
  positions := []
  inStep := by simp

variable {table : PropertyTable} {name : String} {i : Nat}

theorem lt_size (h : table.positions.lookup name = some i) : i < table.properties.size := by
  obtain ⟨p, hp, -⟩ := Option.map_eq_some_iff.1 ((table.inStep name i).1 h)
  exact (Array.getElem?_eq_some_iff.1 hp).1

/-- A name without a place is no property's name. -/
theorem name_ne_of_lookup_eq_none (h : table.positions.lookup name = none) :
    table.properties[i]?.map (·.name) ≠ some name := fun hname => by
  simp [(table.inStep name i).2 hname] at h

/-- Puts another value at the place of a name. -/
def replace (table : PropertyTable) (i : Nat) (h : i < table.properties.size) (value : Node) :
    PropertyTable where
  properties := table.properties.set i { table.properties[i] with value } h
  positions := table.positions
  inStep name j := by
    rw [table.inStep, Array.getElem?_set]
    split <;> rename_i hj
    · simp [← hj, h]
    · rfl

/-- Puts a property with a new name at the end. -/
def append (table : PropertyTable) (name : String) (value : Node)
    (h : table.positions.lookup name = none) : PropertyTable where
  properties := table.properties.push ⟨name, value⟩
  positions := (name, table.properties.size) :: table.positions
  inStep n j := by
    rw [List.lookup_cons, Array.getElem?_push]
    by_cases hn : n = name
    · subst hn
      by_cases hj : j = table.properties.size
      · simp [hj]
      · simp [hj, Ne.symm hj, name_ne_of_lookup_eq_none h]
    · by_cases hj : j = table.properties.size
      · have hnew : table.positions.lookup n ≠ some table.properties.size := fun hsize =>
          Nat.lt_irrefl _ (lt_size hsize)
        simp [hj, beq_false_of_ne hn, Ne.symm hn, hnew]
      · simp [hj, beq_false_of_ne hn, table.inStep]

/-- Gives a name its value: in the place that it has, or in a new one. -/
def enter (table : PropertyTable) (name : String) (value : Node) : PropertyTable :=
  match h : table.positions.lookup name with
  | some i => table.replace i (lt_size h) value
  | none => table.append name value h

end PropertyTable
end Ecma3
