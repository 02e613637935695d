import Mathlib.Data.List.Induction
import Mathlib.Data.List.Nodup
import Ecma3.Proofs.Build.New

/-!
The properties of an object. They stand in the order in which their names come up first, and each
has the last of the values under its name. The values are built one after the other, also those that
a later one takes the place of.
-/
namespace Ecma3

namespace Property

variable {name n : String} {value : Node} {p : Property} {properties : List Property}

/-- The last of the values under a name. -/
def last? (values : List (String × Node)) (name : String) : Option Node :=
  values.reverse.lookup name

/-- The properties that these values have one after the other: one for each name, in the place where
the name comes up first, and with the last value under it. -/
structure KeepLast (values : List (String × Node)) (properties : List Property) : Prop where
  names : properties.map (·.name) = (values.map Prod.fst).eraseDups
  value : ∀ p ∈ properties, last? values p.name = some p.value
  present : ∀ name, get? properties name = last? values name
  absent : ∀ name, name ∉ values.map Prod.fst → get? properties name = none

/-- The properties that come of values that are put one after the other. -/
def ofValues (values : List (String × Node)) (known : List Property) : List Property :=
  values.foldl (fun properties v => put v.1 v.2 properties) known

theorem names_put : (put name value properties).map (·.name) =
    if name ∈ properties.map (·.name) then properties.map (·.name)
    else properties.map (·.name) ++ [name] := by
  induction properties with
  | nil => rfl
  | cons q rest ih =>
    rw [put]
    by_cases hq : q.name = name
    · simp [hq]
    · have hne : name ≠ q.name := fun h => hq h.symm
      simp only [hq, if_false, List.map_cons, ih, List.mem_cons, hne, false_or]
      split <;> rfl

/-- Only the value under the name itself is another one. -/
theorem get?_put :
    get? (put name value properties) n = if n = name then some value else get? properties n := by
  induction properties with
  | nil =>
    by_cases hn : n = name
    · simp [put, get?, hn]
    · simp [put, get?, hn, Ne.symm hn]
  | cons q rest ih =>
    rw [put]
    by_cases hq : q.name = name
    · by_cases hn : n = name
      · simp [get?, hq, hn]
      · simp [get?, hq, hn, Ne.symm hn]
    · simp only [hq, if_false]
      by_cases hqn : q.name = n
      · have hn : n ≠ name := fun h => hq (hqn.trans h)
        simp [get?, hqn, hn]
      · simpa [get?, hqn] using ih

theorem ofValues_append_singleton {values : List (String × Node)} {known : List Property} :
    ofValues (values ++ [(name, value)]) known = put name value (ofValues values known) := by
  simp [ofValues]

theorem last?_append_singleton {values : List (String × Node)} :
    last? (values ++ [(name, value)]) n = if n = name then some value else last? values n := by
  by_cases hn : n = name
  · simp [last?, hn]
  · simp [last?, List.lookup_cons, hn, beq_false_of_ne]

/-- There is no last value under a name that none of the values has. -/
theorem last?_eq_none {values : List (String × Node)} :
    last? values n = none ↔ n ∉ values.map Prod.fst := by
  simp only [last?, List.lookup_eq_none_iff, List.mem_reverse, bne_iff_ne, List.mem_map,
    not_exists, not_and]
  exact ⟨fun h p hp hn => h p hp hn.symm, fun h p hp hn => h p hp hn.symm⟩

theorem eraseDups_append_singleton (names : List String) : (names ++ [name]).eraseDups =
    if name ∈ names then names.eraseDups else names.eraseDups ++ [name] := by
  rw [List.eraseDups_append]
  split <;> rename_i hname <;> simp [List.removeAll, hname, List.eraseDups_cons]

/-- Each name has its place from where it came up first. -/
theorem names_ofValues (values : List (String × Node)) :
    (ofValues values []).map (·.name) = (values.map Prod.fst).eraseDups := by
  -- From the right, since the last of the values is the last one to be put.
  induction values using List.reverseRec with
  | nil => rfl
  | append_singleton values v ih =>
    rw [ofValues_append_singleton, names_put, ih, List.map_append, List.map_singleton,
      eraseDups_append_singleton]
    simp only [List.mem_eraseDups]

theorem get?_ofValues (values : List (String × Node)) :
    get? (ofValues values []) n = last? values n := by
  induction values using List.reverseRec with
  | nil => rfl
  | append_singleton values v ih =>
    rw [ofValues_append_singleton, get?_put, ih, last?_append_singleton]

theorem nodup_ofValues (values : List (String × Node)) :
    ((ofValues values []).map (·.name)).Nodup := by
  induction values using List.reverseRec with
  | nil => exact List.nodup_nil
  | append_singleton values v ih =>
    rw [ofValues_append_singleton, names_put]
    split
    · exact ih
    · rename_i hname
      rw [← List.concat_eq_append]
      exact ih.concat hname

/-- Without two properties of one name, each is found by its name. -/
theorem get?_of_mem (hnodup : (properties.map (·.name)).Nodup) (h : p ∈ properties) :
    get? properties p.name = some p.value := by
  induction properties with
  | nil => simp at h
  | cons q rest ih =>
    rw [List.map_cons, List.nodup_cons] at hnodup
    rcases List.mem_cons.1 h with rfl | h
    · simp [get?]
    · have hname : q.name ≠ p.name := fun heq => hnodup.1 (heq ▸ List.mem_map_of_mem h)
      simpa [get?, hname] using ih hnodup.2 h

theorem keepLast_ofValues (values : List (String × Node)) :
    KeepLast values (ofValues values []) where
  names := names_ofValues values
  value p hp := by rw [← get?_ofValues, get?_of_mem (nodup_ofValues values) hp]
  present _ := get?_ofValues values
  absent _ hname := by rw [get?_ofValues, last?_eq_none.2 hname]

end Property

/-- The entry of an object that gives a value this name. -/
def ParseTree.Enters (entry : ParseTree) (e : String × ParseTree) : Prop :=
  entry.kind = .namedValue ∧
    ∃ key, entry.children = [key, e.2] ∧ Build.Literal.propertyName key.text = e.1

namespace Build

open List (Forall₂)

variable (build : ParseTree → Option String → Except BuildError Node)

/-- The value is built, and keeps its name. -/
def BuildsValue (e : String × ParseTree) (v : String × Node) : Prop :=
  v.1 = e.1 ∧ build e.2 none = .ok v.2

/-- What comes of an object with these names and values: either all values are built, and for each
name the last one is kept; or the first error of a value is the error of the object. -/
structure LastWins (span : Span) (entries : List (String × ParseTree))
    (result : Except BuildError Node) : Prop where
  built : ∀ values, Forall₂ (BuildsValue build) entries values →
    ∃ properties, result = .ok (.object properties span) ∧ Property.KeepLast values properties
  failed : ∀ before e after values error, entries = before ++ e :: after →
    Forall₂ (BuildsValue build) before values → build e.2 none = .error error →
      result = .error error

variable {build} {entries : List (String × ParseTree)} {values : List (String × Node)}
  {trees rest : List ParseTree} {known : List Property} {tree entry : ParseTree}
  {e : String × ParseTree}

theorem properties_enters (h : entry.Enters e) : properties build known (entry :: rest) = (do
    let value ← build e.2 none
    properties build (Property.put e.1 value known) rest) := by
  obtain ⟨hkind, key, hchildren, hname⟩ := h
  rw [properties_cons hkind hchildren, hname]

/-- Entries with values that are built leave their values behind. -/
theorem properties_append (h : Forall₂ ParseTree.Enters trees entries)
    (hvalues : Forall₂ (BuildsValue build) entries values) :
    properties build known (trees ++ rest) =
      properties build (Property.ofValues values known) rest := by
  induction h generalizing known values with
  | nil =>
    cases hvalues
    rfl
  | cons hentry _ ih =>
    cases hvalues with
    | cons hv hvalues =>
      rw [List.cons_append, properties_enters hentry, hv.2]
      refine (ih hvalues).trans ?_
      rw [Property.ofValues, Property.ofValues, List.foldl_cons, hv.1]

/-- The outcome for an object is that for its entries. -/
theorem within_object (hkind : tree.kind = .object) (limit levels : Nat) :
    (within limit (levels + 1) tree none : Except BuildError Node) = (do
      let properties ← properties (within limit levels) [] tree.children
      return .object properties tree.span) := by
  rw [within_succ, construct, hkind]
  exact object_eq_properties _ tree

theorem lastWins_object (hkind : tree.kind = .object)
    (hentries : Forall₂ ParseTree.Enters tree.children entries) (limit levels : Nat) :
    LastWins (within limit levels) tree.span entries (within limit (levels + 1) tree none) := by
  rw [within_object hkind]
  constructor
  case built =>
    intro values hvalues
    refine ⟨Property.ofValues values [], ?_, Property.keepLast_ofValues values⟩
    rw [← List.append_nil tree.children, properties_append hentries hvalues]
    rfl
  case failed =>
    rintro before e after values error rfl hbefore herror
    have hfront := List.forall₂_take_append _ _ _ hentries
    have hback := List.forall₂_drop_append _ _ _ hentries
    obtain ⟨entry, rest, hentry, -, hdrop⟩ := List.forall₂_cons_right_iff.1 hback
    rw [← List.take_append_drop before.length tree.children, properties_append hfront hbefore,
      hdrop, properties_enters hentry, herror]
    rfl

/-- An object with names and values has one property for each name, with the last value under it,
unless a value cannot be built. Without a level of nesting left, it is refused before its values. -/
theorem object_lastWins (hkind : tree.kind = .object)
    (hentries : Forall₂ ParseTree.Enters tree.children entries) (limit : Nat) :
    (within limit 0 tree none : Except BuildError Node) =
        .error (.nestingTooDeep limit tree.span) ∧
      ∀ levels, LastWins (within limit levels) tree.span entries
        (within limit (levels + 1) tree none) :=
  ⟨rfl, lastWins_object hkind hentries limit⟩

theorem object_lastWins_repeated : ∃ (tree : ParseTree) (x y z : ParseTree),
    Forall₂ ParseTree.Enters tree.children [("a", x), ("b", y), ("a", z)] ∧
      (within 2 0 tree none : Except BuildError Node) = .error (.nestingTooDeep 2 ⟨0, 30⟩) ∧
      ∀ levels, LastWins (within 2 levels) ⟨0, 30⟩ [("a", x), ("b", y), ("a", z)]
        (within 2 (levels + 1) tree none) := by
  have hentries : Forall₂ ParseTree.Enters
      [.group .namedValue ⟨1, 8⟩ [.leaf .identifier "a" ⟨1, 2⟩, .leaf .trueLiteral "true" ⟨4, 8⟩],
        .group .namedValue ⟨10, 17⟩
          [.leaf .identifier "b" ⟨10, 11⟩, .leaf .nullLiteral "null" ⟨13, 17⟩],
        .group .namedValue ⟨19, 29⟩
          [.leaf .stringLiteral "'a'" ⟨19, 22⟩, .leaf .falseLiteral "false" ⟨24, 29⟩]]
      [("a", .leaf .trueLiteral "true" ⟨4, 8⟩), ("b", .leaf .nullLiteral "null" ⟨13, 17⟩),
        ("a", .leaf .falseLiteral "false" ⟨24, 29⟩)] :=
    .cons ⟨rfl, _, rfl, by decide +kernel⟩ (.cons ⟨rfl, _, rfl, by decide +kernel⟩
      (.cons ⟨rfl, _, rfl, by decide +kernel⟩ .nil))
  exact ⟨.group .object ⟨0, 30⟩ _, _, _, _, hentries, object_lastWins rfl hentries 2⟩

end Build

end Ecma3
