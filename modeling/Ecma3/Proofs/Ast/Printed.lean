import Ecma3.Proofs.Ast.Json

/-! The text of a syntax tree without floats loses nothing of it. -/
namespace Ecma3
open Json

namespace Json

@[simp] theorem plain_null : Plain .null := .null

@[simp] theorem plain_bool (value : Bool) : Plain (.bool value) := .bool value

@[simp] theorem plain_int (value : Int) : Plain (.int value) := .int value

@[simp] theorem plain_str (text : String) : Plain (.str text) := .str text

@[simp] theorem plain_arr {elements : List Json} :
    (arr elements).Plain ↔ ∀ j ∈ elements, j.Plain := by
  constructor
  · rintro ⟨h⟩
    assumption
  · exact .arr

@[simp] theorem plain_obj {members : List (String × Json)} :
    (obj members).Plain ↔ ∀ m ∈ members, m.2.Plain := by
  constructor
  · rintro ⟨h⟩
    assumption
  · exact .obj

@[simp] theorem plain_optionalText (text : Option String) : (optionalText text).Plain := by
  cases text <;> simp [optionalText, ofOption]

@[simp] theorem plain_strings (texts : List String) : (strings texts).Plain := by
  simp [strings]

@[simp] theorem plain_span (span : Span) : span.toJson.Plain := by
  simp [Span.toJson, ofNat]

@[simp] theorem plain_tagged {kind : String} {fields : List (String × Json)} {span : Span} :
    (tagged kind fields span).Plain ↔ ∀ m ∈ fields, m.2.Plain := by
  simp [tagged, or_imp, forall_and]

end Json

/-- The part has no floats in it. -/
def Site.FloatFree (p : Site) : Prop := p.Everywhere fun n => ∀ value span, n ≠ .float value span

namespace Site

theorem plain_node {n : Node} (hown : ∀ value span, n ≠ .float value span)
    (ih : ∀ q ∈ n.sites, q.json.Plain) : n.toJson.Plain := by
  cases n
  case float value span => exact absurd rfl (hown value span)
  case array elements _ =>
    have helements : ∀ element ∈ elements, (elementJson element).Plain := by
      intro element helement
      cases element with
      | none => exact .null
      | some x => exact ih (.node x) (by simpa using helement)
    simpa [Node.toJson, elementJsons_eq] using helements
  case object => simpa [Node.toJson, propertyJsons_eq, Property.toJson, json] using ih
  case assignmentBlock => simpa [Node.toJson, nodeJsons_eq, json] using ih
  case call => simpa [Node.toJson, nodeJsons_eq, json] using ih
  case new arguments _ =>
    cases arguments <;> simpa [Node.toJson, nodeJsons_eq, json] using ih
  case «if» alternate _ _ _ =>
    cases alternate <;> simpa [Node.toJson, json] using ih
  case switch =>
    simp only [Node.sites, Node.children, List.forall_mem_append, List.forall_mem_cons,
      forall_mem_cases] at ih
    obtain ⟨⟨hdiscriminant, hcases⟩, hdefault, -⟩ := ih
    simpa [Node.toJson, caseJsons_eq] using ⟨hdiscriminant, hcases, hdefault⟩
  case «try» body handler cleanup _ _ =>
    cases handler <;> cases cleanup <;>
      simpa [Node.toJson, handlerJson_eq, cleanupJson, json] using ih
  case block content =>
    obtain ⟨statements, label, span⟩ := content
    simpa [Node.toJson, Block.fields, nodeJsons_eq, json] using ih
  -- nodes around none
  case identifier | integer | string | boolean | null | regex | «break» | «continue» =>
    simp [Node.toJson]
  -- nodes around a fixed number of others, or around a block
  all_goals simpa [Node.toJson, json] using ih

/-- By induction on the part: its own fields are no floats, and the others are in the parts inside. -/
theorem plain_json {p : Site} (h : p.FloatFree) : p.json.Plain := by
  induction p using Site.induction with
  | step p ih =>
    have ih : ∀ q ∈ p.inner, q.json.Plain := fun q hq => ih q hq (h.inner q hq)
    cases p with
    | node n => exact plain_node h.own ih
    | block b =>
      obtain ⟨statements, label, span⟩ := b
      simpa [json, Block.fields, nodeJsons_eq] using ih
    | case c => simpa [json] using ih
    | handler c => simpa [json] using ih

end Site

namespace Node

/-- The node has no floats in it. -/
def FloatFree (n : Node) : Prop := (Site.node n).FloatFree

theorem plain_programJson {nodes : List Node} (h : ∀ n ∈ nodes, n.FloatFree) :
    (programJson nodes).Plain := by
  have hjsons : ∀ n ∈ nodes, n.toJson.Plain := fun n hn => Site.plain_json (h n hn)
  simpa [programJson, nodeJsons_eq] using hjsons

/-- Nodes without floats that are printed as the same text are the same, and so are programs of such
nodes: neither what is left out, nor how texts are written or lines are broken, can be mistaken for
anything else. -/
theorem pretty_inj :
    (∀ a b : Node, a.FloatFree → b.FloatFree → a.toJson.pretty = b.toJson.pretty → a = b) ∧
    ∀ as bs : List Node, (∀ a ∈ as, a.FloatFree) → (∀ b ∈ bs, b.FloatFree) →
      (programJson as).pretty = (programJson bs).pretty → as = bs := by
  constructor
  · intro a b ha hb h
    have hjson := render_inj (Site.plain_json ha) (Site.plain_json hb) h
    exact Site.node.inj (Site.json_injective hjson)
  · intro as bs has hbs h
    have hjson := render_inj (plain_programJson has) (plain_programJson hbs) h
    exact (Site.nodeJsons_inj fun q _ => q.determined).1 (Json.arr.inj hjson)

/-- An element that is left out beside a string of a quote, which is escaped. -/
theorem pretty_inj_quote : ∃ a b : Node, a.FloatFree ∧ b.FloatFree ∧
    a.toJson.pretty = b.toJson.pretty ∧ a = b ∧
    (programJson [a, b]).pretty = (programJson [b, a]).pretty ∧ [a, b] = [b, a] := by
  let place : Span := ⟨0, 5⟩
  let list (text : String) : Node := .array [none, some (.string text '\'' place)] place
  have hfree : ∀ text, (list text).FloatFree := by
    intro text
    have hstring : (Site.node (.string text '\'' place)).FloatFree :=
      Site.Everywhere.intro (by rintro _ ⟨⟩; nofun) nofun
    exact Site.Everywhere.intro (by rintro _ ⟨⟩; nofun) (List.forall_mem_singleton.2 hstring)
  have ha := hfree "\""
  have hb := hfree (String.singleton '"')
  have hall : ∀ n ∈ [list "\"", list (String.singleton '"')], n.FloatFree :=
    List.forall_mem_cons.2 ⟨ha, List.forall_mem_singleton.2 hb⟩
  have hall' : ∀ n ∈ [list (String.singleton '"'), list "\""], n.FloatFree :=
    List.forall_mem_cons.2 ⟨hb, List.forall_mem_singleton.2 ha⟩
  exact ⟨list "\"", list (String.singleton '"'), ha, hb, rfl, pretty_inj.1 _ _ ha hb rfl, rfl,
    pretty_inj.2 _ _ hall hall' rfl⟩

end Node
end Ecma3
