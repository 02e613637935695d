import Mathlib.Data.List.Basic
import Ecma3.Ast.Json
import Ecma3.Proofs.Ast.Site
import Ecma3.Proofs.Json.Printer

/-!
The JSON of a syntax tree loses nothing of it: each part of a tree can be told from its JSON, and
without floats from the text of that as well.
-/
namespace Ecma3
open Json

/-! What the fields of nodes are written as. -/

@[simp] theorem Span.toJson_inj {a b : Span} : a.toJson = b.toJson ↔ a = b := by
  obtain ⟨start, stop⟩ := a
  obtain ⟨start', stop'⟩ := b
  constructor
  · intro h
    simp only [Span.toJson, Json.ofNat, obj.injEq, List.cons.injEq, Prod.mk.injEq, int.injEq,
      true_and, and_true] at h
    rw [Int.ofNat_inj.1 h.1, Int.ofNat_inj.1 h.2]
  · intro h
    rw [h]

@[simp] theorem Json.tagged_inj {kind kind' : String} {fields fields' : List (String × Json)}
    {span span' : Span} : tagged kind fields span = tagged kind' fields' span' ↔
      kind = kind' ∧ fields = fields' ∧ span = span' := by
  constructor
  · intro h
    simp only [tagged, List.cons_append, obj.injEq, List.cons.injEq, Prod.mk.injEq, str.injEq,
      true_and] at h
    obtain ⟨hkind, hrest⟩ := h
    obtain ⟨hfields, hspan⟩ := List.append_inj' hrest rfl
    exact ⟨hkind, hfields, by simpa using hspan⟩
  · rintro ⟨rfl, rfl, rfl⟩
    rfl

@[simp] theorem Json.optionalText_inj {a b : Option String} :
    optionalText a = optionalText b ↔ a = b := by
  cases a <;> cases b <;> simp [optionalText, ofOption]

@[simp] theorem Json.strings_inj {as bs : List String} : strings as = strings bs ↔ as = bs := by
  have hstr : Function.Injective Json.str := fun _ _ => str.inj
  simp [strings, hstr.list_map.eq_iff]

@[simp] theorem BinaryOperator.name_inj {a b : BinaryOperator} : a.name = b.name ↔ a = b := by
  have hall : ∀ a ∈ all, ∀ b ∈ all, a.name = b.name → a = b := by decide
  have hmem : ∀ o : BinaryOperator, o ∈ all := by
    intro o
    cases o <;> decide
  exact ⟨hall a (hmem a) b (hmem b), congrArg name⟩

@[simp] theorem UnaryOperator.name_inj {a b : UnaryOperator} : a.name = b.name ↔ a = b := by
  cases a <;> cases b <;> decide

@[simp] theorem LogicalOperator.name_inj {a b : LogicalOperator} : a.name = b.name ↔ a = b := by
  cases a <;> cases b <;> decide

@[simp] theorem StrictOperator.name_inj {a b : StrictOperator} : a.name = b.name ↔ a = b := by
  cases a <;> cases b <;> decide

@[simp] theorem PostfixOperator.name_inj {a b : PostfixOperator} : a.name = b.name ↔ a = b := by
  cases a <;> cases b <;> decide

@[simp] theorem WhileStyle.name_inj {a b : WhileStyle} : a.name = b.name ↔ a = b := by
  cases a <;> cases b <;> decide

/-! Lists of parts. -/

/-- A list can be told from what its elements are written as if each element can. -/
theorem map_eq_map {α : Type} {f : α → Json} {as bs : List α}
    (h : ∀ a ∈ as, ∀ b, f a = f b → a = b) (heq : as.map f = bs.map f) : as = bs := by
  induction as generalizing bs with
  | nil => exact (List.map_eq_nil_iff.1 heq.symm).symm
  | cons a as ih =>
    cases bs with
    | nil => cases heq
    | cons b bs =>
      obtain ⟨hhead, htail⟩ := List.cons.inj heq
      rw [h a List.mem_cons_self b hhead,
        ih (fun a ha => h a (List.mem_cons_of_mem _ ha)) htail]

/-- The JSON of a part of a tree. -/
def Site.json : Site → Json
  | .node n => n.toJson
  | .block b => obj b.fields
  | .case c =>
    obj [("test", c.test.toJson), ("body", obj c.body.fields), ("span", c.span.toJson)]
  | .handler c =>
    obj [("binding", str c.binding), ("body", obj c.body.fields), ("span", c.span.toJson)]

/-- The JSON of an element, which may be left out. -/
def elementJson : Option Node → Json
  | none => .null
  | some n => n.toJson

def Property.toJson (p : Property) : Json := obj [("name", str p.name), ("value", p.value.toJson)]

theorem nodeJsons_eq (nodes : List Node) : nodeJsons nodes = nodes.map Node.toJson := by
  induction nodes with
  | nil => rfl
  | cons n nodes ih => rw [nodeJsons, ih, List.map_cons]

theorem elementJsons_eq (elements : List (Option Node)) :
    elementJsons elements = elements.map elementJson := by
  induction elements with
  | nil => rfl
  | cons element elements ih => cases element <;> simp [elementJsons, elementJson, ih]

theorem propertyJsons_eq (properties : List Property) :
    propertyJsons properties = properties.map Property.toJson := by
  induction properties with
  | nil => rfl
  | cons p properties ih =>
    obtain ⟨name, value⟩ := p
    rw [propertyJsons, ih, List.map_cons, Property.toJson]

theorem caseJsons_eq (cases : List SwitchCase) :
    caseJsons cases = cases.map fun c => (Site.case c).json := by
  induction cases with
  | nil => rfl
  | cons c cases ih =>
    obtain ⟨test, body, span⟩ := c
    rw [caseJsons, ih, List.map_cons, Site.json]

theorem handlerJson_eq (handler : Option Catch) :
    handlerJson handler = handler.elim .null fun c => (Site.handler c).json := by
  rcases handler with _ | ⟨binding, body, span⟩ <;> rfl

namespace Node

variable {a b n : Node}

/-- The kind of a node comes first. -/
theorem toJson_eq_obj (n : Node) : ∃ rest, n.toJson = obj (("type", str n.kindName) :: rest) := by
  cases n
  case new arguments _ => cases arguments <;> exact ⟨_, rfl⟩
  case «if» alternate _ _ _ => cases alternate <;> exact ⟨_, rfl⟩
  all_goals exact ⟨_, rfl⟩

@[simp] theorem toJson_ne_null (n : Node) : n.toJson ≠ .null := by
  obtain ⟨rest, h⟩ := n.toJson_eq_obj
  rw [h]
  nofun

@[simp] theorem null_ne_toJson (n : Node) : .null ≠ n.toJson := n.toJson_ne_null.symm

/-- The names of all kinds, in the order of the constructors. -/
def kindNames : List String :=
  ["Identifier", "Integer", "Float", "String", "Boolean", "Null", "Regex", "Array", "Object",
    "Function", "Call", "New", "MemberAccess", "IndexAccess", "Assign", "AssignmentBlock", "Binary",
    "UnsignedRightShift", "Unary", "Logical", "StrictCompare", "InstanceOf", "In", "TypeOf", "Void",
    "Delete", "Postfix", "Return", "If", "Switch", "While", "ForStep", "ForIn", "Break", "Continue",
    "Try", "Block", "With", "Throw"]

/-- No two kinds have the same name. -/
theorem ctorIdx_eq (h : a.kindName = b.kindName) : a.ctorIdx = b.ctorIdx := by
  have hname : ∀ n : Node, kindNames[n.ctorIdx]? = some n.kindName := by
    intro n
    cases n <;> rfl
  have hlt : a.ctorIdx < kindNames.length := (List.getElem?_eq_some_iff.1 (hname a)).1
  have hdistinct : kindNames.Nodup := by decide
  exact (List.getElem?_inj hlt hdistinct).1 (by rw [hname a, hname b, h])

end Node

namespace Site

/-- No other part has the same JSON. -/
def Determined (p : Site) : Prop := ∀ q : Site, p.json = q.json → p = q

theorem Determined.node {n : Node} (h : (Site.node n).Determined) (m : Node) :
    n.toJson = m.toJson ↔ n = m := by
  constructor
  · intro heq
    exact Site.node.inj (h (.node m) heq)
  · rintro rfl
    rfl

theorem Determined.block {b : Block} (h : (Site.block b).Determined) (c : Block) :
    b.fields = c.fields ↔ b = c := by
  constructor
  · intro heq
    exact Site.block.inj (h (.block c) (congrArg obj heq))
  · rintro rfl
    rfl

theorem nodeJsons_inj {nodes nodes' : List Node} (h : ∀ q ∈ nodes.map Site.node, q.Determined) :
    nodeJsons nodes = nodeJsons nodes' ↔ nodes = nodes' := by
  rw [nodeJsons_eq, nodeJsons_eq]
  constructor
  · intro heq
    rw [List.forall_mem_map] at h
    exact map_eq_map (fun n hn m => ((h n hn).node m).1) heq
  · rintro rfl
    rfl

theorem elementJsons_inj {elements elements' : List (Option Node)}
    (h : ∀ q ∈ (elements.filterMap id).map Site.node, q.Determined) :
    elementJsons elements = elementJsons elements' ↔ elements = elements' := by
  rw [elementJsons_eq, elementJsons_eq]
  constructor
  · intro heq
    rw [List.forall_mem_map] at h
    refine map_eq_map (fun element helement element' heq => ?_) heq
    cases element with
    | none =>
      cases element' with
      | none => rfl
      | some m => exact absurd heq.symm m.toJson_ne_null
    | some n =>
      cases element' with
      | none => exact absurd heq n.toJson_ne_null
      | some m => 
        have hn : n ∈ elements.filterMap id := by simpa using helement
        exact congrArg some (((h n hn).node m).1 heq)
  · rintro rfl
    rfl

theorem propertyJsons_inj {properties properties' : List Property}
    (h : ∀ q ∈ properties.map fun p => Site.node p.value, q.Determined) :
    propertyJsons properties = propertyJsons properties' ↔ properties = properties' := by
  rw [propertyJsons_eq, propertyJsons_eq]
  constructor
  · intro heq
    rw [List.forall_mem_map] at h
    refine map_eq_map (fun p hp p' heq => ?_) heq
    obtain ⟨name, value⟩ := p
    obtain ⟨name', value'⟩ := p'
    simpa [Property.toJson, (h _ hp).node] using heq
  · rintro rfl
    rfl

theorem caseJsons_inj {cases cases' : List SwitchCase}
    (h : ∀ c ∈ cases, (Site.case c).Determined) :
    caseJsons cases = caseJsons cases' ↔ cases = cases' := by
  rw [caseJsons_eq, caseJsons_eq]
  constructor
  · intro heq
    exact map_eq_map (fun c hc c' heq => Site.case.inj (h c hc (.case c') heq)) heq
  · rintro rfl
    rfl

theorem handlerJson_inj {handler handler' : Option Catch}
    (h : ∀ q ∈ handler.toList.map Site.handler, q.Determined) :
    handlerJson handler = handlerJson handler' ↔ handler = handler' := by
  constructor
  · intro heq
    rw [handlerJson_eq, handlerJson_eq] at heq
    cases handler with
    | none =>
      cases handler' with
      | none => rfl
      | some c' => cases heq
    | some c =>
      cases handler' with
      | none => cases heq
      | some c' =>
        have hc := h (.handler c) List.mem_cons_self (.handler c') heq
        exact congrArg some (Site.handler.inj hc)
  · rintro rfl
    rfl

theorem cleanupJson_inj {cleanup cleanup' : Option Block}
    (h : ∀ q ∈ cleanup.toList.map Site.block, q.Determined) :
    cleanupJson cleanup = cleanupJson cleanup' ↔ cleanup = cleanup' := by
  cases cleanup with
  | none => cases cleanup' <;> simp [cleanupJson]
  | some b => 
    have hb : (Site.block b).Determined := h _ (by simp)
    cases cleanup' <;> simp [cleanupJson, hb.block]

theorem node_determined {a b : Node} (ih : ∀ q ∈ a.sites, q.Determined)
    (h : a.toJson = b.toJson) : a = b := by
  have hkind : a.ctorIdx = b.ctorIdx := by
    obtain ⟨rest, hrest⟩ := a.toJson_eq_obj
    obtain ⟨rest', hrest'⟩ := b.toJson_eq_obj
    rw [hrest, hrest'] at h
    simp only [obj.injEq, List.cons.injEq, Prod.mk.injEq, str.injEq, true_and] at h
    exact Node.ctorIdx_eq h.1
  cases a <;> cases b <;> cases hkind
  case array.array => simpa [Node.toJson, elementJsons_inj ih] using h
  case object.object => simpa [Node.toJson, propertyJsons_inj ih] using h
  case assignmentBlock.assignmentBlock =>
    simpa [Node.toJson, nodeJsons_inj ih, and_assoc] using h
  case function.function =>
    have hbody := ih _ List.mem_cons_self
    simpa [Node.toJson, hbody.block, and_assoc] using h
  case call.call =>
    obtain ⟨hcallee, harguments⟩ := List.forall_mem_cons.1 ih
    simpa [Node.toJson, hcallee.node, nodeJsons_inj harguments, and_assoc] using h
  case new.new arguments _ _ arguments' _ =>
    obtain ⟨hcallee, harguments⟩ := List.forall_mem_cons.1 ih
    cases arguments with
    | none =>
      cases arguments' with
      | none => simpa [Node.toJson, hcallee.node] using h
      | some _ => simp [Node.toJson] at h
    | some arguments =>
      have harguments : ∀ q ∈ arguments.map Site.node, q.Determined := harguments
      cases arguments' with
      | none => simp [Node.toJson] at h
      | some _ =>
        simpa [Node.toJson, hcallee.node, nodeJsons_inj harguments, and_assoc] using h
  case «if».if alternate _ _ _ _ _ alternate' _ _ _ =>
    simp only [Node.sites, Node.children, List.forall_mem_cons, List.forall_mem_map] at ih
    obtain ⟨htest, hconsequent, halternate⟩ := ih
    cases alternate with
    | none =>
      cases alternate' with
      | none => simpa [Node.toJson, htest.node, hconsequent.node, and_assoc] using h
      | some _ => simp [Node.toJson] at h
    | some alternate =>
      have halternate := halternate alternate List.mem_cons_self
      cases alternate' with
      | none => simp [Node.toJson] at h
      | some _ =>
        simpa [Node.toJson, htest.node, hconsequent.node, halternate.node, and_assoc] using h
  case switch.switch =>
    simp only [Node.sites, Node.children, List.forall_mem_append, List.forall_mem_cons] at ih
    obtain ⟨⟨hdiscriminant, hcases⟩, hdefault, -⟩ := ih
    have hcases := forall_mem_cases.1 hcases
    simpa [Node.toJson, hdiscriminant.node, caseJsons_inj hcases, hdefault.node, and_assoc] using h
  case «try».try =>
    simp only [Node.sites, Node.children, List.forall_mem_append, List.forall_mem_cons] at ih
    obtain ⟨⟨hbody, hhandler⟩, hcleanup⟩ := ih
    simpa [Node.toJson, hbody.block, handlerJson_inj hhandler, cleanupJson_inj hcleanup, and_assoc]
      using h
  case block.block =>
    have hbody := ih _ List.mem_cons_self
    simpa [Node.toJson, hbody.block] using h
  case forIn.forIn =>
    simp only [Node.sites, Node.children, List.forall_mem_cons] at ih
    obtain ⟨htarget, hholder, hbody, -⟩ := ih
    simpa [Node.toJson, htarget.node, hholder.node, hbody.node, and_assoc] using h
  case forStep.forStep =>
    simp only [Node.sites, Node.children, List.forall_mem_cons] at ih
    obtain ⟨hinit, htest, hincrement, hbody, -⟩ := ih
    simpa [Node.toJson, hinit.node, htest.node, hincrement.node, hbody.node, and_assoc] using h
  -- nodes around two others
  case' indexAccess.indexAccess | assign.assign | binary.binary
    | unsignedRightShift.unsignedRightShift | logical.logical | strictCompare.strictCompare
    | instanceOf.instanceOf | membership.membership | «while».while | «with».with =>
    simp only [Node.sites, Node.children, List.forall_mem_cons] at ih
    obtain ⟨hleft, hright, -⟩ := ih
    simpa [Node.toJson, hleft.node, hright.node, and_assoc] using h
  -- nodes around one other
  case' memberAccess.memberAccess | unary.unary | typeOf.typeOf | void.void | delete.delete
    | postfixStep.postfixStep | «return».return | «throw».throw =>
    have hoperand := ih _ List.mem_cons_self
    simpa [Node.toJson, hoperand.node, and_assoc] using h
  -- nodes around none
  all_goals simpa [Node.toJson, Int32.toInt_inj, and_assoc] using h

/-- The name of the field that the JSON of a part begins with. -/
def key : Site → String
  | .node _ => "type"
  | .block _ => "statements"
  | .case _ => "test"
  | .handler _ => "binding"

theorem json_eq_obj (p : Site) : ∃ value rest, p.json = obj ((p.key, value) :: rest) := by
  cases p with
  | node n =>
    obtain ⟨rest, h⟩ := n.toJson_eq_obj
    exact ⟨_, rest, h⟩
  | block b =>
    obtain ⟨statements, label, span⟩ := b
    exact ⟨_, _, rfl⟩
  | case c => exact ⟨_, _, rfl⟩
  | handler c => exact ⟨_, _, rfl⟩

theorem determined (p : Site) : p.Determined := by
  induction p using Site.induction with
  | step p ih =>
    intro q h
    have hkey : p.key = q.key := by
      obtain ⟨value, rest, hp⟩ := p.json_eq_obj
      obtain ⟨value', rest', hq⟩ := q.json_eq_obj
      rw [hp, hq] at h
      simp only [obj.injEq, List.cons.injEq, Prod.mk.injEq] at h
      exact h.1.1
    cases p <;> cases q <;> simp [key] at hkey
    case node.node => exact congrArg Site.node (node_determined ih h)
    case block.block b b' =>
      obtain ⟨statements, label, span⟩ := b
      obtain ⟨statements', label', span'⟩ := b'
      have hstatements : ∀ q ∈ statements.map Site.node, q.Determined := ih
      simpa [json, Block.fields, nodeJsons_inj hstatements] using h
    case case.case c c' =>
      obtain ⟨test, body, span⟩ := c
      obtain ⟨test', body', span'⟩ := c'
      have htest : (Site.node test).Determined := ih _ List.mem_cons_self
      have hbody : (Site.block body).Determined := ih _ (List.mem_cons_of_mem _ List.mem_cons_self)
      simpa [json, htest.node, hbody.block] using h
    case handler.handler c c' =>
      obtain ⟨binding, body, span⟩ := c
      obtain ⟨binding', body', span'⟩ := c'
      have hbody : (Site.block body).Determined := ih _ List.mem_cons_self
      simpa [json, hbody.block] using h

theorem json_injective : Function.Injective Site.json := fun p q h => p.determined q h

end Site

end Ecma3
