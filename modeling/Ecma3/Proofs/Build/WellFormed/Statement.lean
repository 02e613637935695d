import Ecma3.Proofs.Build.WellFormed

/-! The constructions of statements make well-formed nodes, and so do all constructions together. -/
namespace Ecma3.Build

open List (Forall₂ forall_mem_append forall_mem_cons forall_mem_map forall_mem_singleton)

variable {tree : ParseTree} {node x : Node} {nodes : List Node} {label : Option String}
  {limit : Nat} {build : ParseTree → Option String → Except BuildError Node}

section

variable (hbuild : ∀ t x, Builds build t x → (Site.node x).Sound)
include hbuild

theorem sound_grouping (h : grouping build tree label = .ok node) : (Site.node node).Sound := by
  obtain ⟨content, _, -, hcontent⟩ := grouping_eq_ok h
  exact hbuild content node ⟨label, hcontent⟩

theorem sound_labelled (h : labelled build tree label = .ok node) : (Site.node node).Sound := by
  obtain ⟨_, target, _, -, htarget⟩ := labelled_eq_ok h
  exact hbuild target node ⟨_, htarget⟩

theorem sound_blockStatement (h : Node.block <$> block build tree label = .ok node) :
    (Site.node node).Sound := by
  obtain ⟨content, hcontent, rfl⟩ := map_eq_ok h
  exact Site.sound_node trivial (forall_mem_singleton.2 (sound_block hbuild hcontent))

theorem sound_declarator (h : MadeDeclarator (Builds build) tree node) :
    (Site.node node).Sound := by
  cases h with
  | name => exact sound_empty trivial rfl
  | named _ hx =>
    have hname : ∀ name span, (Site.node (.identifier name true span)).Sound :=
      fun _ _ => sound_empty trivial rfl
    exact sound_two trivial rfl (hname _ _) (hbuild _ _ hx)
  | assign _ hx hy => exact sound_two trivial rfl (hbuild _ _ hx) (hbuild _ _ hy)
  | other hx => exact hbuild _ _ hx

/-- A single declarator stands for itself, so a block of them has at least two. -/
theorem sound_var (h : var build tree = .ok node) : (Site.node node).Sound := by
  obtain ⟨nodes, hnodes, hnode⟩ := var_eq_ok h
  have hsound := forall_mem_right (made_declarators hnodes) fun _ _ => sound_declarator hbuild
  rcases hnode with rfl | ⟨htwo, rfl⟩
  · exact hsound node List.mem_cons_self
  · have hown : (Node.assignmentBlock nodes true tree.span).WellFormed := fun _ => htwo
    exact Site.sound_node hown (forall_mem_map.2 hsound)

/-- A conditional expression takes no label and must have an alternate; an `if` need not. -/
theorem sound_conditional (hlabel : tree.kind = .conditional → label = none)
    (h : conditional build tree label = .ok node) : (Site.node node).Sound := by
  obtain ⟨test, consequent, _, x, y, alternate, -, hx, hy, halternate, rfl⟩ := conditional_eq_ok h
  have hx := hbuild test x ⟨none, hx⟩
  have hy := hbuild consequent y ⟨none, hy⟩
  have hz : (tree.kind = .conditional → alternate.isSome) ∧
      ∀ z ∈ alternate, (Site.node z).Sound := by
    rcases halternate with ⟨-, hkind, rfl⟩ | ⟨other, _, z, -, hz, rfl⟩
    · exact ⟨fun hternary => absurd hternary hkind, nofun⟩
    · refine ⟨fun _ => rfl, ?_⟩
      rintro _ ⟨⟩
      exact hbuild other z ⟨none, hz⟩
  have hown : (Node.«if» x y alternate (tree.kind = .conditional) label tree.span).WellFormed := by
    intro hternary
    have hkind := of_decide_eq_true hternary
    exact ⟨hz.1 hkind, hlabel hkind⟩
  apply Site.sound_node hown
  exact forall_mem_cons.2 ⟨hx, forall_mem_cons.2 ⟨hy, by simpa using hz.2⟩⟩

theorem sound_whileLoop (h : whileLoop build tree label = .ok node) : (Site.node node).Sound := by
  obtain ⟨x, y, hpair, hnode⟩ := whileLoop_eq_ok h
  obtain ⟨hx, hy⟩ := sound_pair hbuild hpair
  rcases hnode with rfl | rfl
  · exact sound_two trivial rfl hy hx
  · exact sound_two trivial rfl hx hy

theorem sound_withStatement (h : withStatement build tree label = .ok node) :
    (Site.node node).Sound := by
  obtain ⟨x, y, hpair, rfl⟩ := withStatement_eq_ok h
  obtain ⟨hx, hy⟩ := sound_pair hbuild hpair
  exact sound_two trivial rfl hx hy

theorem sound_jump (h : jump build tree = .ok node) : (Site.node node).Sound := by
  rcases jump_eq_ok h with ⟨value, _, x, -, hx, hnode⟩ | ⟨-, -, rfl⟩ | ⟨-, -, _, rfl | rfl⟩
  · have hx := hbuild value x ⟨none, hx⟩
    rcases hnode with ⟨-, rfl⟩ | ⟨-, rfl⟩ <;> exact sound_one trivial rfl hx
  · have hnull : (Site.node (.null tree.span)).Sound := sound_empty trivial rfl
    exact sound_one trivial rfl hnull
  · exact sound_empty trivial rfl
  · exact sound_empty trivial rfl

/-- The clauses of a `switch` give unlabelled bodies, and a default that is a block of its own. -/
theorem sound_clauses {cases : List SwitchCase} {default : Option Node} {trees : List ParseTree}
    {found : List SwitchCase × Option Node}
    (h : MadeClauses (Builds build) cases default trees found)
    (hcases : ∀ c ∈ cases, c.body.label = none ∧ (Site.case c).Sound)
    (hdefault : ∀ x ∈ default, ∃ content : Block,
      x = .block content ∧ content.label = none ∧ (Site.block content).Sound) :
    (∀ c ∈ found.1, c.body.label = none ∧ (Site.case c).Sound) ∧
      ∀ x ∈ found.2, ∃ content : Block,
        x = .block content ∧ content.label = none ∧ (Site.block content).Sound := by
  induction h with
  | nil => exact ⟨hcases, hdefault⟩
  | case _ htest hbody _ ih =>
    apply ih _ hdefault
    apply forall_mem_append.2 ⟨hcases, forall_mem_singleton.2 ⟨rfl, _⟩⟩
    exact Site.sound_case (hbuild _ _ htest) (Site.sound_block (forall_mem_right hbody hbuild))
  | default hnodes _ ih =>
    apply ih hcases
    rintro _ ⟨⟩
    exact ⟨_, rfl, rfl, Site.sound_block (forall_mem_right hnodes hbuild)⟩

theorem sound_switch (h : switch build tree label = .ok node) : (Site.node node).Sound := by
  obtain ⟨discriminant, _, x, cases, default, -, hx, hclauses, rfl⟩ := switch_eq_ok h
  obtain ⟨hcases, hdefault⟩ := sound_clauses hbuild (made_clauses hclauses) nofun nofun
  have hlast : ∀ y, y = default.getD (.null tree.span) →
      Node.ProperDefault (.switch x cases y label tree.span) y ∧ (Site.node y).Sound := by
    rintro y rfl
    cases default with
    | none => exact ⟨⟨Or.inl rfl, by simp [Node.hasDefault, Node.isNull], rfl⟩, sound_empty trivial rfl⟩
    | some y =>
      obtain ⟨content, rfl, hlabel, hsound⟩ := hdefault y rfl
      refine ⟨⟨Or.inr ⟨content, rfl⟩, ?_, hlabel⟩, ?_⟩
      · simp [Node.hasDefault, Node.isNull]
      · exact Site.sound_node trivial (forall_mem_singleton.2 hsound)
  obtain ⟨hproper, hsound⟩ := hlast _ rfl
  apply Site.sound_node (n := .switch x cases _ label tree.span)
    ⟨hproper, fun c hc => (hcases c hc).1⟩
  apply forall_mem_cons.2 ⟨hbuild discriminant x ⟨none, hx⟩, forall_mem_append.2 ⟨_, _⟩⟩
  · exact Site.forall_mem_cases.2 fun c hc => (hcases c hc).2
  · exact forall_mem_singleton.2 hsound

/-- The blocks of both clauses of a `try` have no label. -/
theorem sound_handlers {handler : Option Catch} {cleanup : Option Block} {trees : List ParseTree}
    {found : Option Catch × Option Block} (h : handlers build handler cleanup trees = .ok found)
    (hhandler : ∀ c ∈ handler, c.body.label = none ∧ (Site.handler c).Sound)
    (hcleanup : ∀ b ∈ cleanup, b.label = none ∧ (Site.block b).Sound) :
    (∀ c ∈ found.1, c.body.label = none ∧ (Site.handler c).Sound) ∧
      ∀ b ∈ found.2, b.label = none ∧ (Site.block b).Sound := by
  induction trees generalizing handler cleanup with
  | nil =>
    cases h
    exact ⟨hhandler, hcleanup⟩
  | cons clause trees ih =>
    rcases handlers_cons_eq_ok h with
      ⟨_, _, _, content, -, -, hcontent, h⟩ | ⟨_, _, content, -, -, hcontent, h⟩
    · apply ih h _ hcleanup
      rintro _ ⟨⟩
      exact ⟨label_of_block hcontent, Site.sound_handler (sound_block hbuild hcontent)⟩
    · apply ih h hhandler
      rintro _ ⟨⟩
      exact ⟨label_of_block hcontent, sound_block hbuild hcontent⟩

theorem sound_tryStatement (h : tryStatement build tree label = .ok node) :
    (Site.node node).Sound := by
  obtain ⟨_, _, body, handler, cleanup, -, hbody, hclauses, rfl⟩ := tryStatement_eq_ok h
  obtain ⟨hhandler, hcleanup⟩ := sound_handlers hbuild hclauses nofun nofun
  have hown : (Node.«try» body handler cleanup label tree.span).WellFormed :=
    ⟨label_of_block hbody, fun c hc => (hhandler c hc).1, fun b hb => (hcleanup b hb).1⟩
  apply Site.sound_node hown
  apply forall_mem_cons.2 ⟨sound_block hbuild hbody, forall_mem_append.2 ⟨_, _⟩⟩
  · exact forall_mem_map.2 fun c hc => (hhandler c (Option.mem_toList.1 hc)).2
  · exact forall_mem_map.2 fun b hb => (hcleanup b (Option.mem_toList.1 hb)).2

theorem sound_clause {missing : Span → Node} (hmissing : ∀ span, (Site.node (missing span)).Sound)
    (h : clause build missing tree = .ok node) : (Site.node node).Sound := by
  rcases clause_eq_ok h with ⟨-, -, rfl⟩ | ⟨content, _, -, -, hx⟩ | ⟨-, hx⟩
  · exact hmissing tree.span
  · exact hbuild content node ⟨none, hx⟩
  · exact hbuild tree node ⟨none, hx⟩

theorem sound_forLoop (h : forLoop build tree label = .ok node) : (Site.node node).Sound := by
  have hnull : ∀ span, (Site.node (.null span)).Sound := fun _ => sound_empty trivial rfl
  have htrue : ∀ span, (Site.node (.boolean true span)).Sound := fun _ => sound_empty trivial rfl
  obtain ⟨_, body, _, w, -, hw, hloop⟩ := forLoop_eq_ok h
  have hw := hbuild body w ⟨none, hw⟩
  rcases hloop with ⟨_, _, _, _, x, y, z, -, -, hx, hy, hz, rfl⟩ | ⟨_, _, _, x, y, -, -, hx, hy, rfl⟩
  · have hx := sound_clause hbuild hnull hx
    have hy := sound_clause hbuild htrue hy
    have hz := sound_clause hbuild hnull hz
    have hsites : ∀ q ∈ [Site.node x, .node y, .node z, .node w], q.Sound := by
      simpa using ⟨hx, hy, hz, hw⟩
    exact Site.sound_node trivial hsites
  · have hx := sound_clause hbuild hnull hx
    have hy := sound_clause hbuild hnull hy
    have hsites : ∀ q ∈ [Site.node x, .node y, .node w], q.Sound := by
      simpa using ⟨hx, hy, hw⟩
    exact Site.sound_node trivial hsites

/-! All constructions. -/

theorem sound_construct (hlabel : tree.kind = .conditional → label = none)
    (h : construct build tree label = .ok node) : (Site.node node).Sound := by
  obtain ⟨c, hc, hconstruct⟩ := exists_constructs tree.kind
  rw [hconstruct rfl] at h
  cases hc with
  | grouping => exact sound_grouping hbuild h
  | labelled => exact sound_labelled hbuild h
  | block => exact sound_blockStatement hbuild h
  | var => exact sound_var hbuild h
  | sequence => exact sound_sequence hbuild h
  | object => exact sound_object hbuild h
  | array => exact sound_array hbuild h
  | function => exact sound_function hbuild h
  | call => exact sound_call hbuild h
  | new => exact sound_new hbuild h
  | access => exact sound_access hbuild h
  | conditional => exact sound_conditional hbuild hlabel h
  | switch => exact sound_switch hbuild h
  | tryStatement => exact sound_tryStatement hbuild h
  | whileLoop => exact sound_whileLoop hbuild h
  | forLoop => exact sound_forLoop hbuild h
  | withStatement => exact sound_withStatement hbuild h
  | jump => exact sound_jump hbuild h
  | leaf => exact sound_leaf h
  | assignment => exact sound_assignment hbuild h
  | binary => exact sound_binary hbuild h
  | step => exact sound_step hbuild h
  | unary => exact sound_unary hbuild h
  | unsupported => cases h

theorem sound_visit (h : visit build tree label = .ok node) : (Site.node node).Sound := by
  obtain ⟨hconstruct, hlabel⟩ := visit_eq_ok h
  refine sound_construct hbuild (fun hkind => hlabel.resolve_right ?_) hconstruct
  simp [hkind, takesLabel]

end

/-- However many levels are left, whatever is built is sound. -/
theorem sound_within (levels : Nat) :
    ∀ t x, Builds (within limit levels) t x → (Site.node x).Sound := by
  induction levels with
  | zero =>
    rintro t x ⟨label, h⟩
    cases h
  | succ levels ih =>
    rintro t x ⟨label, h⟩
    exact sound_visit ih h

/-- Any tree at all that is built under any limit is built into nodes that are well formed, with
everything inside them. -/
theorem program_wellFormed {root : Option ParseTree}
    (h : (program limit root : Except BuildError (List Node)) = .ok nodes) :
    ∀ node ∈ nodes, ∀ n, (Site.node node).IsWithin (.node n) → n.WellFormed := by
  cases root with
  | none =>
    cases h
    have hnull : (Site.node (.null ⟨0, 0⟩)).Sound := sound_empty trivial rfl
    exact forall_mem_singleton.2 hnull
  | some root =>
    rcases program_eq_ok h with ⟨-, hall⟩ | ⟨built, hbuilt, rfl⟩
    · exact sound_all (sound_within limit) hall
    · exact forall_mem_singleton.2 (sound_within limit root built ⟨none, hbuilt⟩)

/-- Two declarators, and a `switch` whose one clause is its default and declares the name again. -/
theorem program_wellFormed_switch : ∃ (root : ParseTree) (first second : Node),
    (program 3 (some root) : Except BuildError (List Node)) = .ok [first, second] ∧
    second.hasDefault = true ∧
    ∀ node ∈ [first, second], ∀ n, (Site.node node).IsWithin (.node n) → n.WellFormed := by
  let place : Span := ⟨0, 0⟩
  let name : ParseTree := ⟨.identifier, "a", place, []⟩
  let var : ParseTree := ⟨.var, "", place, [name, name]⟩
  let switch : ParseTree := ⟨.switch, "", place, [name, ⟨.«default», "", place, [var]⟩]⟩
  let root : ParseTree := ⟨.unit, "", place, [var, switch]⟩
  let declared : Node := .identifier "a" true place
  let first : Node := .assignmentBlock [declared, declared] true place
  let second : Node :=
    .switch (.identifier "a" false place) [] (.block ⟨[first], none, place⟩) none place
  have hbuilt : (program 3 (some root) : Except BuildError (List Node)) = .ok [first, second] := rfl
  exact ⟨root, first, second, hbuilt, rfl, program_wellFormed hbuilt⟩

end Ecma3.Build
