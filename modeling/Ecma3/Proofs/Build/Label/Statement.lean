import Ecma3.Proofs.Build.Inversion.Statement
import Ecma3.Proofs.Build.Label

/-! The labels of statements, and of what all constructions together make. -/
namespace Ecma3

/-- What leaves no node: labels, and brackets around a statement or an expression. -/
def Kind.isWrapper : Kind → Bool
  | .labelled | .expression | .parenthesized => true
  | _ => false

/-- The statements that can have a label. -/
def Kind.isLabelable : Kind → Bool
  | .block | .«if» | .switch | .«while» | .«do» | .«for» | .«try» | .«with» => true
  | _ => false

/-- What has a label is no expression. -/
theorem Kind.isLabelable_of_strength? {kind : Kind} {n : Nat} (h : kind.strength? = some n) :
    kind.isLabelable = false := by
  cases kind <;> first | rfl | cases h

theorem Kind.isLabelable_of_isAtom {kind : Kind} (h : kind.isAtom = true) :
    kind.isLabelable = false := by
  cases kind <;> first | rfl | cases h

theorem Kind.isWrapper_cases {kind : Kind} (h : kind.isWrapper = true) :
    kind = .labelled ∨ kind = .expression ∨ kind = .parenthesized := by
  unfold isWrapper at h
  split at h
  · exact .inl rfl
  · exact .inr (.inl rfl)
  · exact .inr (.inr rfl)
  · cases h

namespace Build
open ParseTree

variable {tree : ParseTree} {node : Node} {nodes : List Node} {label : Option String}
  {trees : List ParseTree}
  {T : ParseTree → Prop} {P : Node → Prop}
  {build : ParseTree → Option String → Except BuildError Node}

theorem takesLabel_eq (kind : Kind) : takesLabel kind = (kind.isLabelable || kind.isWrapper) := by
  cases kind <;> rfl

section

variable (h : Tracks T P build)
include h

theorem carries_jump (htree : T tree) (hnode : jump build tree = .ok node) :
    Carries P none node := by
  rcases jump_eq_ok hnode with
    ⟨value, _, x, hchildren, hx, hnode⟩ | ⟨-, -, rfl⟩ | ⟨-, -, _, rfl | rfl⟩
  · have hx := h.built value (h.inside tree htree value (by simp [hchildren])) x hx
    rcases hnode with ⟨-, rfl⟩ | ⟨-, rfl⟩ <;> exact ⟨rfl, marked_one hx⟩
  · exact ⟨rfl, marked_one carries_null.marked⟩
  · exact ⟨rfl, nofun⟩
  · exact ⟨rfl, nofun⟩

theorem carries_declarator (htree : T tree) (hdeclarator : tree.IsDeclarator)
    (hnode : declarator build tree = .ok node) : Carries P none node := by
  rcases declared_eq_ok hdeclarator hnode with ⟨-, rfl⟩ | ⟨_, value, y, -, hchildren, -, hy, rfl⟩
  · exact ⟨rfl, nofun⟩
  · have hname : ∀ name span, (Piece.node (.identifier name true span)).Marked P := fun _ _ =>
      Carries.marked ⟨rfl, nofun⟩
    have hvalue := h.inside tree htree value (by simp [hchildren])
    exact ⟨rfl, marked_two (hname _ _) (h.built value hvalue y hy)⟩

theorem carries_declarators (htrees : ∀ t ∈ trees, T t ∧ t.IsDeclarator)
    (hnodes : declarators build trees = .ok nodes) : ∀ x ∈ nodes, Carries P none x := by
  induction trees generalizing nodes with
  | nil =>
    cases hnodes
    exact nofun
  | cons t trees ih =>
    rw [List.forall_mem_cons] at htrees
    obtain ⟨x, rest, hx, hrest, rfl⟩ := declarators_cons_eq_ok hnodes
    have hfirst := carries_declarator h htrees.1.1 htrees.1.2 hx
    exact List.forall_mem_cons.2 ⟨hfirst, ih htrees.2 hrest⟩

theorem carries_var (htree : T tree) (hkind : tree.kind = .var)
    (hnode : var build tree = .ok node) : Carries P none node := by
  have hshape := (h.wellFormed tree htree).root
  rw [Shape, hkind] at hshape
  have htrees : ∀ t ∈ tree.children, T t ∧ t.IsDeclarator := fun t ht =>
    ⟨h.inside tree htree t ht, hshape.2 t ht⟩
  obtain ⟨nodes, hnodes, hnode⟩ := var_eq_ok hnode
  have hnodes := carries_declarators h htrees hnodes
  rcases hnode with rfl | ⟨-, rfl⟩
  · exact hnodes node List.mem_cons_self
  · exact ⟨rfl, List.forall_mem_map.2 fun x hx => (hnodes x hx).marked⟩

theorem carries_conditional (htree : T tree) (hnode : conditional build tree label = .ok node) :
    Carries P label node := by
  obtain ⟨test, consequent, rest, x, y, alternate, hchildren, hx, hy, halternate, rfl⟩ :=
    conditional_eq_ok hnode
  have hinside := h.inside tree htree
  rw [hchildren, List.forall_mem_cons, List.forall_mem_cons] at hinside
  have hx := h.built test hinside.1 x hx
  have hy := h.built consequent hinside.2.1 y hy
  have hz : ∀ z ∈ alternate, (Piece.node z).Marked P := by
    rcases halternate with ⟨-, -, rfl⟩ | ⟨other, _, z, rfl, hz, rfl⟩
    · exact nofun
    · rintro _ ⟨⟩
      exact h.built other (hinside.2.2 other List.mem_cons_self) z hz
  refine ⟨rfl, List.forall_mem_cons.2 ⟨hx, List.forall_mem_cons.2 ⟨hy, ?_⟩⟩⟩
  exact List.forall_mem_map.2 fun z hmem => hz z (Option.mem_toList.1 hmem)

theorem carries_whileLoop (htree : T tree) (hnode : whileLoop build tree label = .ok node) :
    Carries P label node := by
  obtain ⟨x, y, hpair, hnode⟩ := whileLoop_eq_ok hnode
  obtain ⟨hx, hy⟩ := marked_pair h htree hpair
  rcases hnode with rfl | rfl
  · exact ⟨rfl, marked_two hy hx⟩
  · exact ⟨rfl, marked_two hx hy⟩

theorem carries_withStatement (htree : T tree)
    (hnode : withStatement build tree label = .ok node) : Carries P label node := by
  obtain ⟨x, y, hpair, rfl⟩ := withStatement_eq_ok hnode
  obtain ⟨hx, hy⟩ := marked_pair h htree hpair
  exact ⟨rfl, marked_two hx hy⟩

theorem marked_clauses {cases : List SwitchCase} {default : Option Node}
    {found : List SwitchCase × Option Node} (htrees : ∀ t ∈ trees, T t)
    (hcases : ∀ c ∈ cases, (Piece.node c.test).Marked P ∧ (Piece.block c.body).Marked P)
    (hdefault : ∀ x ∈ default, (Piece.node x).Marked P)
    (hfound : clauses build tree cases default trees = .ok found) :
    (∀ c ∈ found.1, (Piece.node c.test).Marked P ∧ (Piece.block c.body).Marked P) ∧
      ∀ x ∈ found.2, (Piece.node x).Marked P := by
  induction trees generalizing cases default with
  | nil =>
    cases hfound
    exact ⟨hcases, hdefault⟩
  | cons clause trees ih =>
    rw [List.forall_mem_cons] at htrees
    have hinside := h.inside clause htrees.1
    rcases clauses_cons_eq_ok hfound with
      ⟨test, body, x, nodes, -, hchildren, hx, hnodes, hfound⟩ | ⟨nodes, -, -, hnodes, hfound⟩
    · rw [hchildren, List.forall_mem_cons] at hinside
      refine ih htrees.2 (List.forall_mem_append.2 ⟨hcases, ?_⟩) hdefault hfound
      have hbody : (Piece.block ⟨nodes, none, clause.span⟩).Marked P :=
        Piece.marked_block (marked_all h hinside.2 hnodes)
      exact List.forall_mem_singleton.2 ⟨h.built test hinside.1 x hx, hbody⟩
    · refine ih htrees.2 hcases ?_ hfound
      rintro _ ⟨⟩
      exact Carries.marked ⟨rfl, List.forall_mem_map.2 (marked_all h hinside hnodes)⟩

theorem carries_switch (htree : T tree) (hnode : switch build tree label = .ok node) :
    Carries P label node := by
  obtain ⟨discriminant, found, x, cases, default, hchildren, hx, hclauses, rfl⟩ :=
    switch_eq_ok hnode
  have hinside := h.inside tree htree
  rw [hchildren, List.forall_mem_cons] at hinside
  obtain ⟨hcases, hdefault⟩ := marked_clauses h hinside.2 (by simp) (by simp) hclauses
  refine ⟨rfl, fun q hq => ?_⟩
  simp only [Node.parts, Node.children, List.cons_append, List.mem_cons, List.mem_append,
    List.mem_flatMap, List.not_mem_nil, or_false] at hq
  rcases hq with rfl | ⟨c, hc, rfl | rfl⟩ | rfl
  · exact h.built discriminant hinside.1 x hx
  · exact (hcases c hc).1
  · exact (hcases c hc).2
  · cases default with
    | none => exact carries_null.marked
    | some y => exact hdefault y rfl

theorem marked_handlers {handler : Option Catch} {cleanup : Option Block}
    {found : Option Catch × Option Block} (htrees : ∀ t ∈ trees, T t)
    (hhandler : ∀ c ∈ handler, (Piece.block c.body).Marked P)
    (hcleanup : ∀ b ∈ cleanup, (Piece.block b).Marked P)
    (hfound : handlers build handler cleanup trees = .ok found) :
    (∀ c ∈ found.1, (Piece.block c.body).Marked P) ∧ ∀ b ∈ found.2, (Piece.block b).Marked P := by
  induction trees generalizing handler cleanup with
  | nil =>
    cases hfound
    exact ⟨hhandler, hcleanup⟩
  | cons clause trees ih =>
    rw [List.forall_mem_cons] at htrees
    have hinside := h.inside clause htrees.1
    rcases handlers_cons_eq_ok hfound with
      ⟨_, body, _, _, -, hchildren, hcontent, hfound⟩ | ⟨body, _, _, -, hchildren, hcontent, hfound⟩
    · refine ih htrees.2 ?_ hcleanup hfound
      rintro _ ⟨⟩
      exact marked_block h (hinside body (by simp [hchildren])) hcontent
    · refine ih htrees.2 hhandler ?_ hfound
      rintro _ ⟨⟩
      exact marked_block h (hinside body (by simp [hchildren])) hcontent

theorem carries_tryStatement (htree : T tree) (hnode : tryStatement build tree label = .ok node) :
    Carries P label node := by
  obtain ⟨body, found, content, handler, cleanup, hchildren, hcontent, hclauses, rfl⟩ :=
    tryStatement_eq_ok hnode
  have hinside := h.inside tree htree
  rw [hchildren, List.forall_mem_cons] at hinside
  obtain ⟨hhandler, hcleanup⟩ := marked_handlers h hinside.2 (by simp) (by simp) hclauses
  refine ⟨rfl, List.forall_mem_cons.2 ⟨marked_block h hinside.1 hcontent, ?_⟩⟩
  refine List.forall_mem_append.2 ⟨?_, ?_⟩
  · exact List.forall_mem_map.2 fun c hc => hhandler c (Option.mem_toList.1 hc)
  · exact List.forall_mem_map.2 fun b hb => hcleanup b (Option.mem_toList.1 hb)

theorem marked_clause {missing : Span → Node} (htree : T tree)
    (hmissing : ∀ span, Carries P none (missing span))
    (hnode : clause build missing tree = .ok node) : (Piece.node node).Marked P := by
  rcases clause_eq_ok hnode with ⟨-, -, rfl⟩ | ⟨content, _, -, hchildren, hx⟩ | ⟨-, hx⟩
  · exact (hmissing _).marked
  · exact h.built content (h.inside tree htree content (by simp [hchildren])) node hx
  · exact h.built tree htree node hx

theorem carries_forLoop (htree : T tree) (hnode : forLoop build tree label = .ok node) :
    Carries P label node := by
  have hnull : ∀ span, Carries P none (.null span) := fun _ => carries_null
  have htrue : ∀ span, Carries P none (.boolean true span) := fun _ => ⟨rfl, nofun⟩
  obtain ⟨head, body, _, w, hchildren, hw, hloop⟩ := forLoop_eq_ok hnode
  have hinside := h.inside tree htree
  have hhead := h.inside head (hinside head (by simp [hchildren]))
  have hw := h.built body (hinside body (by simp [hchildren])) w hw
  rcases hloop with ⟨init, test, update, _, x, y, z, -, hclauses, hx, hy, hz, rfl⟩ |
    ⟨target, object, _, x, y, -, hclauses, hx, hy, rfl⟩
  · have hx := marked_clause h (hhead init (by simp [hclauses])) hnull hx
    have hy := marked_clause h (hhead test (by simp [hclauses])) htrue hy
    have hz := marked_clause h (hhead update (by simp [hclauses])) hnull hz
    exact ⟨rfl, List.forall_mem_cons.2 ⟨hx, List.forall_mem_cons.2 ⟨hy, marked_two hz hw⟩⟩⟩
  · have hx := marked_clause h (hhead target (by simp [hclauses])) hnull hx
    have hy := marked_clause h (hhead object (by simp [hclauses])) hnull hy
    exact ⟨rfl, List.forall_mem_cons.2 ⟨hx, marked_two hy hw⟩⟩

theorem carries_blockStatement (htree : T tree)
    (hnode : Node.block <$> block build tree label = .ok node) : Carries P label node := by
  obtain ⟨content, hcontent, rfl⟩ := map_eq_ok hnode
  exact ⟨label_of_block hcontent, (marked_block h htree hcontent).parts⟩

/-- A construct that is no wrapper puts the label that it may have on the node it makes. -/
theorem carries_construct (htree : T tree) (hcore : tree.kind.isWrapper = false)
    (hlabel : label = none ∨ takesLabel tree.kind = true)
    (hnode : construct build tree label = .ok node) : Carries P label node := by
  have hplain : tree.kind.isLabelable = false → Carries P none node → Carries P label node := by
    intro hplain hcarries
    obtain rfl := hlabel.resolve_right (by simp [takesLabel_eq, hplain, hcore])
    exact hcarries
  obtain ⟨c, hc, hconstruct⟩ := exists_constructs tree.kind
  rw [hconstruct rfl] at hnode
  cases hc with
  | block => exact carries_blockStatement h htree hnode
  | conditional => exact carries_conditional h htree hnode
  | switch => exact carries_switch h htree hnode
  | tryStatement => exact carries_tryStatement h htree hnode
  | whileLoop => exact carries_whileLoop h htree hnode
  | forLoop => exact carries_forLoop h htree hnode
  | withStatement => exact carries_withStatement h htree hnode
  -- the wrappers
  | grouping hk => rcases hk with hk | hk <;> simp [hk, Kind.isWrapper] at hcore
  | labelled hk => simp [hk, Kind.isWrapper] at hcore
  -- what takes no label
  | var hk => exact hplain (by rw [hk]; rfl) (carries_var h htree hk hnode)
  | sequence hk => exact hplain (by rw [hk]; rfl) (carries_sequence h htree hnode)
  | object hk => exact hplain (by rw [hk]; rfl) (carries_object h htree hnode)
  | array hk => exact hplain (by rw [hk]; rfl) (carries_array h htree hnode)
  | function hk => exact hplain (by rw [hk]; rfl) (carries_function h htree hnode)
  | call hk => exact hplain (by rw [hk]; rfl) (carries_call h htree hnode)
  | new hk => exact hplain (by rw [hk]; rfl) (carries_new h htree hnode)
  | access hk =>
    have hstrength := isAccess_strength hk
    exact hplain (Kind.isLabelable_of_strength? hstrength) (carries_access h htree hnode)
  | jump hk =>
    refine hplain ?_ (carries_jump h htree hnode)
    rcases hk with hk | hk | hk | hk <;> rw [hk] <;> rfl
  | leaf hatom => exact hplain (Kind.isLabelable_of_isAtom hatom) (carries_leaf hnode)
  | assignment hk =>
    exact hplain (Kind.isLabelable_of_strength? hk) (carries_assignment h htree hnode)
  | binary hk =>
    obtain ⟨p, hp⟩ := Option.isSome_iff_exists.1 hk
    have hstrength := Grammar.precedence?_strength hp
    exact hplain (Kind.isLabelable_of_strength? hstrength) (carries_binary h htree hnode)
  | step hk =>
    refine hplain ?_ (carries_step h htree hnode)
    rcases strength?_of_step hk with hk | hk <;> exact Kind.isLabelable_of_strength? hk
  | unary hk =>
    have hstrength := strength?_of_unary hk
    exact hplain (Kind.isLabelable_of_strength? hstrength) (carries_unary h htree hnode)
  | unsupported => cases hnode

end

end Build
end Ecma3
