import Ecma3.Proofs.Build.Places

/-! Where the constructions of statements place what they make, and all constructions together. -/
namespace Ecma3.Build

variable {source : List Char} {m n : Nat} {tree : ParseTree} {label : Option String}
  {build : ParseTree → Option String → Except BuildError Node} (hbuild : Settles source build)
include hbuild

/-- A clause that is left out has the place of its tree. -/
theorem lands_clause {missing : Span → Node}
    (hmissing : ∀ span, (missing span).span = span ∧ (missing span).sites = [])
    (h : tree.Inside source m n) :
    Lands source (fun node => (Site.node node).Lies source m n) (clause build missing tree) := by
  unfold clause
  refine .ite (fun hkind => ?_) fun _ => lands_build hbuild h none
  split
  · exact lands_build hbuild (h.children _ (List.mem_of_getElem? ‹_›)) none
  · have htree := h.lies (by simp [hkind]) (by simp [hkind])
    refine .pure (Site.lies_node ((hmissing tree.span).1.symm ▸ htree.place) ?_)
    rw [(hmissing tree.span).2]
    exact nofun

theorem lands_clauses {whole : ParseTree} {trees : List ParseTree} {cases : List SwitchCase}
    {default : Option Node} (h : ∀ t ∈ trees, t.Inside source m n)
    (hcases : ∀ c ∈ cases, (Site.case c).Lies source m n)
    (hdefault : ∀ x ∈ default, (Site.node x).Lies source m n) :
    Lands source (fun found => (∀ c ∈ found.1, (Site.case c).Lies source m n) ∧
      ∀ x ∈ found.2, (Site.node x).Lies source m n) (clauses build whole cases default trees) := by
  induction trees generalizing cases default with
  | nil => exact .pure ⟨hcases, hdefault⟩
  | cons clause trees ih =>
    rw [List.forall_mem_cons] at h
    unfold clauses
    split
    · rename_i hkind
      have hclause := h.1.lies (by simp [hkind]) (by simp [hkind])
      refine (lands_child hclause.tight.inside _ _).bind fun test htest => ?_
      refine (lands_build hbuild htest.2 none).bind fun x hx => ?_
      have hbody : ∀ t ∈ clause.children.drop 1,
          t.Inside source clause.span.start clause.span.stop :=
        fun t ht => hclause.children t (List.mem_of_mem_drop ht)
      refine (lands_all hbuild hbody).bind fun nodes hnodes => ih h.2 ?_ hdefault
      refine List.forall_mem_append.2 ⟨hcases, List.forall_mem_singleton.2 ?_⟩
      refine .intro hclause.place (List.forall_mem_cons.2 ⟨hx, List.forall_mem_singleton.2 ?_⟩)
      exact .intro hclause.tight.place hnodes
    · rename_i hkind
      have hclause := h.1.lies (by simp [hkind]) (by simp [hkind])
      split
      · exact hclause.place.first
      · refine (lands_all hbuild hclause.children).bind fun nodes hnodes => ih h.2 hcases ?_
        rintro _ ⟨⟩
        refine Site.lies_node hclause.place (List.forall_mem_singleton.2 ?_)
        exact .intro hclause.tight.place hnodes
    · exact lands_unsupported h.1.start

/-- A handler lies around its block, whichever clause it comes from. -/
theorem lands_handlers {trees : List ParseTree} {handler : Option Catch} {cleanup : Option Block}
    (h : ∀ t ∈ trees, t.Inside source m n)
    (hhandler : ∀ c ∈ handler, (Site.handler c).Lies source m n)
    (hcleanup : ∀ b ∈ cleanup, (Site.block b).Lies source m n) :
    Lands source (fun found => (∀ c ∈ found.1, (Site.handler c).Lies source m n) ∧
      ∀ b ∈ found.2, (Site.block b).Lies source m n) (handlers build handler cleanup trees) := by
  induction trees generalizing handler cleanup with
  | nil => exact .pure ⟨hhandler, hcleanup⟩
  | cons clause trees ih =>
    rw [List.forall_mem_cons] at h
    unfold handlers
    split
    · rename_i hkind
      have hclause := h.1.lies (by simp [hkind]) (by simp [hkind])
      refine (lands_child hclause.tight.inside _ _).bind fun binding _ => ?_
      refine (lands_child hclause.tight.inside _ _).bind fun block hblock => ?_
      refine (lands_block hbuild hblock.2 none).bind fun body hbody => ih h.2 ?_ hcleanup
      rintro _ ⟨⟩
      exact .intro hclause.place (List.forall_mem_singleton.2 hbody)
    · refine (lands_child h.1 _ _).bind fun block hblock => ?_
      refine (lands_block hbuild hblock.2 none).bind fun body hbody => ih h.2 hhandler ?_
      rintro _ ⟨⟩
      exact hbody
    · exact lands_unsupported h.1.start

/-- The name that a declarator declares has the place of the name alone. -/
theorem lands_declarator (h : tree.Inside source m n) :
    Lands source (fun node => (Site.node node).Lies source m n) (declarator build tree) := by
  unfold declarator
  split
  · rename_i hkind
    have htree := h.lies (by simp [hkind]) (by simp [hkind])
    exact .pure (Site.lies_node htree.place nofun)
  · rename_i hkind
    have htree := h.lies (by simp [hkind]) (by simp [hkind])
    refine (lands_child htree.tight.inside _ _).bind fun target htarget => ?_
    refine (lands_child htree.tight.inside _ _).bind fun value hvalue => ?_
    extract_lets rest
    have hrest : ∀ x, (Site.node x).Lies source tree.span.start tree.span.stop →
        Lands source (fun node => (Site.node node).Lies source m n) (rest x) := fun x hx => by
      refine (lands_build hbuild hvalue.2 none).bind fun y hy => .pure ?_
      exact (fills_two htree.tight.place rfl rfl hx hy).mono htree.place.low htree.place.high
    refine .ite (fun hname => ?_) fun _ => (lands_build hbuild htarget.2 none).bind hrest
    have hname := (htarget.2.lies (by simp [hname]) (by simp [hname])).place
    have hx : (Site.node (.identifier target.text true target.span)).Lies source tree.span.start
        tree.span.stop := Site.lies_node hname nofun
    exact Lands.bind (.pure hx) hrest
  · exact lands_build hbuild h none

theorem lands_declarators {trees : List ParseTree} (h : ∀ t ∈ trees, t.Inside source m n) :
    Lands source (fun nodes => ∀ q ∈ nodes.map Site.node, q.Lies source m n)
      (declarators build trees) := by
  induction trees with
  | nil => exact .pure nofun
  | cons t trees ih =>
    rw [List.forall_mem_cons] at h
    refine (lands_declarator hbuild h.1).bind fun node hnode => ?_
    exact (ih h.2).bind fun nodes hnodes => .pure (List.forall_mem_cons.2 ⟨hnode, hnodes⟩)

variable (h : tree.Lies source tree.span.start tree.span.stop)
include h

theorem lands_grouping : Lands source (Fills source tree) (grouping build tree label) :=
  lands_built hbuild h.inside _ _ _

theorem lands_labelled : Lands source (Fills source tree) (labelled build tree label) := by
  refine (lands_child h.inside _ _).bind fun name _ => ?_
  refine (lands_child h.inside _ _).bind fun target htarget => ?_
  cases label with
  | none => exact lands_build hbuild htarget.2 _
  | some outer => exact lands_build hbuild htarget.2 _

theorem lands_var : Lands source (Fills source tree) (var build tree) := by
  refine (lands_declarators hbuild h.children).bind fun nodes hnodes => ?_
  split
  · exact h.place.first
  · exact .pure (hnodes _ List.mem_cons_self)
  · exact .pure (fills_node h.place rfl hnodes)

theorem lands_conditional : Lands source (Fills source tree) (conditional build tree label) := by
  refine (lands_child h.inside _ _).bind fun test htest => ?_
  refine (lands_build hbuild htest.2 none).bind fun x hx => ?_
  refine (lands_child h.inside _ _).bind fun consequent hconsequent => ?_
  refine (lands_build hbuild hconsequent.2 none).bind fun y hy => ?_
  extract_lets rest
  have hrest : ∀ alternate : Option Node,
      (∀ z ∈ alternate, (Site.node z).Lies source tree.span.start tree.span.stop) →
      Lands source (Fills source tree) (rest alternate) := fun alternate halternate => by
    refine .pure (fills_node h.place rfl ?_)
    refine List.forall_mem_cons.2 ⟨hx, List.forall_mem_cons.2 ⟨hy, ?_⟩⟩
    simpa using halternate
  have hsome : ∀ t : ParseTree, t.Inside source tree.span.start tree.span.stop →
      Lands source (fun found => ∀ z ∈ found, (Site.node z).Lies source tree.span.start
        tree.span.stop) (some <$> build t none) := fun t ht =>
    (lands_build hbuild ht none).map fun z hz => by simpa using hz
  refine .ite (fun _ => ?_) fun _ => ?_
  · exact (lands_child h.inside _ _).bind fun alternate halternate =>
      (hsome alternate halternate.2).bind hrest
  · split
    · exact (hsome _ (h.children _ (List.mem_of_getElem? ‹_›))).bind hrest
    · exact hrest none nofun

theorem lands_whileLoop : Lands source (Fills source tree) (whileLoop build tree label) := by
  refine (lands_pair hbuild h.inside).bind fun nodes hnodes => ?_
  exact .ite (fun _ => .pure (fills_two h.place rfl rfl hnodes.2 hnodes.1))
    fun _ => .pure (fills_two h.place rfl rfl hnodes.1 hnodes.2)

theorem lands_withStatement :
    Lands source (Fills source tree) (withStatement build tree label) :=
  (lands_pair hbuild h.inside).bind fun _ hnodes =>
    .pure (fills_two h.place rfl rfl hnodes.1 hnodes.2)

/-- A `return` without a value has a null with its own place. -/
theorem lands_jump : Lands source (Fills source tree) (jump build tree) := by
  unfold jump
  split
  · split
    · have hvalue := h.children _ (List.mem_of_getElem? ‹_›)
      refine (lands_build hbuild hvalue none).bind fun x hx => ?_
      exact .pure (fills_node h.place rfl (List.forall_mem_singleton.2 hx))
    · have hnull : Fills source tree (.null tree.span) := fills_empty h.place rfl rfl
      exact .pure (fills_node h.place rfl (List.forall_mem_singleton.2 hnull))
  · refine (lands_child h.inside _ _).bind fun value hvalue => ?_
    refine (lands_build hbuild hvalue.2 none).bind fun x hx => ?_
    exact .pure (fills_node h.place rfl (List.forall_mem_singleton.2 hx))
  · exact .pure (fills_empty h.place rfl rfl)
  · exact .pure (fills_empty h.place rfl rfl)

/-- A `switch` without a default has a null with its own place. -/
theorem lands_switch : Lands source (Fills source tree) (switch build tree label) := by
  refine (lands_child h.inside _ _).bind fun discriminant hdiscriminant => ?_
  refine (lands_build hbuild hdiscriminant.2 none).bind fun x hx => ?_
  have hclauses : ∀ t ∈ tree.children.drop 1, t.Inside source tree.span.start tree.span.stop :=
    fun t ht => h.children t (List.mem_of_mem_drop ht)
  have hcases : ∀ c ∈ ([] : List SwitchCase),
      (Site.case c).Lies source tree.span.start tree.span.stop := nofun
  have hdefault : ∀ y ∈ (none : Option Node),
      (Site.node y).Lies source tree.span.start tree.span.stop := nofun
  refine (lands_clauses hbuild hclauses hcases hdefault).bind fun found hfound => .pure ?_
  have hlast : Fills source tree (found.2.getD (.null tree.span)) := by
    cases hdefault : found.2 with
    | none => exact fills_empty h.place rfl rfl
    | some y => exact hfound.2 y hdefault
  refine fills_node h.place rfl (List.forall_mem_cons.2 ⟨hx, List.forall_mem_append.2 ⟨?_, ?_⟩⟩)
  · exact Site.forall_mem_cases.2 hfound.1
  · exact List.forall_mem_singleton.2 hlast

theorem lands_tryStatement : Lands source (Fills source tree) (tryStatement build tree label) := by
  refine (lands_child h.inside _ _).bind fun block hblock => ?_
  refine (lands_block hbuild hblock.2 none).bind fun body hbody => ?_
  have hclauses : ∀ t ∈ tree.children.drop 1, t.Inside source tree.span.start tree.span.stop :=
    fun t ht => h.children t (List.mem_of_mem_drop ht)
  have hhandler : ∀ c ∈ (none : Option Catch),
      (Site.handler c).Lies source tree.span.start tree.span.stop := nofun
  have hcleanup : ∀ b ∈ (none : Option Block),
      (Site.block b).Lies source tree.span.start tree.span.stop := nofun
  refine (lands_handlers hbuild hclauses hhandler hcleanup).bind fun found hfound => .pure ?_
  refine fills_node h.place rfl (List.forall_mem_cons.2 ⟨hbody, List.forall_mem_append.2 ⟨?_, ?_⟩⟩)
  · simpa using hfound.1
  · simpa using hfound.2

/-- The clauses of a head lie in the place of the loop, wherever the head ends. -/
theorem lands_forLoop : Lands source (Fills source tree) (forLoop build tree label) := by
  have hnull : ∀ span, (Node.null span).span = span ∧ (Node.null span).sites = [] :=
    fun _ => ⟨rfl, rfl⟩
  have htrue : ∀ span, (Node.boolean true span).span = span ∧ (Node.boolean true span).sites = [] :=
    fun _ => ⟨rfl, rfl⟩
  refine (lands_child h.inside _ _).bind fun head hhead => ?_
  refine (lands_child h.inside _ _).bind fun body hbody => ?_
  split
  · refine (lands_child hhead.2 _ _).bind fun init hinit => ?_
    refine (lands_clause hbuild hnull hinit.2).bind fun x hx => ?_
    refine (lands_child hhead.2 _ _).bind fun test htest => ?_
    refine (lands_clause hbuild htrue htest.2).bind fun y hy => ?_
    refine (lands_child hhead.2 _ _).bind fun increment hincrement => ?_
    refine (lands_clause hbuild hnull hincrement.2).bind fun z hz => ?_
    refine (lands_build hbuild hbody.2 none).bind fun w hw => .pure (fills_node h.place rfl ?_)
    simpa using ⟨hx, hy, hz, hw⟩
  · refine (lands_child hhead.2 _ _).bind fun target htarget => ?_
    refine (lands_clause hbuild hnull htarget.2).bind fun x hx => ?_
    refine (lands_child hhead.2 _ _).bind fun object hobject => ?_
    refine (lands_clause hbuild hnull hobject.2).bind fun y hy => ?_
    refine (lands_build hbuild hbody.2 none).bind fun w hw => .pure (fills_node h.place rfl ?_)
    simpa using ⟨hx, hy, hw⟩
  · exact lands_unsupported hhead.2.start

/-! All constructions. -/

theorem lands_construct : Lands source (Fills source tree) (construct build tree label) := by
  obtain ⟨c, hc, hconstruct⟩ := exists_constructs tree.kind
  rw [hconstruct rfl]
  cases hc with
  | grouping => exact lands_grouping hbuild h
  | labelled => exact lands_labelled hbuild h
  | block =>
    refine (lands_block hbuild h.inside label).map fun content hcontent => ?_
    exact Site.lies_node hcontent.place (List.forall_mem_singleton.2 hcontent.tight)
  | var => exact lands_var hbuild h
  | sequence => exact lands_sequence hbuild h
  | object => exact lands_object hbuild h
  | array => exact lands_array hbuild h
  | function => exact lands_function hbuild h
  | call => exact lands_call hbuild h
  | new => exact lands_new hbuild h
  | access => exact lands_access hbuild h
  | conditional => exact lands_conditional hbuild h
  | switch => exact lands_switch hbuild h
  | tryStatement => exact lands_tryStatement hbuild h
  | whileLoop => exact lands_whileLoop hbuild h
  | forLoop => exact lands_forLoop hbuild h
  | withStatement => exact lands_withStatement hbuild h
  | jump => exact lands_jump hbuild h
  | leaf => exact lands_leaf h.place
  | assignment => exact lands_assignment hbuild h
  | binary => exact lands_binary hbuild h
  | step => exact lands_step hbuild h
  | unary => exact lands_unary hbuild h
  | unsupported => exact lands_unsupported h.place.first

omit h in
theorem lands_visit (h : tree.Inside source m n) :
    Lands source (fun node => tree.Lies source m n ∧ Fills source tree node)
      (visit build tree label) := by
  have hconstruct : Lands source (fun node => tree.Lies source m n ∧ Fills source tree node)
      (construct build tree label) := by
    cases h with
    | tree place children =>
      have htree : tree.Lies source m n := ⟨place, children⟩
      exact (lands_construct hbuild htree.tight).mono fun _ hnode => ⟨htree, hnode⟩
    | head kind start =>
      -- Nothing is built of the head of a loop by itself.
      unfold construct
      rcases kind with kind | kind <;> rw [kind] <;> exact lands_unsupported start
  refine Lands.bind (Q := fun _ => True) trivial fun _ _ => ?_
  cases label with
  | none => exact hconstruct
  | some name =>
    refine .ite (fun _ => ?_) fun _ => hconstruct
    -- A label that the tree cannot carry is an error at the tree.
    exact Lands.bind (Q := fun _ => False) h.start fun _ hfalse => hfalse.elim

omit hbuild h in
/-- However many levels are left, whatever is built of a tree fills it. -/
theorem settles_within (limit levels : Nat) : Settles source (within limit levels) := by
  induction levels with
  | zero => exact fun _ _ _ _ ht => ht.start
  | succ levels ih => exact fun _ _ _ _ ht => lands_visit ih ht

end Ecma3.Build
