import Ecma3.Proofs.Build.Outcome

/-! The constructions of statements stop at the first error of the nodes that the grammar makes for
them. -/
namespace Ecma3.Build

open ParseTree

variable {limit : Nat} {build : ParseTree → Option String → Except BuildError Node}
  {tree : ParseTree} {label : Option String} (hbuild : Inside limit build)
include hbuild

theorem stops_grouping {content : ParseTree}
    (hk : tree.kind = .expression ∨ tree.kind = .parenthesized)
    (hchildren : tree.children = [content]) (h : Buildable content) :
    Stops limit (tree.errorsInside label) (grouping build tree label) := by
  unfold grouping
  rw [child_eq (t := content) (by simp [hchildren]), errorsInside_brackets hk hchildren]
  exact hbuild content label h

theorem stops_declarator (h : tree.WellFormed) (hd : tree.IsDeclarator) :
    Stops limit (tree.errors none) (declarator build tree) := by
  have hshape := h.root
  rcases hd with hk | ⟨hk, name, value, hchildren, hname⟩ <;> simp only [Shape, hk] at hshape
  · simp only [declarator, hk]
    rw [errors_name h.root hk]
    exact .pure
  · obtain ⟨a, b, hab, -, hvalue⟩ := hshape
    cases hchildren.symm.trans hab
    have hbuildable := buildable_of_binds (h.inside value (by simp [hchildren])) hvalue
    have herrors := errors_name (h.inside name (by simp [hchildren])).root hname
    simp only [declarator, hk]
    rw [child_eq (t := name) (by simp [hchildren]), child_eq (t := value) (by simp [hchildren]),
      errors_straight (by rw [hk]; rfl) (by rw [hk]; rfl), hchildren, List.flatMap_cons, herrors,
      List.flatMap_singleton]
    simp only [pure_bind, hname, ↓reduceIte, List.nil_append]
    exact (hbuild value none hbuildable).last fun _ _ => .pure

theorem stops_declarators {trees : List ParseTree}
    (h : ∀ c ∈ trees, c.WellFormed ∧ c.IsDeclarator) :
    Stops limit (trees.flatMap (errors none)) (declarators build trees) := by
  induction trees with
  | nil => exact .pure
  | cons t trees ih =>
    obtain ⟨ht, htrees⟩ := List.forall_mem_cons.1 h
    refine (stops_declarator hbuild ht.1 ht.2).bind fun _ _ => ?_
    exact (ih htrees).last fun _ _ => .pure

omit hbuild in
theorem declarators_length {trees : List ParseTree} {nodes : List Node}
    (h : declarators build trees = .ok nodes) : nodes.length = trees.length := by
  induction trees generalizing nodes with
  | nil =>
    cases h
    rfl
  | cons t trees ih =>
    simp only [declarators, bind, Except.bind] at h
    split at h
    · cases h
    · split at h
      · cases h
      · rename_i rest hrest
        cases h
        simp [ih hrest]

theorem stops_var (h : tree.WellFormed) (hk : tree.kind = .var) :
    Stops limit (tree.errorsInside label) (var build tree) := by
  have hshape := h.root
  simp only [Shape, hk] at hshape
  have hdeclarators := stops_declarators hbuild fun c hc => ⟨h.inside c hc, hshape.2 c hc⟩
  rw [errorsInside_straight (by rw [hk]; rfl)]
  refine hdeclarators.last fun nodes hnodes => ?_
  have hlength := declarators_length hnodes
  cases nodes with
  | nil => exact absurd (List.length_eq_zero_iff.1 hlength.symm) hshape.1
  | cons first rest => cases rest <;> exact .pure

theorem stops_ternary (h : tree.WellFormed) (hk : tree.kind = .conditional) :
    Stops limit (tree.errorsInside label) (conditional build tree label) := by
  have hshape := h.root
  simp only [Shape, hk] at hshape
  obtain ⟨test, consequent, alternate, hchildren, htest, hconsequent, halternate⟩ := hshape
  have hbuildable : ∀ {n : Nat} (c : ParseTree), c ∈ tree.children → c.Binds n → Buildable c :=
    fun c hc hn => buildable_of_binds (h.inside c hc) hn
  simp only [conditional, hk, ↓reduceIte, decide_true]
  rw [child_eq (t := test) (by simp [hchildren]), child_eq (t := consequent) (by simp [hchildren]),
    child_eq (t := alternate) (by simp [hchildren]), errorsInside_straight (by rw [hk]; rfl),
    hchildren, List.flatMap_cons, List.flatMap_cons, List.flatMap_singleton]
  refine (hbuild test none (hbuildable test (by simp [hchildren]) htest)).bind fun _ _ => ?_
  refine (hbuild consequent none (hbuildable consequent (by simp [hchildren]) hconsequent)).bind
    fun _ _ => ?_
  exact (hbuild alternate none (hbuildable alternate (by simp [hchildren]) halternate)).map.last
    fun _ _ => .pure

theorem stops_if (h : tree.WellFormed) (hk : tree.kind = .«if») :
    Stops limit (tree.errorsInside label) (conditional build tree label) := by
  have hshape := h.root
  simp only [Shape, hk] at hshape
  obtain ⟨test, consequent, alternate, hchildren, htest, hconsequent, hlength, halternate⟩ := hshape
  have hinside : ∀ c ∈ tree.children, c.WellFormed := h.inside
  simp only [hchildren, List.forall_mem_cons] at hinside
  simp only [conditional, hk, reduceCtorEq, decide_false, ↓reduceIte]
  rw [child_eq (t := test) (by simp [hchildren]), child_eq (t := consequent) (by simp [hchildren]),
    errorsInside_straight (by rw [hk]; rfl), hchildren, List.flatMap_cons, List.flatMap_cons]
  refine (hbuild test none (buildable_of_binds hinside.1 htest)).bind fun _ _ => ?_
  refine (hbuild consequent none ⟨hinside.2.1, Or.inr hconsequent⟩).bind fun _ _ => ?_
  rcases nil_or_singleton hlength with rfl | ⟨other, rfl⟩
  · exact .pure
  · rw [List.flatMap_singleton]
    have hother : Buildable other :=
      ⟨hinside.2.2 other (by simp), Or.inr (halternate other (by simp))⟩
    exact (hbuild other none hother).map.last fun _ _ => .pure

theorem stops_whileLoop (h : tree.WellFormed) (hk : tree.kind = .«while» ∨ tree.kind = .«do») :
    Stops limit (tree.errorsInside label) (whileLoop build tree label) := by
  have hpair : Stops limit (tree.children.flatMap (errors none)) (pair build tree) := by
    have hshape := h.root
    rcases hk with hk | hk <;> simp only [Shape, hk] at hshape
    all_goals obtain ⟨first, second, hchildren, hfirst, hsecond⟩ := hshape
    · exact stops_pair hbuild hchildren
        (buildable_of_binds (h.inside first (by simp [hchildren])) hfirst)
        ⟨h.inside second (by simp [hchildren]), Or.inr hsecond⟩
    · exact stops_pair hbuild hchildren ⟨h.inside first (by simp [hchildren]), Or.inr hfirst⟩
        (buildable_of_binds (h.inside second (by simp [hchildren])) hsecond)
  rw [errorsInside_straight (by rcases hk with hk | hk <;> rw [hk] <;> rfl)]
  refine hpair.last fun nodes _ => ?_
  obtain ⟨first, second⟩ := nodes
  dsimp only
  split <;> exact .pure

theorem stops_withStatement (h : tree.WellFormed) (hk : tree.kind = .«with») :
    Stops limit (tree.errorsInside label) (withStatement build tree label) := by
  have hshape := h.root
  simp only [Shape, hk] at hshape
  obtain ⟨object, body, hchildren, hobject, hbody⟩ := hshape
  rw [errorsInside_straight (by rw [hk]; rfl)]
  exact (stops_pair hbuild hchildren
    (buildable_of_binds (h.inside object (by simp [hchildren])) hobject)
    ⟨h.inside body (by simp [hchildren]), Or.inr hbody⟩).last fun _ _ => .pure

omit hbuild in
/-- The label that is jumped to is a name. -/
theorem errors_jumpLabel (h : tree.WellFormed) (hlabel : tree.AtMostOne (·.kind = .identifier)) :
    tree.children.flatMap (errors none) = [] :=
  errors_names fun c hc =>
    ⟨h.inside c hc, hlabel.forall_children (R := (·.kind = .identifier)) (fun _ h => h) c hc⟩

theorem stops_jump (h : tree.WellFormed)
    (hk : tree.kind = .«return» ∨ tree.kind = .«throw» ∨ tree.kind = .«break» ∨
      tree.kind = .«continue») : Stops limit (tree.errorsInside label) (jump build tree) := by
  have hshape := h.root
  rw [errorsInside_straight (by rcases hk with hk | hk | hk | hk <;> rw [hk] <;> rfl)]
  rcases hk with hk | hk | hk | hk <;> simp only [Shape, hk] at hshape <;> simp only [jump, hk]
  · rcases hshape with hchildren | ⟨value, hchildren, hvalue⟩ <;> simp only [hchildren]
    · exact .pure
    · have hinside := h.inside value (by simp [hchildren])
      rw [List.flatMap_singleton]
      exact (hbuild value none (buildable_of_binds hinside hvalue)).last fun _ _ => .pure
  · obtain ⟨value, hchildren, hvalue⟩ := hshape
    rw [child_eq (t := value) (by simp [hchildren]), hchildren, List.flatMap_singleton]
    have hinside := h.inside value (by simp [hchildren])
    exact (hbuild value none (buildable_of_binds hinside hvalue)).last fun _ _ => .pure
  all_goals
    rw [errors_jumpLabel h hshape]
    exact .pure

/-- There is no second default. -/
theorem stops_clauses {whole : ParseTree} {cases : List SwitchCase} {default : Option Node}
    {found : List ParseTree}
    (h : ∀ c ∈ found, c.WellFormed ∧ (c.kind = .«case» ∨ c.kind = .«default»))
    (hone : found.countP (·.kind == .«default») + default.isSome.toNat ≤ 1) :
    Stops limit (found.flatMap (errors none)) (clauses build whole cases default found) := by
  induction found generalizing cases default with
  | nil => exact .pure
  | cons clause found ih =>
    obtain ⟨⟨hwell, hk⟩, hfound⟩ := List.forall_mem_cons.1 h
    have hshape := hwell.root
    rw [List.flatMap_cons, errors_straight (by rcases hk with hk | hk <;> rw [hk] <;> rfl)
      (by rcases hk with hk | hk <;> rw [hk] <;> rfl)]
    rcases hk with hk | hk <;> simp only [Shape, hk] at hshape <;> simp only [clauses, hk]
    · obtain ⟨test, body, hchildren, htest, hbody⟩ := hshape
      have hinside : ∀ c ∈ clause.children, c.WellFormed := hwell.inside
      simp only [hchildren, List.forall_mem_cons] at hinside
      rw [child_eq (t := test) (by simp [hchildren])]
      simp only [hchildren, List.drop_one, List.tail_cons, List.flatMap_cons, List.append_assoc]
      refine (hbuild test none (buildable_of_binds hinside.1 htest)).bind fun _ _ => ?_
      refine (stops_all hbuild fun c hc => ⟨hinside.2 c hc, Or.inr (hbody c hc)⟩).bind fun _ _ =>
        ih hfound ?_
      rwa [List.countP_cons_of_neg (by simp [hk])] at hone
    · rw [List.countP_cons_of_pos (by simp [hk])] at hone
      have hnone : default.isSome = false := by
        cases hdefault : default.isSome <;> simp_all
      simp only [hnone, Bool.false_eq_true, ↓reduceIte]
      refine (stops_all hbuild fun c hc => ⟨hwell.inside c hc, Or.inr (hshape c hc)⟩).bind
        fun _ _ => ih hfound ?_
      simp only [Option.isSome_some, Bool.toNat_true]
      omega

theorem stops_switch (h : tree.WellFormed) (hk : tree.kind = .switch) :
    Stops limit (tree.errorsInside label) (switch build tree label) := by
  have hshape := h.root
  simp only [Shape, hk] at hshape
  obtain ⟨discriminant, found, hchildren, hdiscriminant, hfound, hone⟩ := hshape
  have hinside : ∀ c ∈ tree.children, c.WellFormed := h.inside
  simp only [hchildren, List.forall_mem_cons] at hinside
  unfold switch
  rw [child_eq (t := discriminant) (by simp [hchildren]), errorsInside_straight (by rw [hk]; rfl)]
  simp only [hchildren, List.drop_one, List.tail_cons, List.flatMap_cons]
  refine (hbuild discriminant none (buildable_of_binds hinside.1 hdiscriminant)).bind fun _ _ => ?_
  refine (stops_clauses hbuild (fun c hc => ⟨hinside.2 c hc, hfound c hc⟩) ?_).last fun _ _ => .pure
  exact hone

/-- The binding of a `catch` is a name. -/
theorem stops_handlers {handler : Option Catch} {cleanup : Option Block} {found : List ParseTree}
    (h : ∀ c ∈ found, c.WellFormed ∧ (c.kind = .«catch» ∨ c.kind = .«finally»)) :
    Stops limit (found.flatMap (errors none)) (handlers build handler cleanup found) := by
  induction found generalizing handler cleanup with
  | nil => exact .pure
  | cons clause found ih =>
    obtain ⟨⟨hwell, hk⟩, hfound⟩ := List.forall_mem_cons.1 h
    have hshape := hwell.root
    have hblock : ∀ body ∈ clause.children, body.kind = .block →
        Stops limit (body.errors none) (block build body none) :=
      fun body hbody hkind => stops_block hbuild (hwell.inside body hbody)
        ⟨by rw [hkind]; rfl, by simp [hkind]⟩
    rw [List.flatMap_cons, errors_straight (by rcases hk with hk | hk <;> rw [hk] <;> rfl)
      (by rcases hk with hk | hk <;> rw [hk] <;> rfl)]
    rcases hk with hk | hk <;> simp only [Shape, hk] at hshape <;> simp only [handlers, hk]
    · obtain ⟨binding, body, hchildren, hbinding, hbody⟩ := hshape
      have hname := errors_name (hwell.inside binding (by simp [hchildren])).root hbinding
      rw [child_eq (t := binding) (by simp [hchildren]), child_eq (t := body) (by simp [hchildren]),
        hchildren, List.flatMap_cons, hname, List.nil_append, List.flatMap_singleton]
      exact (hblock body (by simp [hchildren]) hbody).bind fun _ _ => ih hfound
    · obtain ⟨body, hchildren, hbody⟩ := hshape
      rw [child_eq (t := body) (by simp [hchildren]), hchildren, List.flatMap_singleton]
      exact (hblock body (by simp [hchildren]) hbody).bind fun _ _ => ih hfound

theorem stops_tryStatement (h : tree.WellFormed) (hk : tree.kind = .«try») :
    Stops limit (tree.errorsInside label) (tryStatement build tree label) := by
  have hshape := h.root
  simp only [Shape, hk] at hshape
  obtain ⟨body, handler, cleanup, hchildren, hbody, hhandler, -, hcleanup, -, -⟩ := hshape
  have hinside : ∀ c ∈ tree.children, c.WellFormed := h.inside
  simp only [hchildren, List.forall_mem_cons] at hinside
  unfold tryStatement
  rw [child_eq (t := body) (by simp [hchildren]), errorsInside_straight (by rw [hk]; rfl),
    hchildren, List.flatMap_cons, List.drop_one, List.tail_cons]
  refine (stops_block hbuild hinside.1 ⟨by rw [hbody]; rfl, by simp [hbody]⟩).bind fun _ _ => ?_
  refine (stops_handlers hbuild fun c hc => ⟨hinside.2 c hc, ?_⟩).last fun _ _ => .pure
  rcases List.mem_append.1 hc with hc | hc
  · exact Or.inl (hhandler c hc)
  · exact Or.inr (hcleanup c hc)

theorem stops_clause {missing : Span → Node} (h : tree.WellFormed) (hc : tree.IsClause) :
    Stops limit (tree.errors none) (clause build missing tree) := by
  obtain ⟨hk, hcontent⟩ := hc
  have hinside : tree.errors none = tree.errorsInside none := by
    rw [errors_eq, errorWith?, fault?_eq_none (by rw [hk]; rfl)]
    rfl
  simp only [clause, hk, ↓reduceIte, hinside]
  rcases hcontent with hchildren | ⟨content, hchildren, hcontent⟩
  · rw [errorsInside_of_nil hchildren]
    simp only [hchildren]
    exact .pure
  · rw [errorsInside_brackets (.inl hk) hchildren]
    simp only [hchildren]
    refine hbuild content none ⟨h.inside content (by simp [hchildren]), ?_⟩
    exact hcontent.imp id fun hvar => ⟨by rw [hvar]; rfl, by simp [hvar]⟩

theorem stops_forLoop (h : tree.WellFormed) (hk : tree.kind = .«for») :
    Stops limit (tree.errorsInside label) (forLoop build tree label) := by
  have hshape := h.root
  simp only [Shape, hk] at hshape
  obtain ⟨head, body, hchildren, hhead, hbody⟩ := hshape
  have hwell := h.inside head (by simp [hchildren])
  have hbody : Stops limit (body.errors none) (build body none) :=
    hbuild body none ⟨h.inside body (by simp [hchildren]), Or.inr hbody⟩
  have hshape := hwell.root
  unfold forLoop
  rw [child_eq (t := head) (by simp [hchildren]), child_eq (t := body) (by simp [hchildren]),
    errorsInside_straight (by rw [hk]; rfl), hchildren, List.flatMap_cons, List.flatMap_singleton,
    errors_straight (by rcases hhead with hk | hk <;> rw [hk] <;> rfl)
      (by rcases hhead with hk | hk <;> rw [hk] <;> rfl)]
  simp only [pure_bind]
  rcases hhead with hk | hk <;> simp only [Shape, hk] at hshape <;> simp only [hk]
  · obtain ⟨init, test, update, hclauses, hinit, htest, hupdate⟩ := hshape
    rw [child_eq (t := init) (by simp [hclauses]), child_eq (t := test) (by simp [hclauses]),
      child_eq (t := update) (by simp [hclauses])]
    simp only [hclauses, List.flatMap_cons, List.flatMap_nil, List.append_nil, List.append_assoc]
    refine (stops_clause hbuild (hwell.inside init (by simp [hclauses])) hinit).bind fun _ _ => ?_
    refine (stops_clause hbuild (hwell.inside test (by simp [hclauses])) htest).bind fun _ _ => ?_
    refine (stops_clause hbuild (hwell.inside update (by simp [hclauses])) hupdate).bind
      fun _ _ => ?_
    exact hbody.last fun _ _ => .pure
  · obtain ⟨target, object, hclauses, ⟨htarget, -⟩, hobject, -⟩ := hshape
    rw [child_eq (t := target) (by simp [hclauses]), child_eq (t := object) (by simp [hclauses])]
    simp only [hclauses, List.flatMap_cons, List.flatMap_nil, List.append_nil, List.append_assoc]
    refine (stops_clause hbuild (hwell.inside target (by simp [hclauses])) htarget).bind
      fun _ _ => ?_
    refine (stops_clause hbuild (hwell.inside object (by simp [hclauses])) hobject).bind
      fun _ _ => ?_
    exact hbody.last fun _ _ => .pure

theorem stops_labelled (h : tree.WellFormed) (hk : tree.kind = .labelled) :
    Stops limit (tree.errorsInside label) (labelled build tree label) := by
  have hshape := h.root
  simp only [Shape, hk] at hshape
  obtain ⟨name, target, hchildren, hname, htarget⟩ := hshape
  have hbody : Stops limit (target.errors (some name.text)) (build target (some name.text)) :=
    hbuild target _ ⟨h.inside target (by simp [hchildren]), Or.inr htarget⟩
  have hname := errors_name (h.inside name (by simp [hchildren])).root hname
  unfold labelled
  rw [child_eq (t := name) (by simp [hchildren]), child_eq (t := target) (by simp [hchildren]),
    errorsInside_labelled hk hchildren hname]
  cases label <;> exact hbody

end Ecma3.Build
