import Ecma3.Proofs.Build.Expression
import Ecma3.Proofs.Build.Made.Statement
import Ecma3.Proofs.Grammar.Program
import Ecma3.Proofs.Outcome

/-!
The size of what is built. Each construction makes at most two pieces for each node of the parse tree,
so only the copies of targets can make a syntax tree much larger than its parse tree.
-/
namespace Ecma3

open List (Forall₂)

namespace ParseTree

variable {t target : ParseTree} {trees rest : List ParseTree}

theorem copies_pos (t : ParseTree) : 0 < t.copies :=
  Nat.lt_of_lt_of_le (Nat.lt_add_right _ Nat.zero_lt_one) (copies_children_lt t)

/-- The nodes of some children, and the node around them. -/
theorem copies_of_subperm (h : trees.Subperm t.children) :
    1 + (trees.map copies).sum ≤ t.copies := by
  obtain ⟨kept, hkept, hsub⟩ := h
  have hsum : (kept.map copies).sum ≤ (t.children.map copies).sum :=
    (hsub.map copies).sum_le_sum fun _ _ => Nat.zero_le _
  rw [← (hkept.map copies).sum_eq]
  exact Nat.le_trans (Nat.add_le_add_left hsum 1) (copies_children_lt t)

theorem copies_of_mem (h : target ∈ t.children) : 1 + target.copies ≤ t.copies := by
  simpa using copies_of_subperm (List.singleton_subperm_iff.2 h)

/-- What is written twice is an expression. -/
theorem binds_target (h : t.WellFormed) (hk : t.kind.copiesTarget = true)
    (hchildren : t.children = target :: rest) : target.Binds 0 := by
  have hcases : t.kind.strength? = some 1 ∨ t.kind.strength? = some 13 := by
    cases hkind : t.kind <;> simp_all [Kind.copiesTarget, Kind.strength?]
  rcases hcases with hassign | hstep
  · obtain ⟨a, b, htwo, ha, -⟩ := shape_assignment h.root hassign
    obtain ⟨rfl, -⟩ := List.cons.inj (hchildren.symm.trans htwo)
    exact ha.mono (Nat.zero_le 2)
  · obtain ⟨a, hone, ha⟩ := shape_unary h.root (Or.inl hstep)
    obtain ⟨rfl, -⟩ := List.cons.inj (hchildren.symm.trans hone)
    exact ha.mono (Nat.zero_le 13)

end ParseTree

namespace Build

open ParseTree

variable {B : ParseTree → Node → Prop} {tree : ParseTree} {node x : Node} {trees : List ParseTree}
  {nodes : List Node}

theorem Detaches.wellFormed {bare : ParseTree} {moved : Bool} (h : Detaches tree bare moved)
    (htree : tree.WellFormed) : bare.WellFormed := by
  cases h with
  | stays => exact htree
  | moves hd => exact (withoutNew?_operand htree hd).1

/-- Where there was a `new`, the rest has one node less. -/
theorem Detaches.copies_le {bare : ParseTree} {moved : Bool} (h : Detaches tree bare moved) :
    bare.copies + moved.toNat ≤ tree.copies := by
  cases h with
  | stays => exact Nat.le_refl _
  | moves hd => exact copies_withoutNew? hd

/-- The node has at most two pieces for each node of the tree, and if the tree is an expression, then
one less. -/
structure Affordable (tree : ParseTree) (node : Node) : Prop where
  size_le : node.size ≤ 2 * tree.copies
  size_lt : tree.Binds 0 → node.size < 2 * tree.copies

theorem affordable_of_lt (h : node.size < 2 * tree.copies) : Affordable tree node :=
  ⟨Nat.le_of_lt h, fun _ => h⟩

/-- One piece for a construct fits into the two for its node of the tree, beside what some children
are built into, with one to spare. -/
theorem affordable_of_subperm (htrees : trees.Subperm tree.children)
    (h : node.size ≤ 1 + 2 * (trees.map copies).sum) : Affordable tree node := by
  have hcopies := copies_of_subperm htrees
  exact affordable_of_lt (by omega)

theorem affordable_of_mem {content : ParseTree} (hcontent : content ∈ tree.children)
    (h : node.size ≤ 1 + 2 * content.copies) : Affordable tree node :=
  affordable_of_subperm (List.singleton_subperm_iff.2 hcontent) (by simpa using h)

theorem affordable_of_none (hk : tree.kind.strength? = none) (h : node.size ≤ 2 * tree.copies) :
    Affordable tree node :=
  ⟨h, fun ⟨n, hn, _⟩ => by simp [hk] at hn⟩

theorem nodeSizes_le {R : ParseTree → Node → Prop}
    (hR : ∀ t node, t.WellFormed → R t node → node.size ≤ 2 * t.copies)
    (htrees : ∀ t ∈ trees, t.WellFormed) (h : Forall₂ R trees nodes) :
    nodeSizes nodes ≤ 2 * (trees.map copies).sum := by
  induction h with
  | nil => exact Nat.le_refl 0
  | cons hnode _ ih =>
    rw [List.forall_mem_cons] at htrees
    have hfirst := hR _ _ htrees.1 hnode
    have hrest := ih htrees.2
    simp only [nodeSizes, List.map_cons, List.sum_cons]
    omega

section

-- What the trees inside are built into is affordable.
variable (hB : ∀ t node, t.WellFormed → B t node → Affordable t node)
include hB

/-- Trees one beside the other. -/
theorem sizes_le (htrees : ∀ t ∈ trees, t.WellFormed) (h : Forall₂ B trees nodes) :
    nodeSizes nodes ≤ 2 * (trees.map copies).sum :=
  nodeSizes_le (fun t node ht hnode => (hB t node ht hnode).size_le) htrees h

/-- A `new` that moves out of a chain leaves room for itself. -/
theorem Detaches.size_le {bare : ParseTree} {moved : Bool} (h : Detaches tree bare moved)
    (htree : tree.WellFormed) (hnode : B bare node) :
    node.size + 2 * moved.toNat ≤ 2 * tree.copies := by
  have hsize := (hB _ _ (h.wellFormed htree) hnode).size_le
  have hcopies := h.copies_le
  omega

theorem MadeBlock.size_le {content : Block} (htree : tree.WellFormed)
    (h : MadeBlock B tree content) : content.size ≤ 2 * tree.copies + 1 := by
  cases h with
  | braces h =>
    have hnodes := sizes_le hB htree.inside h
    have hinside := copies_children_lt tree
    simp only [Block.size]
    omega
  | single h =>
    have hnode := (hB _ _ htree h).size_le
    simp only [Block.size, nodeSizes]
    omega

theorem MadeProperties.size_le {known found : List Property} {entries : List ParseTree}
    (hentries : ∀ t ∈ entries, t.WellFormed) (h : MadeProperties B known entries found) :
    propertySizes found ≤ propertySizes known + 2 * (entries.map copies).sum := by
  induction h with
  | nil => simp
  | @cons known found entry content entries name value hcontent h _ ih =>
    rw [List.forall_mem_cons] at hentries
    have hrest := ih hentries.2
    have hput : propertySizes (Property.put name value known) ≤ propertySizes known + value.size :=
      Property.propertySizes_put_le
    have hvalue := (hB _ _ (hentries.1.inside _ hcontent) h).size_le
    have hentry := copies_of_mem hcontent
    simp only [List.map_cons, List.sum_cons]
    omega

theorem MadeElement.size_le {elements : List (Option Node)} (htrees : ∀ t ∈ trees, t.WellFormed)
    (h : Forall₂ (MadeElement B) trees elements) :
    elementSizes elements ≤ 2 * (trees.map copies).sum := by
  induction h with
  | nil => exact Nat.le_refl 0
  | cons h _ ih =>
    rw [List.forall_mem_cons] at htrees
    have hrest := ih htrees.2
    simp only [List.map_cons, List.sum_cons]
    cases h with
    | hole =>
      simp only [elementSizes]
      omega
    | item hcontent h =>
      have hitem := copies_of_mem hcontent
      have hfirst := (hB _ _ (htrees.1.inside _ hcontent) h).size_le
      simp only [elementSizes]
      omega
    | bare h =>
      have hfirst := (hB _ _ htrees.1 h).size_le
      simp only [elementSizes]
      omega

theorem MadeArguments.size_le {list : Option ParseTree} (hlist : ∀ t ∈ list, t.WellFormed)
    (h : MadeArguments B list nodes) :
    nodeSizes nodes ≤ 2 * (list.toList.map copies).sum := by
  cases h with
  | none => exact Nat.le_refl 0
  | @list list _ h =>
    have hnodes := sizes_le hB (hlist list rfl).inside h
    have hinside := copies_children_lt list
    simp only [Option.toList_some, List.map_cons, List.map_nil, List.sum_cons, List.sum_nil]
    omega
  | @single t _ h =>
    have hnode := (hB _ _ (hlist t rfl) h).size_le
    simpa using hnode

theorem MadeDeclarator.size_le (htree : tree.WellFormed) (h : MadeDeclarator B tree node) :
    node.size ≤ 2 * tree.copies := by
  have hpos := copies_pos tree
  have hinside := copies_children_lt tree
  have hwell := htree.inside
  cases h with
  | name =>
    simp only [Node.size]
    omega
  | named hchildren h =>
    rw [hchildren] at hinside hwell
    have hvalue := (hB _ _ (hwell _ (by simp)) h).size_le
    have htarget := copies_pos
    simp only [Node.size, List.map_cons, List.sum_cons] at hinside ⊢
    omega
  | assign hchildren hx hy =>
    rw [hchildren] at hinside hwell
    have hfirst := (hB _ _ (hwell _ (by simp)) hx).size_le
    have hsecond := (hB _ _ (hwell _ (by simp)) hy).size_le
    simp only [Node.size, List.map_cons, List.sum_cons] at hinside ⊢
    omega
  | other h => exact (hB _ _ htree h).size_le

/-- A default that is missing is written as a null. -/
theorem MadeClauses.size_le {cases : List SwitchCase} {default : Option Node}
    {clauses : List ParseTree} {found : List SwitchCase × Option Node} (span : Span)
    (hclauses : ∀ t ∈ clauses, t.WellFormed) (h : MadeClauses B cases default clauses found) :
    caseSizes found.1 + (found.2.getD (.null span)).size ≤
      caseSizes cases + (default.getD (.null span)).size + 2 * (clauses.map copies).sum := by
  induction h with
  | nil => exact Nat.le_refl _
  | @case cases default clause test body clauses found node nodes place hchildren htest hbody _ ih =>
    rw [List.forall_mem_cons] at hclauses
    have hrest := ih hclauses.2
    have hwell := hclauses.1.inside
    have hinside := copies_children_lt clause
    rw [hchildren] at hwell hinside
    rw [List.forall_mem_cons] at hwell
    have hfirst := (hB _ _ hwell.1 htest).size_le
    have hnodes := sizes_le hB hwell.2 hbody
    rw [caseSizes_append] at hrest
    simp only [caseSizes, Block.size, List.map_cons, List.sum_cons] at hrest hinside ⊢
    omega
  | @default cases clause clauses found nodes place h _ ih =>
    rw [List.forall_mem_cons] at hclauses
    have hrest := ih hclauses.2
    have hnodes := sizes_le hB hclauses.1.inside h
    have hinside := copies_children_lt clause
    simp only [Option.getD_some, Option.getD_none, Node.size, Block.size, List.map_cons,
      List.sum_cons] at hrest ⊢
    omega

theorem MadeHandlers.size_le {handler : Option Catch} {cleanup : Option Block}
    {clauses : List ParseTree} {found : Option Catch × Option Block}
    (hclauses : ∀ t ∈ clauses, t.WellFormed) (h : MadeHandlers B handler cleanup clauses found) :
    handlerSize found.1 + cleanupSize found.2 ≤
      handlerSize handler + cleanupSize cleanup + 2 * (clauses.map copies).sum := by
  induction h with
  | nil => simp
  | @«catch» handler cleanup clause block clauses found binding body span hblock hbody _ ih =>
    rw [List.forall_mem_cons] at hclauses
    have hrest := ih hclauses.2
    have hbody := hbody.size_le hB (hclauses.1.inside _ hblock)
    have hinside := copies_of_mem hblock
    simp only [handlerSize, List.map_cons, List.sum_cons] at hrest ⊢
    omega
  | @«finally» handler cleanup clause block clauses found body hblock hbody _ ih =>
    rw [List.forall_mem_cons] at hclauses
    have hrest := ih hclauses.2
    have hbody := hbody.size_le hB (hclauses.1.inside _ hblock)
    have hinside := copies_of_mem hblock
    simp only [cleanupSize, List.map_cons, List.sum_cons] at hrest ⊢
    omega

theorem MadeClause.size_le (htree : tree.WellFormed) (h : MadeClause B tree node) :
    node.size ≤ 2 * tree.copies := by
  cases h with
  | missing h =>
    have hpos := copies_pos tree
    simp only [h.size, List.map_nil, List.sum_nil]
    omega
  | inner hcontent h =>
    have hinside := copies_of_mem hcontent
    have hnode := (hB _ _ (htree.inside _ hcontent) h).size_le
    omega
  | bare h => exact (hB _ _ htree h).size_le

/-! Nodes around what the trees inside are built into. -/

theorem affordable_call {callee bare : ParseTree} {list : Option ParseTree} {moved : Bool}
    (htree : tree.WellFormed) (htrees : (callee :: list.toList).Sublist tree.children)
    (hdetach : Detaches callee bare moved) (hx : B bare x) (h : MadeArguments B list nodes)
    (hnode : node.Holds (.node x :: nodes.map .node)) : Affordable tree node := by
  have hwell := htree.inside
  have hcallee := hdetach.size_le hB (hwell callee (htrees.subset List.mem_cons_self)) hx
  have harguments := h.size_le hB fun t ht =>
    hwell t (htrees.subset (List.mem_cons_of_mem _ (Option.mem_toList.2 ht)))
  rw [nodeSizes_eq] at harguments
  refine affordable_of_subperm htrees.subperm ?_
  simp only [hnode.size, List.map_cons, List.sum_cons, Piece.size]
  omega

/-- A `new` that moves out of the object is a piece around the access. -/
theorem affordable_access {object member bare : ParseTree} {moved : Bool} {access : Node}
    (htree : tree.WellFormed) (htrees : [object, member].Sublist tree.children)
    (hdetach : Detaches object bare moved) (hx : B bare x)
    (haccess : access.Holds [.node x] ∨ ∃ y, B member y ∧ access.Holds [.node x, .node y])
    (hnode : node = if moved then .new access none tree.span else access) :
    Affordable tree node := by
  have hwell := htree.inside
  have hobject := hdetach.size_le hB (hwell object (htrees.subset List.mem_cons_self)) hx
  have hmember := hwell member (htrees.subset (by simp))
  have haccess : access.size ≤ 1 + x.size + 2 * member.copies := by
    rcases haccess with hholds | ⟨y, hy, hholds⟩
    · rw [hholds.size]
      simp
    · have hsecond := (hB _ _ hmember hy).size_le
      simp only [hholds.size, List.map_cons, List.map_nil, List.sum_cons, List.sum_nil, Piece.size]
      omega
  have hsize : node.size = access.size + moved.toNat := by
    cases moved <;> simp [hnode, Nat.add_comm]
  refine affordable_of_subperm htrees.subperm ?_
  simp only [List.map_cons, List.map_nil, List.sum_cons, List.sum_nil]
  omega

theorem affordable_switch {discriminant : ParseTree} {clauses : List ParseTree}
    {cases : List SwitchCase} {default : Option Node} {label : Option String}
    (htree : tree.WellFormed) (hkind : tree.kind = .switch)
    (hchildren : tree.children = discriminant :: clauses) (hx : B discriminant x)
    (h : MadeClauses B [] none clauses (cases, default)) :
    Affordable tree (.switch x cases (default.getD (.null tree.span)) label tree.span) := by
  have hinside := copies_children_lt tree
  have hwell := htree.inside
  rw [hchildren] at hwell hinside
  rw [List.forall_mem_cons] at hwell
  have hfirst := (hB _ _ hwell.1 hx).size_le
  have hclauses := h.size_le hB tree.span hwell.2
  refine affordable_of_none (by rw [hkind]; rfl) ?_
  simp only [Node.size, caseSizes, Option.getD_none, List.map_cons, List.sum_cons]
    at hclauses hinside ⊢
  omega

theorem affordable_tryStatement {block : ParseTree} {clauses : List ParseTree} {body : Block}
    {handler : Option Catch} {cleanup : Option Block} {label : Option String}
    (htree : tree.WellFormed) (hkind : tree.kind = .«try»)
    (hchildren : tree.children = block :: clauses) (hbody : MadeBlock B block body)
    (h : MadeHandlers B none none clauses (handler, cleanup)) :
    Affordable tree (.«try» body handler cleanup label tree.span) := by
  have hinside := copies_children_lt tree
  have hwell := htree.inside
  rw [hchildren] at hwell hinside
  rw [List.forall_mem_cons] at hwell
  have hfirst := hbody.size_le hB hwell.1
  have hclauses := h.size_le hB hwell.2
  refine affordable_of_none (by rw [hkind]; rfl) ?_
  simp only [Node.size, handlerSize, cleanupSize, List.map_cons, List.sum_cons]
    at hclauses hinside ⊢
  omega

/-- The clauses in the head of a loop stand beside its body. -/
theorem affordable_loop {head body : ParseTree} {clauses : List ParseTree}
    (htree : tree.WellFormed) (htrees : [head, body].Sublist tree.children)
    (hclauses : clauses.Sublist head.children) (h : Forall₂ (MadeClause B) clauses nodes)
    (hx : B body x) (hnode : node.Holds (nodes.map .node ++ [.node x])) : Affordable tree node := by
  have hwell := htree.inside
  have hhead := copies_of_subperm hclauses.subperm
  have hheadwell := (hwell head (htrees.subset List.mem_cons_self)).inside
  have hmade := nodeSizes_le (fun _ _ ht h => h.size_le hB ht)
    (fun t ht => hheadwell t (hclauses.subset ht)) h
  have hbody := (hB _ _ (hwell body (htrees.subset (by simp))) hx).size_le
  rw [nodeSizes_eq] at hmade
  refine affordable_of_subperm htrees.subperm ?_
  simp only [hnode.size, List.map_append, List.sum_append, List.map_cons, List.map_nil,
    List.sum_cons, List.sum_nil, Piece.size]
  omega

/-- What a construction makes is affordable. Where it has two pieces of its own and no operand gives
one back, it is a statement. -/
theorem Made.affordable (htree : tree.WellFormed) (h : Made B tree node) :
    Affordable tree node := by
  have hinside := copies_children_lt tree
  have hwell := htree.inside
  cases h with
  | leaf h => exact affordable_of_subperm List.nil_subperm (by simp [h.size])
  | inner hcontent h =>
    exact affordable_of_mem hcontent (Nat.le_add_left_of_le (hB _ _ (hwell _ hcontent) h).size_le)
  | nodes htrees h hholds =>
    have hnodes := sizes_le hB (fun t ht => hwell t (htrees.subset ht)) h
    rw [nodeSizes_eq] at hnodes
    exact affordable_of_subperm htrees (by rw [hholds.size]; omega)
  | block hkind h =>
    have hnodes := sizes_le hB hwell h
    refine affordable_of_none (by rw [hkind]; rfl) ?_
    simp only [Node.size, Block.size]
    omega
  | object h =>
    have hfound := h.size_le hB hwell
    refine affordable_of_subperm (List.Subperm.refl _) ?_
    simp only [Node.size, propertySizes] at hfound ⊢
    omega
  | array h =>
    have helements := MadeElement.size_le hB hwell h
    exact affordable_of_subperm (List.Subperm.refl _) (Nat.add_le_add_left helements 1)
  | @function parameters body _ _ _ htrees h =>
    -- the block around the body takes the place of the parameters
    have hbody := h.size_le hB (hwell _ (htrees.subset (by simp)))
    have hpos := copies_pos parameters
    refine affordable_of_subperm htrees.subperm ?_
    simp only [Node.size, List.map_cons, List.map_nil, List.sum_cons, List.sum_nil]
    omega
  | call htrees hdetach hx h hholds => exact affordable_call hB htree htrees hdetach hx h hholds
  | access htrees hdetach hx haccess hnode =>
    exact affordable_access hB htree htrees hdetach hx haccess hnode
  | compound hkind hchildren hx hy hz =>
    -- the two pieces around the operands are what the target, an expression, saves each time
    have hcopies := copies_of_copiesTarget hkind hchildren
    rw [hchildren, List.forall_mem_cons, List.forall_mem_cons] at hwell
    have htarget := (hB _ _ hwell.1 hx).size_lt (binds_target htree hkind hchildren)
    have hvalue := (hB _ _ hwell.2.1 hy).size_le
    refine affordable_of_lt ?_
    simp only [Node.size, hz.size, List.map_cons, List.map_nil, List.sum_cons, List.sum_nil,
      Piece.size] at hcopies ⊢
    omega
  | step hkind hchildren hx =>
    have hcopies := copies_of_copiesTarget hkind hchildren
    rw [hchildren, List.forall_mem_cons] at hwell
    have htarget := (hB _ _ hwell.1 hx).size_lt (binds_target htree hkind hchildren)
    refine affordable_of_lt ?_
    simp only [Node.size]
    omega
  | declarator hcontent h =>
    exact affordable_of_mem hcontent (Nat.le_add_left_of_le (h.size_le hB (hwell _ hcontent)))
  | declarators h =>
    have hnodes := nodeSizes_le (fun _ _ ht h => h.size_le hB ht) hwell h
    exact affordable_of_subperm (List.Subperm.refl _) (Nat.add_le_add_left hnodes 1)
  | returnNothing hkind =>
    refine affordable_of_none (by rw [hkind]; rfl) ?_
    simp only [Node.size]
    omega
  | switch hkind hchildren hx h => exact affordable_switch hB htree hkind hchildren hx h
  | tryStatement hkind hchildren hbody h =>
    exact affordable_tryStatement hB htree hkind hchildren hbody h
  | loop htrees hclauses h hx hholds => exact affordable_loop hB htree htrees hclauses h hx hholds

end

theorem affordable_within {limit levels : Nat} {label : Option String} (htree : tree.WellFormed)
    (h : (within limit levels tree label : Except BuildError Node) = .ok node) :
    Affordable tree node := by
  induction levels generalizing tree label node with
  | zero => cases h
  | succ levels ih =>
    refine (made_within h).affordable (fun t x ht hx => ?_) htree
    obtain ⟨label, hx⟩ := hx
    exact ih ht hx

/-- A source without any statement is built into a null. -/
theorem size_program {limit : Nat} {root : Option ParseTree} (hroot : ∀ t ∈ root, t.WellFormed)
    (h : (program limit root : Except BuildError (List Node)) = .ok nodes) :
    nodeSizes nodes ≤ 2 * root.elim 0 copies + 1 := by
  cases root with
  | none =>
    cases h
    exact Nat.le_refl 1
  | some root =>
    have hwell := hroot root rfl
    simp only [Option.elim_some]
    rcases program_eq_ok h with ⟨-, hall⟩ | ⟨built, hbuilt, rfl⟩
    · have hnodes := nodeSizes_le (R := Builds (node limit))
        (fun _ _ ht ⟨_, hx⟩ => (affordable_within ht hx).size_le) hwell.inside (made_all hall)
      have hinside := copies_children_lt root
      omega
    · have hnode := (affordable_within hwell hbuilt).size_le
      simp only [nodeSizes]
      omega

variable {parseLimit buildLimit : Nat} {source : String} {root : Option ParseTree}

/-- A syntax tree is linear in its parse tree, but for the targets inside more than two others. -/
theorem size_of_source (hroot : Grammar.parse parseLimit source = .ok root)
    (h : (program buildLimit root : Except BuildError (List Node)) = .ok nodes) :
    nodeSizes nodes ≤ 8 * root.elim 0 weight + 8 ∧
      ((∀ t ∈ root, ∀ n ∈ t.targets 0, n ≤ 2) →
        nodeSizes nodes ≤ 8 * root.elim 0 (·.nodes.length) + 8) := by
  have hsize := size_program (fun t ht => (Grammar.parse_isRoot (ht ▸ hroot)).1) h
  cases root with
  | none =>
    simp only [Option.elim_none] at hsize ⊢
    omega
  | some root =>
    have hweight := copies_le_weight root
    simp only [Option.elim_some] at hsize ⊢
    refine ⟨by omega, fun htargets => ?_⟩
    rw [← weight_eq_length (htargets root rfl)]
    omega

theorem size_of_source_steps : ∃ root nodes, Grammar.parse 9 "++ ++ ++ ++a" = .ok root ∧
    (program 9 root : Except BuildError (List Node)) = .ok nodes ∧
    nodeSizes nodes ≤ 8 * root.elim 0 weight + 8 ∧
    ((∀ t ∈ root, ∀ n ∈ t.targets 0, n ≤ 2) →
      nodeSizes nodes ≤ 8 * root.elim 0 (·.nodes.length) + 8) := by
  have hsource : (Grammar.parse 9 "++ ++ ++ ++a").toOption.any (fun root =>
      (program 9 root : Except BuildError (List Node)).toOption.any fun _ => true) = true := by
    decide +kernel
  simp only [Option.any_eq_true, toOption_eq_some] at hsource
  obtain ⟨root, hroot, nodes, hnodes, -⟩ := hsource
  exact ⟨root, nodes, hroot, hnodes, size_of_source hroot hnodes⟩

/-- Four steps one inside the other write the name so often that the tree is larger than that. -/
theorem not_size_le_nodes : ¬∀ (limit : Nat) (source : String) (root : Option ParseTree)
    (nodes : List Node), Grammar.parse limit source = .ok root →
      (program limit root : Except BuildError (List Node)) = .ok nodes →
      nodeSizes nodes ≤ 8 * root.elim 0 (·.nodes.length) + 8 := by
  intro hlinear
  have hsource : (Grammar.parse 9 "++ ++ ++ ++a").toOption.any (fun root =>
      (program 9 root : Except BuildError (List Node)).toOption.any fun nodes =>
        decide (8 * root.elim 0 (·.nodes.length) + 8 < nodeSizes nodes)) = true := by
    decide +kernel
  simp only [Option.any_eq_true, toOption_eq_some, decide_eq_true_eq] at hsource
  obtain ⟨root, hroot, nodes, hnodes, hlarge⟩ := hsource
  exact Nat.not_lt.2 (hlinear 9 _ root nodes hroot hnodes) hlarge

end Build
end Ecma3
