import Ecma3.Proofs.Grammar.Precedence

/-!
Where the word `in` is an operator. In the head of a loop it separates the target from the object, so
an expression that is read there without it has no such operator but between brackets.
-/
namespace Ecma3

open Grammar (precedence?_range)

variable {kind : Kind} {text : String} {span : Span} {t a b : ParseTree} {n : Nat}

/-- What holds together more tightly than any binary operator. -/
theorem Kind.strength?_tight (h : kind.strength? = some n) (hn : 13 ≤ n) :
    kind.isUnary = true ∨ kind.isSuffixed = true ∨ kind = .new ∨ kind.strength? = some 17 := by
  cases kind
  all_goals first
    | exact Or.inl rfl
    | exact Or.inr (Or.inl rfl)
    | exact Or.inr (Or.inr (Or.inl rfl))
    | exact Or.inr (Or.inr (Or.inr rfl))
    | cases h <;> exact absurd hn (by decide)

namespace ParseTree

/-- The children that stand in the same stretch of operators as the node itself: those that no
parentheses, brackets or braces enclose, nor a question mark and its colon. -/
def bareChildren (t : ParseTree) : List ParseTree :=
  match t.kind with
  | .parenthesized | .array | .object | .function | .arguments => []
  | .byIndex | .conditional => t.children.eraseIdx 1
  | _ => t.children

/-- The first tree is the second one, or stands bare inside it. -/
inductive Bare (u : ParseTree) : ParseTree → Prop where
  | refl : Bare u u
  | child {t c : ParseTree} (hc : c ∈ t.bareChildren) (h : Bare u c) : Bare u t

/-- Wherever the word is an operator in the tree, something encloses it. -/
def NoBareIn (t : ParseTree) : Prop := ∀ u, Bare u t → u.kind ≠ .in

theorem noBareIn_iff : t.NoBareIn ↔ t.kind ≠ .in ∧ ∀ c ∈ t.bareChildren, c.NoBareIn := by
  constructor
  · intro h
    exact ⟨h t .refl, fun c hc u hu => h u (.child hc hu)⟩
  · rintro ⟨hkind, hchildren⟩ u hu
    cases hu with
    | refl => exact hkind
    | child hc hu => exact hchildren _ hc u hu

theorem mem_of_mem_bareChildren {c : ParseTree} (h : c ∈ t.bareChildren) : c ∈ t.children := by
  unfold bareChildren at h
  cases hk : t.kind <;> rw [hk] at h
  case byIndex | conditional => exact List.mem_of_mem_eraseIdx h
  case parenthesized | array | object | function | arguments => cases h
  all_goals exact h

theorem noBareIn_of_children (hkind : t.kind ≠ .in) (h : ∀ c ∈ t.children, c.NoBareIn) :
    t.NoBareIn :=
  noBareIn_iff.2 ⟨hkind, fun c hc => h c (mem_of_mem_bareChildren hc)⟩

theorem noBareIn_pair (hkind : kind ≠ .in) (ha : a.NoBareIn) (hb : b.NoBareIn) :
    NoBareIn ⟨kind, text, span, [a, b]⟩ :=
  noBareIn_of_children hkind (List.forall_mem_cons.2 ⟨ha, List.forall_mem_singleton.2 hb⟩)

/-- What needs no parentheses anywhere has nothing bare inside it. -/
theorem Shape.bareChildren_eq_nil (h : t.Shape) (ht : t.kind.strength? = some 17) :
    t.bareChildren = [] := by
  unfold Shape at h
  unfold bareChildren
  cases hk : t.kind <;> rw [hk] at h ht
  all_goals first
    | exact absurd ht (by decide)
    | rfl
    | exact h
    | exact h.1

/-- What stands bare in an operand that binds more tightly than any binary operator binds as
tightly itself, or is a list of arguments. -/
theorem Shape.bareChildren_binds (h : t.Shape) (hb : t.Binds 13) :
    ∀ c ∈ t.bareChildren, c.Binds 13 ∨ c.kind = .arguments := by
  intro c hc
  obtain ⟨n, hn, hle⟩ := hb
  have hmem := mem_of_mem_bareChildren hc
  rcases Kind.strength?_tight hn hle with hunary | hsuffixed | hnew | hprimary
  · obtain ⟨operand, hchildren, hoperand⟩ :=
      shape_unary h (Kind.isUnary_strength hunary)
    rw [hchildren, List.mem_singleton] at hmem
    exact Or.inl (hmem ▸ hoperand)
  · -- Behind the object stand arguments, a name, or an index, which is not bare.
    unfold Shape at h
    unfold bareChildren at hc
    rcases Kind.isSuffixed_cases hsuffixed with hcall | hfield | hindex
    · rw [hcall] at h hc
      obtain ⟨object, list, hchildren, hobject, hlist⟩ := h
      rw [hchildren, List.mem_cons, List.mem_singleton] at hc
      rcases hc with rfl | rfl
      · exact Or.inl (hobject.mono (by decide))
      · exact Or.inr hlist
    · rw [hfield] at h hc
      obtain ⟨object, name, hchildren, hobject, hname⟩ := h
      rw [hchildren, List.mem_cons, List.mem_singleton] at hc
      rcases hc with rfl | rfl
      · exact Or.inl (hobject.mono (by decide))
      · exact Or.inl ⟨17, by rw [hname]; rfl, by decide⟩
    · rw [hindex] at h hc
      obtain ⟨object, index, hchildren, hobject, -⟩ := h
      rw [hchildren, List.eraseIdx_cons_succ, List.eraseIdx_cons_zero, List.mem_singleton] at hc
      exact Or.inl (hc ▸ hobject.mono (by decide))
  · unfold Shape at h
    rw [hnew] at h
    obtain ⟨operand, hchildren, hoperand⟩ := h
    rw [hchildren, List.mem_singleton] at hmem
    exact Or.inl (hmem ▸ hoperand.mono (by decide))
  · rw [h.bareChildren_eq_nil hprimary] at hc
    cases hc

theorem noBareIn_arguments (h : t.kind = .arguments) : t.NoBareIn := by
  refine noBareIn_iff.2 ⟨by rw [h]; decide, fun c hc => ?_⟩
  unfold bareChildren at hc
  rw [h] at hc
  cases hc

/-- Operators before and after their operand, and all that is tighter, leave no room for the word. -/
theorem WellFormed.noBareIn (h : t.WellFormed) (hb : t.Binds 13) : t.NoBareIn := by
  induction h with
  | @intro t root inside ih =>
    refine noBareIn_iff.2 ⟨?_, fun c hc => ?_⟩
    · intro hin
      have hle := hb.precedence (q := 7) (by rw [hin]; rfl)
      omega
    · rcases root.bareChildren_binds hb c hc with hbinds | harguments
      · exact ih c (mem_of_mem_bareChildren hc) hbinds
      · exact noBareIn_arguments harguments

end ParseTree

namespace Grammar
open ParserM ParseTree

variable {inner : Inner} {bound : Nat}

theorem binaryOperator?_ne_in {t : Token} {p : Nat}
    (h : binaryOperator? false t = some (kind, p)) : kind ≠ .in := by
  simp only [binaryOperator?, Option.bind_eq_bind, Option.bind_eq_some_iff] at h
  obtain ⟨k, -, q, -, h⟩ := h
  split at h
  · cases h
  · rename_i hin
    cases h
    simpa using hin

theorem assignmentKind?_ne_in {t : Token} (h : assignmentKind? t = some kind) : kind ≠ .in := by
  intro hin
  have hstrength := assignmentKind?_strength h
  rw [hin] at hstrength
  cases hstrength

/-- The parsers for what stands inside leave no bare `in` where it is no operator. -/
structure Inner.Clear (inner : Inner) : Prop where
  sound : inner.Sound
  assignment : Gives (inner.parse (.assignment false)) NoBareIn
  binary : ∀ least, Gives (inner.parse (.binary false least)) NoBareIn

namespace Inner

variable (h : inner.Clear)
include h

theorem clear_unary : Gives inner.unary NoBareIn :=
  (gives_unary h.sound).mono fun _ ht => ht.1.noBareIn ht.2

theorem clear_binaryStep (least : Nat) (left : ParseTree) (hleft : left.NoBareIn) :
    Gives (inner.binaryStep false least left) fun next => ∀ t ∈ next, t.NoBareIn := by
  refine gives_token?.bind fun t _ => ?_
  split
  · exact .pure nofun
  · rename_i kind p hop
    obtain ⟨t, -, hop⟩ := Option.bind_eq_some_iff.1 hop
    refine .ite (fun _ => .pure nofun) fun _ => ?_
    refine gives_currentText.bind fun _ _ => ?_
    refine gives_advance.bind fun _ _ => ?_
    refine gives_enter.bind fun _ _ => ?_
    refine (h.binary (p + 1)).thenLeaveIfOk.bind fun right hright => .pure ?_
    rintro _ ⟨⟩
    exact noBareIn_pair (binaryOperator?_ne_in hop) hleft hright

theorem clear_binary (least : Nat) : Gives (inner.binary false least) NoBareIn :=
  (clear_unary h).bind fun first hfirst =>
    gives_extend (fun left hleft => clear_binaryStep h least left hleft) _ first hfirst

theorem clear_conditional : Gives (inner.conditional false) NoBareIn := by
  refine (clear_binary h 0).bind fun test htest => ?_
  refine (gives_accept _).bind fun _ _ => .ite (fun _ => ?_) fun _ => .pure htest
  refine (h.sound.gives (.assignment true)).bind fun consequent _ => ?_
  refine (gives_demand _ _).bind fun _ _ => ?_
  -- The consequent stands between the question mark and the colon, and may have the word.
  refine h.assignment.bind fun alternate halternate => .pure (noBareIn_iff.2 ⟨nofun, ?_⟩)
  exact List.forall_mem_cons.2 ⟨htest, List.forall_mem_singleton.2 halternate⟩

theorem clear_assigned : Gives (inner.assigned false) NoBareIn := by
  refine (clear_conditional h).bind fun target htarget => ?_
  refine gives_token?.bind fun t _ => ?_
  split
  · exact .pure htarget
  · rename_i kind hkind
    obtain ⟨t, -, hkind⟩ := Option.bind_eq_some_iff.1 hkind
    refine gives_currentText.bind fun _ _ => ?_
    refine gives_advance.bind fun _ _ => ?_
    exact h.assignment.bind fun value hvalue =>
      .pure (noBareIn_pair (assignmentKind?_ne_in hkind) htarget hvalue)

theorem clear_assignment : Gives (inner.assignment false) NoBareIn := by
  refine gives_enter.bind fun _ _ => ?_
  exact (clear_assigned h).thenLeave

theorem clear_expression : Gives (inner.expression false) NoBareIn := by
  refine (gives_commaSeparated h.assignment).bind fun found hfound => ?_
  refine .ite (fun _ => .pure hfound.1) fun _ => ?_
  refine (gives_spanFrom _).bind fun _ _ => .pure (noBareIn_of_children nofun ?_)
  exact List.forall_mem_cons.2 hfound

theorem clear_declarator : Gives (inner.declarator false) NoBareIn := by
  refine gives_identifier.bind fun name hname => ?_
  have hclear : name.NoBareIn := hname.1.noBareIn ⟨17, by rw [hname.2]; rfl, by decide⟩
  refine (gives_sees _).bind fun _ _ => .ite (fun _ => ?_) fun _ => .pure hclear
  refine gives_currentText.bind fun _ _ => ?_
  refine gives_advance.bind fun _ _ => ?_
  exact h.assignment.bind fun value hvalue => .pure (noBareIn_pair (by decide) hclear hvalue)

theorem clear_declarations : Gives (inner.declarations false) NoBareIn := by
  refine (gives_demand _ _).bind fun _ _ => ?_
  refine (gives_commaSeparated (clear_declarator h)).bind fun found hfound => ?_
  refine (gives_spanFrom _).bind fun _ _ => .pure (noBareIn_of_children nofun ?_)
  exact List.forall_mem_cons.2 hfound

end Inner

theorem parseWithin_clear (bound count : Nat) : Inner.Clear ⟨count, parseWithin bound⟩ := by
  induction bound generalizing count with
  | zero => exact ⟨parseWithin_sound 0 count, .throw, fun _ => .throw⟩
  | succ bound ih =>
    exact ⟨parseWithin_sound _ count, Inner.clear_assignment (ih _), Inner.clear_binary (ih _)⟩

end Grammar
end Ecma3
