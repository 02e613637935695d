import Ecma3.Proofs.Grammar.Everywhere
import Ecma3.Proofs.Grammar.Precedence

/-!
To which `if` an `else` belongs. A statement that is read with the word behind it has taken every
`else` that it could: whatever ends with it is no `if` that lacks one.
-/
namespace Ecma3

/-- Statements that end with a statement inside them, which is their last child. -/
def Kind.endsInside : Kind → Bool
  | .«if» | .«while» | .«for» | .«with» | .labelled => true
  | _ => false

namespace ParseTree

variable {t : ParseTree}

/-- The first tree is the second one, or stands at the end of it. -/
inductive Trails (u : ParseTree) : ParseTree → Prop where
  | refl : Trails u u
  | last {t c : ParseTree} (ht : t.kind.endsInside = true) (hc : t.children.getLast? = some c)
      (h : Trails u c) : Trails u t

/-- No `if` at the end of the tree lacks an `else`. -/
def Settled (t : ParseTree) : Prop := ∀ u, Trails u t → u.kind = .«if» → u.children.length = 3

theorem settled_of_last (hif : t.kind = .«if» → t.children.length = 3)
    (hlast : ∀ c, t.children.getLast? = some c → c.Settled) : t.Settled := by
  intro u hu
  cases hu with
  | refl => exact hif
  | last _ hc hu => exact hlast _ hc u hu

theorem settled_of_kind (h : t.kind.endsInside = false) : t.Settled := by
  intro u hu hif
  cases hu with
  | refl =>
    rw [hif] at h
    cases h
  | last ht _ _ =>
    rw [h] at ht
    cases ht

/-- The `else` of an `if` could not have been that of an `if` in its consequent. -/
def NearestElse (t : ParseTree) : Prop :=
  t.kind = .«if» → ∀ test consequent alternate, t.children = [test, consequent, alternate] →
    consequent.Settled

end ParseTree

namespace Grammar
open ParserM ParseTree

variable {p : ParserM ParseTree} {f : ParseTree → ParserM ParseTree} {inner : Inner} {kind : Kind}
  {t : ParseTree}

/-- What is read with the word `else` behind it is settled. -/
def Greedy (p : ParserM ParseTree) : Prop :=
  ∀ s, Leads p s (fun t u => u.token? = some (.reserved .«else») → t.Settled) fun _ _ => True

namespace Greedy

theorem pure (h : t.kind.endsInside = false) : Greedy (Pure.pure t) := fun _ _ => settled_of_kind h

theorem skip {α : Type} {m : ParserM α} {f : α → ParserM ParseTree} (h : ∀ a, Greedy (f a)) :
    Greedy (m >>= f) :=
  fun _ => leads_bind.2 (leads_true.imp fun a t _ => h a t)

theorem ite {c : Prop} [Decidable c] {q : ParserM ParseTree} (hp : Greedy p) (hq : Greedy q) :
    Greedy (if c then p else q) := by
  split
  · exact hp
  · exact hq

theorem thenLeave (h : Greedy p) : Greedy (thenLeave p) := fun s => leads_thenLeave.2 (h s)

theorem thenLeaveIfOk (h : Greedy p) : Greedy (thenLeaveIfOk p) :=
  fun s => leads_thenLeaveIfOk.2 (h s)

/-- A statement that ends with another one takes no further token after it. -/
theorem around (h : Greedy p) (hrest : ∀ t u, Leads (f t) u (fun t' u' => u'.token? = u.token? ∧
      (t'.kind = .«if» → t'.children.length = 3) ∧ t'.children.getLast? = some t)
      fun _ _ => True) : Greedy (p >>= f) := by
  refine fun s => leads_bind.2 ((h s).imp fun t u ht => (hrest t u).imp ?_)
  rintro t' u' ⟨htoken, hif, hlast⟩ helse
  refine settled_of_last hif fun c hc => ?_
  cases hlast.symm.trans hc
  exact ht (htoken ▸ helse)

end Greedy

namespace Inner

theorem greedy_jumpStatement (hkind : kind.endsInside = false) : Greedy (jumpStatement kind) := by
  refine .skip fun _ => .skip fun _ => .skip fun _ => .skip fun _ => ?_
  extract_lets rest
  have hrest : ∀ label, Greedy (rest label) := fun label =>
    .skip fun _ => .skip fun _ => .pure hkind
  exact .ite (.skip fun name => hrest _) (hrest [])

theorem greedy_block : Greedy inner.block :=
  .skip fun _ => .skip fun _ => .skip fun _ => .skip fun _ => .pure rfl

theorem greedy_function (needsName : Bool) : Greedy (inner.function needsName) := by
  refine .skip fun _ => .skip fun _ => ?_
  extract_lets rest
  have hrest : ∀ name, Greedy (rest name) := fun name =>
    .skip fun _ => .skip fun _ => .skip fun _ => .pure rfl
  exact .ite (.skip fun _ => hrest _) (.ite (fun _ => trivial) (hrest []))

theorem greedy_varStatement : Greedy inner.varStatement := by
  intro s
  simp only [varStatement, declarations, leads_bind, leads_pure]
  refine leads_true.imp fun _ _ _ => leads_true.imp fun _ _ _ => leads_true.imp fun _ _ _ => ?_
  exact leads_true.imp fun _ _ _ _ => settled_of_kind rfl

theorem greedy_doStatement : Greedy inner.doStatement :=
  .skip fun _ => .skip fun _ => .skip fun _ => .skip fun _ => .skip fun _ => .skip fun _ =>
    .pure rfl

theorem greedy_returnStatement : Greedy inner.returnStatement := by
  refine .skip fun _ => .skip fun _ => ?_
  extract_lets ended rest
  have hrest : ∀ value, Greedy (rest value) := fun value =>
    .skip fun _ => .skip fun _ => .pure rfl
  exact .ite (hrest []) (.skip fun _ => hrest _)

theorem greedy_throwStatement : Greedy inner.throwStatement := by
  refine .skip fun _ => .skip fun _ => .ite (fun _ => trivial) ?_
  exact .skip fun _ => .skip fun _ => .skip fun _ => .pure rfl

theorem greedy_switchStatement : Greedy inner.switchStatement :=
  .skip fun _ => .skip fun _ => .skip fun _ => .skip fun _ => .skip fun _ => .skip fun _ =>
    .pure rfl

theorem greedy_tryStatement : Greedy inner.tryStatement := by
  refine .skip fun _ => .skip fun _ => .skip fun _ => ?_
  extract_lets afterHandler
  have hafter : ∀ handler, Greedy (afterHandler handler) := by
    refine fun handler => .skip fun _ => ?_
    extract_lets afterCleanup
    have hend : ∀ cleanup, Greedy (afterCleanup cleanup) := fun cleanup =>
      .ite (fun _ => trivial) (.skip fun _ => .pure rfl)
    exact .ite (.skip fun _ => hend _) (hend [])
  exact .ite (.skip fun _ => hafter _) (hafter [])

theorem greedy_emptyStatement : Greedy emptyStatement :=
  .skip fun _ => .skip fun _ => .pure rfl

theorem greedy_debuggerStatement : Greedy debuggerStatement := by
  intro s
  simp only [debuggerStatement, leads_bind, leads_leaf]
  exact leads_true.imp fun _ _ _ => leads_true.imp fun _ _ _ _ => settled_of_kind rfl

variable (h : Greedy (inner.parse .statement))
include h

/-- An `if` with the word behind it has an `else` already, since it would have taken the word. -/
theorem greedy_ifStatement : Greedy inner.ifStatement := by
  refine .skip fun _ => .skip fun test => .skip fun consequent s => ?_
  refine leads_bind.2 (leads_accept.2 ?_)
  split
  · refine leads_true.imp fun _ u _ => h.around (fun _ _ => ?_) u
    exact ⟨rfl, fun _ => rfl, rfl⟩
  · rename_i hnone
    exact fun helse => absurd helse hnone

theorem greedy_whileStatement : Greedy inner.whileStatement :=
  .skip fun _ => .skip fun _ => h.around fun _ _ => ⟨rfl, nofun, rfl⟩

theorem greedy_withStatement : Greedy inner.withStatement :=
  .skip fun _ => .skip fun _ => h.around fun _ _ => ⟨rfl, nofun, rfl⟩

theorem greedy_forStatement : Greedy inner.forStatement :=
  .skip fun _ => .skip fun _ => .skip fun _ => .skip fun _ =>
    h.around fun _ _ => ⟨rfl, nofun, rfl⟩

theorem greedy_expressionStatement : Greedy inner.expressionStatement := by
  refine .skip fun _ => .skip fun _ => .ite (.skip fun _ => ?_) (.skip fun _ => .pure rfl)
  exact h.around fun _ _ => ⟨rfl, nofun, rfl⟩

theorem greedy_longStatement (token : Option Token) : Greedy (inner.longStatement token) := by
  unfold longStatement
  split
  · exact greedy_block
  · exact greedy_varStatement
  · exact greedy_ifStatement h
  · exact greedy_doStatement
  · exact greedy_whileStatement h
  · exact greedy_forStatement h
  · exact greedy_jumpStatement rfl
  · exact greedy_jumpStatement rfl
  · exact greedy_returnStatement
  · exact greedy_withStatement h
  · exact greedy_switchStatement
  · exact greedy_throwStatement
  · exact greedy_tryStatement
  · exact greedy_function true
  · exact greedy_expressionStatement h

theorem greedy_statement : Greedy inner.statement := by
  refine .skip fun _ => .skip fun t => ?_
  split
  · exact greedy_emptyStatement.thenLeaveIfOk
  · exact greedy_debuggerStatement.thenLeaveIfOk
  · exact (greedy_longStatement h _).thenLeave

/-- The consequent is read with the `else` of the whole behind it. -/
theorem nearest_ifStatement (hkeeps : inner.Keeps NearestElse) :
    Gives inner.ifStatement (Everywhere NearestElse) := by
  refine (gives_demand _ _).bind fun _ _ => ?_
  refine (keeps_condition hkeeps).bind fun test htest s hs => leads_bind.2 ?_
  refine ((hkeeps.parse .statement s hs).and (h s)).imp fun consequent t ht => leads_bind.2 ?_
  obtain ⟨⟨hconsequent, hcoherent⟩, hsettled⟩ := ht
  refine leads_accept.2 ?_
  split
  · rename_i helse
    refine (gives_advance t hcoherent).imp fun _ u hu => leads_bind.2 ?_
    refine (hkeeps.parse .statement u hu.2).imp fun alternate v hv => ⟨.intro ?_ ?_, hv.2⟩
    · rintro - _ _ _ ⟨⟩
      exact hsettled helse
    · simpa using ⟨htest, hconsequent, hv.1⟩
  · refine ⟨.intro ?_ ?_, hcoherent⟩
    · rintro - _ _ _ ⟨⟩
    · simpa using ⟨htest, hconsequent⟩

end Inner

theorem parseWithin_greedy (bound : Nat) : Greedy (parseWithin bound .statement) := by
  induction bound with
  | zero => exact fun _ => trivial
  | succ bound ih => exact Inner.greedy_statement ih

/-- In the tree of a source, an `else` belongs to the nearest `if` before it that has none yet: from
the consequent of an `if` with an `else`, the last statements lead to no `if` without one. -/
theorem parse_nearestElse {limit : Nat} {source : String} {root : Option ParseTree}
    (hroot : parse limit source = .ok root) :
    ∀ t ∈ root.toList.flatMap ParseTree.nodes, t.kind = .«if» →
      ∀ test consequent alternate, t.children = [test, consequent, alternate] →
        ∀ u, Trails u consequent → u.kind = .«if» → u.children.length = 3 := by
  intro t ht
  obtain ⟨u, hu, hmem⟩ := List.mem_flatMap.1 ht
  obtain rfl : root = some u := Option.mem_toList.1 hu
  have hother : ∀ t : ParseTree, t.kind ≠ .«if» → t.NearestElse := fun _ hkind hif =>
    absurd hif hkind
  have hcommon : ∀ t : ParseTree, t.kind.isCommon = true → t.NearestElse := fun t ht =>
    hother t (Kind.ne_of_isCommon ht).1
  refine (parse_everywhere hcommon (fun _ => ?_) (fun bound count hkeeps => ?_) hroot).nodes t hmem
  · exact Inner.keeps_property hcommon fun _ _ _ _ => hother _ nofun
  · exact Inner.nearest_ifStatement (parseWithin_greedy bound) hkeeps

theorem parse_nearestElse_loop :
    ∃ root, parse 9 "if (a) while (b) l: if (c) d; else e; else f" = .ok root ∧
      ∀ t ∈ root.toList.flatMap ParseTree.nodes, t.kind = .«if» →
        ∀ test consequent alternate, t.children = [test, consequent, alternate] →
          ∀ u, Trails u consequent → u.kind = .«if» → u.children.length = 3 := by
  have hok : (parse 9 "if (a) while (b) l: if (c) d; else e; else f").isOk = true := by
    decide +kernel
  obtain ⟨root, hroot⟩ := ok_of_isOk hok
  exact ⟨root, hroot, parse_nearestElse hroot⟩

end Grammar
end Ecma3
