import Ecma3.Proofs.Grammar.Simulation

/-! The accounts of the single steps of parsers, and of what repeats them. -/
namespace Ecma3.Grammar
open ParserM ParseTree

variable {α β γ : Type} {R : Simulation} {bound : Nat} {c : Account} {p p' q q' : ParserM α}
  {after : α → Account} {e : α → β} {t : Token} {kind : Kind}

theorem tracks_token? : Tracks R bound c token? token? (fun t => c.seeing t) id := by
  refine .look (g := Session.token?) (fun _ => rfl) (fun s hs => ?_) fun _ _ hrel _ => R.token hrel
  exact ⟨hs.leads.walk, Nat.le_refl _, fun token htoken => htoken⟩

theorem tracks_sees : Tracks R bound c (sees t) (sees t)
    (fun seen => if seen then c.seeing (some t) else c) id := by
  refine .look (g := fun s => s.token? == some t) (fun _ => rfl) (fun s hs => ?_)
    fun _ _ hrel _ => by simp [R.token hrel]
  split
  · refine ⟨hs.leads.walk, Nat.le_refl _, fun token htoken => ?_⟩
    cases htoken
    simp_all
  · exact hs.leads

theorem tracks_currentSpan : Tracks R bound c currentSpan currentSpan (fun _ => c) R.span := by
  refine .look (g := Session.span) (fun _ => rfl) (fun _ hs => hs.leads) fun _ _ hrel _ => ?_
  rw [Simulation.span, Simulation.span, R.start hrel, R.stop hrel]

theorem tracks_currentText : Tracks R bound c currentText currentText (fun _ => c) id :=
  .look (g := Session.text) (fun _ => rfl) (fun _ hs => hs.leads) fun _ _ hrel _ => R.text hrel

theorem tracks_spanFrom {start start' : Nat} (hstart : R.offset start' = R.offset start) :
    Tracks R bound c (spanFrom start) (spanFrom start') (fun _ => c) R.span := by
  refine ⟨fun s hs => hs.leads, ?_⟩
  intro s s' _ hrel a t ha _
  cases ha
  refine Or.inr ⟨_, s', rfl, ?_, hrel⟩
  simp only [Simulation.span, R.offset_max, R.lastEnd hrel, hstart]

theorem tracks_get {g : Session → α} (hg : ∀ s s', R.Rel s s' → g s' = g s) :
    Tracks R bound c get get (fun s => c.seeing s.token?) g := by
  refine .look (g := id) (fun _ => rfl) (fun s hs => ?_) fun s s' hrel _ => hg s s' hrel
  exact ⟨hs.leads.walk, Nat.le_refl _, fun token htoken => htoken⟩

theorem Tracks.of_refused {x : Session → SyntaxError} (hp : ∀ s, p s = .error (x s) s)
    (hx : ∀ s, x s ≠ .endless) (hlexical : ∀ s y, x s ≠ .lexical y) :
    Tracks R bound c p p' after e := by
  constructor
  · intro s _
    simpa only [Leads, hp] using ⟨hx s, .refused .refl (hlexical s)⟩
  · intro s s' _ _ a t ha
    rw [hp] at ha
    cases ha

theorem tracks_unexpected {expected : Expected} :
    Tracks R bound c (unexpected expected : ParserM α) p' after e :=
  .of_refused (x := fun s => .unexpected expected (s.current.map (·.text)) s.span) (fun _ => rfl)
    (fun _ => by simp) fun _ _ => by simp

theorem tracks_unexpected_bind {expected : Expected} {f : γ → ParserM α} :
    Tracks R bound c ((unexpected expected : ParserM γ) >>= f) p' after e :=
  .of_refused (x := fun s => .unexpected expected (s.current.map (·.text)) s.span) (fun _ => rfl)
    (fun _ => by simp) fun _ _ => by simp

theorem tracks_advance (hnext : c.next = some t) (ht : t.isAtom = false) :
    Tracks R bound c advance advance (fun _ => c.plus [] 1) id := by
  constructor
  · intro s hs
    obtain ⟨l, hl, rfl⟩ := token?_eq_some (hs.next t hnext)
    unfold Leads
    split
    · rename_i u hu
      refine ⟨⟨[], rfl, .pass .refl hl ht hu⟩, ?_, by simp [Account.plus]⟩
      have hlt := left_advance hl hu
      simp only [Account.plus]
      omega
    · rename_i x u hu
      obtain ⟨y, _, _, _, rfl, _⟩ := advance_eq_error hu
      exact ⟨by simp, .advance .refl hl hu⟩
  · intro s s' hs hrel a u ha _
    obtain ⟨l, hl, -⟩ := token?_eq_some (hs.next t hnext)
    exact R.advance hrel (by simp [hl]) a u ha (by simp)

theorem tracks_leaf (hnext : c.next = some t) (hkind : kind.isAtom = true)
    (hregex : kind ≠ .regexLiteral) :
    Tracks R bound c (leaf kind) (leaf kind) (fun tree => c.plus tree.atoms 1) R.tree := by
  constructor
  · intro s hs
    obtain ⟨l, hl, -⟩ := token?_eq_some (hs.next t hnext)
    rw [leads_leaf]
    unfold Leads
    split
    · rename_i u hu
      have hlt := left_advance hl hu
      refine ⟨⟨_, rfl, ?_⟩, ?_, by simp [Account.plus]⟩
      · rw [atoms_of_isAtom hkind]
        simpa [Session.text, Session.span, hl] using
          Session.Walk.refl.keep hl hkind hregex hu
      · simp only [Account.plus]
        omega
    · rename_i x u hu
      obtain ⟨y, _, _, _, rfl, _⟩ := advance_eq_error hu
      exact ⟨by simp, .advance .refl hl hu⟩
  · intro s s' hs hrel tree u htree _
    obtain ⟨l, hl, -⟩ := token?_eq_some (hs.next t hnext)
    have hleaf : ∀ s, ParserM.leaf kind s =
        (advance >>= fun _ => pure (ParseTree.leaf kind s.text s.span)) s := fun _ => rfl
    rw [hleaf] at htree ⊢
    obtain ⟨_, v, hv, htree⟩ := of_bind_eq_ok htree
    cases htree
    rcases R.advance hrel (by simp [hl]) _ u hv (by simp) with ⟨t', ht'⟩ | ⟨_, t', ht', _, hrel'⟩
    · exact Or.inl ⟨t', bind_of_error ht'⟩
    · refine Or.inr ⟨.leaf kind s'.text s'.span, t', bind_of_ok ht', ?_, hrel'⟩
      simp only [Simulation.tree, relocate_leaf, R.start hrel, R.stop hrel, R.text hrel]

theorem tracks_accept (ht : t.isAtom = false) : Tracks R bound c (accept t) (accept t)
    (fun passed => if passed then c.plus [] 1 else c) id := by
  refine tracks_sees.bind_same fun seen => ?_
  cases seen with
  | false => exact .pure rfl ⟨rfl, Nat.le_refl _, fun _ h => h⟩
  | true =>
    refine (tracks_advance rfl ht).bind_same fun _ => .pure rfl ?_
    exact ⟨rfl, Nat.le_refl _, fun _ h => h⟩

theorem tracks_ifSees (hp : Tracks R bound (c.seeing (some t)) p p' after e)
    (hq : Tracks R bound c q q' after e) :
    Tracks R bound c (sees t >>= fun seen => if seen = true then p else q)
      (sees t >>= fun seen => if seen = true then p' else q') after e := by
  refine tracks_sees.bind_same fun seen => ?_
  cases seen with
  | false => exact hq
  | true => exact hp

theorem tracks_ifAccept (ht : t.isAtom = false) (hp : Tracks R bound (c.plus [] 1) p p' after e)
    (hq : Tracks R bound c q q' after e) :
    Tracks R bound c (accept t >>= fun passed => if passed = true then p else q)
      (accept t >>= fun passed => if passed = true then p' else q') after e := by
  refine (tracks_accept ht).bind_same fun passed => ?_
  cases passed with
  | false => exact hq
  | true => exact hp

theorem tracks_demand {expected : Expected} (ht : t.isAtom = false) :
    Tracks R bound c (demand t expected) (demand t expected) (fun _ => c.plus [] 1) R.span := by
  refine tracks_ifSees ?_ tracks_unexpected
  refine tracks_currentSpan.bind fun span span' hspan => ?_
  refine (tracks_advance rfl ht).bind_same fun _ => .pure hspan ?_
  exact ⟨rfl, Nat.le_refl _, fun _ h => h⟩

theorem tracks_enter : Tracks R bound c enter enter (fun _ => c) id := by
  constructor
  · intro s hs
    rw [leads_enter]
    split
    · exact ⟨by simp, .refused (.level _ .refl) (by simp)⟩
    · exact ⟨⟨[], by simp, .level _ .refl⟩, Nat.le_refl _, hs.next⟩
  · intro s s' _ hrel a t ha _
    exact R.enter hrel a t ha (by simp)

theorem tracks_leave : Tracks R bound c leave leave (fun _ => c) id := by
  constructor
  · intro s hs
    exact ⟨⟨[], by simp, .level _ .refl⟩, Nat.le_refl _, hs.next⟩
  · intro s s' _ hrel a t ha _
    cases ha
    exact Or.inr ⟨(), _, rfl, rfl, R.leave hrel⟩

theorem Tracks.thenLeaveIfOk (h : Tracks R bound c p p' after e) :
    Tracks R bound c (thenLeaveIfOk p) (thenLeaveIfOk p') after e := by
  refine h.bind fun a a' ha => tracks_leave.bind_same fun _ => .pure ha ?_
  exact ⟨rfl, Nat.le_refl _, fun _ h => h⟩

theorem Tracks.thenLeave (h : Tracks R bound c p p' after e) :
    Tracks R bound c (thenLeave p) (thenLeave p') after e := by
  constructor
  · intro s hs
    rw [leads_thenLeave]
    refine (h.run s hs).mono (fun a t ha => ?_) fun x t hx => ⟨hx.1, hx.2.level _⟩
    obtain ⟨L, hL, hwalk⟩ := ha.walk
    exact ⟨⟨L, hL, hwalk.level _⟩, ha.passed, ha.next⟩
  · intro s s' hs hrel a u ha hplain
    cases hr : p s with
    | error x t => simp [ParserM.thenLeave, hr] at ha
    | ok b t =>
      simp only [ParserM.thenLeave, hr] at ha
      cases ha
      rcases h.follow s s' hs hrel a t hr hplain with ⟨t', hr'⟩ | ⟨a', t', hr', he, hrel'⟩
      · exact Or.inl ⟨{ t' with depth := t'.depth - 1 }, by simp only [ParserM.thenLeave, hr']⟩
      · exact Or.inr ⟨a', _, by simp only [ParserM.thenLeave, hr'], he, R.leave hrel'⟩

/-- A regular expression is kept like the other atoms. Nothing is said of the other run then. -/
theorem tracks_regexLiteral (hnext : c.next = some t) (ht : t.mayOpenRegex = true)
    {e : ParseTree → β} : Tracks R bound c regexLiteral regexLiteral
      (fun tree => c.plus tree.atoms 1) e := by
  constructor
  · intro s hs
    obtain ⟨l, hl, rfl⟩ := token?_eq_some (hs.next t hnext)
    unfold Leads
    split
    · rename_i tree u hu
      have hlt := left_regexLiteral hl hu
      obtain ⟨m, cursor, -, -, rfl, -⟩ := regexLiteral_eq_ok hu
      refine ⟨⟨_, rfl, ?_⟩, ?_, by simp [Account.plus]⟩
      · rw [atoms_of_isAtom rfl]
        exact Session.Walk.refl.literal hl ht hu
      · simp only [Account.plus]
        omega
    · rename_i x u hu
      refine ⟨?_, .literal .refl hl ht hu⟩
      rintro rfl
      exact regexLiteral_ne_endless hu
  · intro s s' _ _ tree u htree hplain
    obtain ⟨m, cursor, -, -, rfl, -⟩ := regexLiteral_eq_ok htree
    refine absurd rfl (hplain (.leaf .regexLiteral m.text m.span) ?_)
    have hregex : Kind.isAtom .regexLiteral = true := rfl
    simp [Account.plus, atoms_of_isAtom hregex]

/-- At the end of the text it does not matter whether a line ends. -/
theorem Simulation.ended {s s' : Session} (h : R.Rel s s') (stops : Option Token → Bool) :
    (s'.current.isNone || stops s'.token? || s'.lineBreakBefore) =
      (s.current.isNone || stops s.token? || s.lineBreakBefore) := by
  have htoken := R.token h
  have hnone : s'.current.isNone = s.current.isNone := by
    simpa [Session.token?] using congrArg Option.isNone htoken
  cases hcurrent : s.current with
  | none => simp_all
  | some l =>
    rw [hnone, htoken, R.lineBreak h (by simp [hcurrent]), hcurrent]

theorem tracks_endStatement :
    Tracks R bound c endStatement endStatement (fun _ => c.plus [] 0) id := by
  refine tracks_ifAccept rfl ?_ ?_
  · exact .pure rfl (by simp)
  · refine (tracks_get fun s s' hrel => R.ended hrel (· == some (.punctuator .rightBrace))).bind
      fun s s' hended => .ite (by rw [hended]) (fun _ => .pure rfl ?_) fun _ => tracks_unexpected
    simp

/-- The atoms of what a turn found. -/
def ParserM.Turn.atoms : Turn ParseTree → List ParseTree
  | .stop | .skip => []
  | .last t | .more t => t.atoms

/-- How many tokens a turn takes at least. -/
def ParserM.Turn.cost : Turn ParseTree → Nat
  | .stop | .last _ => 0
  | .skip | .more _ => 1

def ParserM.Turn.map (g : α → β) : Turn α → Turn β
  | .stop => .stop
  | .skip => .skip
  | .last a => .last (g a)
  | .more a => .more (g a)

/-- A repetition takes a token with each turn that it goes on after. -/
theorem tracks_collect {turn turn' : ParserM (Turn ParseTree)} {n n' : Nat}
    (hturn : ∀ d : Account, c.passed ≤ d.passed → Tracks R bound d turn turn'
      (fun found => d.plus found.atoms found.cost) (Turn.map R.tree))
    (hn : bound ≤ n + c.passed) :
    Tracks R bound c (collect turn n) (collect turn' n')
      (fun found => c.plus (found.flatMap atoms) 0) (List.map R.tree) := by
  -- The account rules out that the first run gives up. The second may have a smaller bound.
  induction n generalizing c n' with
  | zero => exact .of_bound_le (by omega)
  | succ n ih =>
    have hstep : ∀ k, Tracks R bound c (collect turn (n + 1)) (collect turn' (k + 1))
        (fun found => c.plus (found.flatMap atoms) 0) (List.map R.tree) := by
      intro k
      refine (hturn c (Nat.le_refl _)).bind fun found found' hfound => ?_
      have hrest : ∀ L, Tracks R bound (c.plus L 1) (collect turn n) (collect turn' k)
          (fun found => (c.plus L 1).plus (found.flatMap atoms) 0) (List.map R.tree) := fun L =>
        ih (fun d hd => hturn d (by simp only [Account.plus] at hd; omega))
          (by simp only [Account.plus]; omega)
      cases found <;> cases found' <;>
        simp only [Turn.map, reduceCtorEq, Turn.last.injEq, Turn.more.injEq] at hfound
      case stop.stop => exact .pure rfl (by simp [Turn.atoms])
      case skip.skip => exact (hrest []).mono fun found => by simp
      case last.last a a' => exact .pure (by simp [hfound]) (by simp [Turn.atoms, Turn.cost])
      case more.more a a' =>
        refine (hrest a.atoms).bind fun others others' hothers =>
          .pure (by simp [hfound, hothers]) (by simp)
    cases n' with
    | zero => exact (hstep 0).giveUp
    | succ k => exact hstep k

/-- So does a tree that is extended. -/
theorem tracks_extend {turn turn' : ParseTree → ParserM (Option ParseTree)}
    (hturn : ∀ n tree tree', R.tree tree' = R.tree tree →
      Tracks R bound (c.plus tree.atoms (n + 1)) (turn tree) (turn' tree') (c.extended tree n)
        (Option.map R.tree))
    {k k' n : Nat} {tree tree' : ParseTree} (htree : R.tree tree' = R.tree tree)
    (hk : bound ≤ k + c.passed + n) :
    Tracks R bound (c.plus tree.atoms (n + 1)) (extend turn k tree) (extend turn' k' tree')
      (fun t => c.plus t.atoms (n + 1)) R.tree := by
  induction k generalizing n k' tree tree' with
  | zero => exact .of_bound_le (by simp only [Account.plus]; omega)
  | succ k ih =>
    have hstep : ∀ j, Tracks R bound (c.plus tree.atoms (n + 1)) (extend turn (k + 1) tree)
        (extend turn' (j + 1) tree') (fun t => c.plus t.atoms (n + 1)) R.tree := by
      intro j
      refine (hturn n tree tree' htree).bind fun next next' hnext => ?_
      cases next <;> cases next' <;>
        simp only [Option.map, reduceCtorEq, Option.some.injEq] at hnext
      case none.none => exact .pure htree (by simp)
      case some.some a a' => exact (ih hnext (by omega)).mono fun t => by simp
    cases k' with
    | zero => exact (hstep 0).giveUp
    | succ j => exact hstep j

theorem lineBreakBefore_bind {r : Bool → ParserM α} {s : Session} :
    (lineBreakBefore >>= r) s = r s.lineBreakBefore s := rfl

/-- What must stand on the same line cannot stand at the end of the text either, where the line
breaks of the two runs may differ. -/
theorem Tracks.unlessBroken {expected : Expected} {g g' : γ → ParserM α}
    (h : Tracks R bound c p p' after e) (hpassed : ∀ a, c.passed < (after a).passed) :
    Tracks R bound c
      (lineBreakBefore >>= fun broken => if broken = true then unexpected expected >>= g else p)
      (lineBreakBefore >>= fun broken => if broken = true then unexpected expected >>= g' else p')
      after e := by
  constructor
  · intro s hs
    rw [leads_bind, leads_lineBreakBefore]
    split
    · have hrefused : Tracks R bound c (unexpected expected >>= g) p' after e :=
        tracks_unexpected_bind
      exact hrefused.run s hs
    · exact h.run s hs
  · intro s s' hs hrel a t ha hplain
    rw [lineBreakBefore_bind] at ha ⊢
    split at ha
    · cases ha
    · rename_i hbroken
      -- The parser passes a token, so it cannot have begun at the end of the text.
      have hcurrent : s.current.isSome := by
        have hleft := ((h.run s hs).ok ha).passed
        have hpassed := hpassed a
        cases hnone : s.current with
        | some l => rfl
        | none =>
          have hzero : s.left = 0 := by simp [Session.left, hnone]
          omega
      rw [R.lineBreak hrel hcurrent, if_neg hbroken]
      exact h.follow s s' hs hrel a t ha hplain

/-- At the end of the text nothing follows on the same line either, where the line breaks of the two
runs may differ. -/
theorem tracks_unlessBroken {k k' : Option Token → ParserM α} (hp : k none = p) (hp' : k' none = p')
    (h : ∀ t, Tracks R bound (c.seeing t) (k t) (k' t) after e)
    (hnone : Tracks R bound c p p' after e) :
    Tracks R bound c
      (lineBreakBefore >>= fun broken => if broken = true then p else token? >>= k)
      (lineBreakBefore >>= fun broken => if broken = true then p' else token? >>= k') after e := by
  have hnext : Tracks R bound c (token? >>= k) (token? >>= k') after e := tracks_token?.bind_same h
  have htoken : ∀ (k : Option Token → ParserM α) s, (token? >>= k) s = k s.token? s :=
    fun _ _ => rfl
  constructor
  · intro s hs
    rw [leads_bind, leads_lineBreakBefore]
    split
    · exact hnone.run s hs
    · exact hnext.run s hs
  · intro s s' hs hrel
    rw [lineBreakBefore_bind, lineBreakBefore_bind]
    cases hcurrent : s.current with
    | none =>
      have hend : s.token? = none := by simp [Session.token?, hcurrent]
      have hend' : s'.token? = none := (R.token hrel).trans hend
      have hlook : (if s.lineBreakBefore = true then p else token? >>= k) s = p s := by
        split
        · rfl
        · rw [htoken, hend, hp]
      have hlook' : (if s'.lineBreakBefore = true then p' else token? >>= k') s' = p' s' := by
        split
        · rfl
        · rw [htoken, hend', hp']
      rw [hlook, hlook']
      exact hnone.follow s s' hs hrel
    | some l =>
      rw [R.lineBreak hrel (by simp [hcurrent])]
      split
      · exact hnone.follow s s' hs hrel
      · exact hnext.follow s s' hs hrel

end Ecma3.Grammar
