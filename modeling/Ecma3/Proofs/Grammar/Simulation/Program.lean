import Ecma3.Proofs.Grammar.Simulation.Statement

/-! The accounts of whole programs. -/
namespace Ecma3.Grammar
open ParserM ParseTree

variable {R : Simulation} {bound m n : Nat} {inner inner' : Inner} {c : Account} {s s' t : Session}
  {root : Option ParseTree} {e : SyntaxError}

/-- The same account after one more token. -/
def Account.later (c : Account) : Account := { c with passed := c.passed + 1 }

theorem Tracks.later {α β : Type} {p p' : ParserM α} {after : α → Account} {e : α → β}
    (h : Tracks R bound c p p' after e) :
    Tracks R (bound + 1) c.later p p' (fun a => (after a).later) e := by
  have hfits : ∀ s, c.later.Fits (bound + 1) s → c.Fits bound s := by
    intro s hs
    have hpassed := hs.passed
    simp only [Account.later] at hpassed
    exact ⟨by omega, hs.next⟩
  constructor
  · intro s hs
    refine (h.run s (hfits s hs)).imp fun a t ha => ⟨ha.walk, ?_, ha.next⟩
    have hpassed := ha.passed
    simp only [Account.later]
    omega
  · exact fun s s' hs hrel => h.follow s s' (hfits s hs) hrel

theorem tracks_production (h : inner.Tracked R bound inner') (goal : Goal) :
    TracksTree R bound 0 (inner.production goal) (inner'.production goal) := by
  cases goal with
  | statement => exact Inner.tracks_statement h
  | assignment allowIn => exact Inner.tracks_assignment h allowIn
  | binary allowIn least => exact Inner.tracks_binary h allowIn least
  | unary => exact Inner.tracks_unary h
  | memberBase => exact Inner.tracks_memberBase h

/-- The bounds of the two runs need not agree: the one that is reached first is the only
difference. -/
theorem tracks_parseWithin (m n : Nat) (goal : Goal) :
    TracksTree R m 0 (parseWithin m goal) (parseWithin n goal) := by
  induction m generalizing n goal with
  | zero => exact fun c _ => .of_bound_le (Nat.zero_le _)
  | succ m ih =>
    have htracked : ∀ k, Inner.Tracked R (m + 1) ⟨m + 1, parseWithin m⟩ ⟨k + 1, parseWithin k⟩ := by
      refine fun k => ⟨Nat.le_refl _, fun goal c hc => ?_⟩
      -- A token was passed before what stands inside, which makes up for the smaller bound.
      obtain ⟨atoms, passed, next⟩ := c
      obtain ⟨passed, rfl⟩ : ∃ p, passed = p + 1 := ⟨passed - 1, by simp only at hc; omega⟩
      have hlater := (ih k goal ⟨atoms, passed, next⟩ (Nat.zero_le _)).later
      exact hlater.mono fun t => by simp [Account.later]
    intro c hc
    cases n with
    | zero => exact (tracks_production (htracked 0) goal c hc).giveUp
    | succ k => exact tracks_production (htracked k) goal c hc

theorem tracks_program (m n : Nat) : Tracks R m c (Inner.program ⟨m, parseWithin m⟩)
    (Inner.program ⟨n, parseWithin n⟩) (fun root => c.plus (root.toList.flatMap atoms) 0)
    (Option.map R.tree) := by
  have hstatements : Tracks R m c (Inner.statements ⟨m, parseWithin m⟩ fun _ => false)
      (Inner.statements ⟨n, parseWithin n⟩ fun _ => false)
      (fun found => c.plus (found.flatMap atoms) 0) (List.map R.tree) := by
    refine Inner.tracks_statements ?_ _ fun d _ => ?_
    · exact Nat.le_refl m
    · exact tracks_parseWithin m n .statement d (Nat.zero_le _)
  refine hstatements.bind fun found found' hfound => ?_
  match found, found', hfound with
  | [], [], _ => exact .pure rfl (by simp)
  | [only], [only'], h => exact .pure (by simpa using h) (by simp)
  | [_], _ :: _ :: _, h => simp at h
  | _ :: _ :: _, [_], h => simp at h
  | first :: second :: others, first' :: second' :: others', h =>
    have hstart : R.offset first'.span.start = R.offset first.span.start := by
      simp only [List.map_cons, List.cons.injEq] at h
      exact R.start_of_tree h.1
    refine (tracks_get fun s s' hrel => R.lastEnd hrel).bind fun s s' hstop => .pure ?_ ?_
    · simp only [Option.map_some, R.tree_group, Simulation.span, hstart, hstop, h]
    · simp [atoms_group (show Kind.isAtom .unit = false from rfl)]

/-- A repetition that nothing but `D` ends. -/
theorem leads_collect {turn : ParserM (Turn ParseTree)} {D : Session → Prop}
    (hturn : ∀ s, Leads turn s (fun found t => match found with
      | .stop | .last _ => D t
      | .skip | .more _ => True) fun _ _ => True) (n : Nat) (s : Session) :
    Leads (collect turn n) s (fun _ t => D t) fun _ _ => True := by
  induction n generalizing s with
  | zero => trivial
  | succ n ih =>
    simp only [collect, leads_bind]
    refine (hturn s).imp fun found t ht => ?_
    cases found with
    | stop => exact ht
    | skip => exact ih t
    | last a => exact ht
    | more a => exact leads_bind.2 (ih t)

/-- A program ends where the text ends. -/
theorem leads_program_end (s : Session) :
    Leads ParserM.program s (fun _ t => t.current = none) fun _ _ => True := by
  have hturn : ∀ (bound : Nat) (s : Session), Leads (Inner.statements ⟨bound, parseWithin bound⟩
      fun _ => false) s (fun _ t => t.current = none) fun _ _ => True := by
    intro bound s
    refine leads_collect (fun s => ?_) bound s
    simp only [leads_bind, leads_token?]
    split
    · rename_i hnone
      simpa [Session.token?] using hnone
    · simp only [Bool.false_eq_true, if_false, leads_bind]
      refine leads_true.imp fun passed t _ => ?_
      split
      · trivial
      · exact leads_bind.2 (leads_true.imp fun _ _ _ => trivial)
  simp only [ParserM.program, leads_bind, leads_get, Inner.program]
  refine (hturn _ s).imp fun found t ht => ?_
  split
  · exact ht
  · exact ht
  · exact ht

/-- Two runs that are the same. -/
def Simulation.same : Simulation where
  Rel s s' := s' = s
  offset := id
  offset_max _ _ := rfl
  token h := by rw [h]
  text h := by rw [h]
  start h := by rw [h]
  stop h := by rw [h]
  lastEnd h := by rw [h]
  lineBreak h _ := by rw [h]
  advance := by
    rintro s _ rfl _ a t ha _
    exact Or.inr ⟨a, t, ha, rfl, rfl⟩
  enter := by
    rintro s _ rfl a t ha _
    exact Or.inr ⟨a, t, ha, rfl, rfl⟩
  leave := by
    rintro s _ rfl
    rfl

/-- Before anything is parsed. -/
def Account.empty : Account := ⟨[], 0, none⟩

theorem Account.empty_fits (s : Session) : Account.empty.Fits (s.cursor.rest.length + 2) s :=
  ⟨Nat.lt_succ_of_le s.left_le, by simp [Account.empty]⟩

/-- A call makes its way with moves alone, to the end of the text or to an error, and its bound is
never what ends it. -/
theorem program_moves (s : Session) : Leads ParserM.program s
    (fun root t => s.Walk (root.toList.flatMap atoms) t ∧ t.current = none)
    fun e t => e ≠ .endless ∧ s.Fails e t := by
  have hrun := (tracks_program (R := Simulation.same) (c := .empty) (s.cursor.rest.length + 2)
    (s.cursor.rest.length + 2)).run s (Account.empty_fits s)
  have hend := leads_program_end s
  simp only [ParserM.program, leads_bind, leads_get] at hend ⊢
  unfold Leads at hrun hend ⊢
  split
  · rename_i root t ht
    simp only [ht] at hrun hend
    obtain ⟨L, hL, hwalk⟩ := hrun.walk
    rw [Account.plus_atoms, List.append_right_inj] at hL
    exact ⟨hL ▸ hwalk, hend⟩
  · rename_i e t ht
    simpa only [ht] using hrun

/-- A call on related sessions, the first of which gives a tree without regular expressions. -/
theorem program_follows (h : R.Rel s s') (hs : ParserM.program s = .ok root t)
    (hregex : ∀ leaf ∈ root.toList.flatMap atoms, leaf.kind ≠ .regexLiteral) :
    ∃ root' t', ParserM.program s' = .ok root' t' ∧ root'.map R.tree = root.map R.tree ∧
      R.Rel t t' := by
  have hfollow := (tracks_program (R := R) (c := .empty) (s.cursor.rest.length + 2)
    (s'.cursor.rest.length + 2)).follow s s' (Account.empty_fits s) h
  have hrun : ∀ u, ParserM.program s' ≠ .error .endless u := by
    intro u hu
    have hmoves := program_moves s'
    unfold Leads at hmoves
    simp only [hu] at hmoves
    exact hmoves.1 rfl
  rcases hfollow root t hs hregex with ⟨u, hu⟩ | hsame
  · exact absurd hu (hrun u)
  · exact hsame

/-- A source is parsed by one call, after its first lexeme is read. -/
theorem parse_eq_ok {limit : Nat} {source : String} : parse limit source = .ok root ↔
    ∃ s t, advance (.ofString limit source) = .ok () s ∧ ParserM.program s = .ok root t := by
  simp only [parse, Session.start, Session.program, bind, Except.bind]
  constructor
  · intro h
    split at h
    · cases h
    · rename_i s hs
      split at hs
      · rename_i u hu
        cases hs
        split at h
        · rename_i tree t ht
          cases h
          exact ⟨s, t, hu, ht⟩
        · cases h
      · cases hs
  · rintro ⟨s, t, hs, ht⟩
    simp only [hs, ht]

end Ecma3.Grammar
