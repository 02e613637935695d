import Ecma3.Proofs.Grammar.Comparison
import Ecma3.Proofs.Grammar.Simulation.Step

/-! How the single steps of parsers carry a comparison, and what repeats them. -/
namespace Ecma3.Grammar
open ParserM ParseTree

variable {α β : Type} {R : Comparison} {n k : Nat} {c : Ledger} {p p' q q' : ParserM α}
  {f f' : α → ParserM β} {after : α → Ledger} {last : β → Ledger} {g : α → α} {g' : β → β}
  {t : Token} {kind : Kind} {s s' u : Session}

/-- At the end of the text, or at a barred token, no statement and no expression begins. -/
def Session.Barred (s : Session) : Prop := ∀ t, s.token? = some t → t.isBarred = true

/-- The parser fails from this session on. -/
def ParserM.Refuses (p : ParserM α) (s : Session) : Prop :=
  Leads p s (fun _ _ => False) fun _ _ => True

namespace ParserM.Refuses

variable {p : ParserM α} {f : α → ParserM β}

theorem bind (h : Refuses p s) : Refuses (p >>= f) s :=
  leads_bind.2 (h.imp fun _ _ => False.elim)

theorem ne_ok (h : Refuses p s) {a : α} {u : Session} : p s ≠ .ok a u := fun hp => h.ok hp

end ParserM.Refuses

theorem Session.barred_of_none (h : s.current = none) : s.Barred := by
  intro t ht
  simp [Session.token?, h] at ht

theorem Session.current_isSome (h : s.token? = some t) : s.current.isSome := by
  obtain ⟨l, hl, -⟩ := token?_eq_some h
  simp [hl]

theorem Comparison.span_eq {moved : Bool} (h : R.Rel moved n s s') : s'.span = R.place s.span := by
  rw [Comparison.place, ← R.start h, ← R.stop h]

theorem Comparison.current_isNone {moved : Bool} (h : R.Rel moved n s s') :
    s'.current.isNone = s.current.isNone := by
  simpa [Session.token?] using congrArg Option.isNone (R.token h)

theorem Comparison.text_of_current {moved : Bool} (h : R.Rel moved n s s') :
    s'.current.map (·.text) = s.current.map (·.text) := by
  have hnone := R.current_isNone h
  have htext := R.text h
  cases hcurrent : s.current <;> cases hcurrent' : s'.current <;> simp_all [Session.text]

/-- A run is stuck at a slash. -/
theorem Comparison.not_stuck (h : R.Stuck s) (ht : s.token? = some t)
    (hplain : t.isOrdinary = true) : False := by
  rw [R.stuck.token h ht] at hplain
  simp [Token.isOrdinary] at hplain

theorem Comparison.Meets.moved (h : R.Meets c n s s') (hc : c.past = false)
    (hmoved : c.moved = true) : R.Rel true n s s' := hmoved ▸ h.rel hc

theorem carries_token? (hc : c.past = false) :
    Carries R n c token? token? (fun t => c.seeing t) id :=
  .look Session.token? Session.token? (fun _ => rfl) (fun _ => rfl) (fun _ _ _ ht => ht)
    (fun _ => c.covers_unseen) fun _ _ hmeets => R.token (hmeets.rel hc)

theorem carries_sees (hc : c.past = false) : Carries R n c (sees t) (sees t)
    (fun seen => if seen then c.seeing (some t) else c) id := by
  refine .look (fun s => s.token? == some t) (fun s => s.token? == some t) (fun _ => rfl)
    (fun _ => rfl) (fun s hs => ?_) (fun s => ?_)
    fun s s' hmeets => by simp [R.token (hmeets.rel hc)]
  · split
    · intro token htoken
      cases htoken
      simp_all
    · exact hs
  · split <;> exact c.covers_unseen

theorem carries_currentSpan (hc : c.past = false) :
    Carries R n c currentSpan currentSpan (fun _ => c) R.place :=
  .look Session.span Session.span (fun _ => rfl) (fun _ => rfl) (fun _ hs => hs)
    (fun _ => c.covers_unseen) fun _ _ hmeets => R.span_eq (hmeets.rel hc)

theorem carries_currentText (hc : c.past = false) :
    Carries R n c currentText currentText (fun _ => c) id :=
  .look Session.text Session.text (fun _ => rfl) (fun _ => rfl) (fun _ hs => hs)
    (fun _ => c.covers_unseen) fun _ _ hmeets => R.text (hmeets.rel hc)

theorem carries_lineBreakBefore (hc : c.past = false) (hmoved : c.moved = true) :
    Carries R n c lineBreakBefore lineBreakBefore (fun _ => c) id :=
  .look Session.lineBreakBefore Session.lineBreakBefore (fun _ => rfl) (fun _ => rfl)
    (fun _ hs => hs) (fun _ => c.covers_unseen)
    fun _ _ hmeets => R.lineBreak (hmeets.moved hc hmoved)

theorem Comparison.Meets.lastEnd (h : R.Meets c n s s') (hmoved : c.moved = true) :
    s'.lastEnd = s.lastEnd + R.shift := by
  rcases h with hrel | ⟨-, hended⟩
  · rw [hmoved] at hrel
    exact R.lastEnd hrel
  · exact R.ended.lastEnd hended

theorem carries_spanFrom {start : Nat} (hmoved : c.moved = true) :
    Carries R n c (spanFrom start) (spanFrom (start + R.shift)) (fun _ => c) R.place := by
  refine .look (fun s => ⟨start, max s.lastEnd start⟩)
    (fun s => ⟨start + R.shift, max s.lastEnd (start + R.shift)⟩) (fun _ => rfl) (fun _ => rfl)
    (fun _ hs => hs) (fun _ => c.covers_unseen) fun s s' hmeets => ?_
  rw [hmeets.lastEnd hmoved, Comparison.place, Nat.add_max_add_right]

/-- What the parser makes of the session depends on what the runs have in common. -/
theorem carries_get {f f' : Session → ParserM β} (hc : c.past = false) (hmoved : c.moved = true)
    (hf : ∀ s s' : Session, s'.token? = s.token? → s'.current.isNone = s.current.isNone →
      s'.lineBreakBefore = s.lineBreakBefore → s'.lastEnd = s.lastEnd + R.shift →
        Carries R n (c.seeing s.token?) (f s) (f' s') last g') :
    Carries R n c (get >>= f) (get >>= f') last g' := by
  have hget : ∀ (f : Session → ParserM β) s, (get >>= f) s = f s s := fun _ _ => rfl
  -- The first run alone goes on as it does beside any second one.
  have hfirst := fun s : Session => hf s { s with lastEnd := s.lastEnd + R.shift } rfl rfl rfl rfl
  refine ⟨fun _ h => (hfirst _).sees (fun _ ht => ht) h,
    fun _ hover h => (hfirst _).stays (fun _ ht => ht) hover h, fun {s s'} _ hmeets => ?_⟩
  have hrel := hmeets.moved hc hmoved
  rw [hget, hget]
  exact (hf s s' (R.token hrel) (R.current_isNone hrel) (R.lineBreak hrel) (R.lastEnd hrel)).follow
    (fun _ ht => ht) hmeets

/-- The end of the text for the first run alone is where it cannot go on. -/
theorem carries_refused {expected : Expected}
    (hp : ∀ s, p s = .error (.unexpected expected (s.current.map (·.text)) s.span) s)
    (hp' : ∀ s, p' s = .error (.unexpected expected (s.current.map (·.text)) s.span) s) :
    Carries R n c p p' after g := by
  refine ⟨fun {s a t} _ h => ?_, fun {s a t} _ _ h => ?_,
    fun {s s'} _ hmeets => ⟨fun h => ?_, fun h => ?_⟩⟩
  all_goals rw [hp] at h; cases h
  refine Or.inr ?_
  rcases hmeets with hrel | ⟨-, hended⟩
  · refine (R.refused hrel).imp (fun hfails => hfails _ _)
      fun ⟨hcommon, hshift⟩ => ⟨hcommon, s', ?_⟩
    rw [hp', R.text_of_current hrel, R.span_eq hrel, R.place_eq hshift]
  · exact Or.inl (R.ended.fails hended)

theorem carries_unexpected {expected : Expected} :
    Carries R n c (unexpected expected : ParserM α) (unexpected expected) after g :=
  carries_refused (fun _ => rfl) fun _ => rfl

theorem carries_unexpected_bind {expected : Expected} :
    Carries R n c ((unexpected expected : ParserM α) >>= f)
      ((unexpected expected : ParserM α) >>= f') last g' :=
  carries_refused (fun _ => rfl) fun _ => rfl

theorem carries_advance (hc : c.past = false) (hnext : c.next = some t)
    (ht : t.isOrdinary = true) : Carries R n c advance advance (fun _ => c.passing) id := by
  refine ⟨fun _ _ => Ledger.sees_of_none rfl, fun hs hover h => ?_,
    fun hs hmeets => ⟨fun h => ?_, fun h => Or.inr ?_⟩⟩
  · exact hover.imp_right fun hstuck => (R.not_stuck hstuck (hs _ hnext) ht).elim
  · rcases R.advance_ok (hmeets.rel hc) (hs _ hnext) h with hstuck | ⟨u', hu', hrel | ⟨rfl, -⟩⟩
    · exact Or.inl (Or.inr hstuck)
    · exact Or.inr ⟨u', hu', Or.inl hrel⟩
    · simp [Token.isOrdinary] at ht
  · exact R.advance_error (hmeets.rel hc) (hs _ hnext) h

theorem carries_semicolon (hc : c.past = false) (hnext : c.next = some (.punctuator .semicolon)) :
    Carries R n c advance advance (fun _ => c.passing.ending) id := by
  refine ⟨fun _ _ => Ledger.sees_of_none rfl, fun hs hover h => ?_,
    fun hs hmeets => ⟨fun h => ?_, fun h => Or.inr ?_⟩⟩
  · refine hover.imp_right fun hstuck => ?_
    cases R.stuck.token hstuck (hs _ hnext)
  · rcases R.advance_ok (hmeets.rel hc) (hs _ hnext) h with hstuck | ⟨u', hu', hrel | ⟨-, hended⟩⟩
    · exact Or.inl (Or.inr hstuck)
    · exact Or.inr ⟨u', hu', Or.inl hrel⟩
    · exact Or.inr ⟨u', hu', Or.inr ⟨rfl, hended⟩⟩
  · exact R.advance_error (hmeets.rel hc) (hs _ hnext) h

/-- A parser that fails at the end of the text need not be compared there. -/
theorem Carries.unlessEnded (h : Carries R n c.going p p' after g)
    (hend : ∀ s, s.current = none → p.Refuses s) : Carries R n c p p' after g := by
  refine ⟨h.sees, h.stays, fun {s s'} hs hmeets => ?_⟩
  rcases hmeets with hrel | ⟨-, hended⟩
  · exact h.follow hs (Or.inl hrel)
  · exact ⟨fun ha => ((hend s (R.ended.current hended)).ne_ok ha).elim,
      fun _ => Or.inr (Or.inl (R.ended.fails hended))⟩

theorem carries_ifSees (hc : c.past = false) (hp : Carries R n (c.seeing (some t)) p p' after g)
    (hq : Carries R n c q q' after g) :
    Carries R n c (sees t >>= fun seen => if seen = true then p else q)
      (sees t >>= fun seen => if seen = true then p' else q') after g := by
  refine (carries_sees hc).bind_same fun seen => ?_
  cases seen with
  | false => exact hq
  | true => exact hp

theorem carries_accept (hc : c.past = false) (ht : t.isOrdinary = true) :
    Carries R n c (accept t) (accept t) (fun passed => if passed then c.passing else c) id := by
  refine carries_ifSees hc ?_ (.pure rfl .refl)
  exact .bind_same (carries_advance hc rfl ht) fun _ => .pure rfl .refl

theorem carries_ifAccept (hc : c.past = false) (ht : t.isOrdinary = true)
    (hp : Carries R n c.passing p p' after g) (hq : Carries R n c q q' after g) :
    Carries R n c (accept t >>= fun passed => if passed = true then p else q)
      (accept t >>= fun passed => if passed = true then p' else q') after g := by
  refine (carries_accept hc ht).bind_same fun passed => ?_
  cases passed with
  | false => exact hq
  | true => exact hp

theorem demand_refuses {expected : Expected} (h : s.current = none) :
    (demand t expected).Refuses s := by
  have hsees : (s.token? == some t) = false := by simp [Session.token?, h]
  simp only [Refuses, demand, leads_bind, leads_sees, hsees]
  trivial

/-- A token that must follow does not, where the text has ended. -/
theorem carries_demand {expected : Expected} (ht : t.isOrdinary = true) :
    Carries R n c (demand t expected) (demand t expected) (fun _ => c.passing) R.place := by
  refine .unlessEnded ?_ fun s hs => demand_refuses hs
  refine carries_ifSees rfl ?_ carries_unexpected
  refine .bind (carries_currentSpan rfl) fun span => ?_
  exact .bind_same (carries_advance rfl rfl ht) fun _ => .pure rfl .refl

/-- Behind a semicolon the text may end for the first run. What follows must not be content then. -/
theorem carries_demandSemicolon {expected : Expected} {f f' : Span → ParserM β}
    (hc : c.past = false) (hf : ∀ span, Carries R n c.passing (f span) (f' (R.place span)) last g')
    (hend : ∀ span s, s.current = none → (f span).Refuses s) :
    Carries R n c (demand (.punctuator .semicolon) expected >>= f)
      (demand (.punctuator .semicolon) expected >>= f') last g' := by
  have hdemand : Carries R n c (demand (.punctuator .semicolon) expected)
      (demand (.punctuator .semicolon) expected) (fun _ => c.passing.ending) R.place := by
    refine carries_ifSees hc ?_ carries_unexpected
    refine .bind (carries_currentSpan hc) fun span => ?_
    exact .bind_same (carries_semicolon hc rfl) fun _ => .pure rfl .refl
  exact hdemand.bind fun span => .unlessEnded (hf span) (hend span)

/-- The word `else` does not begin what comes after the end of the first text. -/
theorem carries_acceptElse : Carries R n c (acceptWord .«else») (acceptWord .«else»)
    (fun passed => if passed then c.passing else c) id := by
  have haccept : Carries R n c.going (acceptWord .«else») (acceptWord .«else»)
      (fun passed => if passed then c.passing else c) id := by
    refine (carries_accept rfl rfl).mono fun passed => ?_
    cases passed with
    | false => exact ⟨List.Subset.refl _, Nat.le_refl _, id, nofun, fun _ => id⟩
    | true => exact .refl
  refine ⟨haccept.sees, haccept.stays, fun {s s'} hs hmeets => ?_⟩
  rcases hmeets with hrel | ⟨hpast, hended⟩
  · exact haccept.follow hs (Or.inl hrel)
  · have hrefuse : ∀ {s : Session}, s.token? ≠ some (.reserved .«else») →
        acceptWord .«else» s = .ok false s := by
      intro s hs
      have haccept : acceptWord .«else» s = (if s.token? == some (.reserved .«else») then
          advance >>= fun _ => pure true else pure false : ParserM Bool) s := rfl
      rw [haccept, if_neg (by simpa using hs)]
      rfl
    have htoken : s.token? ≠ some (.reserved .«else») := by
      simp [Session.token?, R.ended.current hended]
    rw [hrefuse htoken, hrefuse (R.ended.notElse hended)]
    exact ⟨fun h => by cases h; exact Or.inr ⟨s', rfl, Or.inr ⟨hpast, hended⟩⟩, fun h => by cases h⟩

theorem carries_leaf (hc : c.past = false) (hnext : c.next = some t) (ht : t.isOrdinary = true) :
    Carries R n c (leaf kind) (leaf kind) (fun tree => c.keeping k tree) R.tree := by
  refine (carries_currentSpan hc).bind fun span => (carries_currentText hc).bind_same fun text => ?_
  refine (carries_advance hc hnext ht).bind_same fun _ => .pure ?_ ?_
  · exact (relocate_leaf (f := (· + R.shift))).symm
  · exact ⟨List.subset_append_left _ _, Nat.le_max_left _ _, id, id, fun _ h => by cases h⟩

/-- A regular expression is kept like the other atoms. -/
theorem carries_regexLiteral (hc : c.past = false) (hnext : c.next = some t)
    (ht : t.mayOpenRegex = true) :
    Carries R n c regexLiteral regexLiteral (fun tree => c.keeping k tree) R.tree := by
  have hlost : ∀ {tree : ParseTree}, R.Lost 0 tree.atoms →
      R.Lost (c.keeping k tree).deepest (c.keeping k tree).atoms := fun h =>
    R.lost_mono h (Nat.zero_le _) (List.subset_append_right _ _)
  refine ⟨fun _ _ => Ledger.sees_of_none rfl, fun hs hover h => ?_,
    fun hs hmeets => ⟨fun h => ?_, fun h => Or.inr ?_⟩⟩
  · rcases hover with hover | hstuck
    · exact Or.inl (R.lost_mono hover (Nat.le_max_left _ _) (List.subset_append_left _ _))
    · exact Or.inl (hlost (R.stuck.regex hstuck (Session.current_isSome (hs _ hnext)) h))
  · rcases R.regex_ok (hmeets.rel hc) (hs _ hnext) ht h with hbad | hstuck | ⟨u', hu', hrel⟩
    · exact Or.inl (Or.inl (hlost hbad))
    · exact Or.inl (Or.inr hstuck)
    · exact Or.inr ⟨u', hu', Or.inl hrel⟩
  · exact R.regex_error (hmeets.rel hc) (hs _ hnext) ht h

theorem thenLeave_eq (p : ParserM α) (s : Session) : thenLeave p s = match p s with
    | .ok a u => .ok a { u with depth := u.depth - 1 }
    | .error x u => .error x { u with depth := u.depth - 1 } := rfl

theorem thenLeaveIfOk_eq (p : ParserM α) (s : Session) : thenLeaveIfOk p s = match p s with
    | .ok a u => .ok a { u with depth := u.depth - 1 }
    | .error x u => .error x u := by
  simp only [thenLeaveIfOk, bind, EStateM.bind]
  cases p s <;> rfl

theorem thenLeave_eq_ok {a : α} (h : thenLeave p s = .ok a u) :
    ∃ v, p s = .ok a v ∧ u = { v with depth := v.depth - 1 } := by
  rw [thenLeave_eq] at h
  split at h <;> cases h
  exact ⟨_, ‹_›, rfl⟩

theorem thenLeaveIfOk_eq_ok {a : α} (h : thenLeaveIfOk p s = .ok a u) :
    ∃ v, p s = .ok a v ∧ u = { v with depth := v.depth - 1 } := by
  rw [thenLeaveIfOk_eq] at h
  split at h <;> cases h
  exact ⟨_, ‹_›, rfl⟩

theorem enter_eq_ok (h : enter s = .ok () u) : u = { s with depth := s.depth + 1 } := by
  rw [enter_eq] at h
  split at h <;> cases h
  rfl

/-- What `q` adds to `p` is to come back up one level, if `p` succeeds. -/
structure Nests (p q : ParserM α) : Prop where
  ok : ∀ {s a u}, q s = .ok a u → ∃ v, p s = .ok a v ∧ u = { v with depth := v.depth - 1 }
  of_ok : ∀ {s a v}, p s = .ok a v → q s = .ok a { v with depth := v.depth - 1 }

theorem nests_thenLeave : Nests p (thenLeave p) :=
  ⟨thenLeave_eq_ok, fun h => by rw [thenLeave_eq, h]⟩

theorem nests_thenLeaveIfOk : Nests p (thenLeaveIfOk p) :=
  ⟨thenLeaveIfOk_eq_ok, fun h => by rw [thenLeaveIfOk_eq, h]⟩

namespace Nests

theorem eq_ok {a : α} (hq : Nests p q) (h : (enter >>= fun _ => q) s = .ok a u) :
    ∃ v, p { s with depth := s.depth + 1 } = .ok a v ∧ u = { v with depth := v.depth - 1 } := by
  obtain ⟨_, v, hv, h⟩ := of_bind_eq_ok h
  rw [← enter_eq_ok hv]
  exact hq.ok h

theorem sees (hq : Nests p q) (h : Carries R (n + 1) c p p' after g) {a : α} (hs : c.Sees s)
    (ha : (enter >>= fun _ => q) s = .ok a u) : (after a).Sees u := by
  obtain ⟨v, hv, rfl⟩ := hq.eq_ok ha
  have hnext : (after a).Sees v := h.sees (s := { s with depth := s.depth + 1 }) hs hv
  exact hnext

theorem stays (hq : Nests p q) (h : Carries R (n + 1) c p p' after g) {a : α} (hs : c.Sees s)
    (hover : R.Over c s) (ha : (enter >>= fun _ => q) s = .ok a u) : R.Over (after a) u := by
  obtain ⟨v, hv, rfl⟩ := hq.eq_ok ha
  have hnext : R.Over (after a) v :=
    h.stays (s := { s with depth := s.depth + 1 }) hs (hover.withDepth _) hv
  exact hnext.withDepth _

/-- A level that the second run refuses shows in what the first one has kept. -/
theorem follow (hq : Nests p q) (hq' : Nests p' q') (h : Carries R (n + 1) c p p' after g)
    (hlost : ∀ a, n + 1 ≤ (after a).deepest) (hs : c.Sees s) (hrel : R.Rel c.moved n s s')
    (herror : ∀ {v v' x u}, enter s = .ok () v → c.Sees v → R.Rel c.moved (n + 1) v v' →
      q v = .error x u → x = .endless ∨ R.Fails n x u ∨ R.common ∧ ∃ u', q' v' = .error x u') :
    R.Follows n after g ((enter >>= fun _ => q) s) ((enter >>= fun _ => q') s') := by
  cases henter : enter s with
  | error x v =>
    rw [bind_of_error henter]
    refine ⟨nofun, fun hx => Or.inr ?_⟩
    cases hx
    refine (R.enter_error hrel henter).imp_right fun ⟨hcommon, v', hv'⟩ => ⟨hcommon, v', ?_⟩
    exact bind_of_error hv'
  | ok _ v =>
    rw [bind_of_ok henter]
    have hv : c.Sees v := by
      rw [enter_eq_ok henter]
      exact hs
    rcases R.enter_ok hrel henter with hrefused | ⟨v', hv', hrel'⟩
    · refine ⟨fun {a u} _ => Or.inl (Or.inl ?_), fun _ => Or.inr (Or.inl (R.lost_fails hrefused))⟩
      exact R.lost_mono hrefused (hlost a) (List.nil_subset _)
    · rw [bind_of_ok hv']
      refine ⟨fun {a u} ha => ?_, herror henter hv hrel'⟩
      obtain ⟨w, hw, rfl⟩ := hq.ok ha
      refine ((h.follow hv (Or.inl hrel')).ok hw).imp (fun hover => hover.withDepth _) ?_
      rintro ⟨w', hw', hmeets⟩
      exact ⟨_, hq'.of_ok hw', hmeets.leave⟩

end Nests

/-- A level that is given back whether or not the parser fails. -/
theorem carries_guarded (hc : c.past = false) (h : Carries R (n + 1) c p p' after g)
    (hlost : ∀ a, n + 1 ≤ (after a).deepest) :
    Carries R n c (enter >>= fun _ => thenLeave p) (enter >>= fun _ => thenLeave p') after g := by
  refine ⟨nests_thenLeave.sees h, nests_thenLeave.stays h, fun hs hmeets =>
    nests_thenLeave.follow nests_thenLeave h hlost hs (hmeets.rel hc) ?_⟩
  intro v v' x u _ hv hrel hx
  rw [thenLeave_eq] at hx ⊢
  split at hx
  · cases hx
  · rename_i y w hw
    cases hx
    refine ((h.follow hv (Or.inl hrel)).error hw).imp_right fun hx => ?_
    refine hx.imp R.leave_fails fun ⟨hcommon, w', hw'⟩ => ⟨hcommon, ?_⟩
    rw [hw']
    exact ⟨_, rfl⟩

/-- A level that is given back only if the parser succeeds. After an error it is still counted. -/
theorem follow_leaking (h : Carries R (n + 1) c p p' after g)
    (hlost : ∀ a, n + 1 ≤ (after a).deepest) (hs : c.Sees s) (hrel : R.Rel c.moved n s s')
    (hleak : ∀ {v x u}, enter s = .ok () v → p v = .error x u → R.Fails (n + 1) x u →
      R.Fails n x u) :
    R.Follows n after g ((enter >>= fun _ => thenLeaveIfOk p) s)
      ((enter >>= fun _ => thenLeaveIfOk p') s') := by
  refine nests_thenLeaveIfOk.follow nests_thenLeaveIfOk h hlost hs hrel ?_
  intro v v' x u henter hv hrel' hx
  rw [thenLeaveIfOk_eq] at hx ⊢
  split at hx
  · cases hx
  · rename_i y w hw
    cases hx
    refine ((h.follow hv (Or.inl hrel')).error hw).imp_right fun hx => ?_
    refine hx.imp (hleak henter hw) fun ⟨hcommon, w', hw'⟩ => ⟨hcommon, ?_⟩
    rw [hw']
    exact ⟨_, rfl⟩

theorem carries_leaking (hc : c.past = false) (h : Carries R (n + 1) c p p' after g)
    (hlost : ∀ a, n + 1 ≤ (after a).deepest)
    (hleak : ∀ {s s' v x u}, c.Sees s → R.Rel c.moved n s s' → enter s = .ok () v →
      p v = .error x u → R.Fails (n + 1) x u → R.Fails n x u) :
    Carries R n c (enter >>= fun _ => thenLeaveIfOk p) (enter >>= fun _ => thenLeaveIfOk p') after
      g :=
  ⟨nests_thenLeaveIfOk.sees h, nests_thenLeaveIfOk.stays h, fun hs hmeets =>
    follow_leaking h hlost hs (hmeets.rel hc) (hleak hs (hmeets.rel hc))⟩

theorem OperandParser.ne_semicolon {p : ParserM ParseTree} (h : OperandParser t p) :
    t ≠ .punctuator .semicolon := by
  rintro rfl
  cases h with
  | unary hkind => cases hkind
  | binary hkind => cases hkind

/-- An operator, or `new`, and the operand one level deeper. A slash where a run is stuck is no
operator, since the token behind it is barred. -/
theorem carries_operand {p p' : ParserM ParseTree} {after : ParseTree → Ledger}
    {g : ParseTree → ParseTree} (hc : c.past = false) (hnext : c.next = some t)
    (hoperand : OperandParser t p) (h : Carries R (n + 1) c.passing p p' after g)
    (hlost : ∀ a, n + 1 ≤ (after a).deepest)
    (hbarred : ∀ v : Session, v.Barred → p.Refuses v) :
    Carries R n c (advance >>= fun _ => enter >>= fun _ => thenLeaveIfOk p)
      (advance >>= fun _ => enter >>= fun _ => thenLeaveIfOk p') after g := by
  have hnone : ∀ s, c.passing.Sees s := fun _ => Ledger.sees_of_none rfl
  refine ⟨fun hs h' => ?_, fun {s a u} hs hover h' => ?_, fun {s s'} hs hmeets => ?_⟩
  · obtain ⟨_, v, -, hv⟩ := of_bind_eq_ok h'
    exact nests_thenLeaveIfOk.sees h (hnone v) hv
  · obtain ⟨_, v, hadvance, hv⟩ := of_bind_eq_ok h'
    rcases hover with hover | hstuck
    · exact nests_thenLeaveIfOk.stays h (hnone v) (Or.inl hover) hv
    · obtain ⟨t', ht', hbarred'⟩ :=
        R.stuck.advance hstuck (Session.current_isSome (hs _ hnext)) hadvance
      obtain ⟨w, hw, -⟩ := nests_thenLeaveIfOk.eq_ok hv
      refine ((hbarred _ fun t'' ht'' => ?_).ne_ok hw).elim
      have htoken : v.token? = some t'' := ht''
      rw [ht'] at htoken
      cases htoken
      exact hbarred'
  · have hrel := hmeets.rel hc
    cases hadvance : advance s with
    | error x v =>
      rw [bind_of_error hadvance]
      refine ⟨nofun, fun hx => Or.inr ?_⟩
      cases hx
      refine (R.advance_error hrel (hs _ hnext) hadvance).imp_right fun ⟨hcommon, v', hv'⟩ => ?_
      exact ⟨hcommon, v', bind_of_error hv'⟩
    | ok _ v =>
      rw [bind_of_ok hadvance]
      rcases R.advance_ok hrel (hs _ hnext) hadvance with hstuck | ⟨v', hv', hrel' | ⟨rfl, -⟩⟩
      · exact ⟨fun ha => Or.inl (nests_thenLeaveIfOk.stays h (hnone v) (Or.inr hstuck) ha),
          fun _ => Or.inr (Or.inl (R.stuck.fails hstuck))⟩
      · rw [bind_of_ok hv']
        refine follow_leaking h hlost (hnone v) hrel' fun henter => ?_
        exact R.leak hrel (.operand (hs _ hnext) hoperand hadvance henter)
      · exact (hoperand.ne_semicolon rfl).elim

theorem carries_operand_bind {p p' : ParserM ParseTree} {f f' : ParseTree → ParserM β}
    {after : ParseTree → Ledger} {g : ParseTree → ParseTree} (hc : c.past = false)
    (hnext : c.next = some t) (hoperand : OperandParser t p)
    (h : Carries R (n + 1) c.passing p p' after g)
    (hlost : ∀ a, n + 1 ≤ (after a).deepest)
    (hbarred : ∀ v : Session, v.Barred → p.Refuses v)
    (hf : ∀ a, Carries R n (after a) (f a) (f' (g a)) last g') :
    Carries R n c (advance >>= fun _ => enter >>= fun _ => thenLeaveIfOk p >>= f)
      (advance >>= fun _ => enter >>= fun _ => thenLeaveIfOk p' >>= f') last g' := by
  have hbind := (carries_operand hc hnext hoperand h hlost hbarred).bind hf
  simpa only [bind_assoc] using hbind

/-- Behind a semicolon the first run may be at its end. -/
theorem carries_acceptSemicolon (hc : c.past = false) :
    Carries R n c (acceptMark .semicolon) (acceptMark .semicolon)
      (fun passed => if passed then c.passing.ending else c) id := by
  refine carries_ifSees hc ?_ (.pure rfl .refl)
  exact .bind_same (carries_semicolon hc rfl) fun _ => .pure rfl .refl

theorem Ledger.covers_ending : c.Covers c.ending :=
  ⟨List.Subset.refl _, Nat.le_refl _, id, fun _ => rfl, nofun⟩

theorem carries_endStatement (hc : c.past = false) (hmoved : c.moved = true) :
    Carries R n c endStatement endStatement (fun _ => c.ending) id := by
  refine .bind_same (carries_acceptSemicolon hc) fun passed => ?_
  cases passed with
  | true => exact .pure rfl ⟨List.Subset.refl _, Nat.le_refl _, fun _ => rfl, id, nofun⟩
  | false =>
    refine carries_get hc hmoved fun s s' htoken hnone hbreak _ => ?_
    rw [htoken, hnone, hbreak]
    exact .ite (fun _ => .pure rfl (Ledger.covers_ending (c := c.seeing s.token?)))
      fun _ => carries_unexpected

/-- The trees that a turn found. -/
def ParserM.Turn.trees : Turn α → List α
  | .stop | .skip => []
  | .last a | .more a => [a]

theorem Ledger.keepingAll_append {ts us : List ParseTree} :
    (c.keepingAll k ts).keepingAll k us = c.keepingAll k (ts ++ us) := by
  cases ts <;> simp [keepingAll, Nat.max_assoc]

theorem Ledger.keeping_keepingAll {a : ParseTree} {ts : List ParseTree} :
    (c.keeping k a).keepingAll k ts = c.keepingAll k (a :: ts) := by
  simp [keepingAll, keeping, Nat.max_assoc]

theorem carries_endless : Carries R n c (throw .endless) p' after g :=
  ⟨nofun, nofun, fun _ _ => ⟨nofun, fun h => by cases h; exact Or.inl rfl⟩⟩

/-- A repetition. The second run may take as many turns or more. -/
theorem carries_collect {turn turn' : ParserM (Turn ParseTree)} {m m' : Nat} (hc : c.past = false)
    (hturn : ∀ d : Ledger, d.past = false → Carries R n d turn turn'
      (fun found => d.keepingAll k found.trees) (Turn.map R.tree)) (hm : m ≤ m') :
    Carries R n c (collect turn m) (collect turn' m') (c.keepingAll k) (List.map R.tree) := by
  induction m generalizing c m' with
  | zero => exact carries_endless
  | succ m ih =>
    obtain ⟨m', rfl⟩ := Nat.exists_eq_succ_of_ne_zero (Nat.ne_zero_of_lt hm)
    have hrest : ∀ ts, Carries R n (c.keepingAll k ts) (collect turn m) (collect turn' m')
        (fun us => c.keepingAll k (ts ++ us)) (List.map R.tree) := by
      intro ts
      refine (ih rfl (Nat.le_of_succ_le_succ hm)).mono fun us => ?_
      rw [Ledger.keepingAll_append]
      exact .refl
    refine .bind (hturn c hc) fun found => ?_
    cases found with
    | stop => exact .pure rfl .refl
    | skip => exact hrest []
    | last a => exact .pure rfl .refl
    | more a => exact .bind (hrest [a]) fun others => .pure rfl .refl

/-- A tree that is extended. -/
theorem carries_extend {turn turn' : ParseTree → ParserM (Option ParseTree)} {m m' : Nat}
    (hturn : ∀ tree, Carries R n (c.keeping k tree) (turn tree) (turn' (R.tree tree))
      (fun next => c.keeping k (next.getD tree)) (Option.map R.tree)) (hm : m ≤ m')
    (tree : ParseTree) :
    Carries R n (c.keeping k tree) (extend turn m tree) (extend turn' m' (R.tree tree))
      (c.keeping k) R.tree := by
  induction m generalizing m' tree with
  | zero => exact carries_endless
  | succ m ih =>
    obtain ⟨m', rfl⟩ := Nat.exists_eq_succ_of_ne_zero (Nat.ne_zero_of_lt hm)
    refine .bind (hturn tree) fun next => ?_
    cases next with
    | none => exact .pure rfl .refl
    | some tree => exact ih (Nat.le_of_succ_le_succ hm) tree

end Ecma3.Grammar
