import Ecma3.Proofs.Grammar.Account

/-!
Simulations between two runs of a parser.

A parser accounts for itself when it makes its way with the moves of `Walk` alone, when the atoms of
what it returns are the ones that the walk kept, and when it has passed as many tokens as it says.
Two runs are compared by any relation of sessions that the single steps keep up; the places of what
they return are compared after `offset`.
-/
namespace Ecma3.Grammar
open ParserM ParseTree

variable {α β γ δ : Type}

/-- Whatever the first outcome is, the second agrees with it if no regular expression was passed:
the same result as far as `e` tells, and related sessions. It may give up by its bound. -/
def Follows (Rel : Session → Session → Prop) (atoms : α → List ParseTree) (e : α → β)
    (r r' : EStateM.Result SyntaxError Session α) : Prop :=
  ∀ a t, r = .ok a t → (∀ leaf ∈ atoms a, leaf.kind ≠ .regexLiteral) →
    (∃ t', r' = .error .endless t') ∨ ∃ a' t', r' = .ok a' t' ∧ e a' = e a ∧ Rel t t'

/-- A relation between the sessions of two runs that the single steps of parsers keep up. -/
structure Simulation where
  Rel : Session → Session → Prop
  /-- What is compared of the places in the two texts. -/
  offset : Nat → Nat
  offset_max : ∀ m n, offset (max m n) = max (offset m) (offset n)
  token : ∀ {s s'}, Rel s s' → s'.token? = s.token?
  text : ∀ {s s'}, Rel s s' → s'.text = s.text
  start : ∀ {s s'}, Rel s s' → offset s'.span.start = offset s.span.start
  stop : ∀ {s s'}, Rel s s' → offset s'.span.stop = offset s.span.stop
  lastEnd : ∀ {s s'}, Rel s s' → offset s'.lastEnd = offset s.lastEnd
  lineBreak : ∀ {s s'}, Rel s s' → s.current.isSome → s'.lineBreakBefore = s.lineBreakBefore
  advance : ∀ {s s'}, Rel s s' → s.current.isSome →
    Follows Rel (fun _ => []) id (ParserM.advance s) (ParserM.advance s')
  enter : ∀ {s s'}, Rel s s' → Follows Rel (fun _ => []) id (ParserM.enter s) (ParserM.enter s')
  leave : ∀ {s s'}, Rel s s' → Rel { s with depth := s.depth - 1 } { s' with depth := s'.depth - 1 }

/-- What is compared of a place. -/
def Simulation.span (R : Simulation) (place : Span) : Span :=
  ⟨R.offset place.start, R.offset place.stop⟩

/-- What is compared of a tree. -/
def Simulation.tree (R : Simulation) : ParseTree → ParseTree := relocate R.offset

/-- From the account `c` the parser comes to the account `after` of what it returns, and the parser
`p'` follows it as far as `e` tells. -/
structure Tracks (R : Simulation) (bound : Nat) (c : Account) (p p' : ParserM α)
    (after : α → Account) (e : α → β) : Prop where
  run : ∀ s, c.Fits bound s → Leads p s (fun a t => c.Leads (after a) s t)
    fun x t => x ≠ .endless ∧ s.Fails x t
  follow : ∀ s s', c.Fits bound s → R.Rel s s' →
    Follows R.Rel (fun a => (after a).atoms) e (p s) (p' s')

namespace Tracks

variable {R : Simulation} {bound : Nat} {c : Account} {p p' q q' : ParserM α}
  {f f' : α → ParserM γ} {mid after : α → Account} {last : γ → Account} {e : α → β} {e' : γ → δ}

theorem pure {a a' : α} (he : e a' = e a) (hc : c.Covers (after a)) :
    Tracks R bound c (pure a) (pure a') after e := by
  refine ⟨fun s hs => hc.leads hs, ?_⟩
  intro s s' _ hrel b t hb _
  cases hb
  exact Or.inr ⟨a', s', rfl, he, hrel⟩

theorem bind (hp : Tracks R bound c p p' mid e)
    (hf : ∀ a a', e a' = e a → Tracks R bound (mid a) (f a) (f' a') last e') :
    Tracks R bound c (p >>= f) (p' >>= f') last e' := by
  constructor
  · intro s hs
    rw [leads_bind]
    refine (hp.run s hs).mono (fun a t ha => ?_) fun x t hx => hx
    refine ((hf a a rfl).run t (ha.fits hs)).mono (fun b u hb => ha.trans hb) fun x u hx => ?_
    obtain ⟨L, -, hwalk⟩ := ha.walk
    exact ⟨hx.1, hx.2.of_walk hwalk⟩
  · intro s s' hs hrel b u hb hplain
    obtain ⟨a, t, hr, hb⟩ := of_bind_eq_ok hb
    have hmid := (hp.run s hs).ok hr
    have ht := hmid.fits hs
    obtain ⟨M, hM, -⟩ := (((hf a a rfl).run t ht).ok hb).walk
    -- What the first parser kept is kept by both, so there is no regular expression in it either.
    have hkept : ∀ leaf ∈ (mid a).atoms, leaf.kind ≠ .regexLiteral := fun leaf hleaf =>
      hplain leaf (by simp only [hM, List.mem_append, hleaf, true_or])
    rcases hp.follow s s' hs hrel a t hr hkept with ⟨t', hr'⟩ | ⟨a', t', hr', he, hrel'⟩
    · exact Or.inl ⟨t', bind_of_error hr'⟩
    · rw [bind_of_ok hr']
      exact (hf a a' he).follow t t' ht hrel' b u hb hplain

/-- A first step whose results agree in full. -/
theorem bind_same (hp : Tracks R bound c p p' mid id)
    (hf : ∀ a, Tracks R bound (mid a) (f a) (f' a) last e') :
    Tracks R bound c (p >>= f) (p' >>= f') last e' :=
  hp.bind fun a a' (h : a' = a) => h ▸ hf a

theorem mono {m : α → Account} (h : Tracks R bound c p p' m e) (hc : ∀ a, (m a).Covers (after a)) :
    Tracks R bound c p p' after e := by
  constructor
  · intro s hs
    refine (h.run s hs).imp fun a t ha => ha.trans ((hc a).leads (ha.fits hs))
  · intro s s' hs hrel a t ha hplain
    refine h.follow s s' hs hrel a t ha fun leaf hleaf => hplain leaf ?_
    simpa only [(hc a).atoms] using hleaf

theorem ite {b b' : Prop} [Decidable b] [Decidable b'] (hb : b' ↔ b)
    (hp : b → Tracks R bound c p p' after e) (hq : ¬b → Tracks R bound c q q' after e) :
    Tracks R bound c (if b then p else q) (if b' then p' else q') after e := by
  by_cases h : b
  · rw [if_pos h, if_pos (hb.2 h)]
    exact hp h
  · rw [if_neg h, if_neg (fun hb' => h (hb.1 hb'))]
    exact hq h

/-- No session fits an account of too many tokens. -/
theorem of_bound_le (h : bound ≤ c.passed) : Tracks R bound c p p' after e := by
  constructor
  · intro s hs
    exact absurd hs.passed (by omega)
  · intro s s' hs
    exact absurd hs.passed (by omega)

/-- The second run may give up instead. -/
theorem giveUp (h : Tracks R bound c p p' after e) :
    Tracks R bound c p (throw .endless) after e :=
  ⟨h.run, fun _ s' _ _ _ _ _ _ => Or.inl ⟨s', rfl⟩⟩

/-- A parser that only looks at the session. -/
theorem look {p : ParserM α} {g : Session → α} (hp : ∀ s, p s = .ok (g s) s)
    (hc : ∀ s, c.Fits bound s → c.Leads (after (g s)) s s)
    (he : ∀ s s', R.Rel s s' → c.Fits bound s → e (g s') = e (g s)) :
    Tracks R bound c p p after e := by
  constructor
  · intro s hs
    simpa only [Leads, hp] using hc s hs
  · intro s s' hs hrel a t ha _
    rw [hp] at ha
    cases ha
    exact Or.inr ⟨g s', s', hp s', he s s' hrel hs, hrel⟩

end Tracks

end Ecma3.Grammar
