import Ecma3.Grammar.Session

/-! What a run of a parser leads to, for each of the steps that parsers are made of. -/
namespace Ecma3.Grammar.ParserM

variable {α β : Type} {p : ParserM α} {f : α → ParserM β} {s : Session}
  {Q Q' : α → Session → Prop} {R : β → Session → Prop} {E E' : SyntaxError → Session → Prop}

/-- From `s` the parser comes to a result and a session with `Q`, or to an error with `E`. -/
def Leads (p : ParserM α) (s : Session) (Q : α → Session → Prop)
    (E : SyntaxError → Session → Prop) : Prop :=
  match p s with
  | .ok a t => Q a t
  | .error e t => E e t

theorem Leads.mono (h : Leads p s Q E) (hQ : ∀ a t, Q a t → Q' a t) (hE : ∀ e t, E e t → E' e t) :
    Leads p s Q' E' := by
  unfold Leads at h ⊢
  split <;> simp_all

theorem Leads.imp (h : Leads p s Q E) (hQ : ∀ a t, Q a t → Q' a t) : Leads p s Q' E :=
  h.mono hQ fun _ _ he => he

theorem Leads.and (h : Leads p s Q E) (h' : Leads p s Q' E) :
    Leads p s (fun a t => Q a t ∧ Q' a t) E := by
  unfold Leads at h h' ⊢
  split <;> simp_all

theorem Leads.ok {a : α} {t : Session} (h : Leads p s Q E) (hp : p s = .ok a t) : Q a t := by
  simpa only [Leads, hp] using h

theorem leads_true : Leads p s (fun _ _ => True) fun _ _ => True := by
  unfold Leads
  split <;> trivial

theorem leads_false (h : Leads p s Q fun _ _ => False) : ∃ a t, p s = .ok a t ∧ Q a t := by
  unfold Leads at h
  split at h
  · exact ⟨_, _, by assumption, h⟩
  · exact h.elim

theorem bind_of_ok {a : α} {t : Session} (h : p s = .ok a t) : (p >>= f) s = f a t := by
  simp only [bind, EStateM.bind, h]

theorem bind_of_error {e : SyntaxError} {t : Session} (h : p s = .error e t) :
    (p >>= f) s = .error e t := by
  simp only [bind, EStateM.bind, h]

theorem of_bind_eq_ok {b : β} {u : Session} (h : (p >>= f) s = .ok b u) :
    ∃ a t, p s = .ok a t ∧ f a t = .ok b u := by
  cases hp : p s with
  | error e t => simp [bind_of_error hp] at h
  | ok a t =>
    rw [bind_of_ok hp] at h
    exact ⟨a, t, rfl, h⟩

theorem of_map_eq_ok {g : α → β} {b : β} {t : Session} (h : (g <$> p) s = .ok b t) :
    ∃ a, p s = .ok a t ∧ g a = b := by
  simp only [Functor.map, EStateM.map] at h
  split at h
  · cases h
    exact ⟨_, ‹_›, rfl⟩
  · cases h

theorem map_of_ok {g : α → β} {a : α} {t : Session} (h : p s = .ok a t) :
    (g <$> p) s = .ok (g a) t := by
  simp only [Functor.map, EStateM.map, h]

theorem map_congr {q : ParserM α} {g : α → β} {t : Session} (h : p s = q t) :
    (g <$> p) s = (g <$> q) t := by
  simp only [Functor.map, EStateM.map, h]

@[simp] theorem leads_pure {a : α} : Leads (pure a) s Q E ↔ Q a s := Iff.rfl

@[simp] theorem leads_throw {e : SyntaxError} : Leads (throw e : ParserM α) s Q E ↔ E e s := Iff.rfl

@[simp] theorem leads_bind :
    Leads (p >>= f) s R E ↔ Leads p s (fun a t => Leads (f a) t R E) E := by
  simp only [Leads, bind, EStateM.bind]
  cases p s <;> rfl

@[simp] theorem leads_map {g : α → β} :
    Leads (g <$> p) s R E ↔ Leads p s (fun a t => R (g a) t) E := by
  simp only [Leads, Functor.map, EStateM.map]
  cases p s <;> rfl

@[simp] theorem leads_get {Q : Session → Session → Prop} : Leads get s Q E ↔ Q s s := Iff.rfl

@[simp] theorem leads_set {t : Session} {Q : PUnit → Session → Prop} :
    Leads (set t) s Q E ↔ Q ⟨⟩ t := Iff.rfl

@[simp] theorem leads_modify {g : Session → Session} {Q : Unit → Session → Prop} :
    Leads (modify g) s Q E ↔ Q () (g s) := Iff.rfl

@[simp] theorem leads_token? {Q : Option Token → Session → Prop} :
    Leads token? s Q E ↔ Q s.token? s := Iff.rfl

@[simp] theorem leads_currentSpan {Q : Span → Session → Prop} :
    Leads currentSpan s Q E ↔ Q s.span s := Iff.rfl

@[simp] theorem leads_currentText {Q : String → Session → Prop} :
    Leads currentText s Q E ↔ Q s.text s := Iff.rfl

@[simp] theorem leads_lineBreakBefore {Q : Bool → Session → Prop} :
    Leads lineBreakBefore s Q E ↔ Q s.lineBreakBefore s := Iff.rfl

@[simp] theorem leads_sees {t : Token} {Q : Bool → Session → Prop} :
    Leads (sees t) s Q E ↔ Q (s.token? == some t) s := Iff.rfl

@[simp] theorem leads_leave {Q : Unit → Session → Prop} :
    Leads leave s Q E ↔ Q () { s with depth := s.depth - 1 } := Iff.rfl

theorem enter_eq (s : Session) : enter s =
    if s.limit < s.depth + 1 then
      .error (.nestingTooDeep s.limit s.span) { s with depth := s.depth + 1 }
    else .ok () { s with depth := s.depth + 1 } := by
  have henter : enter s = (if s.limit < s.depth + 1 then
      throw (.nestingTooDeep s.limit s.span) else pure () : ParserM Unit)
        { s with depth := s.depth + 1 } := rfl
  rw [henter]
  split <;> rfl

theorem leads_enter {Q : Unit → Session → Prop} :
    Leads enter s Q E ↔
      if s.limit < s.depth + 1 then
        E (.nestingTooDeep s.limit s.span) { s with depth := s.depth + 1 }
      else Q () { s with depth := s.depth + 1 } := by
  simp only [enter, leads_bind, leads_modify, leads_get]
  split <;> simp_all [Session.span]

theorem leads_thenLeave :
    Leads (thenLeave p) s Q E ↔ Leads p s (fun a t => Q a { t with depth := t.depth - 1 })
      fun e t => E e { t with depth := t.depth - 1 } := by
  simp only [Leads, thenLeave]
  cases p s <;> rfl

theorem leads_thenLeaveIfOk :
    Leads (thenLeaveIfOk p) s Q E ↔
      Leads p s (fun a t => Q a { t with depth := t.depth - 1 }) E := by
  simp [thenLeaveIfOk]

/-- A token that is passed if it is there. -/
theorem leads_accept {t : Token} {Q : Bool → Session → Prop} :
    Leads (accept t) s Q E ↔
      if s.token? = some t then Leads advance s (fun _ u => Q true u) E else Q false s := by
  simp only [accept, leads_bind, leads_sees]
  split <;> simp_all

theorem leads_leaf {kind : Kind} {Q : ParseTree → Session → Prop} :
    Leads (leaf kind) s Q E ↔ Leads advance s (fun _ u => Q (.leaf kind s.text s.span) u) E := by
  simp [leaf]

/-- Turns that keep `I` up and end with `D`. -/
theorem leads_extend {turn : ParseTree → ParserM (Option ParseTree)}
    {I D : ParseTree → Session → Prop} {tree : ParseTree} {bound : Nat}
    (hturn : ∀ tree s, I tree s → Leads (turn tree) s (fun next t => match next with
      | none => D tree t
      | some tree => I tree t) E)
    (hendless : ∀ s, E .endless s) (h : I tree s) : Leads (extend turn bound tree) s D E := by
  induction bound generalizing tree s with
  | zero => exact hendless s
  | succ bound ih =>
    simp only [extend, leads_bind]
    refine (hturn tree s h).imp fun next t ht => ?_
    cases next with
    | none => exact ht
    | some tree => exact ih ht

end Ecma3.Grammar.ParserM
