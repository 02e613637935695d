import Ecma3.ParseTree.Basic
import Ecma3.Proofs.Text.Boundary

/-! Parse trees whose places in a text lie one inside the other. -/
namespace Ecma3.ParseTree

open Text (IsBoundary)

variable {source : List Char} {m n k lo hi : Nat} {t : ParseTree} {ts us : List ParseTree}
  {kind : Kind} {text : String} {span : Span}

/-- The tree lies between two offsets, and each tree inside has the place of whatever contains it
around its own. The head of a loop is the exception: it can end before the place of a clause that
is left out, so that only its clauses lie between the offsets. -/
inductive Inside (source : List Char) : Nat → ParseTree → Nat → Prop where
  | tree {lo hi : Nat} {t : ParseTree} (place : t.span.Lies source lo hi)
    (children : ∀ c ∈ t.children, Inside source t.span.start c t.span.stop) : Inside source lo t hi
  | head {lo hi : Nat} {t : ParseTree} (kind : t.kind = .forStep ∨ t.kind = .forIn)
    (start : IsBoundary source t.span.start) (le : lo ≤ hi)
    (children : ∀ c ∈ t.children, Inside source lo c hi) : Inside source lo t hi

/-- The tree and all trees inside it lie between two offsets. -/
structure Lies (source : List Char) (lo : Nat) (t : ParseTree) (hi : Nat) : Prop where
  place : t.span.Lies source lo hi
  children : ∀ c ∈ t.children, c.Inside source t.span.start t.span.stop

/-- The trees lie between two offsets, one behind the other. -/
inductive Row (source : List Char) : Nat → List ParseTree → Nat → Prop where
  | nil {m n : Nat} (h : m ≤ n) : Row source m [] n
  | cons {m k n : Nat} {t : ParseTree} {ts : List ParseTree} (h : t.Lies source m k)
    (hrest : Row source k ts n) : Row source m (t :: ts) n

theorem Inside.mono (h : t.Inside source m n) (hlow : lo ≤ m) (hhigh : n ≤ hi) :
    t.Inside source lo hi := by
  induction h with
  | tree place children _ => exact .tree (place.mono hlow hhigh) children
  | head kind start le _ ih =>
    exact .head kind start (Nat.le_trans hlow (Nat.le_trans le hhigh))
      fun c hc => ih c hc hlow hhigh

theorem Inside.le (h : t.Inside source m n) : m ≤ n := by
  cases h with
  | tree place => exact place.le
  | head _ _ le => exact le

theorem Inside.start (h : t.Inside source m n) : IsBoundary source t.span.start := by
  cases h with
  | tree place => exact place.first
  | head _ start => exact start

theorem Inside.children (h : t.Inside source m n) :
    ∀ c ∈ t.children, c.Inside source m n := by
  cases h with
  | tree place children => exact fun c hc => (children c hc).mono place.low place.high
  | head _ _ _ children => exact children

/-- A tree that is no head of a loop has a proper place. -/
theorem Inside.lies (h : t.Inside source m n) (hstep : t.kind ≠ .forStep) (hin : t.kind ≠ .forIn) :
    t.Lies source m n := by
  cases h with
  | tree place children => exact ⟨place, children⟩
  | head kind => exact absurd kind (not_or.2 ⟨hstep, hin⟩)

namespace Lies

theorem inside (h : t.Lies source m n) : t.Inside source m n := .tree h.place h.children

theorem le (h : t.Lies source m n) : m ≤ n := h.place.le

/-- The offsets can be moved anywhere outside the place of the tree. -/
theorem within (h : t.Lies source m n) (hlow : lo ≤ t.span.start) (hhigh : t.span.stop ≤ hi) :
    t.Lies source lo hi :=
  ⟨h.place.within hlow hhigh, h.children⟩

theorem mono (h : t.Lies source m n) (hlow : lo ≤ m) (hhigh : n ≤ hi) : t.Lies source lo hi :=
  h.within (Nat.le_trans hlow h.place.low) (Nat.le_trans h.place.high hhigh)

/-- The tree lies in its own place. -/
theorem tight (h : t.Lies source m n) : t.Lies source t.span.start t.span.stop :=
  h.within (Nat.le_refl _) (Nat.le_refl _)

theorem leaf (h : span.Lies source m n) : (leaf kind text span).Lies source m n := ⟨h, nofun⟩

/-- A tree around another one with the same place. -/
theorem wrap (h : t.Lies source m n) : (wrap kind t).Lies source m n :=
  ⟨h.place, List.forall_mem_singleton.2 h.tight.inside⟩

end Lies

namespace Row

theorem le (h : Row source m ts n) : m ≤ n := by
  induction h with
  | nil h => exact h
  | cons h _ ih => exact Nat.le_trans h.le ih

theorem mono (h : Row source m ts n) (hlow : lo ≤ m) (hhigh : n ≤ hi) : Row source lo ts hi := by
  induction h generalizing lo with
  | nil h => exact .nil (Nat.le_trans hlow (Nat.le_trans h hhigh))
  | cons h _ ih => exact .cons (h.mono hlow (Nat.le_refl _)) (ih (Nat.le_refl _) hhigh)

theorem one (h : t.Lies source m n) : Row source m [t] n := .cons h (.nil (Nat.le_refl n))

theorem append (h : Row source m ts k) (h' : Row source k us n) : Row source m (ts ++ us) n := by
  induction h with
  | nil h => exact h'.mono h (Nat.le_refl _)
  | cons h _ ih => exact .cons h (ih h')

theorem inside (h : Row source m ts n) : ∀ t ∈ ts, t.Inside source m n := by
  induction h with
  | nil => exact nofun
  | cons h hrest ih =>
    refine List.forall_mem_cons.2 ⟨h.inside.mono (Nat.le_refl _) hrest.le, fun t ht => ?_⟩
    exact (ih t ht).mono h.le (Nat.le_refl _)

/-- A tree around trees that lie in its place. -/
theorem tree (h : Row source m ts n) (hm : IsBoundary source m) (hn : IsBoundary source n)
    (hlow : lo ≤ m) (hhigh : n ≤ hi) : Lies source lo ⟨kind, text, ⟨m, n⟩, ts⟩ hi :=
  ⟨⟨hm, hn, h.le, hlow, hhigh⟩, h.inside⟩

/-- From the start of the first tree. -/
theorem fromStart (h : t.Lies source m k) (hrest : Row source k ts n) :
    Row source t.span.start (t :: ts) n :=
  .cons (h.within (Nat.le_refl _) h.place.high) hrest

/-- To the end of the last tree. -/
theorem toStop (h : t.Lies source m n) : Row source m [t] t.span.stop :=
  one (h.within h.place.low (Nat.le_refl _))

end Row

/-- A tree from the start of one tree to the end of another one behind it. -/
theorem Lies.pair {u : ParseTree} (h : t.Lies source m k) (h' : u.Lies source k n) :
    Lies source m ⟨kind, text, ⟨t.span.start, u.span.stop⟩, [t, u]⟩ n :=
  (Row.fromStart h (.toStop h')).tree h.place.first h'.place.last h.place.low h'.place.high

end Ecma3.ParseTree
