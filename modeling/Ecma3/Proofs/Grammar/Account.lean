import Ecma3.Proofs.Grammar.Walk

/-!
Accounts of a parser's run: the atoms that were kept, and how many tokens were passed. The count of
tokens is what keeps nested and repeated parsers within their bound.
-/
namespace Ecma3.Grammar
open ParseTree

/-- What has been parsed from some point on: the atoms, how many tokens they took at least, and the
current token if it is known. -/
structure Account where
  atoms : List ParseTree
  passed : Nat
  next : Option Token

namespace Account

variable {c d : Account} {bound n : Nat} {L : List ParseTree} {s t u : Session}

/-- The account after more atoms and tokens. The current token is a new one. -/
def plus (c : Account) (atoms : List ParseTree) (passed : Nat) : Account :=
  ⟨c.atoms ++ atoms, c.passed + passed, none⟩

/-- The account once the current token has been looked at. -/
def seeing (c : Account) (t : Option Token) : Account := { c with next := t }

/-- The account after a turn that may have put more after the tree, which was `n` turns before. -/
def extended (c : Account) (tree : ParseTree) (n : Nat) : Option ParseTree → Account
  | none => c.plus tree.atoms (n + 1)
  | some t => c.plus t.atoms (n + 2)

/-- The tokens that are left and those that have been passed are fewer than the bound. -/
structure Fits (c : Account) (bound : Nat) (s : Session) : Prop where
  passed : s.left + c.passed < bound
  next : ∀ t, c.next = some t → s.token? = some t

/-- The account `c` says at least what `d` says. -/
structure Covers (c d : Account) : Prop where
  atoms : d.atoms = c.atoms
  passed : d.passed ≤ c.passed
  next : ∀ t, d.next = some t → c.next = some t

/-- From the first session a walk leads to the second, and turns the one account into the other. -/
structure Leads (c d : Account) (s t : Session) : Prop where
  walk : ∃ L, d.atoms = c.atoms ++ L ∧ s.Walk L t
  passed : t.left + d.passed ≤ s.left + c.passed
  next : ∀ token, d.next = some token → t.token? = some token

theorem Leads.fits (h : Leads c d s t) (hs : c.Fits bound s) : d.Fits bound t :=
  ⟨Nat.lt_of_le_of_lt h.passed hs.passed, h.next⟩

theorem Leads.trans {b : Account} (h : Leads c d s t) (h' : Leads d b t u) : Leads c b s u := by
  obtain ⟨L, hL, hwalk⟩ := h.walk
  obtain ⟨M, hM, hwalk'⟩ := h'.walk
  refine ⟨⟨L ++ M, ?_, hwalk.trans hwalk'⟩, Nat.le_trans h'.passed h.passed, h'.next⟩
  rw [hM, hL, List.append_assoc]

theorem Covers.leads (h : c.Covers d) (hs : c.Fits bound s) : Leads c d s s := by
  refine ⟨⟨[], by rw [h.atoms, List.append_nil], .refl⟩, ?_, fun t ht => hs.next t (h.next t ht)⟩
  exact Nat.add_le_add_left h.passed _

theorem Fits.leads (h : c.Fits bound s) : c.Leads c s s :=
  Covers.leads ⟨rfl, Nat.le_refl _, fun _ ht => ht⟩ h

@[simp] theorem plus_atoms : (c.plus L n).atoms = c.atoms ++ L := rfl

@[simp] theorem plus_passed : (c.plus L n).passed = c.passed + n := rfl

@[simp] theorem seeing_atoms {t : Option Token} : (c.seeing t).atoms = c.atoms := rfl

@[simp] theorem seeing_passed {t : Option Token} : (c.seeing t).passed = c.passed := rfl

@[simp] theorem extended_none {t : ParseTree} : c.extended t n none = c.plus t.atoms (n + 1) := rfl

@[simp] theorem extended_some {t u : ParseTree} :
    c.extended t n (some u) = c.plus u.atoms (n + 2) := rfl

@[simp] theorem covers_plus :
    d.Covers (c.plus L n) ↔ d.atoms = c.atoms ++ L ∧ c.passed + n ≤ d.passed :=
  ⟨fun h => ⟨h.atoms.symm, h.passed⟩, fun h => ⟨h.1.symm, h.2, by simp [plus]⟩⟩

end Account

end Ecma3.Grammar
