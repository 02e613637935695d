import Ecma3.Proofs.ParseTree.Detached

/-! Chains of member accesses, indexes and calls, and the `new` that such a chain can begin with. -/
namespace Ecma3

/-- A member access, an index or a call, without what it applies to. -/
inductive Suffix where
  | field (name : String) (nameSpan span : Span)
  | index (index : ParseTree) (span : Span)
  | call (arguments : List ParseTree) (argumentsSpan span : Span)

def Suffix.isCall : Suffix → Bool
  | .call .. => true
  | _ => false

namespace ParseTree

variable {t base : ParseTree} {s : Suffix} {suffixes : List Suffix} {place : Span}

/-- The tree of a suffix that applies to an object. -/
def suffixed (object : ParseTree) : Suffix → ParseTree
  | .field name nameSpan span => .group .byField span [object, .leaf .identifier name nameSpan]
  | .index index span => .group .byIndex span [object, index]
  | .call arguments argumentsSpan span =>
    .group .call span [object, .group .arguments argumentsSpan arguments]

/-- The tree of suffixes that apply one after the other. -/
def chain (base : ParseTree) (suffixes : List Suffix) : ParseTree := suffixes.foldl suffixed base

/-- The tree of `new` before an operand. -/
def newOf (place : Span) (operand : ParseTree) : ParseTree := ⟨.new, "new", place, [operand]⟩

/-- As many `new` as there are places, from the outermost to the innermost, before an operand. -/
def news (places : List Span) (operand : ParseTree) : ParseTree := places.foldr newOf operand

@[simp] theorem chain_nil : chain base [] = base := rfl

theorem chain_append (base : ParseTree) (suffixes others : List Suffix) :
    chain base (suffixes ++ others) = chain (chain base suffixes) others := List.foldl_append

@[simp] theorem chain_concat : chain base (suffixes ++ [s]) = suffixed (chain base suffixes) s := by
  rw [chain_append]
  rfl

@[simp] theorem news_nil : news [] t = t := rfl

@[simp] theorem news_cons {places : List Span} :
    news (place :: places) t = newOf place (news places t) := rfl

@[simp] theorem withoutNew?_newOf : (newOf place t).withoutNew? = some ⟨t, place, 0⟩ := by
  simp [newOf, withoutNew?, isAccess]

theorem withoutNew?_call (hs : s.isCall = true) : (suffixed t s).withoutNew? = none := by
  cases s with
  | call => simp [suffixed, group, withoutNew?, isAccess]
  | _ => simp [Suffix.isCall] at hs

theorem withoutNew?_access (hs : s.isCall = false) :
    (suffixed t s).withoutNew? =
      t.withoutNew?.map fun d => ⟨suffixed d.tree s, d.newSpan, d.accesses + 1⟩ := by
  cases s with
  | call => simp [Suffix.isCall] at hs
  | _ => simp [suffixed, group, withoutNew?, isAccess]

/-- A chain without a `new` at its base, or with a call, has nothing to detach. -/
theorem withoutNew?_chain_none (h : base.withoutNew? = none ∨ ∃ s ∈ suffixes, s.isCall = true) :
    (chain base suffixes).withoutNew? = none := by
  induction suffixes generalizing base with
  | nil => simpa using h
  | cons s suffixes ih =>
    refine ih ?_
    cases hs : s.isCall with
    | true => exact Or.inl (withoutNew?_call hs)
    | false =>
      rcases h with h | ⟨other, hmem, hother⟩
      · exact Or.inl (by rw [withoutNew?_access hs, h, Option.map_none])
      · rcases List.mem_cons.1 hmem with rfl | hmem
        · simp [hs] at hother
        · exact Or.inr ⟨other, hmem, hother⟩

/-- Accesses hide no `new` at the base: it comes out from under all of them. -/
theorem withoutNew?_chain_access (h : ∀ s ∈ suffixes, s.isCall = false) :
    (chain base suffixes).withoutNew? =
      base.withoutNew?.map fun d =>
        ⟨chain d.tree suffixes, d.newSpan, d.accesses + suffixes.length⟩ := by
  induction suffixes generalizing base with
  | nil => simp
  | cons s suffixes ih =>
    obtain ⟨hs, hsuffixes⟩ := List.forall_mem_cons.1 h
    have hstep : (chain base (s :: suffixes)).withoutNew? =
        (chain (suffixed base s) suffixes).withoutNew? := rfl
    rw [hstep, ih hsuffixes, withoutNew?_access hs, Option.map_map]
    congr 1
    funext d
    simp only [Function.comp_apply, List.length_cons, Detached.mk.injEq, true_and]
    exact ⟨rfl, by omega⟩

end ParseTree
end Ecma3
