import Ecma3.ParseTree.Basic

/-!
Taking the `new` at the base of a chain of member accesses out of it. The grammar binds `new` to a
primary expression only, so `new a.b` is parsed as the member `b` of `new a`; taking the `new` out of
the chain leaves `a.b`, which is what it constructs.
-/

namespace Ecma3.ParseTree

def isAccess (kind : Kind) : Bool := kind == .byField || kind == .byIndex

/-- Takes a chain apart down to its base: each access goes onto the stack without its object. A call,
a parenthesis or anything else that is no access with an object is the base. -/
def takeApart (spine : List ParseTree) : ParseTree → List ParseTree × ParseTree
  | ⟨kind, text, span, []⟩ => (spine, ⟨kind, text, span, []⟩)
  | ⟨kind, text, span, object :: rest⟩ =>
    if isAccess kind then takeApart (⟨kind, text, span, rest⟩ :: spine) object
    else (spine, ⟨kind, text, span, object :: rest⟩)

/-- Puts the accesses of the stack back, the innermost first: each gets what there is so far as its
object, in front of its other children. -/
def putBack : List ParseTree → ParseTree → ParseTree
  | [], tree => tree
  | access :: spine, tree => putBack spine { access with children := tree :: access.children }

/-- What a `new` constructs, if the tree is a `new` with an operand. -/
def operand? (tree : ParseTree) : Option ParseTree :=
  if tree.kind = .new then tree.children.head? else none

/-- The chain without the `new` at its base, with where that `new` stood and over how many accesses it
was. Without such a `new` the chain is put back as it was. -/
def detachNew (tree : ParseTree) : ParseTree × Option (Span × Nat) :=
  let (spine, base) := tree.takeApart []
  match base.operand? with
  | none => (putBack spine base, none)
  | some operand => (putBack spine operand, some (base.span, spine.length))

/-- A chain that a `new` at this place was taken out of, from below so many accesses. -/
structure Detached where
  tree : ParseTree
  newSpan : Span
  accesses : Nat

def detachNew? (tree : ParseTree) : Option Detached :=
  match tree.detachNew with
  | (_, none) => none
  | (detached, some (newSpan, accesses)) => some ⟨detached, newSpan, accesses⟩

end Ecma3.ParseTree
