import Ecma3.ParseTree.Kind
import Ecma3.Text.Span

/-!
Parse trees: one node for each construct of the grammar, with the text and place it comes from. Trees
can also be put together by hand, so nothing here says which children a kind has.
-/

namespace Ecma3

structure ParseTree where
  kind : Kind
  text : String
  span : Span
  children : List ParseTree
deriving Repr, Inhabited

namespace ParseTree

/-- A node for a single token. -/
def leaf (kind : Kind) (text : String) (span : Span) : ParseTree := ⟨kind, text, span, []⟩

/-- A node that groups others; its text is the name of its kind. -/
def group (kind : Kind) (span : Span) (children : List ParseTree) : ParseTree :=
  ⟨kind, kind.name, span, children⟩

/-- A node put around another one, covering the same text. -/
def wrap (kind : Kind) (inner : ParseTree) : ParseTree := group kind inner.span [inner]

end ParseTree
end Ecma3
