import Ecma3.Build.Expression
import Ecma3.Proofs.Ast.Property

/-! The properties of an object, read off its entries one after the other. -/
namespace Ecma3.Build

variable {m : Type → Type} [Monad m] [MonadExcept BuildError m]

/-- The properties of an object, on top of those before them. A repeated name keeps its first place
and takes the last value. -/
def properties (build : ParseTree → Option String → m Node) (known : List Property) :
    List ParseTree → m (List Property)
  | [] => pure known
  | entry :: rest => do
    if entry.kind ≠ .namedValue then unsupported entry
    let name := Literal.propertyName (← child entry 0 .propertyName).text
    let value ← build (← child entry 1 .propertyValue) none
    properties build (Property.put name value known) rest

variable [LawfulMonad m] (build : ParseTree → Option String → m Node)

/-- The vector that the entries are entered into has the properties in their order. -/
theorem enterAll_eq_properties (table : PropertyTable) (entries : List ParseTree) :
    (fun t => t.properties.toList) <$> enterAll build table entries =
      properties build table.properties.toList entries := by
  induction entries generalizing table with
  | nil => simp [enterAll, properties]
  | cons entry rest ih =>
    rw [enterAll, properties]
    split <;> simp only [map_bind, ih, PropertyTable.toList_enter]

/-- An object has the properties that its entries give it. -/
theorem object_eq_properties (tree : ParseTree) : object build tree = do
    return .object (← properties build [] tree.children) tree.span := by
  have hentries : properties build [] tree.children = _ :=
    (enterAll_eq_properties build .empty tree.children).symm
  rw [object, hentries, bind_map_left]

end Ecma3.Build
