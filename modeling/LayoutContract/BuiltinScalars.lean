import LayoutContract.Description

/-!
The scalars that are built in. Every type graph has them, declared or not, and a check never looks
behind their names.
-/
namespace LayoutContract

def builtinScalars : List String :=
  ["short", "int", "long", "ushort", "uint", "ulong", "float", "double", "bool", "byte", "sbyte",
    "decimal", "char", "string", "System.TimeSpan", "System.DateTime", "System.DateTimeOffset"]

/-- The kind of a type that nobody declares: built-in scalars are structs, except for text, and
all others are classes. -/
def implicitKind (name : String) : TypeKind :=
  if name ∈ builtinScalars ∧ name ≠ "string" then .structType else .classType

/-- A type of which only the name is known. -/
def TypeDescription.implicit (name : String) : TypeDescription :=
  .ofKind (implicitKind name) name

end LayoutContract
