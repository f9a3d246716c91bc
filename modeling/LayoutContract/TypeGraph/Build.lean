import LayoutContract.BuiltinScalars
import LayoutContract.Description.Reader
import LayoutContract.TypeGraph

/-!
Building a type graph from a description. The declared types come first, in their order; the
scalars that are built in and the names given besides follow, where the description does not
declare them. Names are resolved against all of these at once, so types may refer to each other
in any direction.
-/
namespace LayoutContract

inductive GraphError where
  | duplicateType (name : String)
  | unresolvedType (owner missing : String)
  | missingElement (name : String)
  | missingDefinition (name : String)
  /-- The text is no description. -/
  | malformed
  deriving DecidableEq

def GraphError.message : GraphError → String
  | duplicateType name => "type `" ++ name ++ "` is declared more than once"
  | unresolvedType owner missing =>
    "type `" ++ owner ++ "` refers to unknown type `" ++ missing ++ "`"
  | missingElement name => "array type `" ++ name ++ "` has no element type"
  | missingDefinition name =>
    "type `" ++ name ++ "` has type arguments but no generic definition"
  | malformed => "malformed type graph description: not the JSON form of a type graph"

section Resolve

variable {ι : Type} (find : String → Option ι)

/-- The type that `owner` refers to by name. -/
def resolveName (owner name : String) : Except GraphError ι :=
  match find name with
  | some i => .ok i
  | none => .error (.unresolvedType owner name)

def resolveNames (owner : String) (names : List String) : Except GraphError (List ι) :=
  names.mapM (resolveName find owner)

namespace MemberDescription

def form (m : MemberDescription) : MemberForm :=
  match m.kind with
  | .property => .property m.getter m.setter
  | .field => .field

def resolve (owner : String) (m : MemberDescription) : Except GraphError (Member ι) := do
  return {
    name := m.name
    form := m.form
    accessibility := m.accessibility
    overridable := m.overridable
    ignored := m.ignored
    index := m.index
    type := ← resolveName find owner m.type
    location := m.location }

end MemberDescription

namespace TypeDescription

def resolveForm (t : TypeDescription) : Except GraphError (TypeForm ι) :=
  match t.kind with
  | .classType => .ok .classType
  | .interfaceType => .ok .interfaceType
  | .structType => .ok .structType
  | .enumType => .ok .enumType
  | .typeParameter => .ok .typeParameter
  | .arrayType =>
    match t.element with
    | some element => (resolveName find t.name element).map .arrayType
    | none => .error (.missingElement t.name)

def resolveGeneric (t : TypeDescription) : Except GraphError (Option (GenericInstance ι)) :=
  match t.genericDefinition with
  | some definition =>
    (resolveNames find t.name t.typeArguments).map fun arguments =>
      some { definition, arguments }
  | none => if t.typeArguments = [] then .ok none else .error (.missingDefinition t.name)

/-- The first problem met decides: the form, the generic part, constructors, members and then
interfaces. -/
def resolve (t : TypeDescription) : Except GraphError (TypeDef ι) := do
  let form ← t.resolveForm find
  let generic ← t.resolveGeneric find
  let constructors ← t.constructors.mapM (resolveNames find t.name)
  let members ← t.members.mapM (·.resolve find t.name)
  let interfaces ← resolveNames find t.name t.interfaces
  return {
    name := t.name
    qualifiedName := t.qualifiedName.getD t.name
    form, generic, constructors, members, interfaces
    formattable := t.formattable
    location := t.location }

end TypeDescription
end Resolve

/-- The first name that has occurred before, when `seen` have already occurred. -/
def firstRepeatedAfter (seen : List String) : List String → Option String
  | [] => none
  | name :: names =>
    if name ∈ seen then some name else firstRepeatedAfter (name :: seen) names

def firstRepeated (names : List String) : Option String := firstRepeatedAfter [] names

/-- The names that are not yet known, each once, in order of first occurrence. -/
def newNames (known : List String) : List String → List String
  | [] => []
  | name :: names =>
    if name ∈ known then newNames known names else name :: newNames (name :: known) names

/-- Applies `f` throughout, or fails with the first failure. -/
def collect {α β ε : Type} (f : α → Except ε β) :
    (as : List α) → Except ε { bs : List β // bs.map .ok = as.map f }
  | [] => .ok ⟨[], rfl⟩
  | a :: as =>
    match h : f a with
    | .error e => .error e
    | .ok b =>
      match collect f as with
      | .error e => .error e
      | .ok bs => .ok ⟨b :: bs.val, by simp [h, bs.property]⟩

namespace GraphDescription

def names (d : GraphDescription) : List String := d.types.map (·.name)

/-- All types of the graph in the order of their handles. -/
def entries (d : GraphDescription) (implicit : List String) : List TypeDescription :=
  d.types ++ (newNames d.names (builtinScalars ++ implicit)).map .implicit

end GraphDescription

/-- The position of the entry with the given name. -/
def positionOf (entries : List TypeDescription) (name : String) : Option (Fin entries.length) :=
  entries.findFinIdx? (·.name == name)

namespace TypeGraph

/-- The graph of a description, the names in `implicit` being types as well. -/
def build (d : GraphDescription) (implicit : List String) : Except GraphError TypeGraph :=
  match firstRepeated d.names with
  | some name => .error (.duplicateType name)
  | none =>
    let entries := d.entries implicit
    match collect (TypeDescription.resolve (positionOf entries)) entries with
    | .error e => .error e
    | .ok types => .ok {
        size := entries.length
        types := ⟨types.val.toArray, by simpa using congrArg List.length types.property⟩
        declared := d.types.length
        declared_le := by simp [entries, GraphDescription.entries] }

def ofText (text : String) (implicit : List String) : Except GraphError TypeGraph :=
  match GraphDescription.ofText? text with
  | some d => build d implicit
  | none => .error .malformed

end TypeGraph
end LayoutContract
