import LayoutContract.Description

/-!
Resolved type graphs. A definition refers to other types by handles instead of names, and the
handles of a graph are the positions of its own types, so a handle always leads to a type.
Definitions are stated over any type of handles, which lets two graphs be compared by a map
between their handles.
-/
namespace LayoutContract

/-- The form of a type, with the type of the items in an array. -/
inductive TypeForm (ι : Type) where
  | classType
  | interfaceType
  | structType
  | enumType
  | arrayType (element : ι)
  | typeParameter
  deriving DecidableEq

def TypeForm.kind {ι : Type} : TypeForm ι → TypeKind
  | classType => .classType
  | interfaceType => .interfaceType
  | structType => .structType
  | enumType => .enumType
  | arrayType _ => .arrayType
  | typeParameter => .typeParameter

/-- How a type is made from a generic one. -/
structure GenericInstance (ι : Type) where
  definition : String
  arguments : List ι
  deriving DecidableEq

def isArityMark (c : Char) : Bool := c == '<' || c == '\x60'

/-- A generic definition without the part that only tells its arity. A definition that ends in a
question mark has no such part. -/
def familyOf (definition : String) : String :=
  if definition.toList.getLast? = some '?' then definition
  else String.ofList (definition.toList.takeWhile (!isArityMark ·))

example : familyOf "Tuple<,>" = "Tuple" ∧ familyOf "Tuple\x602" = "Tuple" := by decide
example : familyOf "T<>?" = "T<>?" := by decide

def GenericInstance.family {ι : Type} (g : GenericInstance ι) : String := familyOf g.definition

/-- A property has accessors, a field has none. -/
inductive MemberForm where
  | property (getter setter : Option Accessibility)
  | field
  deriving DecidableEq

namespace MemberForm

def kind : MemberForm → MemberKind
  | property _ _ => .property
  | field => .field

def getter? : MemberForm → Option Accessibility
  | property getter _ => getter
  | field => none

def setter? : MemberForm → Option Accessibility
  | property _ setter => setter
  | field => none

def isProperty : MemberForm → Bool
  | property _ _ => true
  | field => false

def isUsable : Option Accessibility → Bool
  | some a => a != .privateAccess
  | none => false

/-- Both accessors exist and neither is private. -/
def isReadableAndWritable (f : MemberForm) : Bool :=
  isUsable f.getter? && isUsable f.setter?

end MemberForm

structure Member (ι : Type) where
  name : String
  form : MemberForm
  accessibility : Accessibility
  overridable : Bool
  ignored : Bool
  index : IndexMark
  type : ι
  location : Location
  deriving DecidableEq

namespace Member

variable {ι : Type}

def isPublic (m : Member ι) : Bool := m.accessibility == .publicAccess

/-- Only public members that are not ignored have a place in the layout. -/
def isInContract (m : Member ι) : Bool := m.isPublic && !m.ignored

end Member

structure TypeDef (ι : Type) where
  name : String
  qualifiedName : String
  form : TypeForm ι
  formattable : Bool
  generic : Option (GenericInstance ι)
  interfaces : List ι
  /-- The parameter types of each constructor. -/
  constructors : List (List ι)
  members : List (Member ι)
  location : Location
  deriving DecidableEq

namespace TypeDef

variable {ι : Type}

def isValue (t : TypeDef ι) : Bool := t.form.kind.isValue

def hasParameterlessConstructor (t : TypeDef ι) : Bool := t.constructors.any List.isEmpty

/-- A class or struct that asks for a check of its own. -/
def isFormattableRoot (t : TypeDef ι) : Bool :=
  match t.form with
  | .classType | .structType => t.formattable
  | _ => false

/-- Properties in declaration order, then fields in declaration order. -/
def membersInCheckOrder (t : TypeDef ι) : List (Member ι) :=
  t.members.filter (·.form.isProperty) ++ t.members.filter (!·.form.isProperty)

end TypeDef

structure TypeGraph where
  size : Nat
  types : Vector (TypeDef (Fin size)) size
  /-- How many of the types, counted from the first, come from the description itself. -/
  declared : Nat
  declared_le : declared ≤ size

namespace TypeGraph

abbrev Handle (g : TypeGraph) : Type := Fin g.size

def typeAt (g : TypeGraph) (i : g.Handle) : TypeDef g.Handle := g.types[i]

def handles (g : TypeGraph) : List g.Handle := List.finRange g.size

def declaredHandles (g : TypeGraph) : List g.Handle :=
  g.handles.filter (·.val < g.declared)

def implicitHandles (g : TypeGraph) : List g.Handle :=
  g.handles.filter (g.declared ≤ ·.val)

def lookup (g : TypeGraph) (name : String) : Option g.Handle :=
  g.handles.find? fun i => (g.typeAt i).name = name

def formattableRoots (g : TypeGraph) : List g.Handle :=
  g.declaredHandles.filter fun i => (g.typeAt i).isFormattableRoot

end TypeGraph
end LayoutContract
