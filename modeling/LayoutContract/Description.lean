import LayoutContract.Location

/-!
Descriptions of types, as a compiler front end hands them over. Types refer to each other by
display name; whether those names mean anything is settled when a type graph is built.
-/
namespace LayoutContract

inductive TypeKind where
  | classType
  | interfaceType
  | structType
  | enumType
  | arrayType
  | typeParameter
  deriving DecidableEq

namespace TypeKind

def name : TypeKind → String
  | classType => "class"
  | interfaceType => "interface"
  | structType => "struct"
  | enumType => "enum"
  | arrayType => "array"
  | typeParameter => "type_parameter"

/-- Values of the kind are copied. All other types are reference types. -/
def isValue : TypeKind → Bool
  | structType | enumType => true
  | _ => false

end TypeKind

inductive MemberKind where
  | property
  | field
  deriving DecidableEq

def MemberKind.name : MemberKind → String
  | property => "property"
  | field => "field"

inductive Accessibility where
  | publicAccess
  | protectedAccess
  | internalAccess
  | privateAccess
  deriving DecidableEq

def Accessibility.name : Accessibility → String
  | publicAccess => "public"
  | protectedAccess => "protected"
  | internalAccess => "internal"
  | privateAccess => "private"

/-- What a member says about its place in the layout. -/
inductive IndexMark where
  | missing
  /-- An index annotation without an argument. -/
  | empty
  /-- An index annotation whose argument is null. Compilers reject it on their own. -/
  | null
  | value (index : Int)
  deriving DecidableEq

structure MemberDescription where
  name : String
  kind : MemberKind := .property
  type : String
  accessibility : Accessibility := .publicAccess
  overridable : Bool := false
  ignored : Bool := false
  /-- Absent when there is no such accessor. A field has none, whatever is said here. -/
  getter : Option Accessibility := some .publicAccess
  setter : Option Accessibility := some .publicAccess
  index : IndexMark := .missing
  location : Location := {}
  deriving DecidableEq

structure TypeDescription where
  name : String
  /-- The display name, when absent. -/
  qualifiedName : Option String := none
  kind : TypeKind
  formattable : Bool := false
  /-- The type of the items of an array. It says nothing about other kinds. -/
  element : Option String := none
  /-- The generic type that this one is an instance of. -/
  genericDefinition : Option String := none
  typeArguments : List String := []
  interfaces : List String := []
  /-- The parameter types of each constructor. -/
  constructors : List (List String) := []
  members : List MemberDescription := []
  location : Location := {}
  deriving DecidableEq

structure GraphDescription where
  types : List TypeDescription := []
  deriving DecidableEq

namespace MemberDescription

/-- A public property with public accessors. -/
def property (name type : String) : MemberDescription := { name, type }

/-- A public field. -/
def field (name type : String) : MemberDescription :=
  { name, kind := .field, type, getter := none, setter := none }

def asOverridable (m : MemberDescription) : MemberDescription := { m with overridable := true }

def asIgnored (m : MemberDescription) : MemberDescription := { m with ignored := true }

def marked (m : MemberDescription) (index : IndexMark) : MemberDescription := { m with index }

def indexed (m : MemberDescription) (index : Int) : MemberDescription := m.marked (.value index)

def accessible (m : MemberDescription) (accessibility : Accessibility) : MemberDescription :=
  { m with accessibility }

def withGetter (m : MemberDescription) (getter : Option Accessibility) : MemberDescription :=
  { m with getter }

def withSetter (m : MemberDescription) (setter : Option Accessibility) : MemberDescription :=
  { m with setter }

def declaredAt (m : MemberDescription) (location : Location) : MemberDescription :=
  { m with location }

end MemberDescription

namespace TypeDescription

def ofKind (kind : TypeKind) (name : String) : TypeDescription := { name, kind }

def array (name element : String) : TypeDescription :=
  { name, kind := .arrayType, element := some element }

/-- An instance of the generic type `definition`. -/
def generic (name : String) (kind : TypeKind) (definition : String) (arguments : List String) :
    TypeDescription :=
  { name, kind, genericDefinition := some definition, typeArguments := arguments }

def asFormattable (t : TypeDescription) : TypeDescription := { t with formattable := true }

def qualifiedAs (t : TypeDescription) (qualifiedName : String) : TypeDescription :=
  { t with qualifiedName := some qualifiedName }

def implementing (t : TypeDescription) (interface : String) : TypeDescription :=
  { t with interfaces := t.interfaces ++ [interface] }

def withConstructor (t : TypeDescription) (parameters : List String) : TypeDescription :=
  { t with constructors := t.constructors ++ [parameters] }

def withMember (t : TypeDescription) (member : MemberDescription) : TypeDescription :=
  { t with members := t.members ++ [member] }

def declaredAt (t : TypeDescription) (location : Location) : TypeDescription :=
  { t with location }

end TypeDescription
end LayoutContract
