/-!
The rules of the layout contract. Each has a code, whose first digit tells what is checked (types,
members, layouts), a kind that does not depend on the numbering, a title, and the severity at
which a breach of it is reported.
-/
namespace LayoutContract

inductive Severity where
  | error
  | warning
  deriving DecidableEq

def Severity.name : Severity → String
  | error => "error"
  | warning => "warning"

inductive Rule where
  | typeMustBeAnnotated
  | typeNeedsDefaultConstructor
  | memberNeedsIndex
  | duplicateIndex
  | memberNeedsPublicAccessors
  | memberMustBeOverridable
  | fieldNotAllowedOnReferenceType
  | indicesMustBeSequential
  | layoutNeedsMatchingConstructor
  | indexTooLarge
  deriving DecidableEq

namespace Rule

/-- All rules in the order of their codes, errors before warnings. -/
def all : List Rule :=
  [typeMustBeAnnotated, typeNeedsDefaultConstructor, memberNeedsIndex, duplicateIndex,
    memberNeedsPublicAccessors, memberMustBeOverridable, fieldNotAllowedOnReferenceType,
    indicesMustBeSequential, layoutNeedsMatchingConstructor, indexTooLarge]

theorem mem_all (r : Rule) : r ∈ all := by
  cases r <;> decide

def code : Rule → String
  | typeMustBeAnnotated => "E0001"
  | typeNeedsDefaultConstructor => "E0002"
  | memberNeedsIndex => "E1001"
  | duplicateIndex => "E1002"
  | memberNeedsPublicAccessors => "E1003"
  | memberMustBeOverridable => "E1004"
  | fieldNotAllowedOnReferenceType => "E1005"
  | indicesMustBeSequential => "E2001"
  | layoutNeedsMatchingConstructor => "E2002"
  | indexTooLarge => "W1001"

def kind : Rule → String
  | typeMustBeAnnotated => "TypeMustBeAnnotated"
  | typeNeedsDefaultConstructor => "TypeNeedsDefaultConstructor"
  | memberNeedsIndex => "MemberNeedsIndex"
  | duplicateIndex => "DuplicateIndex"
  | memberNeedsPublicAccessors => "MemberNeedsPublicAccessors"
  | memberMustBeOverridable => "MemberMustBeOverridable"
  | fieldNotAllowedOnReferenceType => "FieldNotAllowedOnReferenceType"
  | indicesMustBeSequential => "ValueTypeIndicesMustBeSequentialFromZero"
  | layoutNeedsMatchingConstructor => "ValueTypeNeedsMatchingConstructor"
  | indexTooLarge => "IndexTooLarge"

def title : Rule → String
  | typeMustBeAnnotated => "type must be annotated as formattable"
  | typeNeedsDefaultConstructor => "type needs a parameterless constructor"
  | memberNeedsIndex => "public member needs an index or ignore annotation"
  | duplicateIndex => "index is used more than once"
  | memberNeedsPublicAccessors => "property needs non-private get and set accessors"
  | memberMustBeOverridable => "property must be overridable"
  | fieldNotAllowedOnReferenceType => "public fields are not supported on reference types"
  | indicesMustBeSequential => "value-type indices must start at 0 and be sequential"
  | layoutNeedsMatchingConstructor =>
    "value type needs a constructor matching its indexed members"
  | indexTooLarge => "index is large"

def severity : Rule → Severity
  | indexTooLarge => .warning
  | _ => .error

/-- Equal up to the case of ASCII letters. -/
def sameText (s t : String) : Bool :=
  s.toList.map Char.toLower == t.toList.map Char.toLower

/-- The rule with the given code or kind. -/
def ofText? (text : String) : Option Rule :=
  all.find? fun r => sameText text r.code || sameText text r.kind

example : ofText? "e1002" = some duplicateIndex := by decide
example : ofText? "duplicateINDEX" = some duplicateIndex := by decide
example : ofText? " E1002" = none := by decide

end Rule
end LayoutContract
