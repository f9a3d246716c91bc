import LayoutContract.Description
import LayoutContract.Json.Lexer
import LayoutContract.Json.Record

/-!
Descriptions in JSON. Every graph, type, member and location is an open record; only the name and
kind of a type and the name and type of a member have to be given.
-/
namespace LayoutContract

namespace Location

def keys : List String := ["file", "line", "column"]

def ofJson? (v : Json) : Option Location := do
  let r ← v.fields? keys .ignored
  return {
    file := ← r.optional "file" none (Json.nullable? Json.string?)
    line := ← r.optional "line" 0 Json.nat32?
    column := ← r.optional "column" 0 Json.nat32? }

end Location

def TypeKind.ofName? : String → Option TypeKind
  | "class" => some .classType
  | "interface" => some .interfaceType
  | "struct" => some .structType
  | "enum" => some .enumType
  | "array" => some .arrayType
  | "type_parameter" => some .typeParameter
  | _ => none

def MemberKind.ofName? : String → Option MemberKind
  | "property" => some .property
  | "field" => some .field
  | _ => none

def Accessibility.ofName? : String → Option Accessibility
  | "public" => some .publicAccess
  | "protected" => some .protectedAccess
  | "internal" => some .internalAccess
  | "private" => some .privateAccess
  | _ => none

/-- An annotation has an argument or a list of arguments, of which the first decides. -/
def IndexMark.ofJson? : Json → Option IndexMark
  | .null => some .null
  | .array items => do
    match ← items.mapM (Json.nullable? Json.int32?) with
    | [] => return .empty
    | none :: _ => return .null
    | some n :: _ => return .value n
  | v => (Json.int32? v).map .value

namespace MemberDescription

def keys : List String :=
  ["name", "kind", "type", "accessibility", "virtual", "ignored", "getter", "setter", "index",
    "location"]

def ofJson? (v : Json) : Option MemberDescription := do
  let access := Json.variant? Accessibility.ofName?
  let r ← v.fields? keys .ignored
  return {
    name := ← r.required "name" Json.string?
    kind := ← r.optional "kind" .property (Json.variant? MemberKind.ofName?)
    type := ← r.required "type" Json.string?
    accessibility := ← r.optional "accessibility" .publicAccess access
    overridable := ← r.optional "virtual" false Json.bool?
    ignored := ← r.optional "ignored" false Json.bool?
    getter := ← r.optional "getter" (some .publicAccess) (Json.nullable? access)
    setter := ← r.optional "setter" (some .publicAccess) (Json.nullable? access)
    index := ← r.optional "index" .missing IndexMark.ofJson?
    location := ← r.optional "location" .unknown Location.ofJson? }

end MemberDescription

namespace TypeDescription

def keys : List String :=
  ["name", "qualified_name", "kind", "formattable", "element", "generic_definition",
    "type_arguments", "interfaces", "constructors", "members", "location"]

def ofJson? (v : Json) : Option TypeDescription := do
  let name? := Json.nullable? Json.string?
  let names? := Json.list? Json.string?
  let r ← v.fields? keys .ignored
  return {
    name := ← r.required "name" Json.string?
    qualifiedName := ← r.optional "qualified_name" none name?
    kind := ← r.required "kind" (Json.variant? TypeKind.ofName?)
    formattable := ← r.optional "formattable" false Json.bool?
    element := ← r.optional "element" none name?
    genericDefinition := ← r.optional "generic_definition" none name?
    typeArguments := ← r.optional "type_arguments" [] names?
    interfaces := ← r.optional "interfaces" [] names?
    constructors := ← r.optional "constructors" [] (Json.list? names?)
    members := ← r.optional "members" [] (Json.list? MemberDescription.ofJson?)
    location := ← r.optional "location" .unknown Location.ofJson? }

end TypeDescription

namespace GraphDescription

def keys : List String := ["types"]

def ofJson? (v : Json) : Option GraphDescription := do
  let r ← v.fields? keys .ignored
  return { types := ← r.optional "types" [] (Json.list? TypeDescription.ofJson?) }

def ofText? (text : String) : Option GraphDescription :=
  (Json.parse? text).bind ofJson?

end GraphDescription
end LayoutContract
