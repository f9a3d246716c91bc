import LayoutContract.Proofs.Json.Printing
import LayoutContract.Proofs.Json.Records
import LayoutContract.Rendering.Json

/-!
Diagnostics read back from JSON. A reader takes the entries of each object by their keys: a rule by
its code and its kind, an argument by the tag of its kind, a location with or without a file. What
is written for a diagnostic is read as that diagnostic, so a document holds the diagnostics that it
was written for and no others.
-/
namespace LayoutContract

namespace Json

def int? : Json → Option Int
  | .int n => some n
  | _ => none

/-- A number that is not negative. -/
def nat? : Json → Option Nat
  | .int n => if 0 ≤ n then some n.toNat else none
  | _ => none

/-- The entries of an object, under keys that are proper strings. -/
def entries? : Json → Option Fields
  | .object fields => fields.mapM properField?
  | _ => none

@[simp] theorem string?_string (s : String) : string? (.string s) = some s := rfl

@[simp] theorem bool?_bool (b : Bool) : bool? (.bool b) = some b := rfl

@[simp] theorem nat?_natCast (n : Nat) : nat? (.int n) = some n := by
  simp [nat?]

@[simp] theorem entries?_record (entries : Fields) : (record entries).entries? = some entries :=
  mapM_properField?_eq_some_iff.mpr rfl

/-- A list is read back when each of its items is. -/
theorem mapM_map_of_inverse {α : Type} {decode : Json → Option α} {encode : α → Json}
    (h : ∀ a, decode (encode a) = some a) (as : List α) :
    (as.map encode).mapM decode = some as := by
  rw [mapM_eq_some_iff, List.forall₂_map_right_iff]
  exact List.forall₂_same.mpr fun a _ => h a

end Json

def Severity.ofName? : String → Option Severity
  | "error" => some error
  | "warning" => some warning
  | _ => none

/-- The rule with this code and this kind. -/
def Rule.ofNames? (code kind : String) : Option Rule :=
  all.find? fun r => r.code = code ∧ r.kind = kind

def Argument.ofJson? (v : Json) : Option Argument := do
  let r ← v.entries?
  match ← r.required "kind" Json.string? with
  | "type" => (r.required "value" Json.string?).map type
  | "member" => (r.required "value" Json.string?).map member
  | "index" => (r.required "value" Json.int?).map index
  | _ => none

def Label.ofJson? (v : Json) : Option Label := do
  let r ← v.entries?
  return {
    location := {
      file := ← r.optional "file" none fun v => (Json.string? v).map some
      line := ← r.required "line" Json.nat?
      column := ← r.required "column" Json.nat? }
    message := ← r.required "message" Json.string?
    isPrimary := ← r.required "primary" Json.bool? }

namespace Diagnostic

def ofJson? (v : Json) : Option Diagnostic := do
  let r ← v.entries?
  let code ← r.required "code" Json.string?
  let kind ← r.required "kind" Json.string?
  return {
    rule := ← Rule.ofNames? code kind
    severity := ← (r.required "severity" Json.string?).bind Severity.ofName?
    message := ← r.required "message" Json.string?
    labels := ← r.required "labels" (Json.list? Label.ofJson?)
    arguments := ← r.required "args" (Json.list? Argument.ofJson?)
    notes := ← r.required "notes" (Json.list? Json.string?) }

/-- The diagnostics in a document, which is one array of them. -/
def listOfText? (text : String) : Option (List Diagnostic) :=
  (Json.parse? text).bind (Json.list? ofJson?)

end Diagnostic

theorem Severity.ofName?_name (s : Severity) : ofName? s.name = some s := by
  cases s <;> rfl

theorem Rule.ofNames?_code_kind (r : Rule) : ofNames? r.code r.kind = some r := by
  cases r <;> decide

/-- The tag tells an index from a type or member whose name reads like one. -/
theorem Argument.ofJson?_toJson (a : Argument) : ofJson? a.toJson = some a := by
  cases a <;> rfl

/-- A location without a file has no entry for it. -/
theorem Label.ofJson?_toJson (l : Label) : ofJson? l.toJson = some l := by
  obtain ⟨⟨file, line, column⟩, message, isPrimary⟩ := l
  cases file <;> simp [ofJson?, toJson, Json.Fields.optional, Json.Fields.required,
    List.lookup_cons]

namespace Diagnostic

theorem ofJson?_toJson (d : Diagnostic) : ofJson? d.toJson = some d := by
  have hlabels := Json.mapM_map_of_inverse Label.ofJson?_toJson d.labels
  have harguments := Json.mapM_map_of_inverse Argument.ofJson?_toJson d.arguments
  have hnotes := Json.mapM_map_of_inverse Json.string?_string d.notes
  simp [ofJson?, toJson, Json.Fields.required, List.lookup_cons, Json.list?, hlabels, harguments,
    hnotes, Rule.ofNames?_code_kind, Severity.ofName?_name]

theorem mapM_ofJson?_toJson (ds : List Diagnostic) : (ds.map toJson).mapM ofJson? = some ds :=
  Json.mapM_map_of_inverse ofJson?_toJson ds

end Diagnostic

/-- A document spells one array, with a line end behind it. -/
theorem spelledBy_jsonDocument (ds : List Diagnostic) :
    (Json.array (ds.map Diagnostic.toJson)).SpelledBy (jsonDocument ds) := by
  have hwritten := Json.spelledBy_written (.array (ds.map Diagnostic.toJson))
  rw [Json.SpelledBy] at hwritten ⊢
  rw [jsonDocument, String.toList_append]
  exact hwritten.concat_blank rfl

theorem Diagnostic.listOfText?_jsonDocument (ds : List Diagnostic) :
    listOfText? (jsonDocument ds) = some ds := by
  rw [listOfText?, Json.parse?_eq_some_iff.mpr (spelledBy_jsonDocument ds)]
  exact mapM_ofJson?_toJson ds

theorem jsonDocument_injective : Function.Injective jsonDocument := by
  intro ds ds' h
  have hread := congrArg Diagnostic.listOfText? h
  rwa [Diagnostic.listOfText?_jsonDocument, Diagnostic.listOfText?_jsonDocument,
    Option.some.injEq] at hread

end LayoutContract
