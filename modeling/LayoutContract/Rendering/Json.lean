import LayoutContract.Diagnostic
import LayoutContract.Json.Printer

/-!
Diagnostics as JSON values, for tools. Keys come in alphabetical order, and the file of a location
is left out where there is none.
-/
namespace LayoutContract

def Argument.toJson : Argument → Json
  | type name => .record [("kind", .string "type"), ("value", .string name)]
  | member name => .record [("kind", .string "member"), ("value", .string name)]
  | index n => .record [("kind", .string "index"), ("value", .int n)]

def Label.toJson (l : Label) : Json :=
  .record ([("column", .int l.location.column)] ++
    (l.location.file.map fun file => ("file", .string file)).toList ++
    [("line", .int l.location.line), ("message", .string l.message),
      ("primary", .bool l.isPrimary)])

def Diagnostic.toJson (d : Diagnostic) : Json :=
  .record [("args", .array (d.arguments.map Argument.toJson)), ("code", .string d.rule.code),
    ("kind", .string d.rule.kind), ("labels", .array (d.labels.map Label.toJson)),
    ("message", .string d.message), ("notes", .array (d.notes.map .string)),
    ("severity", .string d.severity.name)]

/-- One array with all diagnostics, and a line end. -/
def jsonDocument (ds : List Diagnostic) : String :=
  (Json.array (ds.map Diagnostic.toJson)).written ++ "\n"

end LayoutContract
