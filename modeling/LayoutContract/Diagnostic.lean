import LayoutContract.Location
import LayoutContract.Rule

/-!
Diagnostics: which rule is broken, where, and the words for it. Labels point at locations, the
primary one at the place to mend; arguments repeat the names and numbers of the message for those
who word it on their own.
-/
namespace LayoutContract

structure Label where
  location : Location
  message : String
  isPrimary : Bool
  deriving DecidableEq

/-- The line of a label, with an arrow before a primary location and room for one before any
other. -/
def Label.line (l : Label) : String :=
  "\n  " ++ (if l.isPrimary then "-->" else "   ") ++ " " ++ l.location.display ++ ": " ++
    l.message

inductive Argument where
  | type (name : String)
  | member (name : String)
  | index (n : Int)
  deriving DecidableEq

def Argument.display : Argument → String
  | type name => name
  | member name => name
  | index n => toString n

structure Diagnostic where
  rule : Rule
  severity : Severity := rule.severity
  message : String := ""
  labels : List Label := []
  arguments : List Argument := []
  notes : List String := []
  deriving DecidableEq

namespace Diagnostic

def ofRule (rule : Rule) : Diagnostic := { rule }

def withSeverity (d : Diagnostic) (severity : Severity) : Diagnostic := { d with severity }

def withMessage (d : Diagnostic) (message : String) : Diagnostic := { d with message }

def withLabel (d : Diagnostic) (location : Location) (message : String) : Diagnostic :=
  { d with labels := d.labels ++ [⟨location, message, true⟩] }

def withSecondaryLabel (d : Diagnostic) (location : Location) (message : String) : Diagnostic :=
  { d with labels := d.labels ++ [⟨location, message, false⟩] }

def withArgument (d : Diagnostic) (a : Argument) : Diagnostic :=
  { d with arguments := d.arguments ++ [a] }

def withNote (d : Diagnostic) (note : String) : Diagnostic :=
  { d with notes := d.notes ++ [note] }

def isError (d : Diagnostic) : Bool := d.severity == .error

def isWarning (d : Diagnostic) : Bool := d.severity == .warning

/-- There are two severities. -/
theorem isWarning_eq_not_isError (d : Diagnostic) : d.isWarning = !d.isError := by
  unfold isWarning isError
  cases d.severity <;> rfl

def primaryLocation? (d : Diagnostic) : Option Location :=
  (d.labels.find? (·.isPrimary)).map (·.location)

def secondaryLocations (d : Diagnostic) : List Location :=
  (d.labels.filter (!·.isPrimary)).map (·.location)

def noteLine (note : String) : String := "\n  = note: " ++ note

/-- A heading, a line for each label and a line for each note. -/
def display (d : Diagnostic) : String :=
  d.severity.name ++ " [" ++ d.rule.code ++ "]: " ++ d.message ++
    String.join (d.labels.map Label.line) ++ String.join (d.notes.map noteLine)

end Diagnostic
end LayoutContract
