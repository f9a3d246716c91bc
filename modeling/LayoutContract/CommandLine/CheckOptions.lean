import LayoutContract.CommandLine.Refusal
import LayoutContract.Rendering.Terminal

/-!
The arguments of a check. Options may stand before or after the path of the graph; of an option
that takes one value the last one counts, and the first argument that is wrong decides the refusal.
-/
namespace LayoutContract

inductive OutputFormat where
  | terminal
  | json
  deriving DecidableEq

def OutputFormat.ofName? : String → Option OutputFormat
  | "terminal" => some terminal
  | "json" => some json
  | _ => none

structure CheckOptions where
  graph : String
  config : Option String := none
  /-- Names that are exempt beside those of the configuration. -/
  allow : List String := []
  format : OutputFormat := .terminal
  color : ColorMode := .auto
  denyWarnings : Bool := false
  deriving DecidableEq

/-- What a single argument says. -/
inductive CheckArgument where
  | config (path : String)
  | allow (name : String)
  | format (format : OutputFormat)
  | color (mode : ColorMode)
  | denyWarnings
  | graph (path : String)
  deriving DecidableEq

namespace CheckArgument

/-- The rest of an argument that starts with `flag`. -/
def valueOf? (flag argument : String) : Option String :=
  (flag.toList.isPrefixOf? argument.toList).map String.ofList

/-- The meaning of a value, if it has one. -/
def valued {α : Type} (option value : String) (meaning : Option α) (use : α → CheckArgument) :
    Except Refusal CheckArgument :=
  match meaning with
  | some a => .ok (use a)
  | none => .error (.invalidValue option value)

def read (argument : String) : Except Refusal CheckArgument :=
  if let some path := valueOf? "--config=" argument then .ok (.config path)
  else if let some name := valueOf? "--allow=" argument then .ok (.allow name)
  else if let some value := valueOf? "--format=" argument then
    valued "--format" value (OutputFormat.ofName? value) .format
  else if let some value := valueOf? "--color=" argument then
    valued "--color" value (ColorMode.ofName? value) .color
  else if argument = "--deny-warnings" then .ok .denyWarnings
  else if (valueOf? "-" argument).isSome then .error (.unknownOption argument)
  else .ok (.graph argument)

end CheckArgument

namespace CheckOptions

/-- Options whose graph is not known yet. -/
structure Draft where
  graph? : Option String := none
  options : CheckOptions := { graph := "" }

namespace Draft

def add (d : Draft) : CheckArgument → Except Refusal Draft
  | .config path => .ok { d with options := { d.options with config := some path } }
  | .allow name =>
    .ok { d with options := { d.options with allow := d.options.allow ++ [name] } }
  | .format format => .ok { d with options := { d.options with format } }
  | .color color => .ok { d with options := { d.options with color } }
  | .denyWarnings => .ok { d with options := { d.options with denyWarnings := true } }
  | .graph path =>
    match d.graph? with
    | none => .ok { d with graph? := some path }
    | some _ => .error (.unexpectedArgument path)

def addText (d : Draft) (argument : String) : Except Refusal Draft :=
  (CheckArgument.read argument).bind d.add

def finish (d : Draft) : Except Refusal CheckOptions :=
  match d.graph? with
  | some graph => .ok { d.options with graph }
  | none => .error (.missingArgument "type graph path")

end Draft

def parse (arguments : List String) : Except Refusal CheckOptions :=
  (arguments.foldlM Draft.addText {}).bind Draft.finish

end CheckOptions
end LayoutContract
