import LayoutContract.Check.Report
import LayoutContract.CommandLine.CheckOptions
import LayoutContract.Emitter
import LayoutContract.TypeGraph.Build

/-!
The check of a graph from its text to the output. Names that the configuration allows are types of
the graph even when the text does not declare them.
-/
namespace LayoutContract

/-- Totals over all roots. -/
structure CheckSummary where
  roots : Nat
  errors : Nat
  warnings : Nat
  deriving DecidableEq

namespace CheckSummary

def ofReports {ι : Type} (reports : List (RootReport ι)) : CheckSummary where
  roots := reports.length
  errors := reports.foldr (fun r n => r.errorCount + n) 0
  warnings := reports.foldr (fun r n => r.warningCount + n) 0

def fails (s : CheckSummary) (denyWarnings : Bool) : Bool :=
  0 < s.errors || (denyWarnings && 0 < s.warnings)

end CheckSummary

/-- What is handed to an emitter: the findings of each root, the totals, and the end. -/
def emission {ι : Type} (reports : List (RootReport ι)) : List EmitStep :=
  let summary := CheckSummary.ofReports reports
  reports.map (.emitAll ·.diagnostics) ++ [.summary summary.errors summary.warnings, .flush]

/-- The totals and the output of a check. -/
def checkText (text : String) (c : Config) (e : Emitter) :
    Except GraphError (CheckSummary × String) :=
  (TypeGraph.ofText text c.allowed.toList).map fun g =>
    let reports := g.check c
    (.ofReports reports, e.output (emission reports))

namespace CheckOptions

def emitter (o : CheckOptions) (isTerminal : Bool) : Emitter :=
  match o.format with
  | .terminal => .terminal (o.color.usesColors isTerminal)
  | .json => .json []

/-- The configuration with the given text, or the default one, and the names of the options. -/
def configOf (o : CheckOptions) : Option (String × String) → Except Refusal Config
  | none => .ok (Config.allowing {} o.allow)
  | some (path, text) =>
    match Config.ofText? text with
    | some c => .ok (c.allowing o.allow)
    | none => .error (.invalidConfig path)

/-- The check that the options ask for, once their files are read. -/
def check (o : CheckOptions) (isTerminal : Bool) (graph : String)
    (config : Option (String × String)) : Except Refusal (CheckSummary × String) :=
  match o.configOf config with
  | .error r => .error r
  | .ok c =>
    match checkText graph c (o.emitter isTerminal) with
    | .error e => .error (.graph e)
    | .ok result => .ok result

end CheckOptions
end LayoutContract
