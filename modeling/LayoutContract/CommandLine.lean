import LayoutContract.CommandLine.Check
import LayoutContract.Rule.Reference

/-!
The command line. Commands say what they print and with which status they end; files are read
through a function that the caller gives, so that everything else is plain computation.
-/
namespace LayoutContract

structure Outcome where
  status : Nat := 0
  output : String := ""
  errors : String := ""
  deriving DecidableEq

def Refusal.outcome (r : Refusal) : Outcome := { status := 1, errors := r.report }

namespace CommandLine

def usageLines : List String :=
  [ "Formattable-type checker",
    "",
    "Usage: zfc <command> [options]",
    "",
    "Commands:",
    "  check <graph.json>   Check every formattable type in a type graph",
    "  explain <code>       Explain a diagnostic code (e.g., E1002)",
    "  codes                List every diagnostic code",
    "  help                 Show this help message",
    "  version              Show version information",
    "",
    "Check options:",
    "  --config=<file>        JSON checker configuration",
    "  --allow=<TypeName>     Treat a type as serializable as-is (repeatable)",
    "  --format=<fmt>         Output: terminal (default), json",
    "  --color=<when>         Colors: auto (default), always, never",
    "  --deny-warnings        Exit with failure on warnings too",
    "",
    "Examples:",
    "  zfc check types.json",
    "  zfc check types.json --allow=System.Guid --deny-warnings",
    "  zfc check types.json --format=json > report.json",
    "  zfc explain E2001",
    "  RUST_LOG=zf_check=trace zfc check types.json" ]

def usage : String := String.join (usageLines.map (· ++ "\n"))

/-- The page of a rule that is named by its code or its kind. -/
def explain (text : String) : Except Refusal String :=
  match Rule.ofText? text with
  | some r => .ok r.explanation
  | none => .error (.unknownCode text)

def explainOutcome : List String → Outcome
  | [] => { status := 1, errors := "Usage: zfc explain <CODE>\nExample: zfc explain E1002\n" }
  | text :: _ =>
    match explain text with
    | .ok page => { output := page ++ "\n" }
    | .error r => r.outcome

def checkOutcome (o : CheckOptions) : Except Refusal (CheckSummary × String) → Outcome
  | .ok (summary, output) => { status := if summary.fails o.denyWarnings then 1 else 0, output }
  | .error r => r.outcome

section Files

variable {m : Type → Type} [Monad m] (read : String → m (Except String String))
  (isTerminal : Bool)

/-- The text of the configuration with its path, if the options name one. -/
def readConfig (o : CheckOptions) : m (Except Refusal (Option (String × String))) :=
  match o.config with
  | none => pure (.ok none)
  | some path => do
    match ← read path with
    | .ok text => return .ok (some (path, text))
    | .error reason => return .error (.unreadable path reason)

/-- The graph is read before the configuration. -/
def check (o : CheckOptions) : m Outcome := do
  match ← read o.graph with
  | .error reason => return (Refusal.unreadable o.graph reason).outcome
  | .ok graph =>
    match ← readConfig read o with
    | .error r => return r.outcome
    | .ok config => return checkOutcome o (o.check isTerminal graph config)

/-- Carries out the command that the arguments ask for, `isTerminal` telling whether its output
goes to a terminal. -/
def run : List String → m Outcome
  | [] => pure { output := usage }
  | "check" :: arguments =>
    match CheckOptions.parse arguments with
    | .ok o => check read isTerminal o
    | .error r => pure r.outcome
  | "explain" :: arguments | "--explain" :: arguments => pure (explainOutcome arguments)
  | "codes" :: _ => pure { output := Rule.table }
  | "help" :: _ | "--help" :: _ | "-h" :: _ => pure { output := usage }
  | "version" :: _ | "--version" :: _ | "-V" :: _ => pure { output := "zfc 0.1.0\n" }
  | command :: _ =>
    pure { status := 1, output := usage, errors := "Unknown command: " ++ command ++ "\n\n" }

end Files
end CommandLine
end LayoutContract
