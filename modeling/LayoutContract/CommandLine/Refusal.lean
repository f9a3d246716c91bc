import LayoutContract.TypeGraph.Build

/-!
Why a command is not carried out. What a check finds in a graph is no refusal.
-/
namespace LayoutContract

inductive Refusal where
  | unreadable (path reason : String)
  | invalidConfig (path : String)
  | graph (e : GraphError)
  | unknownOption (option : String)
  | unexpectedArgument (argument : String)
  | invalidValue (option value : String)
  | missingArgument (what : String)
  | unknownCode (text : String)
  deriving DecidableEq

namespace Refusal

def message : Refusal → String
  | unreadable path reason => "cannot read `" ++ path ++ "`: " ++ reason
  | invalidConfig path => "invalid config `" ++ path ++ "`: not the JSON form of a configuration"
  | graph e => e.message
  | unknownOption option => "unknown option `" ++ option ++ "`"
  | unexpectedArgument argument => "unexpected argument `" ++ argument ++ "`"
  | invalidValue option value => "invalid value `" ++ value ++ "` for `" ++ option ++ "`"
  | missingArgument what => "missing " ++ what
  | unknownCode text => "unknown error code `" ++ text ++ "`"

/-- The arguments themselves are wrong, and not what they lead to. -/
def concernsUsage : Refusal → Bool
  | unknownOption _ | unexpectedArgument _ | invalidValue _ _ | missingArgument _ => true
  | _ => false

/-- What follows the message of a refusal. -/
def advice (r : Refusal) : String :=
  match r with
  | unknownCode _ => "\nRun `zfc codes` to list every code.\n"
  | r =>
    if r.concernsUsage then
      "\nUsage: zfc check <graph.json> [options]\nRun `zfc help` for the list of options.\n"
    else ""

def report (r : Refusal) : String := "error: " ++ r.message ++ "\n" ++ r.advice

end Refusal
end LayoutContract
