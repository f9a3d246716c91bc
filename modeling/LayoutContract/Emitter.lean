import LayoutContract.Rendering.Json
import LayoutContract.Rendering.Terminal

/-!
Emitters turn diagnostics into output. For a terminal each diagnostic is written as it comes and a
summary closes the run; in JSON all diagnostics since the last flush are written by the next one,
and a summary adds nothing.
-/
namespace LayoutContract

inductive Emitter where
  | terminal (colors : Bool)
  | json (pending : List Diagnostic)
  deriving DecidableEq

inductive EmitStep where
  | emit (d : Diagnostic)
  | emitAll (ds : List Diagnostic)
  | flush
  | summary (errors warnings : Nat)

namespace Emitter

/-- The emitter after a step, and the text that the step writes. -/
def step : Emitter → EmitStep → Emitter × String
  | terminal colors, .emit d => (terminal colors, Terminal.block colors d)
  | terminal colors, .emitAll ds =>
    (terminal colors, String.join (ds.map (Terminal.block colors)))
  | terminal colors, .flush => (terminal colors, "")
  | terminal colors, .summary errors warnings =>
    (terminal colors, Terminal.summary colors errors warnings)
  | json pending, .emit d => (json (pending ++ [d]), "")
  | json pending, .emitAll ds => (json (pending ++ ds), "")
  | json pending, .flush => (json [], jsonDocument pending)
  | json pending, .summary _ _ => (json pending, "")

/-- The texts that the steps write, one for each. -/
def outputs (e : Emitter) : List EmitStep → List String
  | [] => []
  | s :: steps => (e.step s).2 :: outputs (e.step s).1 steps

def output (e : Emitter) (steps : List EmitStep) : String := String.join (e.outputs steps)

end Emitter
end LayoutContract
