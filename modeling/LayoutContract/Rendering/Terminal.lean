import LayoutContract.Diagnostic

/-!
Diagnostics as text for a terminal: a heading, a line for each label, a line for each note and an
empty line. Some stretches of the text have a style, which is written as an escape sequence before
the stretch and a reset after it, or not at all.
-/
namespace LayoutContract

inductive Style where
  | error
  | warning
  | emphasis
  | related
  deriving DecidableEq

namespace Style

def escape : Style → String
  | error => "\x1b[1;31m"
  | warning => "\x1b[1;33m"
  | emphasis => "\x1b[1m"
  | related => "\x1b[1;34m"

def reset : String := "\x1b[0m"

def ofSeverity : Severity → Style
  | .error => error
  | .warning => warning

end Style

inductive ColorMode where
  /-- Colours only for a terminal. -/
  | auto
  | always
  | never
  deriving DecidableEq

namespace ColorMode

def ofName? : String → Option ColorMode
  | "auto" => some auto
  | "always" => some always
  | "never" => some never
  | _ => none

def usesColors (mode : ColorMode) (isTerminal : Bool) : Bool :=
  match mode with
  | auto => isTerminal
  | always => true
  | never => false

end ColorMode

/-- A stretch of text. -/
inductive Span where
  | plain (text : String)
  | styled (style : Style) (text : String)

def Span.paint (colors : Bool) : Span → String
  | plain text => text
  | styled style text => if colors then style.escape ++ text ++ Style.reset else text

def paint (colors : Bool) (spans : List Span) : String :=
  String.join (spans.map (Span.paint colors))

namespace Terminal

def labelSpans (severity : Severity) (l : Label) : List Span :=
  let marker := if l.isPrimary then "-->" else "   "
  let style := if l.isPrimary then Style.ofSeverity severity else .related
  [.plain ("  " ++ marker ++ " " ++ l.location.display ++ ": "), .styled style l.message,
    .plain "\n"]

def noteSpans (note : String) : List Span :=
  [.plain "  = ", .styled .emphasis "note", .plain (": " ++ note ++ "\n")]

def blockSpans (d : Diagnostic) : List Span :=
  [.styled (.ofSeverity d.severity) d.severity.name,
    .styled .emphasis ("[" ++ d.rule.code ++ "]"), .plain (": " ++ d.message ++ "\n")] ++
    d.labels.flatMap (labelSpans d.severity) ++ d.notes.flatMap noteSpans ++ [.plain "\n"]

def block (colors : Bool) (d : Diagnostic) : String := paint colors (blockSpans d)

def aborted? : Nat → Option String
  | 0 => none
  | 1 => some "aborting due to previous error"
  | n => some ("aborting due to " ++ toString n ++ " previous errors")

def warned? : Nat → Option String
  | 0 => none
  | 1 => some "1 warning emitted"
  | n => some (toString n ++ " warnings emitted")

def summarySpans (severity : Severity) (text : String) : List Span :=
  [.styled (.ofSeverity severity) severity.name, .plain (": " ++ text ++ "\n")]

/-- The line that closes a run, absent when nothing was found. -/
def summary (colors : Bool) (errors warnings : Nat) : String :=
  match aborted? errors, warned? warnings with
  | some aborted, some warned =>
    paint colors (summarySpans .error (aborted ++ "; " ++ warned))
  | some aborted, none => paint colors (summarySpans .error aborted)
  | none, some warned => paint colors (summarySpans .warning warned)
  | none, none => ""

end Terminal
end LayoutContract
