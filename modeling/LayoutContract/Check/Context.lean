import LayoutContract.Diagnostic.Queue

/-!
What a check of one root keeps in mind: the types it has come to, so that none is looked at twice
and cycles come to an end, and its findings so far.
-/
namespace LayoutContract

structure Context (ι : Type) where
  visited : List ι := []
  findings : DiagnosticQueue := .empty

namespace Context

variable {ι : Type}

def visit (c : Context ι) (i : ι) : Context ι := { c with visited := i :: c.visited }

/-- Visits a type and tells whether this is the first visit. -/
def firstVisit [DecidableEq ι] (c : Context ι) (i : ι) : Bool × Context ι :=
  if i ∈ c.visited then (false, c) else (true, c.visit i)

def report (c : Context ι) (d : Diagnostic) : Context ι :=
  { c with findings := c.findings.push d }

/-- Nothing is reported yet, not even a warning. -/
def isClean (c : Context ι) : Bool := c.findings.isEmpty

end Context
end LayoutContract
