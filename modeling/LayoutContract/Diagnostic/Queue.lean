import LayoutContract.Diagnostic

/-!
Queues of diagnostics. They keep the order of reports, which is the order in which a check comes
upon its findings; nothing is sorted or merged. The errors are counted as they come in, by their
own severity and not by that of their rule.
-/
namespace LayoutContract

structure DiagnosticQueue where
  toList : List Diagnostic
  errorCount : Nat
  deriving DecidableEq

namespace DiagnosticQueue

def empty : DiagnosticQueue := ⟨[], 0⟩

def push (q : DiagnosticQueue) (d : Diagnostic) : DiagnosticQueue :=
  ⟨q.toList ++ [d], if d.isError then q.errorCount + 1 else q.errorCount⟩

def extend (q : DiagnosticQueue) (ds : List Diagnostic) : DiagnosticQueue := ds.foldl push q

def length (q : DiagnosticQueue) : Nat := q.toList.length

def isEmpty (q : DiagnosticQueue) : Bool := q.toList.isEmpty

def warningCount (q : DiagnosticQueue) : Nat := q.length - q.errorCount

/-- Hands over what is queued and leaves an empty queue. -/
def flush (q : DiagnosticQueue) : List Diagnostic × DiagnosticQueue := (q.toList, empty)

@[simp] theorem toList_push (q : DiagnosticQueue) (d : Diagnostic) :
    (q.push d).toList = q.toList ++ [d] := rfl

@[simp] theorem toList_extend (q : DiagnosticQueue) (ds : List Diagnostic) :
    (q.extend ds).toList = q.toList ++ ds := by
  induction ds generalizing q with
  | nil => simp [extend]
  | cons d ds ih =>
    have : q.extend (d :: ds) = (q.push d).extend ds := rfl
    rw [this, ih, toList_push]
    simp

end DiagnosticQueue
end LayoutContract
