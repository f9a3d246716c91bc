import LayoutContract.Check.Report
import LayoutContract.Proofs.VisitedTypes
import Mathlib.Data.List.Forall2
import Mathlib.Data.List.Induction

/-!
Queues in use. Diagnostics are pushed one by one or several at once, and now and then what is
queued is flushed. However these steps follow each other, the count that a queue carries along is
that of its errors, and what was flushed and what is still queued make up what was pushed. A check
only ever pushes, so at its end its queue counts what a report on the same root counts anew.
-/
namespace LayoutContract

inductive QueueStep where
  | push (d : Diagnostic)
  | extend (ds : List Diagnostic)
  | flush

/-- The diagnostics that a step puts into a queue. -/
def QueueStep.pushed : QueueStep → List Diagnostic
  | push d => [d]
  | extend ds => ds
  | flush => []

/-- A queue, and the lists that were flushed from it so far. -/
structure QueueRun where
  flushed : List (List Diagnostic)
  queue : DiagnosticQueue

namespace DiagnosticQueue

/-- The count that is carried along is that of the errors. -/
def Counted (q : DiagnosticQueue) : Prop := q.errorCount = q.toList.countP Diagnostic.isError

variable {q : DiagnosticQueue}

theorem counted_empty : empty.Counted := rfl

theorem Counted.push (h : q.Counted) (d : Diagnostic) : (q.push d).Counted := by
  unfold Counted at h ⊢
  rw [toList_push, List.countP_append, ← h, DiagnosticQueue.push]
  cases herror : d.isError <;> simp [herror]

theorem Counted.extend (h : q.Counted) (ds : List Diagnostic) : (q.extend ds).Counted := by
  induction ds generalizing q with
  | nil => exact h
  | cons d ds ih => exact ih (h.push d)

/-- The subtraction that counts the warnings does not go below zero. -/
theorem Counted.errorCount_le_length (h : q.Counted) : q.errorCount ≤ q.length := by
  rw [h]
  exact List.countP_le_length

theorem Counted.warningCount_eq (h : q.Counted) :
    q.warningCount = q.toList.countP Diagnostic.isWarning := by
  have hsplit := List.length_eq_countP_add_countP Diagnostic.isError (l := q.toList)
  have hrest : q.toList.countP Diagnostic.isWarning =
      q.toList.countP fun d => ¬ d.isError = true :=
    List.countP_congr fun d _ => by simp [d.isWarning_eq_not_isError]
  rw [warningCount, length, h, hrest]
  omega

end DiagnosticQueue

namespace QueueRun

def start : QueueRun := ⟨[], .empty⟩

def step (r : QueueRun) : QueueStep → QueueRun
  | .push d => { r with queue := r.queue.push d }
  | .extend ds => { r with queue := r.queue.extend ds }
  | .flush => ⟨r.flushed ++ [r.queue.flush.1], r.queue.flush.2⟩

/-- What has become of a new queue once the steps are taken. -/
def after (steps : List QueueStep) : QueueRun := steps.foldl step start

theorem after_concat (steps : List QueueStep) (s : QueueStep) :
    after (steps ++ [s]) = (after steps).step s := by
  simp [after]

/-- What holds of a queue whatever happened to it, with all that was ever pushed. -/
structure Keeps (r : QueueRun) (pushed : List Diagnostic) : Prop where
  counted : r.queue.Counted
  all : r.flushed.flatten ++ r.queue.toList = pushed

theorem Keeps.step {r : QueueRun} {pushed : List Diagnostic} (h : r.Keeps pushed)
    (s : QueueStep) : (r.step s).Keeps (pushed ++ s.pushed) := by
  cases s with
  | push d => exact ⟨h.counted.push d, by simp [QueueRun.step, QueueStep.pushed, ← h.all]⟩
  | extend ds => exact ⟨h.counted.extend ds, by simp [QueueRun.step, QueueStep.pushed, ← h.all]⟩
  | flush =>
    refine ⟨DiagnosticQueue.counted_empty, ?_⟩
    simp [QueueRun.step, QueueStep.pushed, DiagnosticQueue.flush, DiagnosticQueue.empty, ← h.all]

theorem keeps_after (steps : List QueueStep) :
    (after steps).Keeps (steps.flatMap QueueStep.pushed) := by
  induction steps using List.reverseRecOn with
  | nil => exact ⟨DiagnosticQueue.counted_empty, rfl⟩
  | append_singleton steps s ih =>
    rw [after_concat, List.flatMap_append, List.flatMap_singleton]
    exact ih.step s

end QueueRun

theorem Context.counted_of_leadsTo {ι : Type} {before after : Context ι}
    (h : before.LeadsTo after) (hbefore : before.findings.Counted) : after.findings.Counted := by
  induction h with
  | refl => exact hbefore
  | tail _ step ih =>
    cases step with
    | visit => exact ih
    | report d => exact ih.push d

namespace TypeGraph

theorem counted_checkRoot (g : TypeGraph) (c : Config) (root : g.Handle) :
    (g.checkRoot c root).findings.Counted :=
  Context.counted_of_leadsTo (leadsTo_comeTo false (g.typeAt root).location {} root)
    DiagnosticQueue.counted_empty

end TypeGraph

/-- The counts of a queue never drift. After any steps the queue counts the errors and, by a
subtraction that has enough to take from, the other diagnostics that it holds, each by its own
severity; and what was flushed, list by list, with what is still queued behind it, is what was
pushed, in that order. A report on a root counts what the queue has counted at the end of the check
of that root. -/
theorem queue_counts_never_drift :
    (∀ steps : List QueueStep,
      let r := QueueRun.after steps
      r.queue.errorCount = r.queue.toList.countP (·.severity = .error) ∧
        r.queue.errorCount ≤ r.queue.length ∧
        r.queue.warningCount = r.queue.toList.countP (·.severity ≠ .error) ∧
        r.flushed.flatten ++ r.queue.toList = steps.flatMap QueueStep.pushed) ∧
    ∀ (g : TypeGraph) (c : Config) (roots : List g.Handle),
      List.Forall₂
        (fun root (report : RootReport g.Handle) =>
          let q := (g.checkRoot c root).findings
          report.root = root ∧ report.diagnostics = q.toList ∧
            q.errorCount = report.errorCount ∧ q.warningCount = report.warningCount)
        roots (g.analyzeAll c roots) := by
  constructor
  · intro steps
    obtain ⟨hcounted, hall⟩ := QueueRun.keeps_after steps
    refine ⟨hcounted, hcounted.errorCount_le_length, ?_, hall⟩
    rw [hcounted.warningCount_eq]
    exact List.countP_congr fun d _ => by simp [d.isWarning_eq_not_isError, Diagnostic.isError]
  · intro g c roots
    rw [TypeGraph.analyzeAll, List.forall₂_map_right_iff]
    refine List.forall₂_same.mpr fun root _ => ?_
    have hcounted := g.counted_checkRoot c root
    exact ⟨rfl, rfl, hcounted, hcounted.warningCount_eq⟩

/-- A breach of the rule for warnings that is made an error counts as one. -/
example :
    let d := Diagnostic.ofRule .indexTooLarge
    let q := (QueueRun.after [.push d, .flush, .extend [d, d.withSeverity .error]]).queue
    (q.errorCount, q.warningCount) = (1, 1) := by
  decide

end LayoutContract
