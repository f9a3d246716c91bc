import LayoutContract.Emitter
import LayoutContract.Proofs.DiagnosticRecords
import LayoutContract.Proofs.IndexClaims
import Mathlib.Data.List.DropRight

/-!
Whole runs of an emitter. What an emitter writes at a step follows from the steps before it. For a
terminal each step has its spans, which are painted at once. The JSON emitter holds what it was
handed since the last flush, and nothing else, so each flush writes a document from which exactly
these diagnostics are read back.
-/
namespace LayoutContract

namespace EmitStep

def isFlush : EmitStep → Bool
  | flush => true
  | emit _ | emitAll _ | summary _ _ => false

/-- The diagnostics that a step hands to an emitter. -/
def diagnostics : EmitStep → List Diagnostic
  | emit d => [d]
  | emitAll ds => ds
  | flush | summary _ _ => []

end EmitStep

section Spans

theorem paint_nil (colors : Bool) : paint colors [] = "" := rfl

theorem paint_cons (colors : Bool) (span : Span) (spans : List Span) :
    paint colors (span :: spans) = span.paint colors ++ paint colors spans := by
  rw [paint, List.map_cons, String.join_cons, paint]

theorem paint_append (colors : Bool) (spans spans' : List Span) :
    paint colors (spans ++ spans') = paint colors spans ++ paint colors spans' := by
  rw [paint, List.map_append, String.join_append, paint, paint]

theorem paint_flatMap_blockSpans (colors : Bool) (ds : List Diagnostic) :
    paint colors (ds.flatMap Terminal.blockSpans) =
      String.join (ds.map (Terminal.block colors)) := by
  induction ds with
  | nil => rfl
  | cons d ds ih =>
    rw [List.flatMap_cons, paint_append, ih, List.map_cons, String.join_cons, Terminal.block]

namespace Terminal

/-- The spans of the line that closes a run. -/
def totalSpans (errors warnings : Nat) : List Span :=
  match aborted? errors, warned? warnings with
  | some aborted, some warned => summarySpans .error (aborted ++ "; " ++ warned)
  | some aborted, none => summarySpans .error aborted
  | none, some warned => summarySpans .warning warned
  | none, none => []

theorem summary_eq (colors : Bool) (errors warnings : Nat) :
    summary colors errors warnings = paint colors (totalSpans errors warnings) := by
  unfold summary totalSpans
  cases aborted? errors <;> cases warned? warnings <;> rfl

end Terminal

/-- The spans that a step writes to a terminal. -/
def EmitStep.spans : EmitStep → List Span
  | emit d => Terminal.blockSpans d
  | emitAll ds => ds.flatMap Terminal.blockSpans
  | flush => []
  | summary errors warnings => Terminal.totalSpans errors warnings

end Spans

/-- The diagnostics handed over behind the last flush. -/
def unflushed (steps : List EmitStep) : List Diagnostic :=
  (steps.rtakeWhile (!·.isFlush)).flatMap EmitStep.diagnostics

theorem unflushed_concat (steps : List EmitStep) (s : EmitStep) :
    unflushed (steps ++ [s]) = if s.isFlush then [] else unflushed steps ++ s.diagnostics := by
  unfold unflushed
  rw [List.rtakeWhile_concat]
  cases s.isFlush <;> simp

/-- Each diagnostic is flushed by one flush, or by none yet. -/
theorem flatMap_unflushed (steps : List EmitStep) :
    ((withEarlier steps).filter (·.2.isFlush)).flatMap (unflushed ·.1) ++ unflushed steps =
      steps.flatMap EmitStep.diagnostics := by
  induction steps using List.reverseRecOn with
  | nil => rfl
  | append_singleton steps s ih =>
    rw [withEarlier_concat, unflushed_concat, List.filter_append, List.flatMap_append,
      List.flatMap_append, ← ih]
    cases s <;> simp [EmitStep.isFlush, EmitStep.diagnostics]

namespace Emitter

/-- The emitter once the steps are taken. -/
def after (e : Emitter) (steps : List EmitStep) : Emitter :=
  steps.foldl (fun e s => (e.step s).1) e

theorem after_concat (e : Emitter) (steps : List EmitStep) (s : EmitStep) :
    e.after (steps ++ [s]) = ((e.after steps).step s).1 := by
  simp [after]

theorem outputs_append (e : Emitter) (steps steps' : List EmitStep) :
    e.outputs (steps ++ steps') = e.outputs steps ++ (e.after steps).outputs steps' := by
  induction steps generalizing e with
  | nil => rfl
  | cons s steps ih =>
    rw [List.cons_append, outputs, outputs, ih, List.cons_append]
    rfl

theorem output_cons (e : Emitter) (s : EmitStep) (steps : List EmitStep) :
    e.output (s :: steps) = (e.step s).2 ++ (e.step s).1.output steps := by
  rw [output, outputs, String.join_cons]
  rfl

section Terminal

theorem step_terminal (colors : Bool) (s : EmitStep) :
    (terminal colors).step s = (terminal colors, paint colors s.spans) := by
  cases s with
  | emit d => rfl
  | emitAll ds => rw [step, EmitStep.spans, paint_flatMap_blockSpans]
  | flush => rfl
  | summary errors warnings => rw [step, EmitStep.spans, Terminal.summary_eq]

/-- Only the painting depends on colours. -/
theorem output_terminal (colors : Bool) (steps : List EmitStep) :
    (terminal colors).output steps = paint colors (steps.flatMap EmitStep.spans) := by
  induction steps with
  | nil => rfl
  | cons s steps ih => rw [output_cons, step_terminal, ih, List.flatMap_cons, paint_append]

end Terminal

section Json

variable {pending : List Diagnostic}

theorem step_json (s : EmitStep) :
    (json pending).step s =
      if s.isFlush then (json [], jsonDocument pending)
      else (json (pending ++ s.diagnostics), "") := by
  cases s <;> simp [step, EmitStep.isFlush, EmitStep.diagnostics]

/-- The emitter holds what is not flushed yet. -/
theorem after_json (steps : List EmitStep) : (json []).after steps = json (unflushed steps) := by
  induction steps using List.reverseRecOn with
  | nil => rfl
  | append_singleton steps s ih =>
    rw [after_concat, ih, step_json, unflushed_concat]
    split <;> rfl

/-- Only a flush writes anything. -/
theorem outputs_json (steps : List EmitStep) :
    (json []).outputs steps = (withEarlier steps).map fun x =>
      if x.2.isFlush then jsonDocument (unflushed x.1) else "" := by
  induction steps using List.reverseRecOn with
  | nil => rfl
  | append_singleton steps s ih =>
    rw [outputs_append, ih, after_json, withEarlier_concat, List.map_append]
    simp only [outputs, step_json, List.map_cons, List.map_nil]
    split <;> rfl

end Json

/-- What a step may write behind the earlier ones: a flush writes an array and a line end, and the
array is read back as what was not flushed yet; any other step writes nothing. -/
def WritesUnflushed (earlier : List EmitStep) (s : EmitStep) (text : String) : Prop :=
  if s.isFlush then
    ∃ items document, text = document ++ "\n" ∧ (Json.array items).SpelledBy document ∧
      items.mapM Diagnostic.ofJson? = some (unflushed earlier)
  else text = ""

theorem writesUnflushed_json (earlier : List EmitStep) (s : EmitStep) :
    WritesUnflushed earlier s (if s.isFlush then jsonDocument (unflushed earlier) else "") := by
  unfold WritesUnflushed
  split
  · exact ⟨(unflushed earlier).map Diagnostic.toJson, _, rfl, Json.spelledBy_written _,
      Diagnostic.mapM_ofJson?_toJson _⟩
  · rfl

theorem output_emitAll_flush (ds : List Diagnostic) :
    (json []).output [.emitAll ds, .flush] = jsonDocument ds := by
  simp [output, outputs, step, String.join_cons]

/-- In JSON nothing is lost on the way. Every flush writes an array of the diagnostics since the
flush before it, as they are and in their order, and no other step writes anything; together the
flushes cover all that was handed over, up to what is not flushed yet. Different lists of
diagnostics are never written alike. -/
theorem json_output_is_lossless (steps : List EmitStep) :
    List.Forall₂ (fun x text => WritesUnflushed x.1 x.2 text) (withEarlier steps)
        ((json []).outputs steps) ∧
      ((withEarlier steps).filter (·.2.isFlush)).flatMap (unflushed ·.1) ++ unflushed steps =
        steps.flatMap EmitStep.diagnostics ∧
      Function.Injective fun ds => (json []).output [.emitAll ds, .flush] := by
  refine ⟨?_, flatMap_unflushed steps, ?_⟩
  · rw [outputs_json, List.forall₂_map_right_iff]
    exact List.forall₂_same.mpr fun x _ => writesUnflushed_json x.1 x.2
  · intro ds ds' h
    apply jsonDocument_injective
    rwa [← output_emitAll_flush ds, ← output_emitAll_flush ds']

end Emitter
end LayoutContract
