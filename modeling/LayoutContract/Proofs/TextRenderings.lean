import LayoutContract.Proofs.EmitterRuns

/-!
The renderings of diagnostics as text. A run of a terminal writes one list of spans, in which
nothing but the painting depends on colours. Every style begins with an escape character and no
sequence for a style is the beginning of another, so the sequences can be told from any text that
has no such character, and deleted. What is left is the plain rendering; and that of a diagnostic
is the form in which it is displayed, up to a space and the line ends.
-/
namespace LayoutContract

/-- The sequences that switch styles on and off. -/
def styleSequences : List String :=
  ["\x1b[0m", "\x1b[1m", "\x1b[1;31m", "\x1b[1;33m", "\x1b[1;34m"]

theorem reset_mem : Style.reset ∈ styleSequences := by decide

theorem escape_mem (style : Style) : style.escape ∈ styleSequences := by
  cases style <;> decide

/-- The characters that are left once all sequences are deleted from the left to the right. -/
def unstyle : List Char → List Char
  | [] => []
  | c :: cs =>
    match styleSequences.find? (·.toList.isPrefixOf (c :: cs)) with
    | some s => unstyle (cs.drop (s.toList.length - 1))
    | none => c :: unstyle cs
termination_by cs => cs.length
decreasing_by
  · simp only [List.length_drop, List.length_cons]
    omega
  · simp

def withoutStyles (text : String) : String := String.ofList (unstyle text.toList)

def EscapeFree (text : String) : Prop := '\x1b' ∉ text.toList

instance (text : String) : Decidable (EscapeFree text) := inferInstanceAs (Decidable (¬ _))

section Unstyling

variable {s : String}

theorem exists_eq_escape_cons (hs : s ∈ styleSequences) : ∃ rest, s.toList = '\x1b' :: rest := by
  have hhead : ∀ s ∈ styleSequences, s.toList.head? = some '\x1b' := by decide
  exact List.head?_eq_some_iff.mp (hhead s hs)

theorem unstyle_cons_of_ne {c : Char} (h : c ≠ '\x1b') (cs : List Char) :
    unstyle (c :: cs) = c :: unstyle cs := by
  have hnone : styleSequences.find? (·.toList.isPrefixOf (c :: cs)) = none := by
    refine List.find?_eq_none.mpr fun s hs hprefix => ?_
    obtain ⟨rest, hrest⟩ := exists_eq_escape_cons hs
    rw [hrest, List.isPrefixOf_iff_prefix, List.cons_prefix_cons] at hprefix
    exact h hprefix.1.symm
  rw [unstyle, hnone]

theorem unstyle_append {text : List Char} (h : '\x1b' ∉ text) (cs : List Char) :
    unstyle (text ++ cs) = text ++ unstyle cs := by
  induction text with
  | nil => rfl
  | cons c text ih =>
    rw [List.mem_cons, not_or] at h
    rw [List.cons_append, unstyle_cons_of_ne (Ne.symm h.1), ih h.2, List.cons_append]

/-- A sequence is recognized whatever follows. -/
theorem unstyle_sequence (hs : s ∈ styleSequences) (cs : List Char) :
    unstyle (s.toList ++ cs) = unstyle cs := by
  have hapart : ∀ s ∈ styleSequences, ∀ s' ∈ styleSequences,
      s.toList <+: s'.toList → s = s' := by decide
  have hfind : styleSequences.find? (·.toList.isPrefixOf (s.toList ++ cs)) = some s := by
    cases h : styleSequences.find? (·.toList.isPrefixOf (s.toList ++ cs)) with
    | none => exact absurd (by simp) (List.find?_eq_none.mp h s hs)
    | some s' =>
      -- Both begin the same text, so one begins the other.
      have hs' : s' ∈ styleSequences := List.mem_of_find?_eq_some h
      have hprefix : s'.toList <+: s.toList ++ cs := by simpa using List.find?_some h
      rcases List.prefix_or_prefix_of_prefix hprefix (List.prefix_append _ _) with hle | hle
      · rw [hapart s' hs' s hs hle]
      · rw [hapart s hs s' hs' hle]
  obtain ⟨rest, hrest⟩ := exists_eq_escape_cons hs
  rw [hrest, List.cons_append] at hfind ⊢
  rw [unstyle, hfind]
  simp [hrest]

def Span.text : Span → String
  | plain text => text
  | styled _ text => text

def AllEscapeFree (spans : List Span) : Prop := ∀ span ∈ spans, EscapeFree span.text

theorem unstyle_paint_span {span : Span} (h : EscapeFree span.text) (cs : List Char) :
    unstyle ((span.paint true).toList ++ cs) = (span.paint false).toList ++ unstyle cs := by
  cases span with
  | plain text => exact unstyle_append h cs
  | styled style text =>
    show unstyle ((style.escape ++ text ++ Style.reset).toList ++ cs) = text.toList ++ unstyle cs
    rw [String.toList_append, String.toList_append, List.append_assoc, List.append_assoc,
      unstyle_sequence (escape_mem style), unstyle_append (show '\x1b' ∉ text.toList from h),
      unstyle_sequence reset_mem]

/-- Painted spans without their styles are plain. -/
theorem withoutStyles_paint {spans : List Span} (h : AllEscapeFree spans) :
    withoutStyles (paint true spans) = paint false spans := by
  have hunstyle : unstyle (paint true spans).toList = (paint false spans).toList := by
    induction spans with
    | nil => simp [paint, unstyle]
    | cons span spans ih =>
      obtain ⟨hspan, hspans⟩ := List.forall_mem_cons.mp h
      rw [paint_cons, paint_cons, String.toList_append, unstyle_paint_span hspan, ih hspans,
        String.toList_append]
  rw [withoutStyles, hunstyle, String.ofList_toList]

end Unstyling

section EscapeFree

variable {a b : String}

@[simp]
theorem escapeFree_append : EscapeFree (a ++ b) ↔ EscapeFree a ∧ EscapeFree b := by
  simp [EscapeFree, not_or]

@[simp]
theorem escapeFree_repr (n : Nat) : EscapeFree n.repr := by
  have hdigits : n.repr.toList = Nat.toDigits 10 n := by simp
  unfold EscapeFree
  rw [hdigits]
  intro hmem
  exact absurd (Nat.isDigit_of_mem_toDigits (by decide) (by decide) hmem) (by decide)

theorem escapeFree_display {l : Location} (h : ∀ file ∈ l.file, EscapeFree file) :
    EscapeFree l.display := by
  have hcolon : EscapeFree ":" := by decide
  have hunknown : EscapeFree "<unknown>" := by decide
  unfold Location.display
  cases hfile : l.file with
  | none => dsimp only; split <;> simp [hcolon, hunknown]
  | some file => dsimp only; split <;> simp [hcolon, h file hfile]

theorem allEscapeFree_append {spans spans' : List Span} :
    AllEscapeFree (spans ++ spans') ↔ AllEscapeFree spans ∧ AllEscapeFree spans' :=
  List.forall_mem_append

theorem allEscapeFree_flatMap {α : Type} {as : List α} {spans : α → List Span}
    (h : ∀ a ∈ as, AllEscapeFree (spans a)) : AllEscapeFree (as.flatMap spans) := by
  intro span hspan
  obtain ⟨a, ha, hspan⟩ := List.mem_flatMap.mp hspan
  exact h a ha span hspan

/-- No text that is shown of the diagnostic has an escape character. -/
structure Diagnostic.IsEscapeFree (d : Diagnostic) : Prop where
  message : EscapeFree d.message
  labels : ∀ l ∈ d.labels, EscapeFree l.message
  files : ∀ l ∈ d.labels, ∀ file ∈ l.location.file, EscapeFree file
  notes : ∀ note ∈ d.notes, EscapeFree note

namespace Terminal

variable {l : Label} {d : Diagnostic}

theorem allEscapeFree_labelSpans (hmessage : EscapeFree l.message)
    (hfile : ∀ file ∈ l.location.file, EscapeFree file) (severity : Severity) :
    AllEscapeFree (labelSpans severity l) := by
  have hdisplay := escapeFree_display hfile
  have hmarker : EscapeFree (if l.isPrimary then "-->" else "   ") := by
    split <;> decide
  simp +decide [AllEscapeFree, labelSpans, Span.text, hmessage, hdisplay, hmarker]

theorem allEscapeFree_noteSpans {note : String} (h : EscapeFree note) :
    AllEscapeFree (noteSpans note) := by
  simp +decide [AllEscapeFree, noteSpans, Span.text, h]

theorem allEscapeFree_blockSpans (h : d.IsEscapeFree) : AllEscapeFree (blockSpans d) := by
  have hseverity : EscapeFree d.severity.name := by cases d.severity <;> decide
  have hcode : EscapeFree d.rule.code := by cases d.rule <;> decide
  have hheading : AllEscapeFree [.styled (.ofSeverity d.severity) d.severity.name,
      .styled .emphasis ("[" ++ d.rule.code ++ "]"), .plain (": " ++ d.message ++ "\n")] := by
    simp +decide [AllEscapeFree, Span.text, hseverity, hcode, h.message]
  simp only [blockSpans, allEscapeFree_append]
  refine ⟨⟨⟨hheading, ?_⟩, ?_⟩, by simp +decide [AllEscapeFree]⟩
  · exact allEscapeFree_flatMap fun l hl =>
      allEscapeFree_labelSpans (h.labels l hl) (h.files l hl) d.severity
  · exact allEscapeFree_flatMap fun note hnote => allEscapeFree_noteSpans (h.notes note hnote)

theorem escapeFree_aborted {errors : Nat} {text : String} (h : aborted? errors = some text) :
    EscapeFree text := by
  unfold aborted? at h
  split at h <;> cases h <;> simp +decide

theorem escapeFree_warned {warnings : Nat} {text : String} (h : warned? warnings = some text) :
    EscapeFree text := by
  unfold warned? at h
  split at h <;> cases h <;> simp +decide

theorem allEscapeFree_summarySpans (severity : Severity) {text : String} (h : EscapeFree text) :
    AllEscapeFree (summarySpans severity text) := by
  have hseverity : EscapeFree severity.name := by cases severity <;> decide
  simp +decide [AllEscapeFree, summarySpans, Span.text, hseverity, h]

theorem allEscapeFree_totalSpans (errors warnings : Nat) :
    AllEscapeFree (totalSpans errors warnings) := by
  unfold totalSpans
  split
  · rename_i haborted hwarned
    apply allEscapeFree_summarySpans
    simp +decide [escapeFree_aborted haborted, escapeFree_warned hwarned]
  · rename_i haborted _
    exact allEscapeFree_summarySpans _ (escapeFree_aborted haborted)
  · rename_i hwarned
    exact allEscapeFree_summarySpans _ (escapeFree_warned hwarned)
  · simp [AllEscapeFree]

end Terminal

theorem EmitStep.allEscapeFree_spans {s : EmitStep} (h : ∀ d ∈ s.diagnostics, d.IsEscapeFree) :
    AllEscapeFree s.spans := by
  cases s with
  | emit d => exact Terminal.allEscapeFree_blockSpans (h d (List.mem_singleton_self d))
  | emitAll ds => exact allEscapeFree_flatMap fun d hd => Terminal.allEscapeFree_blockSpans (h d hd)
  | flush => simp [AllEscapeFree, spans]
  | summary errors warnings => exact Terminal.allEscapeFree_totalSpans errors warnings

end EscapeFree

section Display

/-- A line end before some spans moves behind them if it does so for each. -/
theorem line_end_paint_flatMap {α : Type} {spans : α → List Span} {line : α → String}
    (h : ∀ a, "\n" ++ paint false (spans a) = line a ++ "\n") (as : List α) :
    "\n" ++ paint false (as.flatMap spans) = String.join (as.map line) ++ "\n" := by
  induction as with
  | nil => rfl
  | cons a as ih =>
    calc
      "\n" ++ paint false ((a :: as).flatMap spans)
        = "\n" ++ paint false (spans a) ++ paint false (as.flatMap spans) := by
          rw [List.flatMap_cons, paint_append, String.append_assoc]
      _ = line a ++ ("\n" ++ paint false (as.flatMap spans)) := by
          rw [h, String.append_assoc]
      _ = String.join ((a :: as).map line) ++ "\n" := by
          rw [ih, List.map_cons, String.join_cons, String.append_assoc]

theorem line_end_labelSpans (severity : Severity) (l : Label) :
    "\n" ++ paint false (Terminal.labelSpans severity l) = l.line ++ "\n" := by
  have hstart : "\n  " = "\n" ++ "  " := by decide
  simp only [Terminal.labelSpans, paint_cons, paint_nil, Span.paint, Label.line, hstart,
    String.append_assoc]
  rfl

theorem line_end_noteSpans (note : String) :
    "\n" ++ paint false (Terminal.noteSpans note) = Diagnostic.noteLine note ++ "\n" := by
  have hstart : "\n  = note: " = "\n" ++ "  = " ++ "note" ++ ": " := by decide
  simp only [Terminal.noteSpans, paint_cons, paint_nil, Span.paint, Diagnostic.noteLine, hstart,
    String.append_assoc]
  rfl

/-- What both the plain block and the display show behind the severity and the bracket. -/
def Diagnostic.shown (d : Diagnostic) : String :=
  d.rule.code ++ "]: " ++ d.message ++ String.join (d.labels.map Label.line) ++
    String.join (d.notes.map noteLine)

theorem Diagnostic.display_eq (d : Diagnostic) :
    d.display = d.severity.name ++ " [" ++ d.shown := by
  simp only [display, shown, String.append_assoc]

theorem Diagnostic.block_eq (d : Diagnostic) :
    Terminal.block false d = d.severity.name ++ "[" ++ d.shown ++ "\n\n" := by
  -- The block ends its lines where the display starts new ones.
  have hlabels := line_end_paint_flatMap (line_end_labelSpans d.severity) d.labels
  have hnotes := line_end_paint_flatMap line_end_noteSpans d.notes
  have hbracket : "]: " = "]" ++ ": " := by decide
  have hend : "\n\n" = "\n" ++ "\n" := by decide
  calc
    Terminal.block false d
      = d.severity.name ++ "[" ++ d.rule.code ++ "]" ++ ": " ++ d.message ++
          ("\n" ++ paint false (d.labels.flatMap (Terminal.labelSpans d.severity))) ++
          paint false (d.notes.flatMap Terminal.noteSpans) ++ "\n" := by
        simp only [Terminal.block, Terminal.blockSpans, paint_append, paint_cons, paint_nil,
          Span.paint, Bool.false_eq_true, if_false, String.append_empty, String.append_assoc]
    _ = d.severity.name ++ "[" ++ d.rule.code ++ "]" ++ ": " ++ d.message ++
          String.join (d.labels.map Label.line) ++
          ("\n" ++ paint false (d.notes.flatMap Terminal.noteSpans)) ++ "\n" := by
        simp only [hlabels, String.append_assoc]
    _ = d.severity.name ++ "[" ++ d.shown ++ "\n\n" := by
        simp only [hnotes, shown, hbracket, hend, String.append_assoc]

end Display

/-- The renderings as text agree. If nothing that is shown has an escape character, then a run with
colours, once its styles are deleted, is the run without colours. And the plain block of any
diagnostic at all is its display without the space before the bracket and with an empty line
behind. -/
theorem text_renderings_agree :
    (∀ steps : List EmitStep, (∀ s ∈ steps, ∀ d ∈ s.diagnostics, d.IsEscapeFree) →
        withoutStyles ((Emitter.terminal true).output steps) =
          (Emitter.terminal false).output steps) ∧
      ∀ d : Diagnostic, ∃ rest, d.display = d.severity.name ++ " [" ++ rest ∧
        Terminal.block false d = d.severity.name ++ "[" ++ rest ++ "\n\n" := by
  refine ⟨fun steps h => ?_, fun d => ⟨d.shown, d.display_eq, d.block_eq⟩⟩
  rw [Emitter.output_terminal, Emitter.output_terminal]
  apply withoutStyles_paint
  exact allEscapeFree_flatMap fun s hs => EmitStep.allEscapeFree_spans (h s hs)

/-- A report whose texts look like the ends of sequences. -/
def lampReport : List EmitStep :=
  [.emit (Diagnostic.ofRule .indexTooLarge
      |>.withMessage "[0m is large"
      |>.withLabel { file := some "Lamp.cs", line := 3, column := 7 } "[1;31m"
      |>.withNote "m"),
    .summary 0 1]

/-- Only whole sequences are deleted. -/
theorem lamp_report_without_styles :
    (Emitter.terminal true).output lampReport ≠ (Emitter.terminal false).output lampReport ∧
      withoutStyles ((Emitter.terminal true).output lampReport) =
        "warning[W1001]: [0m is large\n  --> Lamp.cs:3:7: [1;31m\n  = note: m\n\n" ++
          "warning: 1 warning emitted\n" := by
  have hfree : ∀ s ∈ lampReport, ∀ d ∈ s.diagnostics, d.IsEscapeFree := by
    simp only [lampReport, List.forall_mem_cons, EmitStep.diagnostics, List.not_mem_nil,
      false_implies, implies_true, and_true]
    exact ⟨by decide, by decide, by decide, by decide⟩
  constructor
  · decide +kernel
  · rw [text_renderings_agree.1 lampReport hfree]
    decide +kernel

end LayoutContract
