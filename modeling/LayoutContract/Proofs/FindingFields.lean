import LayoutContract.Check.Walk

/-!
The parts of the diagnostics for types and layouts that hold whatever their words: which rule they
name, what that rule is about, their arguments and the place they are shown at first.
-/
namespace LayoutContract

/-- What a rule is about, as the first digit of its code tells. -/
inductive RuleSubject where
  | type
  | member
  | layout
  deriving DecidableEq

def Rule.subject : Rule → RuleSubject
  | typeMustBeAnnotated | typeNeedsDefaultConstructor => .type
  | indicesMustBeSequential | layoutNeedsMatchingConstructor => .layout
  | memberNeedsIndex | duplicateIndex | memberNeedsPublicAccessors | memberMustBeOverridable
  | fieldNotAllowedOnReferenceType | indexTooLarge => .member

theorem Rule.subject_eq_type_iff (rule : Rule) :
    rule.subject = .type ↔
      rule = .typeMustBeAnnotated ∨ rule = .typeNeedsDefaultConstructor := by
  cases rule <;> decide

theorem Rule.subject_eq_layout_iff (rule : Rule) :
    rule.subject = .layout ↔
      rule = .indicesMustBeSequential ∨ rule = .layoutNeedsMatchingConstructor := by
  cases rule <;> decide

namespace Diagnostic

variable (rule : Rule) (caller : Location) (t : TypeSite) (message : String)

@[simp] theorem rule_aboutType : (aboutType rule caller t message).rule = rule := by
  unfold aboutType
  split <;> rfl

@[simp] theorem arguments_aboutType :
    (aboutType rule caller t message).arguments = [.type t.name] := by
  unfold aboutType
  split <;> rfl

/-- The label at the declaration, where there is one, comes second. -/
@[simp] theorem primaryLocation?_aboutType :
    (aboutType rule caller t message).primaryLocation? = some caller := by
  unfold aboutType
  split <;> rfl

@[simp] theorem rule_indicesMustBeSequential (index : Int) :
    (indicesMustBeSequential caller t index).rule = .indicesMustBeSequential :=
  rule_aboutType _ _ _ _

@[simp] theorem rule_layoutNeedsMatchingConstructor (expected : List String) :
    (layoutNeedsMatchingConstructor caller t expected).rule = .layoutNeedsMatchingConstructor :=
  rule_aboutType _ _ _ _

@[simp] theorem primaryLocation?_indicesMustBeSequential (index : Int) :
    (indicesMustBeSequential caller t index).primaryLocation? = some caller :=
  primaryLocation?_aboutType _ _ _ _

@[simp] theorem primaryLocation?_layoutNeedsMatchingConstructor (expected : List String) :
    (layoutNeedsMatchingConstructor caller t expected).primaryLocation? = some caller :=
  primaryLocation?_aboutType _ _ _ _

/-- Reports that the type of this name breaks a rule for types. -/
def isTypeFinding (name : String) (d : Diagnostic) : Bool :=
  (d.rule = .typeMustBeAnnotated ∨ d.rule = .typeNeedsDefaultConstructor) ∧
    d.arguments = [.type name]

theorem isTypeFinding_iff {name : String} {d : Diagnostic} :
    d.isTypeFinding name = true ↔ d.rule.subject = .type ∧ d.arguments = [.type name] := by
  rw [Rule.subject_eq_type_iff]
  simp [isTypeFinding]

theorem isTypeFinding_of_subject_ne {name : String} {d : Diagnostic}
    (h : d.rule.subject ≠ .type) : d.isTypeFinding name = false := by
  rw [Bool.eq_false_iff, ne_eq, isTypeFinding_iff]
  exact fun hd => h hd.1

end Diagnostic

namespace TypeFault

/-- The rule that a fault breaks. -/
def rule : TypeFault → Rule
  | unannotated => .typeMustBeAnnotated
  | noDefaultConstructor => .typeNeedsDefaultConstructor

variable (fault : TypeFault) (caller : Location) (t : TypeSite)

@[simp] theorem subject_rule : fault.rule.subject = .type := by
  cases fault <;> rfl

theorem rule_injective {fault fault' : TypeFault} (h : fault.rule = fault'.rule) :
    fault = fault' := by
  cases fault <;> cases fault' <;> simp_all [rule]

@[simp] theorem rule_finding : (fault.finding caller t).rule = fault.rule := by
  cases fault <;> exact Diagnostic.rule_aboutType _ _ _ _

@[simp] theorem arguments_finding : (fault.finding caller t).arguments = [.type t.name] := by
  cases fault <;> exact Diagnostic.arguments_aboutType _ _ _ _

@[simp] theorem primaryLocation?_finding :
    (fault.finding caller t).primaryLocation? = some caller := by
  cases fault <;> exact Diagnostic.primaryLocation?_aboutType _ _ _ _

theorem isTypeFinding_finding (name : String) :
    (fault.finding caller t).isTypeFinding name = decide (t.name = name) := by
  rw [Bool.eq_iff_iff, Diagnostic.isTypeFinding_iff, decide_eq_true_iff]
  simp

end TypeFault
end LayoutContract
