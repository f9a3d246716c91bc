import LayoutContract.Check.Root
import Mathlib.Logic.Relation

/-!
The steps that a check consists of: it visits a type that was not visited before, or it reports a
finding. What each such step keeps is kept by a walk, by the pass over the members, by the
judgement of the layout and so by the check of a root.
-/
namespace LayoutContract

namespace Context

variable {ι : Type} {context : Context ι} {i : ι}

inductive Step : Context ι → Context ι → Prop
  | visit {context : Context ι} {i : ι} (h : i ∉ context.visited) : Step context (context.visit i)
  | report (context : Context ι) (d : Diagnostic) : Step context (context.report d)

/-- One context comes from another by steps of a check. -/
abbrev LeadsTo : Context ι → Context ι → Prop := Relation.ReflTransGen Step

theorem leadsTo_visit (h : i ∉ context.visited) : context.LeadsTo (context.visit i) :=
  .single (.visit h)

theorem leadsTo_report (context : Context ι) (d : Diagnostic) :
    context.LeadsTo (context.report d) :=
  .single (.report context d)

end Context

namespace TypeGraph

open Context (leadsTo_visit leadsTo_report)

variable {g : TypeGraph} {c : Config} {i : g.Handle}

/-- A type is visited before anything is reported about it. -/
theorem leadsTo_enter (caller : Location) (i : g.Handle) (context : Context g.Handle) :
    (context.visit i).LeadsTo (g.enter c caller i context) := by
  unfold enter
  cases g.offence? c i with
  | some fault => exact leadsTo_report _ _
  | none => exact .refl

theorem leadsTo_walk (caller : Location) (context : Context g.Handle)
    (pending : List g.Handle) : context.LeadsTo (g.walk c caller context pending) := by
  fun_induction walk g c caller context pending with
  | case1 context => exact .refl
  | case2 context i pending hi ih => exact ih
  | case3 context i pending hi ih =>
    have hentered := (leadsTo_visit hi).trans (leadsTo_enter (c := c) caller i context)
    exact hentered.trans ih

theorem leadsTo_checkClaimed (owner : g.Handle) (m : Member g.Handle) (index : Int)
    (context : Context g.Handle) :
    context.LeadsTo (g.checkClaimed c owner m index context) := by
  unfold checkClaimed
  cases g.accessFinding? owner m with
  | some d =>
    cases g.thresholdFinding? c owner m index with
    | some warning => exact (leadsTo_report context warning).trans (leadsTo_report _ d)
    | none => exact leadsTo_report context d
  | none =>
    cases g.thresholdFinding? c owner m index with
    | some warning => exact (leadsTo_report context warning).trans (leadsTo_walk _ _ _)
    | none => exact leadsTo_walk _ _ _

theorem leadsTo_checkIndexed (owner : g.Handle) (m : Member g.Handle) (index : Int)
    (p : MemberPass g.Handle) :
    p.context.LeadsTo (g.checkIndexed c owner m index p).context := by
  unfold checkIndexed
  obtain ⟨free, ledger⟩ := p.ledger.record ⟨index, owner, m.type⟩
  cases free with
  | true => exact leadsTo_checkClaimed owner m index p.context
  | false => exact leadsTo_report _ _

theorem leadsTo_checkMember (owner : g.Handle) (p : MemberPass g.Handle) (m : Member g.Handle) :
    p.context.LeadsTo (g.checkMember c owner p m).context := by
  unfold checkMember
  cases m.isInContract with
  | false => exact .refl
  | true =>
    cases g.formFinding? owner m with
    | some d => exact leadsTo_report _ _
    | none =>
      cases m.index with
      | missing | empty => exact leadsTo_report _ _
      | null => exact .refl
      | value index => exact leadsTo_checkIndexed owner m index p

theorem leadsTo_foldl_checkMember (owner : g.Handle) (p : MemberPass g.Handle)
    (ms : List (Member g.Handle)) :
    p.context.LeadsTo (ms.foldl (g.checkMember c owner) p).context := by
  induction ms generalizing p with
  | nil => exact .refl
  | cons m ms ih => exact (leadsTo_checkMember owner p m).trans (ih _)

theorem leadsTo_checkLayout (caller : Location) (i : g.Handle) (p : MemberPass g.Handle) :
    p.context.LeadsTo (g.checkLayout caller i p) := by
  unfold checkLayout
  split
  · cases g.layoutFinding? caller i p.ledger with
    | some d => exact leadsTo_report _ _
    | none => exact .refl
  · exact .refl

theorem leadsTo_checkType (caller : Location) (i : g.Handle) (context : Context g.Handle) :
    context.LeadsTo (g.checkType c caller i context) := by
  unfold checkType
  cases (g.typeAt i).fault? with
  | some fault => exact leadsTo_report _ _
  | none =>
    exact (leadsTo_foldl_checkMember i ⟨context, .empty⟩ _).trans (leadsTo_checkLayout caller i _)

/-- From a new root to the type that it stands for, types are visited and nothing is reported. -/
theorem leadsTo_subject_of_new {visited : List g.Handle} (h : i ∉ visited)
    (findings : DiagnosticQueue) :
    (Context.mk (i :: visited) findings).LeadsTo ⟨(g.subject c i visited).1, findings⟩ := by
  fun_induction subject g c i visited with
  | case1 i visited hi => exact absurd hi h
  | case2 i visited hi hrole => exact .refl
  | case3 i visited hi element hrole ih =>
    by_cases helement : element ∈ i :: visited
    · rw [subject, dif_pos helement]
    · have hvisit : (Context.mk (i :: visited) findings).LeadsTo
          ⟨element :: i :: visited, findings⟩ := leadsTo_visit helement
      exact hvisit.trans (ih helement)
  | case4 | case5 => exact .refl

end TypeGraph
end LayoutContract
