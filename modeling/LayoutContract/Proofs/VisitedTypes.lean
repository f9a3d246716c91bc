import LayoutContract.Proofs.CheckSteps

/-!
How the visited types grow. A type is put in front of the visited types when the check comes to it
and finds it missing there, and it is never taken away. So the types that are left become fewer
with each type that the check comes to, and the visited types at the end of a check are a record
of all these arrivals, with no type twice.
-/
namespace LayoutContract

namespace Context

variable {ι : Type}

/-- What becomes of the visited types while a check goes on. -/
structure GrowsTo (before after : Context ι) : Prop where
  visited : before.visited <:+ after.visited
  nodup : before.visited.Nodup → after.visited.Nodup

theorem GrowsTo.refl (context : Context ι) : context.GrowsTo context :=
  ⟨List.suffix_rfl, id⟩

theorem GrowsTo.trans {first second third : Context ι} (h : first.GrowsTo second)
    (h' : second.GrowsTo third) : first.GrowsTo third :=
  ⟨h.visited.trans h'.visited, h'.nodup ∘ h.nodup⟩

theorem GrowsTo.report {before after : Context ι} (h : before.GrowsTo after) (d : Diagnostic) :
    before.GrowsTo (after.report d) :=
  ⟨h.visited, h.nodup⟩

theorem growsTo_visit {context : Context ι} {i : ι} (h : i ∉ context.visited) :
    context.GrowsTo (context.visit i) :=
  ⟨List.suffix_cons i context.visited, fun hnodup => List.nodup_cons.mpr ⟨h, hnodup⟩⟩

theorem growsTo_of_leadsTo {before after : Context ι} (h : before.LeadsTo after) :
    before.GrowsTo after := by
  induction h with
  | refl => exact .refl before
  | tail _ step ih =>
    cases step with
    | visit hi => exact ih.trans (growsTo_visit hi)
    | report d => exact ih.report d

variable [DecidableEq ι] {context : Context ι} {i : ι}

theorem firstVisit_of_visited (h : i ∈ context.visited) :
    context.firstVisit i = (false, context) := by
  rw [firstVisit, if_pos h]

theorem firstVisit_of_new (h : i ∉ context.visited) :
    context.firstVisit i = (true, context.visit i) := by
  rw [firstVisit, if_neg h]

end Context

namespace TypeGraph

variable {g : TypeGraph} {c : Config} {i : g.Handle} {context context' : Context g.Handle}

theorem unvisited_nil (g : TypeGraph) : g.unvisited [] = g.size := by
  simp [unvisited, handles]

/-- A check does not add to what is left. -/
theorem unvisited_le_of_growsTo (h : context.GrowsTo context') :
    g.unvisited context'.visited ≤ g.unvisited context.visited := by
  apply List.countP_mono_left
  intro j _ hj
  simp only [decide_eq_true_eq] at hj ⊢
  exact fun hmem => hj (h.visited.subset hmem)

/-- Each arrival at a type leaves fewer types to come to. -/
theorem unvisited_firstVisit_lt (h : (context.firstVisit i).1 = true) :
    g.unvisited (context.firstVisit i).2.visited < g.unvisited context.visited := by
  by_cases hi : i ∈ context.visited
  · simp [Context.firstVisit_of_visited hi] at h
  · rw [Context.firstVisit_of_new hi]
    exact g.unvisited_cons_lt hi

theorem growsTo_walk (caller : Location) (context : Context g.Handle)
    (pending : List g.Handle) : context.GrowsTo (g.walk c caller context pending) :=
  Context.growsTo_of_leadsTo (leadsTo_walk caller context pending)

theorem growsTo_checkMember (owner : g.Handle) (p : MemberPass g.Handle) (m : Member g.Handle) :
    p.context.GrowsTo (g.checkMember c owner p m).context :=
  Context.growsTo_of_leadsTo (leadsTo_checkMember owner p m)

/-- A list of pending types is worked off one by one. -/
theorem walk_append (caller : Location) (context : Context g.Handle)
    (first second : List g.Handle) :
    g.walk c caller context (first ++ second) =
      g.walk c caller (g.walk c caller context first) second := by
  fun_induction walk g c caller context first with
  | case1 context => rfl
  | case2 context i pending hi ih => rw [List.cons_append, walk, if_pos hi, ih]
  | case3 context i pending hi ih =>
    rw [List.cons_append, walk, if_neg hi, ← List.append_assoc, ih]

section Arrival

variable (g c)

/-- What becomes of a check when it comes to a type, behind a member or as the root. -/
def comeTo (nested : Bool) (caller : Location) (context : Context g.Handle) (i : g.Handle) :
    Context g.Handle :=
  if nested then g.walk c caller context [i]
  else
    match g.subject c i context.visited with
    | (visited, some j) => g.checkType c caller j { context with visited }
    | (visited, none) => { context with visited }

variable {g c} {nested : Bool} (caller : Location)

theorem checkRoot_eq_comeTo (root : g.Handle) :
    g.checkRoot c root = g.comeTo c false (g.typeAt root).location {} root := rfl

theorem walk_eq_foldl_comeTo (context : Context g.Handle) (pending : List g.Handle) :
    g.walk c caller context pending = pending.foldl (g.comeTo c true caller) context := by
  induction pending generalizing context with
  | nil => rw [walk, List.foldl_nil]
  | cons i pending ih =>
    rw [List.foldl_cons, ← ih]
    exact walk_append caller context [i] pending

/-- Nothing happens at a type that was visited before. -/
theorem comeTo_of_visited (h : i ∈ context.visited) :
    g.comeTo c nested caller context i = context := by
  cases nested with
  | true =>
    change g.walk c caller context [i] = context
    rw [walk, if_pos h, walk]
  | false =>
    unfold comeTo
    rw [subject, dif_pos h]
    rfl

variable (h : i ∉ context.visited)
include h

/-- Behind a member, a new type is entered and hands over to its parts. -/
theorem comeTo_nested_of_new :
    g.comeTo c true caller context i =
      (g.parts c i).foldl (g.comeTo c true caller) (g.enter c caller i context) := by
  change g.walk c caller context [i] = _
  rw [walk, if_neg h, List.append_nil, walk_eq_foldl_comeTo]

theorem comeTo_of_exempt (hrole : g.role c i = .exempt) :
    g.comeTo c nested caller context i = context.visit i := by
  cases nested with
  | true => simp [comeTo_nested_of_new caller h, parts, enter, offence?, hrole]
  | false =>
    unfold comeTo
    rw [subject, dif_neg h, hrole]
    rfl

/-- An array hands over to its element. -/
theorem comeTo_of_array {element : g.Handle} (hrole : g.role c i = .array element) :
    g.comeTo c nested caller context i =
      g.comeTo c nested caller (context.visit i) element := by
  cases nested with
  | true => simp [comeTo_nested_of_new caller h, parts, enter, offence?, hrole]
  | false =>
    unfold comeTo
    rw [subject, dif_neg h, hrole]
    rfl

/-- Behind a member, a wrapper hands over to its arguments. -/
theorem comeTo_nested_of_wrapper {arguments : List g.Handle}
    (hrole : g.role c i = .wrapper arguments) :
    g.comeTo c true caller context i =
      arguments.foldl (g.comeTo c true caller) (context.visit i) := by
  simp [comeTo_nested_of_new caller h, parts, enter, offence?, hrole]

theorem comeTo_nested_of_contract (hrole : g.role c i = .contract) :
    g.comeTo c true caller context i = g.enter c caller i context := by
  simp [comeTo_nested_of_new caller h, parts, hrole]

/-- A root that is a wrapper is checked like any other. -/
theorem comeTo_root (hexempt : g.role c i ≠ .exempt)
    (harray : ∀ element, g.role c i ≠ .array element) :
    g.comeTo c false caller context i = g.checkType c caller i (context.visit i) := by
  unfold comeTo
  rw [subject, dif_neg h]
  cases hrole : g.role c i with
  | exempt => exact absurd hrole hexempt
  | array element => exact absurd hrole (harray element)
  | wrapper _ | contract => rfl

end Arrival

/-- Whatever happens at a new type happens after the arrival there. -/
theorem leadsTo_comeTo_of_new (nested : Bool) (caller : Location) (h : i ∉ context.visited) :
    (context.visit i).LeadsTo (g.comeTo c nested caller context i) := by
  cases nested with
  | true =>
    change (context.visit i).LeadsTo (g.walk c caller context [i])
    rw [walk, if_neg h]
    exact (leadsTo_enter caller i context).trans (leadsTo_walk caller _ _)
  | false =>
    have hsubject := leadsTo_subject_of_new (c := c) h context.findings
    unfold comeTo
    cases hfound : g.subject c i context.visited with
    | mk visited found =>
      rw [hfound] at hsubject
      cases found with
      | none => exact hsubject
      | some j => exact hsubject.trans (leadsTo_checkType caller j _)

theorem leadsTo_comeTo (nested : Bool) (caller : Location) (context : Context g.Handle)
    (i : g.Handle) : context.LeadsTo (g.comeTo c nested caller context i) := by
  by_cases hi : i ∈ context.visited
  · rw [comeTo_of_visited caller hi]
  · exact (Context.leadsTo_visit hi).trans (leadsTo_comeTo_of_new nested caller hi)

theorem growsTo_comeTo_of_new (nested : Bool) (caller : Location) (h : i ∉ context.visited) :
    (context.visit i).GrowsTo (g.comeTo c nested caller context i) :=
  Context.growsTo_of_leadsTo (leadsTo_comeTo_of_new nested caller h)

theorem growsTo_comeTo (nested : Bool) (caller : Location) (context : Context g.Handle)
    (i : g.Handle) : context.GrowsTo (g.comeTo c nested caller context i) :=
  Context.growsTo_of_leadsTo (leadsTo_comeTo nested caller context i)

end TypeGraph
end LayoutContract
