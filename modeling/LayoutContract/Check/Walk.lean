import LayoutContract.Check.Context
import LayoutContract.Config
import LayoutContract.Diagnostic.Finding
import LayoutContract.GenericShape

/-!
The walk from the type of a member. Arrays and wrappers are looked through, in the order of their
parts; a type that is neither exempt nor looked through has to be annotated and, if it is a
reference type, constructible without arguments. Its own members are not looked at. The walk works
off a list of pending types, so a deep graph needs no deep recursion, and it ends because each
type is entered once.
-/
namespace LayoutContract

/-- How a walk deals with a type. -/
inductive Role (ι : Type) where
  | exempt
  | array (element : ι)
  | wrapper (arguments : List ι)
  /-- The type has to keep the contract itself. -/
  | contract

inductive TypeFault where
  | unannotated
  | noDefaultConstructor
  deriving DecidableEq

def TypeFault.finding : TypeFault → Location → TypeSite → Diagnostic
  | unannotated => .typeMustBeAnnotated
  | noDefaultConstructor => .typeNeedsDefaultConstructor

/-- What keeps a type from taking part in the format. The annotation comes first. -/
def TypeDef.fault? {ι : Type} (t : TypeDef ι) : Option TypeFault :=
  if !t.formattable then some .unannotated
  else if t.isValue || t.hasParameterlessConstructor then none
  else some .noDefaultConstructor

namespace TypeGraph

variable (g : TypeGraph)

def site (i : g.Handle) : TypeSite := ⟨(g.typeAt i).name, (g.typeAt i).location⟩

/-- A terminal name exempts a type whatever its form. -/
def role (c : Config) (i : g.Handle) : Role g.Handle :=
  if c.isTerminal (g.typeAt i).name then .exempt
  else
    match (g.typeAt i).form with
    | .enumType | .typeParameter => .exempt
    | .arrayType element => .array element
    | .classType | .interfaceType | .structType =>
      match g.wrapped? i with
      | some arguments => .wrapper arguments
      | none => .contract

/-- The types that are looked at in place of the given one. -/
def parts (c : Config) (i : g.Handle) : List g.Handle :=
  match g.role c i with
  | .array element => [element]
  | .wrapper arguments => arguments
  | .exempt | .contract => []

/-- The fault of a type that a member may not have. -/
def offence? (c : Config) (i : g.Handle) : Option TypeFault :=
  match g.role c i with
  | .contract => (g.typeAt i).fault?
  | _ => none

/-- How many types a walk has not come to yet. -/
def unvisited (visited : List g.Handle) : Nat := g.handles.countP (· ∉ visited)

theorem unvisited_cons_lt {visited : List g.Handle} {i : g.Handle} (h : i ∉ visited) :
    g.unvisited (i :: visited) < g.unvisited visited := by
  have mono (l : List g.Handle) : l.countP (· ∉ i :: visited) ≤ l.countP (· ∉ visited) :=
    List.countP_mono_left fun j _ hj => by simp_all
  obtain ⟨before, after, split⟩ := List.append_of_mem (List.mem_finRange i)
  have hb := mono before
  have ha := mono after
  unfold unvisited handles
  rw [split, List.countP_append, List.countP_append, List.countP_cons_of_neg (by simp),
    List.countP_cons_of_pos (by simpa using h)]
  omega

/-- What a type can still make pending. -/
def partsLeft (c : Config) (visited : List g.Handle) (i : g.Handle) : List g.Handle :=
  if i ∈ visited then [] else g.parts c i

theorem partsLeft_cons_sublist (c : Config) (visited : List g.Handle) (i j : g.Handle) :
    (g.partsLeft c (i :: visited) j).Sublist (g.partsLeft c visited j) := by
  unfold partsLeft
  by_cases hj : j ∈ visited <;> by_cases hij : j = i <;> simp [hj, hij]

theorem flatMap_partsLeft_cons_sublist (c : Config) (visited : List g.Handle) (i : g.Handle)
    (l : List g.Handle) :
    (l.flatMap (g.partsLeft c (i :: visited))).Sublist (l.flatMap (g.partsLeft c visited)) := by
  induction l with
  | nil => exact .slnil
  | cons j l ih =>
    rw [List.flatMap_cons, List.flatMap_cons]
    exact (g.partsLeft_cons_sublist c visited i j).append ih

/-- The steps that a walk can still take: one for each pending type, and one for each type that
can still be made pending. -/
def workload (c : Config) (visited pending : List g.Handle) : Nat :=
  (pending ++ g.handles.flatMap (g.partsLeft c visited)).length

theorem workload_parts_lt (c : Config) {visited : List g.Handle} {i : g.Handle}
    (pending : List g.Handle) (h : i ∉ visited) :
    g.workload c (i :: visited) (g.parts c i ++ pending) <
      g.workload c visited (i :: pending) := by
  obtain ⟨before, after, split⟩ := List.append_of_mem (List.mem_finRange i)
  have hb := (g.flatMap_partsLeft_cons_sublist c visited i before).length_le
  have ha := (g.flatMap_partsLeft_cons_sublist c visited i after).length_le
  have done : g.partsLeft c (i :: visited) i = [] := by simp [partsLeft]
  have left : g.partsLeft c visited i = g.parts c i := by simp [partsLeft, h]
  unfold workload handles
  simp only [split, List.flatMap_append, List.flatMap_cons, done, left, List.length_append,
    List.length_cons, List.length_nil]
  omega

/-- Comes to a type for the first time. -/
def enter (c : Config) (caller : Location) (i : g.Handle) (context : Context g.Handle) :
    Context g.Handle :=
  match g.offence? c i with
  | some fault => (context.visit i).report (fault.finding caller (g.site i))
  | none => context.visit i

theorem visited_enter (c : Config) (caller : Location) (i : g.Handle)
    (context : Context g.Handle) :
    (g.enter c caller i context).visited = i :: context.visited := by
  unfold enter
  split <;> rfl

/-- Works off the pending types; findings are shown at `caller`. -/
def walk (c : Config) (caller : Location) (context : Context g.Handle) :
    List g.Handle → Context g.Handle
  | [] => context
  | i :: pending =>
    if i ∈ context.visited then walk c caller context pending
    else walk c caller (g.enter c caller i context) (g.parts c i ++ pending)
termination_by pending => g.workload c context.visited pending
decreasing_by
  · simp [workload]
  · rw [visited_enter]
    exact g.workload_parts_lt c pending ‹_›

end TypeGraph
end LayoutContract
