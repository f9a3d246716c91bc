import LayoutContract.Check.Walk
import LayoutContract.IndexLedger

/-!
The check of a root. The root has to keep the contract itself, and so has each of its members:
properties before fields, each judged by the first rule that it breaks, with a walk from the type
of a member that breaks none. The layout of a struct is judged last, and only when nothing at all
has been found. A root that is an array stands for its innermost element, shown at its own place.
-/
namespace LayoutContract

/-- A pass over the members of one type. -/
structure MemberPass (ι : Type) where
  context : Context ι
  ledger : IndexLedger ι

def MemberPass.report {ι : Type} (p : MemberPass ι) (d : Diagnostic) : MemberPass ι :=
  { p with context := p.context.report d }

namespace TypeGraph

variable (g : TypeGraph) (c : Config)

def memberSite (owner : g.Handle) (m : Member g.Handle) : MemberSite :=
  ⟨(g.typeAt owner).name, m.name, m.location⟩

/-- A reference type has overridable properties and no fields. -/
def formFinding? (owner : g.Handle) (m : Member g.Handle) : Option Diagnostic :=
  if (g.typeAt owner).isValue then none
  else
    match m.form with
    | .field => some (.fieldNotAllowedOnReferenceType (g.memberSite owner m))
    | .property _ _ =>
      if m.overridable then none else some (.memberMustBeOverridable (g.memberSite owner m))

/-- The properties of a reference type can be read and written. -/
def accessFinding? (owner : g.Handle) (m : Member g.Handle) : Option Diagnostic :=
  if (g.typeAt owner).isValue || m.form.isReadableAndWritable then none
  else some (.memberNeedsPublicAccessors (g.memberSite owner m))

def thresholdFinding? (owner : g.Handle) (m : Member g.Handle) (index : Int) :
    Option Diagnostic :=
  if c.warningThreshold ≤ index then some (.indexTooLarge (g.memberSite owner m) index)
  else none

/-- A member whose index is claimed. A large index is no reason to stop. -/
def checkClaimed (owner : g.Handle) (m : Member g.Handle) (index : Int)
    (context : Context g.Handle) : Context g.Handle :=
  let context :=
    match g.thresholdFinding? c owner m index with
    | some d => context.report d
    | none => context
  match g.accessFinding? owner m with
  | some d => context.report d
  | none => g.walk c m.location context [m.type]

/-- A member whose index is about to be claimed. -/
def checkIndexed (owner : g.Handle) (m : Member g.Handle) (index : Int)
    (p : MemberPass g.Handle) : MemberPass g.Handle :=
  match p.ledger.record ⟨index, owner, m.type⟩ with
  | (true, ledger) => { context := g.checkClaimed c owner m index p.context, ledger }
  | (false, _) => p.report (.duplicateIndex (g.memberSite owner m) index)

/-- A null argument is left to the compiler, which rejects it. -/
def checkMember (owner : g.Handle) (p : MemberPass g.Handle) (m : Member g.Handle) :
    MemberPass g.Handle :=
  if !m.isInContract then p
  else
    match g.formFinding? owner m with
    | some d => p.report d
    | none =>
      match m.index with
      | .missing | .empty => p.report (.memberNeedsIndex (g.memberSite owner m))
      | .null => p
      | .value index => g.checkIndexed c owner m index p

def checkMembers (owner : g.Handle) (context : Context g.Handle) : MemberPass g.Handle :=
  (g.typeAt owner).membersInCheckOrder.foldl (g.checkMember c owner) ⟨context, .empty⟩

def layoutVerdict (ledger : IndexLedger g.Handle) (i : g.Handle) : LayoutVerdict g.Handle :=
  ledger.verdict (fun j => (g.typeAt j).qualifiedName) (g.typeAt i).constructors

/-- What is wrong with the layout that the members of a struct make up. -/
def layoutFinding? (caller : Location) (i : g.Handle) (ledger : IndexLedger g.Handle) :
    Option Diagnostic :=
  match g.layoutVerdict ledger i with
  | .valid => none
  | .gap index => some (.indicesMustBeSequential caller (g.site i) index)
  | .noMatchingConstructor expected =>
    some (.layoutNeedsMatchingConstructor caller (g.site i)
      (expected.map fun j => (g.typeAt j).name))

def checkLayout (caller : Location) (i : g.Handle) (p : MemberPass g.Handle) :
    Context g.Handle :=
  if (g.typeAt i).isValue && p.context.isClean then
    match g.layoutFinding? caller i p.ledger with
    | some d => p.context.report d
    | none => p.context
  else p.context

/-- Checks a type in full, with the findings about the type itself shown at `caller`. -/
def checkType (caller : Location) (i : g.Handle) (context : Context g.Handle) :
    Context g.Handle :=
  match (g.typeAt i).fault? with
  | some fault => context.report (fault.finding caller (g.site i))
  | none => g.checkLayout caller i (g.checkMembers c i context)

/-- The type that a root stands for, if any, and the types visited on the way to it. -/
def subject (i : g.Handle) (visited : List g.Handle) : List g.Handle × Option g.Handle :=
  if _h : i ∈ visited then (visited, none)
  else
    match g.role c i with
    | .exempt => (i :: visited, none)
    | .array element => subject element (i :: visited)
    | .wrapper _ | .contract => (i :: visited, some i)
termination_by g.unvisited visited
decreasing_by exact g.unvisited_cons_lt ‹_›

/-- Everything that is known at the end of the check of a root. -/
def checkRoot (root : g.Handle) : Context g.Handle :=
  match g.subject c root [] with
  | (visited, some i) => g.checkType c (g.typeAt root).location i { visited }
  | (visited, none) => { visited }

/-- The findings about a root in the order in which they are come upon. -/
def analyze (root : g.Handle) : List Diagnostic := (g.checkRoot c root).findings.toList

end TypeGraph
end LayoutContract
