import LayoutContract.Check.Root

/-!
The check of a root against a host. A host answers questions about types by their ids and has no
answer for an id that is none of its own. Nothing else is known about the types: every type that
the check looks at is asked for, be it the owner of a member, an interface, a parameter of a
constructor or a type that is only named in a finding. The check calls itself for the types that
it comes to, one call inside the other, and it is stopped when the calls are nested too deeply.
-/
namespace LayoutContract

/-- What stops a check before its end. -/
inductive Stop (ι : Type) where
  /-- The host has no such type. -/
  | foreign (i : ι)
  /-- There is no room for another nested call. -/
  | tooDeep
  deriving DecidableEq

structure TypeSource (ι : Type) where
  find? : ι → Option (TypeDef ι)

namespace TypeSource

variable {ι : Type} (s : TypeSource ι)

/-- The answer of the host. Every question about a type is asked by this one. -/
def get (i : ι) : Except (Stop ι) (TypeDef ι) :=
  match s.find? i with
  | some t => .ok t
  | none => .error (.foreign i)

def site (i : ι) : Except (Stop ι) TypeSite := do
  let t ← s.get i
  return ⟨t.name, t.location⟩

def memberSite (owner : ι) (m : Member ι) : Except (Stop ι) MemberSite := do
  let t ← s.get owner
  return ⟨t.name, m.name, m.location⟩

def formattableRoots : List ι → Except (Stop ι) (List ι)
  | [] => return []
  | i :: rest => do
    let t ← s.get i
    let roots ← formattableRoots rest
    return if t.isFormattableRoot then i :: roots else roots

section Shape

def isCollectionInterface (i : ι) : Except (Stop ι) Bool := do
  match (← s.get i).generic with
  | some generic => return generic.family == GenericShape.collectionFamily
  | none => return false

/-- Interfaces are asked for one after the other until one of them settles the shape. -/
def shape (i : ι) : Except (Stop ι) GenericShape := do
  let t ← s.get i
  match t.generic with
  | none => return .unrecognized
  | some generic =>
    match GenericShape.families.lookup generic.family with
    | some shape =>
      return if shape.admitsArity generic.arguments.length then shape else .unrecognized
    | none =>
      if ← t.interfaces.anyM s.isCollectionInterface then return .collection
      else return .unrecognized

def wrapped? (i : ι) : Except (Stop ι) (Option (List ι)) := do
  match (← s.get i).generic with
  | some generic =>
    if (← s.shape i).isWrapper then return some generic.arguments else return none
  | none => return none

end Shape

section Layout

/-- The parameters of a constructor are compared one by one. -/
def accepts (expected parameters : List ι) : Except (Stop ι) Bool :=
  if parameters.length = expected.length then
    (parameters.zip expected).allM fun pair => do
      let parameter ← s.get pair.1
      let member ← s.get pair.2
      return parameter.qualifiedName == member.qualifiedName
  else return false

def layoutVerdict (ledger : IndexLedger ι) (i : ι) : Except (Stop ι) (LayoutVerdict ι) :=
  match IndexLedger.firstGap (ledger.sorted.map (·.index)) with
  | some index => return .gap index
  | none =>
    let expected := ledger.sorted.map (·.memberType)
    if expected.isEmpty then return .valid
    else do
      let t ← s.get i
      if ← t.constructors.anyM (s.accepts expected) then return .valid
      else return .noMatchingConstructor expected

def layoutFinding? (caller : Location) (i : ι) (ledger : IndexLedger ι) :
    Except (Stop ι) (Option Diagnostic) := do
  match ← s.layoutVerdict ledger i with
  | .valid => return none
  | .gap index => return some (.indicesMustBeSequential caller (← s.site i) index)
  | .noMatchingConstructor expected =>
    let names ← expected.mapM fun j => (·.name) <$> s.get j
    return some (.layoutNeedsMatchingConstructor caller (← s.site i) names)

def checkLayout (caller : Location) (i : ι) (p : MemberPass ι) :
    Except (Stop ι) (Context ι) := do
  if (← s.get i).isValue && p.context.isClean then
    match ← s.layoutFinding? caller i p.ledger with
    | some d => return p.context.report d
    | none => return p.context
  else return p.context

end Layout

section Members

variable (c : Config)

def formFinding? (owner : ι) (m : Member ι) : Except (Stop ι) (Option Diagnostic) := do
  if (← s.get owner).isValue then return none
  else
    match m.form with
    | .field => return some (.fieldNotAllowedOnReferenceType (← s.memberSite owner m))
    | .property _ _ =>
      if m.overridable then return none
      else return some (.memberMustBeOverridable (← s.memberSite owner m))

def accessFinding? (owner : ι) (m : Member ι) : Except (Stop ι) (Option Diagnostic) := do
  if (← s.get owner).isValue || m.form.isReadableAndWritable then return none
  else return some (.memberNeedsPublicAccessors (← s.memberSite owner m))

def thresholdFinding? (owner : ι) (m : Member ι) (index : Int) :
    Except (Stop ι) (Option Diagnostic) := do
  if c.warningThreshold ≤ index then
    return some (.indexTooLarge (← s.memberSite owner m) index)
  else return none

-- The check of the type of a member is handed in, being the one that calls these.
variable (descend : Location → Context ι → ι → Except (Stop ι) (Context ι))

def checkClaimed (owner : ι) (m : Member ι) (index : Int) (context : Context ι) :
    Except (Stop ι) (Context ι) := do
  let context :=
    match ← s.thresholdFinding? c owner m index with
    | some d => context.report d
    | none => context
  match ← s.accessFinding? owner m with
  | some d => return context.report d
  | none => descend m.location context m.type

def checkIndexed (owner : ι) (m : Member ι) (index : Int) (p : MemberPass ι) :
    Except (Stop ι) (MemberPass ι) :=
  match p.ledger.record ⟨index, owner, m.type⟩ with
  | (true, ledger) => do
    let context ← s.checkClaimed c descend owner m index p.context
    return { context, ledger }
  | (false, _) => do return p.report (.duplicateIndex (← s.memberSite owner m) index)

def checkMember (owner : ι) (p : MemberPass ι) (m : Member ι) :
    Except (Stop ι) (MemberPass ι) :=
  if !m.isInContract then return p
  else do
    match ← s.formFinding? owner m with
    | some d => return p.report d
    | none =>
      match m.index with
      | .missing | .empty => return p.report (.memberNeedsIndex (← s.memberSite owner m))
      | .null => return p
      | .value index => s.checkIndexed c descend owner m index p

def checkMembers (owner : ι) (context : Context ι) : Except (Stop ι) (MemberPass ι) := do
  let t ← s.get owner
  t.membersInCheckOrder.foldlM (s.checkMember c descend owner) ⟨context, .empty⟩

/-- Checks a class, an interface or a struct. Behind a member, wrappers are looked through and the
members of other types are left alone. -/
def verifyComposite (nested : Bool) (caller : Location) (context : Context ι) (i : ι) :
    Except (Stop ι) (Context ι) := do
  match ← if nested then s.wrapped? i else pure none with
  | some arguments => arguments.foldlM (descend caller) context
  | none =>
    match (← s.get i).fault? with
    | some fault => return context.report (fault.finding caller (← s.site i))
    | none =>
      if nested then return context
      else
        let pass ← s.checkMembers c descend i context
        s.checkLayout caller i pass

end Members

section Calls

variable [DecidableEq ι] (c : Config)

/-- Checks a type that is come to, behind a member (`nested`) or as the root, with room for
`depth` calls inside each other. -/
def verifyType : (depth : Nat) → (nested : Bool) → Location → Context ι → ι →
    Except (Stop ι) (Context ι)
  | 0, _, _, _, _ => .error .tooDeep
  | depth + 1, nested, caller, context, i =>
    match context.firstVisit i with
    | (false, context) => return context
    | (true, context) => do
      let t ← s.get i
      if c.isTerminal t.name then return context
      else
        match t.form with
        | .enumType | .typeParameter => return context
        | .arrayType element => verifyType depth nested caller context element
        | .classType | .interfaceType | .structType =>
          s.verifyComposite c (verifyType depth true) nested caller context i

/-- The findings are shown at the root itself, where they are not about one of its members. -/
def checkRoot (depth : Nat) (root : ι) : Except (Stop ι) (Context ι) := do
  s.verifyType c depth false (← s.get root).location {} root

def analyze (depth : Nat) (root : ι) : Except (Stop ι) (List Diagnostic) := do
  return (← s.checkRoot c depth root).findings.toList

end Calls
end TypeSource
end LayoutContract
