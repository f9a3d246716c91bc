import LayoutContract.Diagnostic

/-!
One diagnostic for each rule, always with the same labels and arguments. What breaks a rule for
types is shown at the place that led to the type, and at the declaration of the type where that is
known and a different place; what breaks a rule for members is shown at the member.
-/
namespace LayoutContract

/-- A type that a diagnostic is about. -/
structure TypeSite where
  name : String
  declaredAt : Location

/-- A member that a diagnostic is about, and the name of its type. -/
structure MemberSite where
  owner : String
  name : String
  location : Location

namespace MemberSite

def quotedName (m : MemberSite) : String := "`" ++ m.owner ++ "." ++ m.name ++ "`"

end MemberSite

namespace Diagnostic

def aboutType (rule : Rule) (caller : Location) (t : TypeSite) (message : String) :
    Diagnostic :=
  let d := (ofRule rule).withMessage message |>.withLabel caller rule.title
  let d :=
    if t.declaredAt.isKnown ∧ t.declaredAt ≠ caller then
      d.withSecondaryLabel t.declaredAt ("`" ++ t.name ++ "` declared here")
    else d
  d.withArgument (.type t.name)

def aboutMember (rule : Rule) (m : MemberSite) (message : String) : Diagnostic :=
  (ofRule rule).withMessage message |>.withLabel m.location rule.title
    |>.withArgument (.type m.owner) |>.withArgument (.member m.name)

def typeMustBeAnnotated (caller : Location) (t : TypeSite) : Diagnostic :=
  aboutType .typeMustBeAnnotated caller t
    ("type `" ++ t.name ++ "` must be annotated as formattable")

def typeNeedsDefaultConstructor (caller : Location) (t : TypeSite) : Diagnostic :=
  aboutType .typeNeedsDefaultConstructor caller t
    ("type `" ++ t.name ++ "` needs a parameterless constructor")

def memberNeedsIndex (m : MemberSite) : Diagnostic :=
  aboutMember .memberNeedsIndex m
    ("public member " ++ m.quotedName ++ " needs an index or ignore annotation")

def duplicateIndex (m : MemberSite) (index : Int) : Diagnostic :=
  (aboutMember .duplicateIndex m
    ("index " ++ toString index ++ " of " ++ m.quotedName ++ " is already used by another member"))
    |>.withArgument (.index index)

def memberNeedsPublicAccessors (m : MemberSite) : Diagnostic :=
  aboutMember .memberNeedsPublicAccessors m
    ("property " ++ m.quotedName ++ " needs both a get and a set accessor, neither private")

def memberMustBeOverridable (m : MemberSite) : Diagnostic :=
  aboutMember .memberMustBeOverridable m ("property " ++ m.quotedName ++ " must be virtual")

def fieldNotAllowedOnReferenceType (m : MemberSite) : Diagnostic :=
  (aboutMember .fieldNotAllowedOnReferenceType m
    ("public field " ++ m.quotedName ++ " is not supported on a reference type"))
    |>.withNote "use a virtual property, or declare the type as a struct"

/-- The arguments start with the index and leave out the type. -/
def indexTooLarge (m : MemberSite) (index : Int) : Diagnostic :=
  (ofRule .indexTooLarge).withMessage
    ("index " ++ toString index ++ " of " ++ m.quotedName ++
      " is large; the layout grows with the highest index")
    |>.withLabel m.location Rule.indexTooLarge.title
    |>.withArgument (.index index) |>.withArgument (.member m.name)

def indicesMustBeSequential (caller : Location) (t : TypeSite) (index : Int) : Diagnostic :=
  (aboutType .indicesMustBeSequential caller t
    ("indices of struct `" ++ t.name ++ "` must start at 0 and be sequential; found " ++
      toString index))
    |>.withArgument (.index index)

/-- The expected names are those of the types of the indexed members, in the order of the
indices. -/
def layoutNeedsMatchingConstructor (caller : Location) (t : TypeSite) (expected : List String) :
    Diagnostic :=
  (aboutType .layoutNeedsMatchingConstructor caller t
    ("struct `" ++ t.name ++ "` needs a constructor taking every indexed member in index order"))
    |>.withNote ("expected a constructor `(" ++ ", ".intercalate expected ++ ")`")

end Diagnostic
end LayoutContract
