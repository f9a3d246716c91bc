import LayoutContract.TypeGraph

/-!
Generic types that only wrap others. Such a type needs no annotation of its own; its arguments are
looked at in its place. What a type is follows from the family of its generic definition, from the
number of its arguments and, for families that are not known, from its interfaces.
-/
namespace LayoutContract

inductive GenericShape where
  | optional
  | list
  | map
  | tuple
  | pair
  /-- Any type that implements the generic collection interface. -/
  | collection
  | unrecognized
  deriving DecidableEq

namespace GenericShape

def isWrapper (s : GenericShape) : Bool := s != unrecognized

def name : GenericShape → String
  | optional => "optional"
  | list => "list"
  | map => "map"
  | tuple => "tuple"
  | pair => "pair"
  | collection => "collection"
  | unrecognized => "unrecognized"

/-- The families with a shape of their own. -/
def families : List (String × GenericShape) :=
  [("T?", optional),
    ("System.Nullable", optional),
    ("System.Collections.Generic.IList", list),
    ("System.Collections.Generic.IReadOnlyList", list),
    ("System.Collections.Generic.IDictionary", map),
    ("System.Collections.Generic.IReadOnlyDictionary", map),
    ("System.Linq.ILookup", map),
    ("ZeroFormatter.ILazyDictionary", map),
    ("ZeroFormatter.ILazyReadOnlyDictionary", map),
    ("ZeroFormatter.ILazyLookup", map),
    ("System.Collections.Generic.KeyValuePair", pair),
    ("System.Tuple", tuple),
    ("ZeroFormatter.KeyTuple", tuple)]

def collectionFamily : String := "System.Collections.Generic.ICollection"

/-- An optional value has one argument and a pair has two; other shapes take any number. -/
def admitsArity (s : GenericShape) (arity : Nat) : Bool :=
  match s with
  | optional => arity == 1
  | pair => arity == 2
  | _ => true

end GenericShape

namespace TypeGraph

variable (g : TypeGraph)

def isCollectionInterface (i : g.Handle) : Bool :=
  match (g.typeAt i).generic with
  | some generic => generic.family == GenericShape.collectionFamily
  | none => false

/-- A type that is no instance of a generic one has no shape. -/
def shape (i : g.Handle) : GenericShape :=
  match (g.typeAt i).generic with
  | none => .unrecognized
  | some generic =>
    match GenericShape.families.lookup generic.family with
    | some s => if s.admitsArity generic.arguments.length then s else .unrecognized
    | none =>
      if (g.typeAt i).interfaces.any g.isCollectionInterface then .collection
      else .unrecognized

/-- The arguments of a wrapper, which are looked at in its place. -/
def wrapped? (i : g.Handle) : Option (List g.Handle) :=
  match (g.typeAt i).generic with
  | some generic => if (g.shape i).isWrapper then some generic.arguments else none
  | none => none

end TypeGraph
end LayoutContract
