/-!
The indices that members of one type claim. A ledger refuses an index that is already claimed.
Afterwards it tells whether the claims make up a layout: in ascending order the indices have to
read 0, 1, 2 and so on, and some constructor has to take the types of their members in that order.
-/
namespace LayoutContract

structure IndexEntry (ι : Type) where
  index : Int
  /-- The type that declares the member. -/
  owner : ι
  memberType : ι
  deriving DecidableEq

inductive LayoutVerdict (ι : Type) where
  | valid
  /-- The first index, in ascending order, that is not its own position. -/
  | gap (index : Int)
  /-- No constructor takes the expected types. -/
  | noMatchingConstructor (expected : List ι)
  deriving DecidableEq

structure IndexLedger (ι : Type) where
  claimed : List Int
  /-- In the order of the claims. -/
  entries : List (IndexEntry ι)
  deriving DecidableEq

namespace IndexLedger

variable {ι : Type}

def empty : IndexLedger ι := ⟨[], []⟩

/-- Claims an index and tells whether it was free. A claim that is refused changes nothing. -/
def record (l : IndexLedger ι) (e : IndexEntry ι) : Bool × IndexLedger ι :=
  if e.index ∈ l.claimed then (false, l)
  else (true, ⟨e.index :: l.claimed, l.entries ++ [e]⟩)

def length (l : IndexLedger ι) : Nat := l.entries.length

def isEmpty (l : IndexLedger ι) : Bool := l.entries.isEmpty

/-- Puts an entry in front of the first one whose index is not smaller. -/
def insertEntry (e : IndexEntry ι) : List (IndexEntry ι) → List (IndexEntry ι)
  | [] => [e]
  | first :: rest =>
    if e.index ≤ first.index then e :: first :: rest else first :: insertEntry e rest

/-- The entries in ascending order of their indices. -/
def sorted (l : IndexLedger ι) : List (IndexEntry ι) := l.entries.foldr insertEntry []

/-- The first of the indices that does not count on from `position`. -/
def firstGapFrom (position : Int) : List Int → Option Int
  | [] => none
  | index :: rest => if index = position then firstGapFrom (position + 1) rest else some index

def firstGap (indices : List Int) : Option Int := firstGapFrom 0 indices

/-- Types are told apart by their qualified names. -/
def accepts (qualified : ι → String) (expected parameters : List ι) : Bool :=
  parameters.map qualified == expected.map qualified

/-- Nothing claimed is a layout for which no constructor is needed. -/
def verdict (l : IndexLedger ι) (qualified : ι → String) (constructors : List (List ι)) :
    LayoutVerdict ι :=
  match firstGap (l.sorted.map (·.index)) with
  | some index => .gap index
  | none =>
    let expected := l.sorted.map (·.memberType)
    if expected.isEmpty || constructors.any (accepts qualified expected) then .valid
    else .noMatchingConstructor expected

end IndexLedger
end LayoutContract
