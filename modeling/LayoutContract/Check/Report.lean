import LayoutContract.Check.Root

/-!
Reports on roots. Roots are checked independently of each other, and reported in their order.
-/
namespace LayoutContract

structure RootReport (ι : Type) where
  root : ι
  diagnostics : List Diagnostic

namespace RootReport

variable {ι : Type}

def errorCount (r : RootReport ι) : Nat := r.diagnostics.countP Diagnostic.isError

def warningCount (r : RootReport ι) : Nat := r.diagnostics.countP Diagnostic.isWarning

def isClean (r : RootReport ι) : Bool := r.diagnostics.isEmpty

end RootReport

namespace TypeGraph

variable (g : TypeGraph) (c : Config)

def analyzeAll (roots : List g.Handle) : List (RootReport g.Handle) :=
  roots.map fun root => ⟨root, g.analyze c root⟩

/-- Reports on the classes and structs that are declared and annotated. -/
def check : List (RootReport g.Handle) := g.analyzeAll c g.formattableRoots

end TypeGraph
end LayoutContract
