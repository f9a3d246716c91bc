import LayoutContract.BuiltinScalars
import LayoutContract.Json.Lexer
import LayoutContract.Json.Record
import LayoutContract.NameSet

/-!
What can be set for a check: names that need no annotation beside those of the built-in scalars,
and the index from which on a warning is given. In JSON this is a closed record.
-/
namespace LayoutContract

structure Config where
  allowed : NameSet := .empty
  warningThreshold : Int := 100
  deriving DecidableEq

namespace Config

def allowing (c : Config) (names : List String) : Config :=
  { c with allowed := c.allowed.insertAll names }

def withThreshold (c : Config) (threshold : Int) : Config :=
  { c with warningThreshold := threshold }

/-- Types of this display name are taken as they are. -/
def isTerminal (c : Config) (name : String) : Bool :=
  name ∈ builtinScalars || name ∈ c.allowed

def keys : List String := ["additional_allowed_type_names", "index_warning_threshold"]

def ofJson? (v : Json) : Option Config := do
  let r ← v.fields? keys .refused
  let names ← r.optional "additional_allowed_type_names" [] (Json.list? Json.string?)
  let threshold ← r.optional "index_warning_threshold" ({} : Config).warningThreshold Json.int32?
  return { allowed := .ofList names, warningThreshold := threshold }

def ofText? (text : String) : Option Config := (Json.parse? text).bind ofJson?

end Config
end LayoutContract
