import LayoutContract.Json.Numeral

/-!
JSON values as they are written. The fields of an object keep their order and may repeat, because
whoever reads a record has to see both. A string is absent (`none`) when an escape in it leaves
half of a surrogate pair alone: the text is well-formed, but it denotes no string.
-/
namespace LayoutContract

namespace Json

/-- A numeral that is not written as an integer, kept as it stands. -/
structure Real where
  digits : List Char
  isReal : Numeral.isReal digits = true
  deriving DecidableEq

abbrev Text := Option String

inductive Scalar where
  | null
  | bool (b : Bool)
  | int (n : Int)
  | real (r : Real)
  | text (s : Text)
  deriving DecidableEq

end Json

inductive Json where
  | scalar (s : Json.Scalar)
  | array (items : List Json)
  | object (fields : List (Json.Text × Json))

namespace Json

@[match_pattern] abbrev null : Json := .scalar .null
@[match_pattern] abbrev bool (b : Bool) : Json := .scalar (.bool b)
@[match_pattern] abbrev int (n : Int) : Json := .scalar (.int n)
@[match_pattern] abbrev string (s : String) : Json := .scalar (.text (some s))

/-- An object with the given keys, all of them proper strings. -/
def record (fields : List (String × Json)) : Json :=
  .object (fields.map fun (key, value) => (some key, value))

/-- The lexical units of a JSON text. -/
inductive Token where
  | openArray
  | closeArray
  | openObject
  | closeObject
  | comma
  | colon
  | scalar (s : Scalar)
  deriving DecidableEq

mutual

/-- The units that a value is written with, in order. -/
def tokens : Json → List Token
  | .scalar s => [.scalar s]
  | .array [] => [.openArray, .closeArray]
  | .array (item :: items) => .openArray :: (item.tokens ++ itemTokens items)
  | .object [] => [.openObject, .closeObject]
  | .object ((key, value) :: fields) =>
    .openObject :: .scalar (.text key) :: .colon :: (value.tokens ++ fieldTokens fields)

def itemTokens : List Json → List Token
  | [] => [.closeArray]
  | item :: items => .comma :: (item.tokens ++ itemTokens items)

def fieldTokens : List (Text × Json) → List Token
  | [] => [.closeObject]
  | (key, value) :: fields =>
    .comma :: .scalar (.text key) :: .colon :: (value.tokens ++ fieldTokens fields)

end

end Json
end LayoutContract
