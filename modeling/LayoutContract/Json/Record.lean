import LayoutContract.Json.Basic

/-!
Decoders for values of a fixed shape. A record is written as an object, its fields in any order,
or as an array of its fields in their fixed order with a tail left out. No known key may occur
twice; keys that are not known are passed over by an open record and refused by a closed one.
-/
namespace LayoutContract.Json

def string? : Json → Option String
  | .string s => some s
  | _ => none

def bool? : Json → Option Bool
  | .bool b => some b
  | _ => none

/-- An integer between the given bounds, both included. -/
def intIn? (lowest highest : Int) : Json → Option Int
  | .int n => if lowest ≤ n ∧ n ≤ highest then some n else none
  | _ => none

/-- A signed number of 32 bits. -/
def int32? : Json → Option Int := intIn? (-0x80000000) 0x7fffffff

/-- An unsigned number of 32 bits. -/
def nat32? (v : Json) : Option Nat := (intIn? 0 0xffffffff v).map Int.toNat

def nullable? {α : Type} (decode : Json → Option α) : Json → Option (Option α)
  | .null => some none
  | v => (decode v).map some

def list? {α : Type} (decode : Json → Option α) : Json → Option (List α)
  | .array items => items.mapM decode
  | _ => none

/-- One of finitely many names, alone or as the only key of an object whose value is null. -/
def variant? {α : Type} (named? : String → Option α) : Json → Option α
  | .string s => named? s
  | .object [(some s, .null)] => named? s
  | _ => none

abbrev Fields := List (String × Json)

inductive UnknownKeys where
  | ignored
  | refused
  deriving DecidableEq

def isKnown (keys : List String) (field : String × Json) : Bool := keys.contains field.1

/-- The fields of an object that belong to the record. -/
def knownFields? (keys : List String) (unknown : UnknownKeys) (fields : Fields) :
    Option Fields :=
  let known := fields.filter (isKnown keys)
  if unknown = .refused ∧ fields.all (isKnown keys) = false then none
  else if (known.map (·.1)).Nodup then some known
  else none

/-- A field whose key is a proper string. -/
def properField? : Text × Json → Option (String × Json)
  | (some key, value) => some (key, value)
  | (none, _) => none

/-- The fields that are given, under their keys. -/
def fields? (keys : List String) (unknown : UnknownKeys) : Json → Option Fields
  | .array items => if items.length ≤ keys.length then some (keys.zip items) else none
  | .object fields => (fields.mapM properField?).bind (knownFields? keys unknown)
  | .scalar _ => none

namespace Fields

def required {α : Type} (r : Fields) (key : String) (decode : Json → Option α) : Option α :=
  (r.lookup key).bind decode

/-- A field that stands for `default` when it is left out. -/
def optional {α : Type} (r : Fields) (key : String) (default : α) (decode : Json → Option α) :
    Option α :=
  match r.lookup key with
  | none => some default
  | some v => decode v

end Fields
end LayoutContract.Json
