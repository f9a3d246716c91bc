import LayoutContract.Json.Basic

/-!
The written form of a value: one item or field a line, two spaces of indentation for each level,
nothing inside empty brackets. Characters other than quotes, backslashes and control characters
are written as they are.
-/
namespace LayoutContract.Json

def hexDigit (n : Nat) : Char :=
  if n < 10 then Char.ofNat ('0'.toNat + n) else Char.ofNat ('a'.toNat + (n - 10))

def escape (c : Char) : List Char :=
  if c = '"' then ['\\', '"']
  else if c = '\\' then ['\\', '\\']
  else if c = '\x08' then ['\\', 'b']
  else if c = '\x0c' then ['\\', 'f']
  else if c = '\n' then ['\\', 'n']
  else if c = '\r' then ['\\', 'r']
  else if c = '\t' then ['\\', 't']
  else if c.toNat < 0x20 then
    ['\\', 'u', '0', '0', hexDigit (c.toNat / 16), hexDigit (c.toNat % 16)]
  else [c]

/-- A string in quotes. What is no string is written as half of a surrogate pair. -/
def quote : Text → List Char
  | some s => '"' :: (s.toList.flatMap escape ++ ['"'])
  | none => ['"', '\\', 'u', 'd', '8', '0', '0', '"']

def Scalar.written : Scalar → List Char
  | .null => ['n', 'u', 'l', 'l']
  | .bool true => ['t', 'r', 'u', 'e']
  | .bool false => ['f', 'a', 'l', 's', 'e']
  | .int n => Numeral.ofInt n
  | .real r => r.digits
  | .text s => quote s

/-- A new line at the given level. -/
def newline (level : Nat) : List Char :=
  '\n' :: List.replicate (2 * level) ' '

mutual

/-- The written form of a value that stands at the given level. -/
def writtenAt (level : Nat) : Json → List Char
  | .scalar s => s.written
  | .array [] => ['[', ']']
  | .array (item :: items) =>
    '[' :: newline (level + 1) ++ item.writtenAt (level + 1) ++ writtenItems level items
  | .object [] => ['\x7b', '\x7d']
  | .object ((key, value) :: fields) =>
    '\x7b' :: newline (level + 1) ++ quote key ++ ':' :: ' ' :: value.writtenAt (level + 1) ++
      writtenFields level fields

def writtenItems (level : Nat) : List Json → List Char
  | [] => newline level ++ [']']
  | item :: items =>
    ',' :: newline (level + 1) ++ item.writtenAt (level + 1) ++ writtenItems level items

def writtenFields (level : Nat) : List (Text × Json) → List Char
  | [] => newline level ++ ['\x7d']
  | (key, value) :: fields =>
    ',' :: newline (level + 1) ++ quote key ++ ':' :: ' ' :: value.writtenAt (level + 1) ++
      writtenFields level fields

end

def written (v : Json) : String := String.ofList (v.writtenAt 0)

example : written (.object [(some "a", .array [.int (-1), .null]), (none, .array [])]) =
    "\x7b\n  \"a\": [\n    -1,\n    null\n  ],\n  \"\\ud800\": []\n\x7d" := by decide
example : written (.string "\"\\\t\x01é") = "\"\\\"\\\\\\t\\u0001é\"" := by decide

end LayoutContract.Json
