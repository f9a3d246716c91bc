/-!
Where a type or a member is declared. Lines and columns count from one, and zero stands for a line
or column that is not known.
-/
namespace LayoutContract

structure Location where
  file : Option String := none
  line : Nat := 0
  column : Nat := 0
  deriving DecidableEq

namespace Location

def unknown : Location := {}

def isKnown (l : Location) : Bool := l.file.isSome || 0 < l.line

/-- A column is shown only behind a line. -/
def display (l : Location) : String :=
  let position := toString l.line ++ ":" ++ toString l.column
  match l.file with
  | some file => if l.line = 0 then file else file ++ ":" ++ position
  | none => if l.line = 0 then "<unknown>" else position

example : display { file := some "A", line := 3, column := 7 } = "A:3:7" := by decide
example : display { file := some "A", column := 7 } = "A" := by decide
example : display { column := 7 } = "<unknown>" := by decide

end Location
end LayoutContract
