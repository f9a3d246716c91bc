import LayoutContract.Json.Basic

/-!
From lexical units to a value. The arrays and objects that are still open are kept in a list,
innermost first, so nothing bounds the nesting of a text. A list of units is accepted exactly when
it is the list that some value is written with.
-/
namespace LayoutContract.Json

/-- An array or object that is still open, its finished parts with the latest first. -/
inductive Frame where
  | array (items : List Json)
  | object (fields : List (Text × Json)) (key : Text)

/-- What has to come next. -/
inductive Expectation where
  | value
  | itemOrClose
  | keyOrClose
  | key (fields : List (Text × Json))
  | colon (fields : List (Text × Json)) (key : Text)
  /-- A value has ended; what may follow depends on the innermost open frame. -/
  | after (v : Json)

structure Parser where
  frames : List Frame
  next : Expectation

namespace Parser

def start : Parser := ⟨[], .value⟩

/-- The first unit of a value inside the frames `outer`. -/
def begin (outer : List Frame) : Token → Option Parser
  | .scalar s => some ⟨outer, .after (.scalar s)⟩
  | .openArray => some ⟨outer, .itemOrClose⟩
  | .openObject => some ⟨outer, .keyOrClose⟩
  | _ => none

def step (p : Parser) (t : Token) : Option Parser :=
  match p.next, p.frames, t with
  | .value, outer, t => begin outer t
  | .itemOrClose, outer, .closeArray => some ⟨outer, .after (.array [])⟩
  | .itemOrClose, outer, t => begin (.array [] :: outer) t
  | .keyOrClose, outer, .closeObject => some ⟨outer, .after (.object [])⟩
  | .keyOrClose, outer, .scalar (.text key) => some ⟨outer, .colon [] key⟩
  | .key fields, outer, .scalar (.text key) => some ⟨outer, .colon fields key⟩
  | .colon fields key, outer, .colon => some ⟨.object fields key :: outer, .value⟩
  | .after v, .array items :: outer, .comma => some ⟨.array (v :: items) :: outer, .value⟩
  | .after v, .array items :: outer, .closeArray =>
    some ⟨outer, .after (.array (v :: items).reverse)⟩
  | .after v, .object fields key :: outer, .comma => some ⟨outer, .key ((key, v) :: fields)⟩
  | .after v, .object fields key :: outer, .closeObject =>
    some ⟨outer, .after (.object ((key, v) :: fields).reverse)⟩
  | _, _, _ => none

/-- The value read, once nothing is open any more. -/
def result? (p : Parser) : Option Json :=
  match p.frames, p.next with
  | [], .after v => some v
  | _, _ => none

end Parser

def ofTokens? (ts : List Token) : Option Json :=
  (ts.foldlM Parser.step Parser.start).bind Parser.result?

end LayoutContract.Json
