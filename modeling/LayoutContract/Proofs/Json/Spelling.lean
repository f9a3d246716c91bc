import LayoutContract.Json.Lexer
import Mathlib.Data.List.Basic

/-!
How values are spelled. A text is a sequence of lexical units with blanks around them; a unit is a
bracket, a brace, a comma, a colon, one of three words, a numeral or a string in quotes. A string
has many spellings, because each of its characters can be escaped.
-/
namespace LayoutContract.Json

/-- The value of hexadecimal digits. -/
def hexValue? (digits : List Char) : Option Nat :=
  digits.foldlM (fun value c => (Lexer.hexDigit? c).map (16 * value + ·)) 0

/-- A character stands for itself or is escaped, by a letter or by the four digits of its code. -/
inductive Piece.Spells : Piece → List Char → Prop
  | plain {c : Char} (hquote : c ≠ '"') (hbackslash : c ≠ '\\') (hcontrol : 0x20 ≤ c.toNat) :
    Spells (.char c) [c]
  | letter {l c : Char} (h : Lexer.escaped? l = some c) : Spells (.char c) ['\\', l]
  | code {digits : List Char} {unit : Nat} (hlength : digits.length = 4)
      (hvalue : hexValue? digits = some unit) : Spells (.ofUnit unit) ('\\' :: 'u' :: digits)

inductive Piece.AllSpell : List Piece → List Char → Prop
  | nil : AllSpell [] []
  | cons {p : Piece} {ps : List Piece} {spelling cs : List Char} (hp : p.Spells spelling)
      (hps : AllSpell ps cs) : AllSpell (p :: ps) (spelling ++ cs)

inductive Scalar.Spells : Scalar → List Char → Prop
  | null : Spells .null ['n', 'u', 'l', 'l']
  | true : Spells (.bool true) ['t', 'r', 'u', 'e']
  | false : Spells (.bool false) ['f', 'a', 'l', 's', 'e']
  | int (n : Int) : Spells (.int n) (Numeral.ofInt n)
  | real (r : Real) : Spells (.real r) r.digits
  | text {ps : List Piece} {cs : List Char} (h : Piece.AllSpell ps cs) :
    Spells (.text (Piece.text ps)) ('"' :: (cs ++ ['"']))

inductive Token.Spells : Token → List Char → Prop
  | openArray : Spells .openArray ['[']
  | closeArray : Spells .closeArray [']']
  | openObject : Spells .openObject ['\x7b']
  | closeObject : Spells .closeObject ['\x7d']
  | comma : Spells .comma [',']
  | colon : Spells .colon [':']
  | scalar {s : Scalar} {cs : List Char} (h : s.Spells cs) : Spells (.scalar s) cs

/-- The units are spelled in their order, with blanks before, between and behind them. -/
inductive Spelled : List Token → List Char → Prop
  | nil : Spelled [] []
  | blank {ts : List Token} {c : Char} {cs : List Char} (hc : Lexer.isBlank c = true)
      (h : Spelled ts cs) : Spelled ts (c :: cs)
  | unit {t : Token} {ts : List Token} {spelling cs : List Char} (ht : t.Spells spelling)
      (h : Spelled ts cs) : Spelled (t :: ts) (spelling ++ cs)

/-- A text is written for a value when it spells the units of that value. -/
def SpelledBy (v : Json) (text : String) : Prop := Spelled v.tokens text.toList

theorem hexValue?_concat {digits : List Char} {unit d : Nat} {c : Char}
    (h : hexValue? digits = some unit) (hc : Lexer.hexDigit? c = some d) :
    hexValue? (digits ++ [c]) = some (16 * unit + d) := by
  rw [hexValue?] at h ⊢
  simp [List.foldlM_append, h, hc]

theorem Piece.AllSpell.concat {ps : List Piece} {p : Piece} {cs spelling : List Char}
    (h : AllSpell ps cs) (hp : p.Spells spelling) : AllSpell (ps ++ [p]) (cs ++ spelling) := by
  induction h with
  | nil => simpa using AllSpell.cons hp .nil
  | cons hfirst _ ih =>
    rw [List.append_assoc]
    exact .cons hfirst ih

namespace Spelled

variable {ts ts' : List Token} {cs cs' : List Char}

theorem append (h : Spelled ts cs) (h' : Spelled ts' cs') : Spelled (ts ++ ts') (cs ++ cs') := by
  induction h with
  | nil => exact h'
  | blank hc _ ih => exact .blank hc ih
  | unit ht _ ih =>
    rw [List.append_assoc]
    exact .unit ht ih

theorem concat {t : Token} {spelling : List Char} (h : Spelled ts cs) (ht : t.Spells spelling) :
    Spelled (ts ++ [t]) (cs ++ spelling) := by
  have hunit : Spelled [t] spelling := by simpa using Spelled.unit ht .nil
  exact h.append hunit

theorem concat_blank {c : Char} (h : Spelled ts cs) (hc : Lexer.isBlank c = true) :
    Spelled ts (cs ++ [c]) := by
  simpa using h.append (.blank hc .nil)

end Spelled
end LayoutContract.Json
