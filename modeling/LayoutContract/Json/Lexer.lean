import LayoutContract.Json.Parser

/-!
From characters to lexical units, one character at a time. Blanks separate units and are dropped;
words and numerals extend as far as they can; inside quotes every character counts, and control
characters have to be escaped.
-/
namespace LayoutContract.Json

/-- What a quoted string is made of: characters, and escaped halves of surrogate pairs. -/
inductive Piece where
  | char (c : Char)
  | half (unit : Nat)

namespace Piece

/-- What the escape with code `unit` stands for. -/
def ofUnit (unit : Nat) : Piece :=
  if 0xD800 ≤ unit ∧ unit < 0xE000 then .half unit else .char (Char.ofNat unit)

/-- The character that two halves stand for, high half first. -/
def join? (high low : Nat) : Option Char :=
  if high < 0xDC00 ∧ 0xDC00 ≤ low then
    some (Char.ofNat (0x10000 + (high - 0xD800) * 0x400 + (low - 0xDC00)))
  else none

/-- The characters of a string, unless some half is left alone. -/
def chars? : List Piece → Option (List Char)
  | [] => some []
  | .char c :: ps => (chars? ps).map (c :: ·)
  | .half high :: .half low :: ps =>
    match join? high low with
    | some c => (chars? ps).map (c :: ·)
    | none => none
  | .half _ :: _ => none

def text (ps : List Piece) : Text := (chars? ps).map String.ofList

end Piece

/-- What the character that comes next belongs to. What was read of it stands latest first. -/
inductive Mode where
  | blank
  | word (letters : List Char)
  | numeral (digits : List Char)
  | quoted (pieces : List Piece)
  | escape (pieces : List Piece)
  /-- Inside a numbered escape, with the value of the digits read and how many are to come. -/
  | code (pieces : List Piece) (unit : Nat) (missing : Nat)

structure Lexer where
  tokens : List Token
  mode : Mode

namespace Lexer

def start : Lexer := ⟨[], .blank⟩

def isBlank (c : Char) : Bool := c == ' ' || c == '\t' || c == '\n' || c == '\r'

def isNumeralChar (c : Char) : Bool :=
  c.isDigit || c == '-' || c == '+' || c == '.' || c == 'e' || c == 'E'

def wordScalar? (letters : List Char) : Option Scalar :=
  if letters = ['n', 'u', 'l', 'l'] then some .null
  else if letters = ['t', 'r', 'u', 'e'] then some (.bool true)
  else if letters = ['f', 'a', 'l', 's', 'e'] then some (.bool false)
  else none

def numeralScalar? (digits : List Char) : Option Scalar :=
  match Numeral.integer? digits with
  | some n => some (.int n)
  | none => if h : Numeral.isReal digits then some (.real ⟨digits, h⟩) else none

/-- A character that continues nothing. -/
def begin (tokens : List Token) (c : Char) : Option Lexer :=
  if c = '[' then some ⟨.openArray :: tokens, .blank⟩
  else if c = ']' then some ⟨.closeArray :: tokens, .blank⟩
  else if c = '\x7b' then some ⟨.openObject :: tokens, .blank⟩
  else if c = '\x7d' then some ⟨.closeObject :: tokens, .blank⟩
  else if c = ',' then some ⟨.comma :: tokens, .blank⟩
  else if c = ':' then some ⟨.colon :: tokens, .blank⟩
  else if c = '"' then some ⟨tokens, .quoted []⟩
  else if isBlank c then some ⟨tokens, .blank⟩
  else if c.isLower then some ⟨tokens, .word [c]⟩
  else if isNumeralChar c then some ⟨tokens, .numeral [c]⟩
  else none

/-- The character that a one-letter escape stands for. -/
def escaped? (c : Char) : Option Char :=
  if c = '"' ∨ c = '\\' ∨ c = '/' then some c
  else if c = 'b' then some '\x08'
  else if c = 'f' then some '\x0c'
  else if c = 'n' then some '\n'
  else if c = 'r' then some '\r'
  else if c = 't' then some '\t'
  else none

def hexDigit? (c : Char) : Option Nat :=
  if c.isDigit then some (c.toNat - '0'.toNat)
  else if 'a' ≤ c ∧ c ≤ 'f' then some (c.toNat - 'a'.toNat + 10)
  else if 'A' ≤ c ∧ c ≤ 'F' then some (c.toNat - 'A'.toNat + 10)
  else none

def inQuotes (tokens : List Token) (pieces : List Piece) (c : Char) : Option Lexer :=
  if c = '"' then some ⟨.scalar (.text (Piece.text pieces.reverse)) :: tokens, .blank⟩
  else if c = '\\' then some ⟨tokens, .escape pieces⟩
  else if c.toNat < 0x20 then none
  else some ⟨tokens, .quoted (.char c :: pieces)⟩

def inEscape (tokens : List Token) (pieces : List Piece) (c : Char) : Option Lexer :=
  if c = 'u' then some ⟨tokens, .code pieces 0 3⟩
  else (escaped? c).map fun e => ⟨tokens, .quoted (.char e :: pieces)⟩

def inCode (tokens : List Token) (pieces : List Piece) (unit missing : Nat) (c : Char) :
    Option Lexer :=
  (hexDigit? c).map fun d =>
    let unit := 16 * unit + d
    match missing with
    | 0 => ⟨tokens, .quoted (Piece.ofUnit unit :: pieces)⟩
    | missing + 1 => ⟨tokens, .code pieces unit missing⟩

def step (l : Lexer) (c : Char) : Option Lexer :=
  match l.mode with
  | .blank => begin l.tokens c
  | .word letters =>
    if c.isLower then some ⟨l.tokens, .word (c :: letters)⟩
    else (wordScalar? letters.reverse).bind fun s => begin (.scalar s :: l.tokens) c
  | .numeral digits =>
    if isNumeralChar c then some ⟨l.tokens, .numeral (c :: digits)⟩
    else (numeralScalar? digits.reverse).bind fun s => begin (.scalar s :: l.tokens) c
  | .quoted pieces => inQuotes l.tokens pieces c
  | .escape pieces => inEscape l.tokens pieces c
  | .code pieces unit missing => inCode l.tokens pieces unit missing c

/-- The units in reading order, unless the text ends inside a string. -/
def result? (l : Lexer) : Option (List Token) :=
  match l.mode with
  | .blank => some l.tokens.reverse
  | .word letters => (wordScalar? letters.reverse).map fun s => (.scalar s :: l.tokens).reverse
  | .numeral digits =>
    (numeralScalar? digits.reverse).map fun s => (.scalar s :: l.tokens).reverse
  | _ => none

end Lexer

/-- The lexical units of a text. -/
def lex? (cs : List Char) : Option (List Token) :=
  (cs.foldlM Lexer.step Lexer.start).bind Lexer.result?

/-- The value that a text is written for. -/
def parse? (s : String) : Option Json :=
  (lex? s.toList).bind ofTokens?

example : parse? "[0, \"\\ud83d\\ude00\\n\"]" =
    some (.array [.int 0, .string "😀\n"]) := by rfl
example : parse? "[\"\\ude00\", -0]" =
    some (.array [.scalar (.text none), .scalar (.real ⟨['-', '0'], rfl⟩)]) := by rfl
example : parse? "[1,]" = none ∧ parse? "01" = none ∧ parse? "1 1" = none := ⟨rfl, rfl, rfl⟩

end LayoutContract.Json
