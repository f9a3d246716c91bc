/-!
Numerals of JSON. An integer is written in one way only: digits without a leading zero, behind a
minus sign when it is negative. Every other numeral, negative zero among them, has a fraction, an
exponent or a sign that an integer does not have, and is never read as an integer.
-/
namespace LayoutContract.Json.Numeral

def isDigits (cs : List Char) : Bool :=
  !cs.isEmpty && cs.all Char.isDigit

/-- Digits of a natural number: no leading zero unless zero itself is meant. -/
def isWhole (cs : List Char) : Bool :=
  cs == ['0'] || (isDigits cs && cs.head? != some '0')

def unsigned : List Char → List Char
  | '+' :: cs => cs
  | '-' :: cs => cs
  | cs => cs

/-- An exponent, or nothing at all. -/
def isExponent : List Char → Bool
  | [] => true
  | c :: cs => (c == 'e' || c == 'E') && isDigits (unsigned cs)

/-- What may follow the whole part: a fraction, an exponent, both or neither. -/
def isTail : List Char → Bool
  | '.' :: cs =>
    isDigits (cs.takeWhile Char.isDigit) && isExponent (cs.dropWhile Char.isDigit)
  | cs => isExponent cs

def isPositive (cs : List Char) : Bool :=
  isWhole (cs.takeWhile Char.isDigit) && isTail (cs.dropWhile Char.isDigit)

def isNumeral : List Char → Bool
  | '-' :: cs => isPositive cs
  | cs => isPositive cs

def natural? (cs : List Char) : Option Nat :=
  if isWhole cs then some (Nat.ofDigitChars 10 cs 0) else none

/-- The value of a numeral written as an integer. Negative zero is not one. -/
def integer? : List Char → Option Int
  | '-' :: cs =>
    match natural? cs with
    | some (n + 1) => some (.negSucc n)
    | _ => none
  | cs => (natural? cs).map .ofNat

/-- The one numeral of an integer. -/
def ofInt : Int → List Char
  | .ofNat n => Nat.toDigits 10 n
  | .negSucc n => '-' :: Nat.toDigits 10 (n + 1)

/-- A numeral that is not written as an integer. -/
def isReal (cs : List Char) : Bool :=
  isNumeral cs && (integer? cs).isNone

example : integer? ['-', '1', '0'] = some (-10) := by decide
example : integer? ['0', '7'] = none ∧ isNumeral ['0', '7'] = false := by decide
example : isReal ['-', '0'] ∧ isReal ['1', '.', '0'] ∧ isReal ['1', 'e', '+', '2'] := by decide
example : isNumeral ['1', '.'] = false ∧ isNumeral ['.', '5'] = false := by decide

end LayoutContract.Json.Numeral
