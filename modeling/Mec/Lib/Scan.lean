import Mathlib.Algebra.Field.Basic

/-!
# Scanning numbers

The conversions of `sscanf` on a C string: each skips white space, takes the
longest prefix that is a number and returns its value with what is left, or
fails. An integer too large for a `long` becomes the nearest one, and one
stored in an `int` keeps its low 32 bits.
-/

namespace Lib.Scan

def isSpace (c : Char) : Bool :=
  c = ' ' || c = '\t' || c = '\n' || c = '\x0b' || c = '\x0c' || c = '\r'

def skipSpace (text : List Char) : List Char := text.dropWhile isSpace

def digitsValue (digits : List Char) : Nat :=
  digits.foldl (fun value c => 10 * value + (c.toNat - '0'.toNat)) 0

/-- An optional sign: whether it is a minus, and what follows it. -/
def scanSign : List Char → Bool × List Char
  | '-' :: text => (true, text)
  | '+' :: text => (false, text)
  | text => (false, text)

def longMax : Int := 9223372036854775807

/-- `%ld`. -/
def scanLong (text : List Char) : Option (Int × List Char) :=
  let (negative, text) := scanSign (skipSpace text)
  match text.takeWhile Char.isDigit with
  | [] => none
  | d :: digits =>
    let value : Int := if negative then -digitsValue (d :: digits) else digitsValue (d :: digits)
    some (max (-longMax - 1) (min value longMax), text.dropWhile Char.isDigit)

/-- `%d`. -/
def scanInt (text : List Char) : Option (Int × List Char) :=
  (scanLong text).map fun (value, rest) => (Int.bmod value 4294967296, rest)

def atoi (text : List Char) : Int := ((scanInt text).map Prod.fst).getD 0

/-- What `%lf` converts a text to, with what is left of it. -/
abbrev ScanDouble (K : Type*) := List Char → Option (K × List Char)

/-- `atof`, with the conversion of `%lf`. -/
def atof {K : Type*} [Zero K] (scanDouble : ScanDouble K) (text : List Char) : K :=
  ((scanDouble text).map Prod.fst).getD 0

/-- `%lf` on the plain decimal numbers, without exponent. -/
def scanDecimal {K : Type*} [Field K] (text : List Char) : Option (K × List Char) :=
  let (negative, text) := scanSign (skipSpace text)
  let whole := text.takeWhile Char.isDigit
  let (fraction, rest) := match text.dropWhile Char.isDigit with
    | '.' :: text => (text.takeWhile Char.isDigit, text.dropWhile Char.isDigit)
    | text => ([], text)
  if whole = [] ∧ fraction = [] then none
  else
    let value : K := digitsValue (whole ++ fraction) / (10 : Nat) ^ fraction.length
    some (if negative then -value else value, rest)

end Lib.Scan
