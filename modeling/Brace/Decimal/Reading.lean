/-!
# Decimal — reading numbers

Whole and fractional numbers as programs read them from text: ASCII digits only, with an optional
sign, and nothing before or after. A whole number must fit 64 bits. A fractional one is a run of
digits with at most one point among or beside them, then perhaps an exponent; or an infinity or a
not-a-number, spelled out in either case of letters. It gets the nearest float, ties to even.
-/

namespace Brace.Decimal

/-- The sign in front of a number, `true` for minus, and what follows it. -/
def splitSign : List Char → Bool × List Char
  | '-' :: cs => (true, cs)
  | '+' :: cs => (false, cs)
  | cs        => (false, cs)

/-- The number that the digits spell. -/
def digitsValue (cs : List Char) : Nat := cs.foldl (fun n c => 10 * n + (c.toNat - 48)) 0

/-- A number written in digits alone, at least one. -/
def readDigits (cs : List Char) : Option Nat :=
  if cs.isEmpty then none else if cs.all Char.isDigit then some (digitsValue cs) else none

def minInt : Int := -9223372036854775808
def maxInt : Int := 9223372036854775807

/-- An optional sign and digits that spell a number of 64 bits. -/
def readInt (cs : List Char) : Option Int64 :=
  let (negative, digits) := splitSign cs
  match readDigits digits with
  | none   => none
  | some n =>
      let z : Int := if negative then -(n : Int) else n
      if minInt ≤ z ∧ z ≤ maxInt then some (Int64.ofInt z) else none

/-! ### Fractions -/

/-- The nearest float to `m · 10 ^ e`. Far beyond either end of the floats' range the power is not
worked out. -/
def scaled (m : Nat) (e : Int) : Float :=
  if m = 0 then 0.0
  else
    let magnitude := e + (Nat.toDigits 10 m).length
    if 400 < magnitude then 1.0 / 0.0
    else if magnitude < -400 then 0.0
    else Float.ofScientific m (e < 0) e.natAbs

/-- An exponent, from its letter on; the empty text is the exponent zero. -/
def readExponent : List Char → Option Int
  | []      => some 0
  | c :: cs =>
      if c = 'e' ∨ c = 'E' then
        let (negative, digits) := splitSign cs
        (readDigits digits).map fun n => if negative then -(n : Int) else n
      else none

/-- Digits with at most one point, at least one of them a digit, and an exponent. -/
def readUnsigned (cs : List Char) : Option Float :=
  let whole := cs.takeWhile Char.isDigit
  let rest := cs.dropWhile Char.isDigit
  let (fraction, rest) := match rest with
    | '.' :: rest => (rest.takeWhile Char.isDigit, rest.dropWhile Char.isDigit)
    | _           => ([], rest)
  if whole.isEmpty ∧ fraction.isEmpty then none
  else (readExponent rest).map fun e => scaled (digitsValue (whole ++ fraction)) (e - fraction.length)

/-- A number, an infinity or a not-a-number, with an optional sign. -/
def readFloat (cs : List Char) : Option Float :=
  let (negative, body) := splitSign cs
  let size :=
    let word := body.map Char.toLower
    if word = ['i', 'n', 'f'] ∨ word = ['i', 'n', 'f', 'i', 'n', 'i', 't', 'y'] then
      some (1.0 / 0.0)
    else if word = ['n', 'a', 'n'] then some (0.0 / 0.0)
    else readUnsigned body
  size.map fun x => if negative then -x else x

end Brace.Decimal
