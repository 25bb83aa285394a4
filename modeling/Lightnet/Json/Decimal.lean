import Lightnet.Json.SimpleJson
import Lightnet.Library.SinglePrecision

/-!
# Reading decimal fractions

The code sums a decimal fraction digit by digit in single precision. The whole part is a `long`,
which has 32 bits on the controller and is not checked for overflow.
-/

namespace Lightnet

/-- What a `long` holds of a number. -/
def toLong (z : ℤ) : ℤ := z.bmod (2 ^ 32)

def readIntPart : ℤ → Text → ℤ × Text
  | v, [] => (v, [])
  | v, c :: p => if isDigit c then readIntPart (toLong (v * 10 + digitVal c)) p else (v, c :: p)

def readFracPart : ℚ → ℚ → Text → ℚ × Text
  | frac, _, [] => (frac, [])
  | frac, divisor, c :: p =>
    if isDigit c then
      readFracPart (Single.add frac (Single.div (digitVal c) divisor)) (Single.mul divisor 10) p
    else (frac, c :: p)

/-- A number that starts with a digit. -/
def readDecimal (p : Text) : ℚ × Text :=
  match readIntPart 0 p with
  | (intPart, []) => (Single.round intPart, [])
  | (intPart, c :: q) =>
    if c = ch '.' then
      let (frac, r) := readFracPart 0 10 q
      (Single.add (Single.round intPart) frac, r)
    else (Single.round intPart, c :: q)

/-- A number without a sign, as the panel selectors read it. -/
def selTokFloat : Text → Option ℚ × Text
  | [] => (none, [])
  | c :: p => if isDigit c then (some (readDecimal (c :: p)).1, (readDecimal (c :: p)).2)
    else (none, c :: p)

def jsonReadFloat (p : Text) : Option ℚ × Text :=
  match jsonSkipWs p with
  | [] => (none, [])
  | c :: q =>
    if c = ch '-' then
      match selTokFloat q with
      | (some v, r) => (some (-v), r)
      | (none, r) => (none, r)
    else selTokFloat (c :: q)

end Lightnet
