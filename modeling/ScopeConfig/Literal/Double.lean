/-!
# Decimal numerals as doubles

A double is kept as its 64 bits. `Double.ofNumeral` reads a decimal numeral, with or without a
fraction and an exponent, and rounds it once, to the nearest double and to the even one of two
equally near ones; a numeral that is too large is infinity.

The rounding is exact arithmetic on natural numbers: the numeral is a fraction of two of them, the
fraction is divided by the power of two that leaves 53 binary digits (fewer below the normal
range), and the quotient is rounded. A quotient that rounds up to 54 digits runs over into the
exponent field, which is where the next double is.
-/

namespace ScopeConfig.Literal

/-- A double, as its bits: sign, eleven bits of exponent, 52 bits of fraction. -/
structure Double where
  bits : UInt64
deriving DecidableEq, Repr, Inhabited

/-- A decimal number: `coefficient` times ten to the power `exponent`. -/
structure Decimal where
  coefficient : Nat
  exponent : Int
deriving DecidableEq, Repr

/-! ## Reading a numeral -/

/-- The number that a row of digits stands for. -/
def digitsValue (cs : List Char) : Nat :=
  cs.foldl (fun n c => 10 * n + (c.toNat - '0'.toNat)) 0

/-- The exponent that follows a numeral: a letter, a sign or none, and digits. -/
def exponentValue : List Char → Int
  | _ :: '-' :: ds => -(digitsValue (ds.takeWhile Char.isDigit) : Int)
  | _ :: '+' :: ds => digitsValue (ds.takeWhile Char.isDigit)
  | _ :: ds => digitsValue (ds.takeWhile Char.isDigit)
  | [] => 0

/-- The decimal number that a numeral stands for. -/
def Decimal.ofNumeral (cs : List Char) : Decimal :=
  let whole := cs.takeWhile Char.isDigit
  match cs.drop whole.length with
  | '.' :: rest =>
    let part := rest.takeWhile Char.isDigit
    ⟨digitsValue (whole ++ part), exponentValue (rest.drop part.length) - part.length⟩
  | rest => ⟨digitsValue whole, exponentValue rest⟩

/-! ## Rounding -/

/-- The quotient of two natural numbers, rounded to the nearest and to the even of two equally
near ones. -/
def roundDiv (num den : Nat) : Nat :=
  let q := num / den
  let r := num % den
  if 2 * r < den then q
  else if den < 2 * r then q + 1
  else if q % 2 = 0 then q else q + 1

/-- A fraction, when the power of two is divided out. -/
def scaled (num den : Nat) (power : Int) : Nat × Nat :=
  if power ≥ 0 then (num, den * Nat.pow 2 power.toNat)
  else (num * Nat.pow 2 (-power).toNat, den)

/-- The power of two to divide a fraction by, so that its whole part has 53 binary digits, or the
least power that a double can have. -/
def binaryExponent (num den : Nat) : Int :=
  let estimate : Int := (num.log2 : Int) - den.log2 - 52
  let (n, d) := scaled num den estimate
  max (-1074) (if n < d * Nat.pow 2 52 then estimate - 1 else estimate)

/-- The bits of the double nearest to a fraction. -/
def fractionBits (num den : Nat) : Nat :=
  let power := binaryExponent num den
  let (n, d) := scaled num den power
  let m := roundDiv n d
  let bits := if m < Nat.pow 2 52 then m else (power + 1074).toNat * Nat.pow 2 52 + m
  min bits (2047 * Nat.pow 2 52)

/-- The number of decimal digits of a natural number. -/
def digitCount (n : Nat) : Nat :=
  (Nat.toDigits 10 n).length

/-- The bits of the double nearest to a decimal number. Numbers of more than 310 digits before
the point are too large, and numbers with more than 330 zeros after it too small, for any double to
be near. -/
def Decimal.bits (d : Decimal) : Nat :=
  let magnitude := (digitCount d.coefficient : Int) + d.exponent
  if d.coefficient = 0 || magnitude < -330 then 0
  else if magnitude > 310 then 2047 * Nat.pow 2 52
  else if d.exponent ≥ 0 then fractionBits (d.coefficient * Nat.pow 10 d.exponent.toNat) 1
  else fractionBits d.coefficient (Nat.pow 10 (-d.exponent).toNat)

/-- The double nearest to a numeral. -/
def Double.ofNumeral (text : String) : Double :=
  ⟨UInt64.ofNat (Decimal.ofNumeral text.toList).bits⟩

/-- The double of the other sign. -/
def Double.neg (d : Double) : Double :=
  ⟨d.bits ^^^ ((1 : UInt64) <<< 63)⟩

end ScopeConfig.Literal
