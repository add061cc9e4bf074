import ShaderLang.Floating.Format

/-!
# Decimal notation of floating-point numbers

A decimal is a whole number of units of some power of ten.  `Decimal.toDouble` gives the nearest
value of double precision.  `shortest` gives the decimal with the fewest digits that reads back as
a given value, the nearest one if there are two, the larger one if both are equally near.
`Layout.text` writes a decimal.
-/

namespace ShaderLang

/-- The number `digits * 10 ^ exponent`. -/
structure Decimal where
  digits : Nat
  exponent : Int
deriving DecidableEq, Repr

/-- The number of decimal digits of a whole number. -/
def decimalLength (n : Nat) : Nat :=
  (Nat.toDigits 10 n).length

namespace Decimal

/-- Numerator and denominator of a decimal. -/
def fraction (d : Decimal) : Nat × Nat :=
  if 0 ≤ d.exponent then (d.digits * Nat.pow 10 d.exponent.toNat, 1)
  else (d.digits, Nat.pow 10 (-d.exponent).toNat)

/-- The value of double precision nearest to a decimal.  From 10 ^ 310 on all decimals are infinite
and below 10 ^ -330 all are zero, so no larger power is computed. -/
def toDouble (d : Decimal) : Double :=
  let magnitude := d.exponent + decimalLength d.digits
  if d.digits == 0 || magnitude < -330 then ⟨0⟩
  else if 311 < magnitude then ⟨UInt64.ofNat Floating.double.infinity⟩
  else
    let (num, den) := d.fraction
    ⟨UInt64.ofNat (Floating.double.nearest num den)⟩

/-- The same number without zeros at the end of its digits. -/
def trim (d : Decimal) : Decimal :=
  if h : d.digits ≠ 0 ∧ d.digits % 10 = 0 then trim ⟨d.digits / 10, d.exponent + 1⟩ else d
termination_by d.digits
decreasing_by omega

end Decimal

namespace Floating

/-! ## Fewest digits -/

/-- The numbers that read back as one positive value: `low / den` and `high / den` bound them, and
belong to them if `closed`. -/
structure Interval where
  low : Nat
  value : Nat
  high : Nat
  den : Nat
  closed : Bool

/-- The numbers that are nearest to `significand * 2 ^ exponent`.  Below a power of two the values
lie twice as close. -/
def Format.interval (f : Format) (significand : Nat) (exponent : Int) : Interval :=
  let (unit, den) := scale 1 1 (exponent - 2)
  let below := if significand == Nat.pow 2 f.fractionBits then 1 else 2
  { low := (4 * significand - below) * unit
    value := 4 * significand * unit
    high := (4 * significand + 2) * unit
    den
    closed := significand % 2 == 0 }

namespace Interval

/-- The power of ten of the first digit of the value. -/
def magnitude (i : Interval) : Int :=
  if i.den ≤ i.value then (decimalLength (i.value / i.den) : Int) - 1
  else -(decimalLength ((i.den - 1) / i.value) : Int)

/-- A decimal reads back as the value. -/
def contains (i : Interval) (d : Decimal) : Bool :=
  let (num, den) := d.fraction
  let (point, low, high) := (num * i.den, i.low * den, i.high * den)
  if i.closed then low ≤ point && point ≤ high else low < point && point < high

/-- The decimal with a given number of digits that reads back as the value: of the two next to it
the one that does, and of two that do the nearer one. -/
def withDigits? (i : Interval) (count : Nat) : Option Decimal :=
  let exponent := i.magnitude + 1 - count
  let (unit, unitDen) := (Decimal.mk 1 exponent).fraction
  let below := i.value * unitDen / (i.den * unit)
  let down : Decimal := ⟨below, exponent⟩
  let up : Decimal := ⟨below + 1, exponent⟩
  if i.contains down then
    if i.contains up && (2 * below + 1) * unit * i.den ≤ 2 * i.value * unitDen then some up
    else some down
  else if i.contains up then some up
  else none

/-- The decimal with the fewest digits, tried from one digit up; seventeen always suffice. -/
def fewest (i : Interval) : Decimal :=
  ((List.range 17).findSome? fun n => i.withDigits? (n + 1)).getD ⟨0, 0⟩

end Interval

/-- The decimal with the fewest digits that reads back as `significand * 2 ^ exponent`. -/
def Format.shortest (f : Format) (significand : Nat) (exponent : Int) : Decimal :=
  if significand == 0 then ⟨0, 0⟩ else (f.interval significand exponent).fewest.trim

/-! ## Layout -/

/-- How a decimal is written: positionally while the power of ten of its first digit lies in a
range, and with an exponent otherwise. -/
structure Layout where
  leastPositional : Int
  firstExponential : Int
  mark : Char
  nan : String
  infinity : String

/-- Numbers from one ten-thousandth up to ten to the sixteenth are positional, with at least one
digit after the point. -/
def standard : Layout :=
  { leastPositional := -4, firstExponential := 16, mark := 'e', nan := "NaN", infinity := "inf" }

namespace Layout

/-- The text of a decimal. -/
def decimal (layout : Layout) (d : Decimal) : List Char :=
  let digits := Nat.toDigits 10 d.digits
  let magnitude := d.exponent + digits.length - 1
  if layout.leastPositional ≤ magnitude && magnitude < layout.firstExponential then
    if magnitude < 0 then
      '0' :: '.' :: List.replicate (-magnitude - 1).toNat '0' ++ digits
    else
      let whole := magnitude.toNat + 1
      let fraction := digits.drop whole
      digits.take whole ++ List.replicate (whole - digits.length) '0' ++
        '.' :: (if fraction.isEmpty then ['0'] else fraction)
  else
    let tail := digits.drop 1
    digits.take 1 ++ (if tail.isEmpty then [] else '.' :: tail) ++
      layout.mark :: (toString magnitude).toList

/-- The text of a value. -/
def text (layout : Layout) (f : Format) : Value → String
  | .nan => layout.nan
  | .infinite negative => sign negative ++ layout.infinity
  | .finite negative significand exponent =>
    sign negative ++ String.ofList (layout.decimal (f.shortest significand exponent))
where
  /-- The sign of a number; zero has one too. -/
  sign (negative : Bool) : String := if negative then "-" else ""

end Layout

end Floating

namespace Single

/-- The text of a value of single precision. -/
def text (x : Single) : String :=
  Floating.standard.text Floating.single x.value

end Single

namespace Double

/-- The text of a value of double precision. -/
def text (x : Double) : String :=
  Floating.standard.text Floating.double x.value

end Double

end ShaderLang
