/-!
# Binary floating-point formats

A format is given by the number of bits of its fraction and of its exponent; a value is its bit
pattern.  `Format.read` tells what a pattern denotes, and `Format.nearest` gives the pattern nearest
to a positive rational, a tie going to the even one.
-/

namespace ShaderLang

/-- A value of single precision, as its bits. -/
structure Single where
  bits : UInt32
deriving DecidableEq, Repr, Inhabited

/-- A value of double precision, as its bits. -/
structure Double where
  bits : UInt64
deriving DecidableEq, Repr, Inhabited

namespace Floating

/-- A binary format. -/
structure Format where
  fractionBits : Nat
  exponentBits : Nat
deriving Repr

/-- Single precision. -/
def single : Format := ⟨23, 8⟩

/-- Double precision. -/
def double : Format := ⟨52, 11⟩

/-- What a bit pattern denotes. -/
inductive Value where
  | nan
  | infinite (negative : Bool)
  /-- The number `significand * 2 ^ exponent`, or its negative. -/
  | finite (negative : Bool) (significand : Nat) (exponent : Int)
deriving Repr

/-- The quotient rounded to the nearest whole number, a tie going to the even one. -/
def roundDiv (num den : Nat) : Nat :=
  let quotient := num / den
  let remainder := num % den
  if den < 2 * remainder || (den == 2 * remainder && quotient % 2 == 1) then quotient + 1
  else quotient

/-- The numerator and denominator of `num / den * 2 ^ exponent`. -/
def scale (num den : Nat) (exponent : Int) : Nat × Nat :=
  if 0 ≤ exponent then (num * Nat.pow 2 exponent.toNat, den)
  else (num, den * Nat.pow 2 (-exponent).toNat)

namespace Format

/-- The exponent field of infinities and of values that are no number. -/
def lastField (f : Format) : Nat :=
  Nat.pow 2 f.exponentBits - 1

/-- The exponent of the last place of the smallest values. -/
def leastExponent (f : Format) : Int :=
  2 - Nat.pow 2 (f.exponentBits - 1) - f.fractionBits

/-- The pattern of positive infinity. -/
def infinity (f : Format) : Nat :=
  f.lastField * Nat.pow 2 f.fractionBits

/-- What a bit pattern denotes.  A zero exponent field has no leading one and the same last place as
the field after it. -/
def read (f : Format) (bits : Nat) : Value :=
  let unit := Nat.pow 2 f.fractionBits
  let fraction := bits % unit
  let field := bits / unit % Nat.pow 2 f.exponentBits
  let negative := bits / unit / Nat.pow 2 f.exponentBits == 1
  if field == f.lastField then if fraction == 0 then .infinite negative else .nan
  else if field == 0 then .finite negative fraction f.leastExponent
  else .finite negative (unit + fraction) (f.leastExponent + field - 1)

/-- The largest power of two not above the positive rational `num / den`. -/
def log2 (num den : Nat) : Int :=
  let guess : Int := (num.log2 : Int) - (den.log2 : Int)
  let (lower, upper) := scale 1 1 guess
  if lower * den ≤ num * upper then guess else guess - 1

/-- The pattern nearest to the rational `num / den`, infinity from where it is nearest. -/
def nearest (f : Format) (num den : Nat) : Nat :=
  if num == 0 then 0
  else
    let place := max (log2 num den - f.fractionBits) f.leastExponent
    let (n, d) := scale num den (-place)
    let steps := (place - f.leastExponent).toNat
    min (steps * Nat.pow 2 f.fractionBits + roundDiv n d) f.infinity

/-- The pattern of the opposite value. -/
def negate (f : Format) (bits : Nat) : Nat :=
  let sign := Nat.pow 2 (f.fractionBits + f.exponentBits)
  if bits < sign then bits + sign else bits - sign

end Format

end Floating

namespace Single

/-- What a value denotes. -/
def value (x : Single) : Floating.Value :=
  Floating.single.read x.bits.toNat

/-- Neither infinite nor undefined. -/
def isFinite (x : Single) : Bool :=
  match x.value with
  | .finite .. => true
  | _ => false

/-- The opposite value. -/
def neg (x : Single) : Single :=
  ⟨UInt32.ofNat (Floating.single.negate x.bits.toNat)⟩

end Single

namespace Double

/-- What a value denotes. -/
def value (x : Double) : Floating.Value :=
  Floating.double.read x.bits.toNat

/-- Neither infinite nor undefined. -/
def isFinite (x : Double) : Bool :=
  match x.value with
  | .finite .. => true
  | _ => false

/-- The opposite value. -/
def neg (x : Double) : Double :=
  ⟨UInt64.ofNat (Floating.double.negate x.bits.toNat)⟩

/-- The nearest value of single precision. -/
def toSingle (x : Double) : Single :=
  match x.value with
  | .nan => ⟨0x7FC00000⟩
  | .infinite negative => signed negative Floating.single.infinity
  | .finite negative significand exponent =>
    let (num, den) := Floating.scale significand 1 exponent
    signed negative (Floating.single.nearest num den)
where
  /-- A pattern with a sign. -/
  signed (negative : Bool) (bits : Nat) : Single :=
    ⟨UInt32.ofNat (if negative then Floating.single.negate bits else bits)⟩

end Double

end ShaderLang
