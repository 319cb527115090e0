import Kestrel.Number.Rounding

/-!
# Doubles as exact numbers

The magnitude of a finite double is `significand * 2 ^ exponent`, with at most 53 bits in the
significand and an exponent of at least `-1074`. This module reads that number off the bits of a
double and finds the double nearest to a quotient of natural numbers, all in exact arithmetic.

## Main definitions

- `Binary` — a magnitude `significand * 2 ^ exponent`
- `Binary.ofBits` — the magnitude that a bit pattern without sign stands for
- `nearestBits` — the bit pattern nearest to a quotient, an exact half going to the even pattern
- `remainder` — the remainder of two doubles with the quotient truncated, which is always exact

## Design notes

Bit patterns of magnitudes are natural numbers below `2 ^ 63`. They are in the order of the
magnitudes, with infinity after the largest finite one, so a significand that rounds up to `2 ^ 53`
carries into the exponent field by plain addition.
-/

namespace Kestrel.Number

-- Powers of natural numbers are the built-in ones, whatever other powers are in scope.
attribute [local instance (high)] instPowNat

/-- The number `significand * 2 ^ exponent`. -/
structure Binary where
  significand : Nat
  exponent : Int
  deriving DecidableEq, Repr

/-- The exponent of the smallest positive double. -/
def leastExponent : Int := -1074

/-- The bit pattern of positive infinity. -/
def infinityBits : Nat := 2047 * 2 ^ (52 : Nat)

/-- The magnitude that a bit pattern stands for: without its hidden bit if the exponent field is
zero, with it otherwise. -/
def Binary.ofBits (bits : Nat) : Binary :=
  let field : Nat := bits / 2 ^ (52 : Nat)
  let fraction := bits % 2 ^ (52 : Nat)
  if field = 0 then ⟨fraction, leastExponent⟩
  else ⟨2 ^ (52 : Nat) + fraction, leastExponent - 1 + field⟩

/-- A magnitude as a quotient of natural numbers. -/
def Binary.toRatio (b : Binary) : Nat × Nat :=
  (b.significand * 2 ^ b.exponent.toNat, 2 ^ (-b.exponent).toNat)

/-- `num / den` in units of `2 ^ exponent`, as a quotient of natural numbers. -/
def inUnits (num den : Nat) (exponent : Int) : Nat × Nat :=
  (num * 2 ^ (-exponent).toNat, den * 2 ^ exponent.toNat)

/-- The exponent of the double nearest to `num / den`: the one that gives the significand 53 bits,
unless that lies below the least exponent. -/
def exponentFor (num den : Nat) : Int :=
  let guess : Int := (num.log2 : Int) - den.log2 - 53
  let units := inUnits num den guess
  let exponent := if units.1 < units.2 * 2 ^ (53 : Nat) then guess else guess + 1
  max exponent leastExponent

/-- The bit pattern of the double nearest to `num / den`; of two nearest ones, the even one. A
quotient too large for a finite double gives infinity. -/
def nearestBits (num den : Nat) : Nat :=
  if num = 0 then 0 else
  let exponent := exponentFor num den
  let units := inUnits num den exponent
  let significand := roundDiv .toEven units.1 units.2
  min ((exponent - leastExponent).toNat * 2 ^ (52 : Nat) + significand) infinityBits

/-- The bits of a double without its sign. -/
def magnitudeBits (x : Float) : Nat := x.toBits.toNat % 2 ^ (63 : Nat)

/-- Whether the sign of a double is set. Zero has a sign as well. -/
def isNegative (x : Float) : Bool := 2 ^ (63 : Nat) ≤ x.toBits.toNat

/-- The double with the given sign and magnitude bits. -/
def ofMagnitudeBits (negative : Bool) (bits : Nat) : Float :=
  Float.ofBits (UInt64.ofNat (if negative then bits + 2 ^ (63 : Nat) else bits))

/-- Not a number. -/
def notANumber : Float := Float.ofBits 0x7ff8000000000000

/-- The remainder of two magnitudes, exact in the units of the smaller exponent. -/
def Binary.mod (a b : Binary) : Binary :=
  let exponent := min a.exponent b.exponent
  let left := a.significand * 2 ^ (a.exponent - exponent).toNat
  let right := b.significand * 2 ^ (b.exponent - exponent).toNat
  ⟨left % right, exponent⟩

/-- `x - y * n`, where `n` is `x / y` truncated toward zero. The result is exact and has the sign
of `x`; there is none for an infinite `x` or a zero `y`. -/
def remainder (x y : Float) : Float :=
  if x.isNaN || y.isNaN || x.isInf || magnitudeBits y == 0 then notANumber
  else if y.isInf then x
  else
    let rest := (Binary.ofBits (magnitudeBits x)).mod (Binary.ofBits (magnitudeBits y))
    let ratio := rest.toRatio
    ofMagnitudeBits (isNegative x) (nearestBits ratio.1 ratio.2)

end Kestrel.Number
