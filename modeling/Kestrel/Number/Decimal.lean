import Kestrel.Number.Binary64

/-!
# Decimals

A decimal is `digits * 10 ^ exponent`. This module reads decimals from numerals, brings them to the
nearest double, and finds the decimal with the fewest digits that reads back as a given double.

## Main definitions

- `Decimal` — a decimal
- `Decimal.ofNumeral` — the decimal that a numeral writes down
- `Decimal.toFloat` — the nearest double
- `shortest` — the shortest decimal that reads back as a given double

## Design notes

The shortest decimal is found by trying ever finer grids of decimals. On a grid only the two
neighbours of the value can read back, and a neighbour is tried by reading it back. The search ends
at the grid that holds the value itself, so it needs no bound from outside.
-/

namespace Kestrel.Number

-- Powers of natural numbers are the built-in ones, whatever other powers are in scope.
attribute [local instance (high)] instPowNat

/-- The number `digits * 10 ^ exponent`. -/
structure Decimal where
  digits : Nat
  exponent : Int
  deriving DecidableEq, Repr

namespace Decimal

/-- The decimal that a numeral writes down, given the digits before and after its point. -/
def ofNumeral (whole fraction : List Char) : Decimal :=
  ⟨Nat.ofDigitChars 10 (whole ++ fraction) 0, -fraction.length⟩

/-- A decimal as a quotient of natural numbers. -/
def toRatio (d : Decimal) : Nat × Nat :=
  (d.digits * 10 ^ d.exponent.toNat, 10 ^ (-d.exponent).toNat)

/-- The bit pattern of the double nearest to a decimal. -/
def toBits (d : Decimal) : Nat :=
  let ratio := d.toRatio
  nearestBits ratio.1 ratio.2

/-- The double nearest to a decimal. -/
def toFloat (d : Decimal) : Float :=
  ofMagnitudeBits false d.toBits

end Decimal

/-- How many decimal digits a natural number has. -/
def digitCount (n : Nat) : Nat := (Nat.toDigits 10 n).length

/-- The power of ten just above `num / den`, when the quotient is no power of ten below one. -/
def pointPosition (num den : Nat) : Int :=
  if den ≤ num then digitCount (num / den) else 1 - (digitCount (den / num) : Int)

/-- The better neighbour of `num / den` among the multiples of `10 ^ grid` that reads back as
`bits`: the nearer one if both do. -/
def onGrid? (tie : Tie) (bits num den : Nat) (grid : Int) : Option Decimal :=
  let num := num * 10 ^ (-grid).toNat
  let den := den * 10 ^ grid.toNat
  let nearest := roundDiv tie num den
  let other := 2 * (num / den) + 1 - nearest
  if Decimal.toBits ⟨nearest, grid⟩ = bits then some ⟨nearest, grid⟩
  else if Decimal.toBits ⟨other, grid⟩ = bits then some ⟨other, grid⟩
  else none

/-- The first hit on the grids from `grid` downward; the value itself `steps` grids further on. -/
def searchGrids (tie : Tie) (bits num den : Nat) : (steps : Nat) → (grid : Int) → Decimal
  | 0, grid => ⟨num * 10 ^ (-grid).toNat / (den * 10 ^ grid.toNat), grid⟩
  | steps + 1, grid =>
    match onGrid? tie bits num den grid with
    | some d => d
    | none => searchGrids tie bits num den steps (grid - 1)

/-- The decimal with the fewest digits that reads back as the finite double with these magnitude
bits, and of those the nearest. -/
def shortest (tie : Tie) (bits : Nat) : Decimal :=
  if bits = 0 then ⟨0, 0⟩ else
  let value := Binary.ofBits bits
  let ratio := value.toRatio
  let first := pointPosition ratio.1 ratio.2 - 1
  searchGrids tie bits ratio.1 ratio.2 (first - min value.exponent 0).toNat first

end Kestrel.Number
