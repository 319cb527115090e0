import Kestrel.Number.Decimal

/-!
# Number text

A `Style` lays out the shortest decimal of a double: when the digits stand at their places and when
an exponent follows them, whether a whole number shows a point, and how an exponent is signed.

## Main definitions

- `Style` — the decisions of a notation
- `Style.text` — the text of a double in a style
- `plain`, `text` — the notation of the language itself: always positional, whole numbers without
  a point
- `fixed` — a magnitude with a fixed number of places
-/

namespace Kestrel.Number

-- Powers of natural numbers are the built-in ones, whatever other powers are in scope.
attribute [local instance (high)] instPowNat

/-- How a notation lays out numbers. -/
structure Style where
  /-- Which of two equally near shortest decimals is written. -/
  tie : Tie
  /-- Digits stand at their places when the power of ten of the first one is at least the first
  number and below the second; always, if there are no bounds. -/
  positional : Option (Int × Int)
  /-- Whether a whole number in positional notation ends in `.0`. -/
  pointZero : Bool
  /-- Whether an exponent that is not negative has a plus sign. -/
  plusSign : Bool

/-- Digits at their places, the first one at the given power of ten. -/
def placed (pointZero : Bool) (digits : List Char) (power : Int) : List Char :=
  if power < 0 then
    '0' :: '.' :: (List.replicate (-power - 1).toNat '0' ++ digits)
  else
    let whole := power.toNat + 1
    if digits.length ≤ whole then
      digits ++ List.replicate (whole - digits.length) '0' ++ (if pointZero then ['.', '0'] else [])
    else
      digits.take whole ++ '.' :: digits.drop whole

/-- One digit, the others after a point, and the power of ten as an exponent. -/
def scaled (plusSign : Bool) (digits : List Char) (power : Int) : List Char :=
  let point := if 1 < digits.length then ['.'] else []
  let sign := if power < 0 then ['-'] else if plusSign then ['+'] else []
  digits.take 1 ++ point ++ digits.drop 1 ++ 'e' :: sign ++ Nat.toDigits 10 power.natAbs

/-- The significant digits of a decimal: those of its digits without zeros at the end. -/
def significantDigits (digits : List Char) : List Char :=
  match (digits.reverse.dropWhile (· == '0')).reverse with
  | [] => ['0']
  | kept => kept

namespace Style

/-- The text of a decimal in a style. -/
def layOut (style : Style) (d : Decimal) : List Char :=
  let digits := Nat.toDigits 10 d.digits
  let power : Int := (digits.length : Int) - 1 + d.exponent
  let kept := significantDigits digits
  let isPlaced := match style.positional with
    | none => true
    | some (low, high) => d.digits == 0 || (low ≤ power && power < high)
  if isPlaced then placed style.pointZero kept power else scaled style.plusSign kept power

/-- The text of a double in a style. The sign of a number that is none is never shown. -/
def text (style : Style) (x : Float) : String :=
  if x.isNaN then "NaN"
  else
    let sign := if isNegative x then "-" else ""
    if x.isInf then sign ++ "inf"
    else sign ++ String.ofList (style.layOut (shortest style.tie (magnitudeBits x)))

end Style

/-- The notation of the language itself. -/
def plain : Style := ⟨.up, none, false, false⟩

/-- The text of a number wherever a program or a listing shows one. -/
def text (x : Float) : String := plain.text x

/-- The magnitude of a finite double with a fixed number of places, the exact value rounded with
halves to even. -/
def fixed (places : Nat) (x : Float) : String :=
  let ratio := (Binary.ofBits (magnitudeBits x)).toRatio
  let units := roundDiv .toEven (ratio.1 * 10 ^ places) ratio.2
  let fraction := Nat.toDigits 10 (units % 10 ^ places)
  String.ofList (Nat.toDigits 10 (units / 10 ^ places) ++ '.' ::
    List.replicate (places - fraction.length) '0' ++ fraction)

end Kestrel.Number
