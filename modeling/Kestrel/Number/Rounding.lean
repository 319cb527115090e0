/-!
# Rounding a quotient

`roundDiv` brings a quotient of natural numbers to the nearest natural number. An exact half has
two nearest numbers; a `Tie` says which of them is meant.

## Main definitions

- `Tie` — the even neighbour or the upper neighbour of an exact half
- `roundDiv` — the rounded quotient
-/

namespace Kestrel.Number

/-- Which neighbour an exact half is rounded to. -/
inductive Tie where
  | toEven
  | up
  deriving DecidableEq, Repr

/-- The number chosen for `quotient + 1/2`. -/
def Tie.settle (tie : Tie) (quotient : Nat) : Nat :=
  match tie with
  | .toEven => quotient + quotient % 2
  | .up => quotient + 1

/-- `num / den` rounded to the nearest natural number. -/
def roundDiv (tie : Tie) (num den : Nat) : Nat :=
  let quotient := num / den
  let twice := 2 * (num % den)
  if twice < den then quotient
  else if den < twice then quotient + 1
  else tie.settle quotient

/-- A quotient without remainder is left alone. -/
theorem roundDiv_mul_self (tie : Tie) (n den : Nat) (h : 0 < den) :
    roundDiv tie (n * den) den = n := by
  simp [roundDiv, Nat.mul_div_cancel _ h, h]

end Kestrel.Number
