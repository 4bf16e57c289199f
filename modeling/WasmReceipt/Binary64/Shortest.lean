import WasmReceipt.Binary64

/-! # The shortest decimal of a double

Among the decimals that round to a double, the ones with fewest digits are told apart by their
distance from it, and a tie goes to the even last digit. The search is exact: a double and the two
ends of the interval that rounds to it are quotients of natural numbers, and on the grid of
decimals with a given count of digits only the two neighbours of the double can be nearest. -/

namespace WasmReceipt.Binary64

/-- A positive quotient of natural numbers. -/
structure Quotient where
  num : Nat
  den : Nat

/-- `n * 2 ^ exponent`. -/
def Quotient.ofScaled (n : Nat) (exponent : Int) : Quotient :=
  if 0 ≤ exponent then ⟨n <<< exponent.toNat, 1⟩ else ⟨n, 1 <<< (-exponent).toNat⟩

/-- `n * 10 ^ exponent`. -/
def Quotient.ofDecimal (n : Nat) (exponent : Int) : Quotient :=
  if 0 ≤ exponent then ⟨n * powerOfTen exponent.toNat, 1⟩ else ⟨n, powerOfTen (-exponent).toNat⟩

def Quotient.below (a b : Quotient) : Bool := a.num * b.den < b.num * a.den

/-- The power of ten of the first digit. -/
def Quotient.magnitude (a : Quotient) : Int :=
  if a.den ≤ a.num then ((Nat.toDigits 10 (a.num / a.den)).length : Int) - 1
  else
    let j := (Nat.toDigits 10 (a.den / a.num)).length - 1
    if a.den ≤ a.num * powerOfTen j then -(j : Int) else -((j : Int) + 1)

/-- Whether a decimal rounds to the double. -/
def roundsTo (mantissa : Nat) (exponent : Int) (d : Quotient) : Bool :=
  let low := if mantissa = firstDigit ∧ -1074 < exponent
    then Quotient.ofScaled (4 * mantissa - 1) (exponent - 2)
    else Quotient.ofScaled (2 * mantissa - 1) (exponent - 1)
  let high := Quotient.ofScaled (2 * mantissa + 1) (exponent - 1)
  if mantissa % 2 = 0 then !d.below low && !high.below d else low.below d && d.below high

/-- The nearest decimal on the grid of a power of ten, of those that round to the double. -/
def nearestOn (mantissa : Nat) (exponent grid : Int) : Option Nat :=
  let v := Quotient.ofScaled mantissa exponent
  let unit := Quotient.ofDecimal 1 grid
  let q := v.num * unit.den / (v.den * unit.num)
  let twice := 2 * (v.num * unit.den % (v.den * unit.num))
  let size := v.den * unit.num
  let up := size < twice || (size == twice && q % 2 == 1)
  let first := if up then q + 1 else q
  let second := if up then q else q + 1
  [first, second].find? fun n => roundsTo mantissa exponent (Quotient.ofDecimal n grid)

/-- The shortest decimal from the given count of digits on: its digits and its power of ten. -/
def shortestFrom (mantissa : Nat) (exponent magnitude : Int) : (count fuel : Nat) → Nat × Int
  | count, 0 => ((nearestOn mantissa exponent (magnitude - count + 1)).getD 0, magnitude - count + 1)
  | count, fuel + 1 =>
    match nearestOn mantissa exponent (magnitude - count + 1) with
    | some n => (n, magnitude - count + 1)
    | none => shortestFrom mantissa exponent magnitude (count + 1) fuel

/-- The shortest decimal of a positive double: its digits and its power of ten. Seventeen digits
are always enough. -/
def shortest (mantissa : Nat) (exponent : Int) : Nat × Int :=
  shortestFrom mantissa exponent (Quotient.ofScaled mantissa exponent).magnitude 1 16

end WasmReceipt.Binary64
