import WasmReceipt.Decimal

/-! # Binary floating-point numbers

The doubles of IEEE 754 as exact values: a sign and a natural number scaled by a power of two.
Every operation gives the exact result rounded to the nearest double, a tie to the even one. Only
what clocks and numeric fields need is here: reading a decimal, difference, product, and cutting
off the fraction. -/

namespace WasmReceipt

/-- A double. A finite one is `mantissa * 2 ^ exponent` with its sign; the mantissa is below
`2 ^ 53`, and zero has exponent `-1074`. -/
inductive Binary64 where
  | nan
  | infinite (negative : Bool)
  | finite (negative : Bool) (mantissa : Nat) (exponent : Int)
deriving DecidableEq

namespace Binary64

/-- The weight of the first of 53 binary digits. -/
def firstDigit : Nat := 1 <<< 52

def powerOfTen (n : Nat) : Nat := Nat.pow 10 n

def zero : Binary64 := .finite false 0 (-1074)

/-- Whether a double is zero, of either sign. -/
def isZero : Binary64 → Bool
  | .finite _ 0 _ => true
  | _ => false

/-- `num / den * 2 ^ (-exponent)` as a quotient of natural numbers. -/
def scaledDown (num den : Nat) (exponent : Int) : Nat × Nat :=
  if 0 ≤ exponent then (num, den <<< exponent.toNat) else (num <<< (-exponent).toNat, den)

/-- The exponent that gives the quotient 53 binary digits, or the least exponent there is. -/
def exponentOf (num den : Nat) : Int :=
  let guess : Int := (num.log2 : Int) - den.log2 - 52
  let (n, d) := scaledDown num den guess
  let exact := if n / d < firstDigit then guess - 1 else guess
  max exact (-1074)

def ofRatio (negative : Bool) (num den : Nat) : Binary64 :=
  if num = 0 then .finite negative 0 (-1074)
  else
    let exponent := exponentOf num den
    let (n, d) := scaledDown num den exponent
    let q := n / d
    let twice := 2 * (n % d)
    let q := if d < twice ∨ (d = twice ∧ q % 2 = 1) then q + 1 else q
    let (q, exponent) := if q = 2 * firstDigit then (firstDigit, exponent + 1) else (q, exponent)
    if 971 < exponent then .infinite negative else .finite negative q exponent

/-- The double nearest to an integer scaled by a power of two. -/
def ofScaled (n : Int) (exponent : Int) : Binary64 :=
  if 0 ≤ exponent then ofRatio (n < 0) (n.natAbs <<< exponent.toNat) 1
  else ofRatio (n < 0) n.natAbs (1 <<< (-exponent).toNat)

/-- The double nearest to `digits * 10 ^ exponent`. An exponent so large or so small that the
result is infinite or zero whatever the digits are is not raised to a power. -/
def ofDecimal (negative : Bool) (digits : Nat) (exponent : Int) : Binary64 :=
  let size : Int := (digits.log2 : Int) / 3 + 1
  if digits = 0 ∨ exponent + size < -400 then .finite negative 0 (-1074)
  else if 400 < exponent then .infinite negative
  else if 0 ≤ exponent then ofRatio negative (digits * powerOfTen exponent.toNat) 1
  else ofRatio negative digits (powerOfTen (-exponent).toNat)

def signedMantissa (negative : Bool) (mantissa : Nat) : Int :=
  if negative then -(mantissa : Int) else mantissa

def sub : Binary64 → Binary64 → Binary64
  | .finite n a e, .finite m b f =>
    let least := min e f
    let left := signedMantissa n (a <<< (e - least).toNat)
    let right := signedMantissa m (b <<< (f - least).toNat)
    ofScaled (left - right) least
  | .infinite n, .infinite m => if n = m then .nan else .infinite n
  | .infinite n, .finite .. => .infinite n
  | .finite .., .infinite m => .infinite (!m)
  | .nan, _ => .nan
  | _, .nan => .nan

def scale (x : Binary64) (factor : Nat) : Binary64 :=
  match x with
  | .finite n a e =>
    if 0 ≤ e then ofRatio n (a * factor <<< e.toNat) 1
    else ofRatio n (a * factor) (1 <<< (-e).toNat)
  | .infinite n => if factor = 0 then .nan else .infinite n
  | .nan => .nan

/-- Why a double has no integer part. -/
inductive NotFinite where
  | nan
  | infinite
deriving DecidableEq

def truncate : Binary64 → Except NotFinite Int
  | .finite n a e =>
    let whole := if 0 ≤ e then a <<< e.toNat else a >>> (-e).toNat
    .ok (signedMantissa n whole)
  | .infinite _ => .error .infinite
  | .nan => .error .nan

def isIntegral : Binary64 → Bool
  | .finite _ a e => decide (0 ≤ e) || a % (1 <<< (-e).toNat) == 0
  | _ => false

end Binary64

end WasmReceipt
