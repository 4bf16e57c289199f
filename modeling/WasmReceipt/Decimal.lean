import WasmReceipt.Text.Blank
import WasmReceipt.Text.Digit

/-! # Integers in decimal

Writing gives the shortest decimal text. Three grammars are read. The exact one takes what writing
gives, and a minus in front of zero. The plain one also takes what is exact once it is tidied: white
space at the ends, a plus, zeros at the front, a fraction of zeros and single underscores are
dropped. The loose one takes the digits of every script with white space at the ends, a sign, and
single underscores between digits. None reads more than `maxDigits` digits. -/

namespace WasmReceipt.Decimal

/-- The longest integer, in digits, that is read or written. -/
def maxDigits : Nat := 4300

def ofNat (n : Nat) : Text := (Nat.toDigits 10 n).map CodePoint.ofChar

def ofInt : Int → Text
  | .ofNat n => ofNat n
  | .negSucc n => "-" ++ ofNat (n + 1)

def digitCount (i : Int) : Nat := (Nat.toDigits 10 i.natAbs).length

/-- Whether an integer is not too long to be written. -/
def isWritable (i : Int) : Bool := digitCount i ≤ maxDigits

/-- The number that digits spell, highest first. -/
def value (digits : List Nat) : Nat := digits.foldl (fun n d => 10 * n + d) 0

def asciiDigit? (c : CodePoint) : Option Nat :=
  if c.isDigit then some (c.val - 0x30) else none

/-- The digits of a text that is digits with single underscores between them. -/
def grouped? (digit? : CodePoint → Option Nat) : Text → Option (List Nat)
  | [] => none
  | [c] => (digit? c).map ([·])
  | c :: d :: rest =>
    match digit? c with
    | none => none
    | some n =>
      if d.is '_' then (grouped? digit? rest).map (n :: ·)
      else (grouped? digit? (d :: rest)).map (n :: ·)

/-- Why a text is read as no integer. -/
inductive Fault where
  | malformed
  | tooLong (digits : Nat)
deriving DecidableEq

/-- Takes a sign off the front. The flag tells a minus. -/
def takeSign : Text → Bool × Text
  | [] => (false, [])
  | c :: rest =>
    if c.is '-' then (true, rest)
    else if c.is '+' then (false, rest)
    else (false, c :: rest)

def signed (negative : Bool) (n : Nat) : Int := if negative then -(n : Int) else n

/-- Reads the loose grammar. A run of digits that is too long is told even if junk follows it. -/
def readLoose (t : Text) : Except Fault Int :=
  let (negative, body) := takeSign (t.strip CodePoint.isWhiteSpace)
  let run := body.takeWhile fun c => c.digitValue?.isSome || c.is '_'
  match grouped? CodePoint.digitValue? run with
  | none => .error .malformed
  | some digits =>
    if maxDigits < digits.length then .error (.tooLong digits.length)
    else if run.length < body.length then .error .malformed
    else .ok (signed negative (value digits))

/-! ## The plain grammar -/

/-- Reads the exact grammar: a minus or none, then a zero alone or digits that begin with another
one. A run of digits that is too long is told even if junk follows it. -/
def readExact (t : Text) : Except Fault Int :=
  let negative := t.head?.any (·.is '-')
  let body := if negative then t.drop 1 else t
  match body.takeWhile (·.isDigit) with
  | [] => .error .malformed
  | first :: others =>
    let digits := (first :: others).filterMap asciiDigit?
    if first.is '0' then
      if body.length = 1 then .ok 0 else .error .malformed
    else if maxDigits < digits.length then .error (.tooLong digits.length)
    else if digits.length < body.length then .error .malformed
    else .ok (signed negative (value digits))

/-- What follows a zero at the front. Zeros and underscores are dropped as far as another digit or a
minus; only the last of them stays in front of a point or at the end of the text. -/
def afterZero (last : CodePoint) : Text → Option Text
  | [] => some [last]
  | c :: rest =>
    if c.is '0' || c.is '_' then afterZero c rest
    else if c.isDigit || c.is '-' then some (c :: rest)
    else if c.is '.' then some (last :: c :: rest)
    else none

/-- A text without the zeros at its front. It has to begin with a digit. -/
def withoutLeadingZeros : Text → Option Text
  | [] => none
  | c :: rest =>
    if c.is '0' then afterZero c rest
    else if c.isDigit then some (c :: rest)
    else none

/-- The part of a text before a fraction that is a point and one or more zeros. A text without a
point is its own part; any other fraction gives nothing. -/
def withoutZeroFraction (t : Text) : Option Text :=
  match t.dropWhile (!·.is '.') with
  | [] => some t
  | _ :: zeros =>
    if !zeros.isEmpty && zeros.all (·.is '0') then some (t.takeWhile (!·.is '.')) else none

/-- A text without its underscores, each of which has to stand alone between other characters. -/
def withoutUnderscores (t : Text) : Option Text :=
  let parts := t.splitOn (CodePoint.ofChar '_')
  if parts.all (!·.isEmpty) then some parts.flatten else none

/-- The exact spelling that a text stands for, if there is one. -/
def tidied? (t : Text) : Option Text := do
  let (negative, body) := takeSign (t.strip CodePoint.isWhiteSpace)
  let body ← withoutUnderscores (← withoutZeroFraction (← withoutLeadingZeros body))
  return if negative then "-" ++ body else body

/-- Reads the plain grammar. Only a text that is exact up to its end or up to junk is told to be too
long; any other is malformed when it has too many digits. -/
def readPlain (t : Text) : Except Fault Int :=
  match readExact t, tidied? t with
  | .error .malformed, some spelling => (readExact spelling).mapError fun _ => .malformed
  | outcome, _ => outcome

end WasmReceipt.Decimal
