/-! # Text as code points

A text is a list of Unicode code points, surrogates included: an escape in a JSON document can
name half of a surrogate pair, and the receipt that carries it is still a receipt. Whether a text
can be encoded is a question asked later, where bytes are made of it. -/

namespace WasmReceipt

/-- A Unicode code point. Surrogates are code points too. -/
structure CodePoint where
  val : Nat
  val_lt : val < 0x110000
deriving DecidableEq

/-- Text, in order of its code points. -/
abbrev Text := List CodePoint

namespace CodePoint

def ofChar (c : Char) : CodePoint :=
  ⟨c.toNat, by
    have h := c.valid
    simp only [UInt32.isValidChar, Nat.isValidChar] at h
    show c.val.toNat < 0x110000
    omega⟩

/-- The code point of a number in range; a number out of range gives the replacement character. -/
def ofNat (n : Nat) : CodePoint :=
  if h : n < 0x110000 then ⟨n, h⟩ else ⟨0xFFFD, by decide⟩

/-- What stands for a part of a byte string that is no character. -/
def replacement : CodePoint := ⟨0xFFFD, by decide⟩

def is (c : CodePoint) (k : Char) : Bool := c.val == k.toNat

def isHighSurrogate (c : CodePoint) : Bool := 0xD800 ≤ c.val && c.val < 0xDC00

def isLowSurrogate (c : CodePoint) : Bool := 0xDC00 ≤ c.val && c.val < 0xE000

/-- A code point that no encoding form can carry alone. -/
def isSurrogate (c : CodePoint) : Bool := 0xD800 ≤ c.val && c.val < 0xE000

/-- The one astral code point that a high and a low surrogate spell. -/
def joinSurrogates (high low : CodePoint) : CodePoint :=
  ofNat (0x10000 + (high.val - 0xD800) * 0x400 + (low.val - 0xDC00))

def isDigit (c : CodePoint) : Bool := 0x30 ≤ c.val && c.val ≤ 0x39

/-- The value of a hexadecimal digit, in either case. -/
def hexValue? (c : CodePoint) : Option Nat :=
  if 0x30 ≤ c.val ∧ c.val ≤ 0x39 then some (c.val - 0x30)
  else if 0x41 ≤ c.val ∧ c.val ≤ 0x46 then some (c.val - 0x41 + 10)
  else if 0x61 ≤ c.val ∧ c.val ≤ 0x66 then some (c.val - 0x61 + 10)
  else none

/-- The lower-case hexadecimal digit of a value below sixteen. -/
def hexDigit (n : Nat) : CodePoint :=
  if n < 10 then ofNat (0x30 + n) else ofNat (0x61 + (n - 10))

end CodePoint

namespace Text

/-- The code points of a string, which has no surrogates. -/
def ofString (s : String) : Text := s.toList.map CodePoint.ofChar

instance : Coe String Text := ⟨ofString⟩

/-- The characters of a text. A surrogate is none, and the replacement character stands for it. -/
def toString (t : Text) : String :=
  String.ofList (t.map fun c => if c.isSurrogate then '\uFFFD' else Char.ofNat c.val)

/-- Drops code points of a class from both ends. -/
def strip (p : CodePoint → Bool) (t : Text) : Text :=
  ((t.dropWhile p).reverse.dropWhile p).reverse

/-- The parts between line feeds. There is always at least one. -/
def lines (t : Text) : List Text := t.splitOn (CodePoint.ofChar '\n')

/-- The parts of a list, with a separator between neighbours. -/
def join (separator : Text) (parts : List Text) : Text := List.intercalate separator parts

/-- Whether all code points can be encoded. -/
def isScalar (t : Text) : Bool := t.all (!·.isSurrogate)

/-- The order of the first difference; a proper beginning comes first. -/
def le : Text → Text → Bool
  | [], _ => true
  | _ :: _, [] => false
  | a :: s, b :: t => a.val < b.val || (a.val == b.val && le s t)

/-- A number written with a fixed count of lower-case hexadecimal digits. -/
def hexOfNat (width n : Nat) : Text :=
  (List.range width).map fun i => CodePoint.hexDigit (n >>> (4 * (width - 1 - i)) % 16)

end Text

end WasmReceipt
