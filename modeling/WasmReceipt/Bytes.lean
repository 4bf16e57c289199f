import WasmReceipt.Text.Blank

/-! # Bytes and their hexadecimal spelling

Keys, signatures and digests travel as hexadecimal text. Writing gives two lower-case digits a
byte. Reading takes either case and lets ASCII white space stand between bytes, but never between
the two digits of one byte. -/

namespace WasmReceipt

abbrev Bytes := List UInt8

namespace Bytes

def ofAscii (s : String) : Bytes := s.toList.map fun c => UInt8.ofNat c.toNat

/-- The two digits of a byte, high half first. -/
def hexPair (b : UInt8) : Text :=
  [CodePoint.hexDigit (b.toNat / 16), CodePoint.hexDigit (b.toNat % 16)]

def toHex (bytes : Bytes) : Text := bytes.flatMap hexPair

/-- Reads a spelling onto the bytes read so far, which are kept in reverse. -/
def readHex (done : Bytes) : Text → Option Bytes
  | [] => some done.reverse
  | [c] => if c.isAsciiBlank then some done.reverse else none
  | c :: d :: rest =>
    if c.isAsciiBlank then readHex done (d :: rest)
    else match c.hexValue?, d.hexValue? with
      | some high, some low => readHex (UInt8.ofNat (16 * high + low) :: done) rest
      | _, _ => none

/-- The bytes that a text spells, if it is a spelling. -/
def ofHex? (t : Text) : Option Bytes := readHex [] t

/-- Unsigned numbers in a fixed count of bytes, highest byte first. -/
def bigEndian (count n : Nat) : Bytes :=
  (List.range count).map fun i => UInt8.ofNat (n >>> (8 * (count - 1 - i)))

/-- Unsigned numbers in a fixed count of bytes, lowest byte first. -/
def littleEndian (count n : Nat) : Bytes :=
  (List.range count).map fun i => UInt8.ofNat (n >>> (8 * i))

/-- The number that bytes spell, lowest byte first. -/
def toNatLittleEndian (bytes : Bytes) : Nat :=
  bytes.foldr (fun b n => b.toNat + 256 * n) 0

end Bytes

end WasmReceipt
