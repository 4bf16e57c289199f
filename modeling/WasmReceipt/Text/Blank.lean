import WasmReceipt.Text

/-! # White space

Four classes are in use. `isJsonBlank` is the white space that may stand between the tokens of a
JSON document. `isAsciiBlank` may stand between the bytes of a hexadecimal spelling. `isWhiteSpace`
is the White_Space property of Unicode, which surrounds numbers. `isBlank` adds the four
information separators and is dropped around key material. -/

namespace WasmReceipt.CodePoint

/-- Space, tab, line feed or carriage return. -/
def isJsonBlank (c : CodePoint) : Bool :=
  c.val == 0x20 || c.val == 0x09 || c.val == 0x0A || c.val == 0x0D

/-- The white space of ASCII: the space and the controls from tab to carriage return. -/
def isAsciiBlank (c : CodePoint) : Bool :=
  c.val == 0x20 || (0x09 ≤ c.val && c.val ≤ 0x0D)

/-- The White_Space property. -/
def isWhiteSpace (c : CodePoint) : Bool :=
  c.isAsciiBlank || c.val == 0x85 || c.val == 0xA0 || c.val == 0x1680 ||
    (0x2000 ≤ c.val && c.val ≤ 0x200A) || c.val == 0x2028 || c.val == 0x2029 ||
    c.val == 0x202F || c.val == 0x205F || c.val == 0x3000

/-- White space and the information separators. -/
def isBlank (c : CodePoint) : Bool :=
  c.isWhiteSpace || (0x1C ≤ c.val && c.val ≤ 0x1F)

end WasmReceipt.CodePoint
