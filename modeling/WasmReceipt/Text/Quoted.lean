import WasmReceipt.Text.Printable

/-! # Text in quotes

How a message shows a text that it was given: between single quotes, or between double quotes when
the text holds a single quote and no double one. What does not print is written as an escape with
two, four or eight hexadecimal digits, so that the message is one line. -/

namespace WasmReceipt.Text

def quotedChar (quote : Char) (c : CodePoint) : Text :=
  if c.is quote || c.is '\\' then [CodePoint.ofChar '\\', c]
  else if c.is '\n' then "\\n"
  else if c.is '\r' then "\\r"
  else if c.is '\t' then "\\t"
  else if c.isPrintable then [c]
  else if c.val < 0x100 then "\\x" ++ hexOfNat 2 c.val
  else if c.val < 0x10000 then "\\u" ++ hexOfNat 4 c.val
  else "\\U" ++ hexOfNat 8 c.val

def quoted (t : Text) : Text :=
  let quote := if t.any (·.is '\'') && !t.any (·.is '"') then '"' else '\''
  [CodePoint.ofChar quote] ++ t.flatMap (quotedChar quote) ++ [CodePoint.ofChar quote]

end WasmReceipt.Text
