import WasmReceipt.Json.Printer

/-! # Spans of seconds

How long a job is waited for. A manifest asks for whole seconds; whoever waits may set a bound of
its own, which need not be whole. -/

namespace WasmReceipt

/-- A span of time in seconds. -/
inductive Seconds where
  | whole (n : Int)
  | double (x : Binary64)
deriving DecidableEq

namespace Seconds

def text : Seconds → Text
  | .whole n => Decimal.ofInt n
  | .double .nan => "nan"
  | .double (.infinite negative) => if negative then "-inf" else "inf"
  | .double x => Json.floatText x

/-- Whether the text of a span is not too long to be written. -/
def isWritable : Seconds → Bool
  | .whole n => Decimal.isWritable n
  | .double _ => true

end Seconds

end WasmReceipt
