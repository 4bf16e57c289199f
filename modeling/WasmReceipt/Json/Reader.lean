import WasmReceipt.Json.Token

/-! # Reading JSON

The tokens of a document are read one at a time against a stack of the arrays and objects that are
still open. What may come next is one of six things; a token that does not fit is reported as the
lack of the one that should have stood there. -/

namespace WasmReceipt.Json

/-- How deep arrays and objects may nest. -/
def maxDepth : Nat := 990

/-- An array or object that is open around the value being read: the items so far in reverse, or
the members so far and the name whose value comes. -/
inductive Frame where
  | array (done : List Json)
  | object (done : Members) (name : Text)

/-- What may come next. -/
inductive Expect where
  /-- A value. -/
  | value
  /-- A value, or the end of the array that has just been opened. -/
  | item
  /-- A name, or the end of the object that has just been opened. -/
  | member
  /-- A name, behind a comma. -/
  | name (done : Members)
  /-- The colon behind a name. -/
  | colon (done : Members) (name : Text)
  /-- Whatever follows a whole value. -/
  | after (value : Json)

/-- What a document lacks that ends where something may come. -/
def Expect.lack : Expect → Fault
  | .value => .expectingValue
  | .item => .expectingValue
  | .member => .expectingName
  | .name _ => .expectingName
  | .colon _ _ => .expectingColon
  | .after _ => .expectingComma

/-- The stack and what may come after a token that has to begin a value. -/
def beginValue (stack : List Frame) (token : Token) : Except ReadFault (List Frame × Expect) :=
  match token with
  | .string t => .ok (stack, .after (.string t))
  | .value v => .ok (stack, .after v)
  | .openArray =>
    if stack.length < maxDepth then .ok (.array [] :: stack, .item) else .error .tooDeep
  | .openObject =>
    if stack.length < maxDepth then .ok (stack, .member) else .error .tooDeep
  | .badString fault => .error (.text fault)
  | .badValue fault => .error fault
  | _ => .error (.text .expectingValue)

/-- The stack and what may come after a token that has to be a name. -/
def beginMember (stack : List Frame) (done : Members) (token : Token) :
    Except ReadFault (List Frame × Expect) :=
  match token with
  | .string name => .ok (stack, .colon done name)
  | .badString fault => .error (.text fault)
  | _ => .error (.text .expectingName)

/-- The stack and what may come after a token behind a whole value. -/
def endValue (stack : List Frame) (value : Json) (token : Token) :
    Except ReadFault (List Frame × Expect) :=
  match stack, token with
  | [], _ => .error (.text .extraData)
  | .array done :: stack, .comma => .ok (.array (value :: done) :: stack, .value)
  | .array done :: stack, .closeArray => .ok (stack, .after (.array (value :: done).reverse))
  | .object done name :: stack, .comma => .ok (stack, .name (done.set name value))
  | .object done name :: stack, .closeObject =>
    .ok (stack, .after (.object (done.set name value)))
  | _, _ => .error (.text .expectingComma)

def step (stack : List Frame) (expect : Expect) (token : Token) :
    Except ReadFault (List Frame × Expect) :=
  match expect, token with
  | .value, token => beginValue stack token
  | .item, .closeArray => .ok (stack.tail, .after (.array []))
  | .item, token => beginValue stack token
  | .member, .closeObject => .ok (stack, .after (.object []))
  | .member, token => beginMember stack [] token
  | .name done, token => beginMember stack done token
  | .colon done name, .colon => .ok (.object done name :: stack, .value)
  | .colon _ _, _ => .error (.text .expectingColon)
  | .after value, token => endValue stack value token

def run (stack : List Frame) (expect : Expect) : List Token → Except ReadFault Json
  | [] =>
    match stack, expect with
    | [], .after value => .ok value
    | _, expect => .error (.text expect.lack)
  | token :: rest =>
    match step stack expect token with
    | .ok (stack, expect) => run stack expect rest
    | .error fault => .error fault

def read (s : Text) : Except ReadFault Json := run [] .value (tokens s)

end WasmReceipt.Json
