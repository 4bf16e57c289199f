import WasmReceipt.Json

/-! # JSON tokens

A document is cut into tokens before its structure is looked at. Where the text goes wrong the
tokens end in one that says how; whether that is the fault to report depends on what could have
stood there, which the reader of the tokens knows. -/

namespace WasmReceipt.Json

/-- What is wrong with a document. -/
inductive Fault where
  | expectingValue
  | expectingName
  | expectingColon
  | expectingComma
  | extraData
  | unterminatedString
  | controlCharacter
  | badEscape
  | badUnicodeEscape
  | byteOrderMark
deriving DecidableEq

/-- Why a document gives no value: its text is at fault, an integer is too long to be read, or
values nest too deep. -/
inductive ReadFault where
  | text (fault : Fault)
  | longInteger (digits : Nat)
  | tooDeep
deriving DecidableEq

/-- A token. A string may be a name as well as a value, every other value is whole. The last two
end a document that goes wrong: a string with a fault in it, and what can begin no token or an
integer that cannot be read. -/
inductive Token where
  | openArray
  | closeArray
  | openObject
  | closeObject
  | colon
  | comma
  | string (value : Text)
  | value (value : Json)
  | badString (fault : Fault)
  | badValue (fault : ReadFault)

/-! ## Strings -/

/-- The value of four hexadecimal digits. -/
def hexUnit? (a b c d : CodePoint) : Option CodePoint := do
  let a ← a.hexValue?
  let b ← b.hexValue?
  let c ← c.hexValue?
  let d ← d.hexValue?
  return CodePoint.ofNat (((a * 16 + b) * 16 + c) * 16 + d)

/-- The code point of an escape of one letter. -/
def shortEscape? (c : CodePoint) : Option CodePoint :=
  if c.is '"' || c.is '\\' || c.is '/' then some c
  else if c.is 'b' then some (CodePoint.ofNat 0x08)
  else if c.is 'f' then some (CodePoint.ofNat 0x0C)
  else if c.is 'n' then some (CodePoint.ofNat 0x0A)
  else if c.is 'r' then some (CodePoint.ofNat 0x0D)
  else if c.is 't' then some (CodePoint.ofNat 0x09)
  else none

/-- The low surrogate that an escape at the front names, and what follows it. The document may not
end with the escape. -/
def lowEscape? : Text → Option (CodePoint × Text)
  | backslash :: u :: a :: b :: c :: d :: next :: rest =>
    if backslash.is '\\' && u.is 'u' then
      match hexUnit? a b c d with
      | some low => if low.isLowSurrogate then some (low, next :: rest) else none
      | none => none
    else none
  | _ => none

theorem lowEscape?_length {s rest : Text} {c : CodePoint} (h : lowEscape? s = some (c, rest)) :
    rest.length < s.length := by
  unfold lowEscape? at h
  split at h
  · split at h
    · split at h
      · split at h
        · simp only [Option.some.injEq, Prod.mk.injEq] at h
          simp [← h.2]
        · simp at h
      · simp at h
    · simp at h
  · simp at h

/-- Reads a string from behind its opening quote to behind its closing one, onto the code points
so far, which are kept in reverse. Two escapes that spell a surrogate pair give one code point. -/
def readString (done : Text) (s : Text) : Except Fault (Text × Text) :=
  match s with
  | [] => .error .unterminatedString
  | c :: rest =>
    if c.is '"' then .ok (done.reverse, rest)
    else if c.is '\\' then
      match rest with
      | [] => .error .unterminatedString
      | e :: rest =>
        if e.is 'u' then
          match rest with
          | a :: b :: x :: d :: next :: rest =>
            match hexUnit? a b x d with
            | none => .error .badUnicodeEscape
            | some unit =>
              if unit.isHighSurrogate then
                match h : lowEscape? (next :: rest) with
                | some (low, after) =>
                  have := lowEscape?_length h
                  readString (CodePoint.joinSurrogates unit low :: done) after
                | none => readString (unit :: done) (next :: rest)
              else readString (unit :: done) (next :: rest)
          | _ => .error .badUnicodeEscape
        else
          match shortEscape? e with
          | some x => readString (x :: done) rest
          | none => .error .badEscape
    else if c.val < 0x20 then .error .controlCharacter
    else readString (c :: done) rest
termination_by s.length
decreasing_by all_goals simp_all <;> omega

/-! ## Numbers -/

/-- The fraction at the front: a point and at least one digit. -/
def takeFraction (s : Text) : Text × Text :=
  match s with
  | point :: rest =>
    if point.is '.' && !(rest.takeWhile CodePoint.isDigit).isEmpty then
      (rest.takeWhile CodePoint.isDigit, rest.dropWhile CodePoint.isDigit)
    else ([], s)
  | [] => ([], s)

/-- The exponent at the front: a letter, perhaps a sign, and at least one digit. -/
def takeExponent (s : Text) : Option (Bool × Text) × Text :=
  match s with
  | e :: rest =>
    let (negative, body) := Decimal.takeSign rest
    if (e.is 'e' || e.is 'E') && !(body.takeWhile CodePoint.isDigit).isEmpty then
      (some (negative, body.takeWhile CodePoint.isDigit), body.dropWhile CodePoint.isDigit)
    else (none, s)
  | [] => (none, s)

def digitsValue (digits : Text) : Nat := Decimal.value (digits.map (·.val - 0x30))

/-- The token of a number from its parts. -/
def numberToken (negative : Bool) (whole fraction : Text) (exponent : Option (Bool × Text)) :
    Token :=
  if fraction.isEmpty && exponent.isNone then
    if Decimal.maxDigits < whole.length then .badValue (.longInteger whole.length)
    else .value (.int (Decimal.signed negative (digitsValue whole)))
  else
    let power := match exponent with
      | some (negative, digits) => Decimal.signed negative (digitsValue digits)
      | none => 0
    .value (.float (Binary64.ofDecimal negative (digitsValue (whole ++ fraction))
      (power - fraction.length)))

/-- The digits before a fraction: one zero, or digits that begin with another. -/
def takeWhole (s : Text) : Text × Text :=
  match s with
  | c :: rest =>
    if c.is '0' then ([c], rest)
    else (s.takeWhile CodePoint.isDigit, s.dropWhile CodePoint.isDigit)
  | [] => ([], [])

/-- The number at the front, behind its sign. -/
def readNumber (negative : Bool) (s : Text) : Option (Token × Text) :=
  let (whole, rest) := takeWhole s
  if whole.isEmpty then none
  else
    let (fraction, rest) := takeFraction rest
    let (exponent, rest) := takeExponent rest
    some (numberToken negative whole fraction exponent, rest)

/-! ## The tokens of a document -/

/-- The words that are values. -/
def words : List (Text × Json) :=
  [("null", .null), ("true", .bool true), ("false", .bool false), ("NaN", .float .nan),
    ("Infinity", .float (.infinite false)), ("-Infinity", .float (.infinite true))]

def readWord (s : Text) : Option (Token × Text) :=
  (words.find? fun w => w.1.isPrefixOf s).map fun w => (.value w.2, s.drop w.1.length)

def readScalar (s : Text) : Option (Token × Text) :=
  match readWord s with
  | some found => some found
  | none =>
    match s with
    | c :: rest => if c.is '-' then readNumber true rest else readNumber false (c :: rest)
    | [] => none

/-- The punctuation mark that a code point is. -/
def mark? (c : CodePoint) : Option Token :=
  if c.is '[' then some .openArray
  else if c.is ']' then some .closeArray
  else if c.val == 0x7B then some .openObject
  else if c.val == 0x7D then some .closeObject
  else if c.is ':' then some .colon
  else if c.is ',' then some .comma
  else none

/-- The token at the front of a text that does not begin with white space. -/
def readToken (c : CodePoint) (rest : Text) : Token × Text :=
  match mark? c with
  | some token => (token, rest)
  | none =>
    if c.is '"' then
      match readString [] rest with
      | .ok (value, rest) => (.string value, rest)
      | .error fault => (.badString fault, [])
    else
      match readScalar (c :: rest) with
      | some found => found
      | none => (.badValue (.text .expectingValue), [])

/-! Every token is shorter than what it is read from. -/

theorem readString_length {done s value rest : Text}
    (h : readString done s = .ok (value, rest)) : rest.length < s.length := by
  fun_induction readString done s <;> simp_all <;> grind [lowEscape?_length]

theorem takeFraction_length (s : Text) : (takeFraction s).2.length ≤ s.length := by
  unfold takeFraction
  split
  · split
    · rename_i rest _
      have := (List.dropWhile_suffix (l := rest) CodePoint.isDigit).length_le
      simp
      omega
    · simp
  · simp

theorem takeSign_length (s : Text) : (Decimal.takeSign s).2.length ≤ s.length := by
  unfold Decimal.takeSign
  split
  · simp
  · split
    · simp
    · split <;> simp

theorem takeExponent_length (s : Text) : (takeExponent s).2.length ≤ s.length := by
  unfold takeExponent
  split
  · rename_i e rest
    have hs := takeSign_length rest
    have := (List.dropWhile_suffix (l := (Decimal.takeSign rest).2) CodePoint.isDigit).length_le
    dsimp only
    split
    · simp only [List.length_cons]
      omega
    · simp
  · simp

theorem takeWhole_length (s : Text) (h : (takeWhole s).1.isEmpty = false) :
    (takeWhole s).2.length < s.length := by
  unfold takeWhole at h ⊢
  split
  · rename_i c rest
    split
    · simp
    · rename_i hc
      simp only [hc, Bool.false_eq_true, if_false] at h
      have := List.takeWhile_append_dropWhile (p := CodePoint.isDigit) (l := c :: rest)
      have := congrArg List.length this
      simp only [List.length_append] at this
      have : (List.takeWhile CodePoint.isDigit (c :: rest)).length ≠ 0 := by
        intro h0
        simp [List.eq_nil_of_length_eq_zero h0] at h
      show (List.dropWhile CodePoint.isDigit (c :: rest)).length < _
      omega
  · simp at h

theorem readNumber_length {negative : Bool} {s rest : Text} {token : Token}
    (h : readNumber negative s = some (token, rest)) : rest.length < s.length := by
  unfold readNumber at h
  dsimp only at h
  split at h
  · simp at h
  · rename_i hw
    have h1 := takeWhole_length s (by simpa using hw)
    have h2 := takeFraction_length (takeWhole s).2
    have h3 := takeExponent_length (takeFraction (takeWhole s).2).2
    simp only [Option.some.injEq, Prod.mk.injEq] at h
    rw [← h.2]
    omega

theorem readWord_length {s rest : Text} {token : Token}
    (h : readWord s = some (token, rest)) : rest.length < s.length := by
  simp only [readWord, Option.map_eq_some_iff, Prod.mk.injEq] at h
  obtain ⟨w, hw, _, rfl⟩ := h
  have hf : w.1.isPrefixOf s = true :=
    List.find?_some (p := fun w : Text × Json => w.1.isPrefixOf s) hw
  have hp := List.isPrefixOf_iff_prefix.1 hf
  have hl := hp.length_le
  have hpos : 0 < w.1.length := by
    have := List.mem_of_find?_eq_some hw
    simp only [words, List.mem_cons, List.not_mem_nil, or_false] at this
    rcases this with rfl | rfl | rfl | rfl | rfl | rfl <;> decide
  simp only [List.length_drop]
  omega

theorem readScalar_length {s rest : Text} {token : Token}
    (h : readScalar s = some (token, rest)) : rest.length < s.length := by
  unfold readScalar at h
  split at h
  · rename_i found hf
    cases h
    exact readWord_length hf
  · split at h
    · split at h
      · have := readNumber_length h
        simp
        omega
      · exact readNumber_length h
    · simp at h

theorem readToken_length (c : CodePoint) (rest : Text) :
    (readToken c rest).2.length < (c :: rest).length := by
  unfold readToken
  split
  · simp
  · split
    · split
      · rename_i h
        have := readString_length h
        simp
        omega
      · simp
    · split
      · rename_i found hf
        exact readScalar_length hf
      · simp

/-- Reads the tokens of a text onto the tokens so far, which are kept in reverse. -/
def readTokens (done : List Token) (s : Text) : List Token :=
  match s with
  | [] => done.reverse
  | c :: rest =>
    if c.isJsonBlank then readTokens done rest
    else readTokens ((readToken c rest).1 :: done) (readToken c rest).2
termination_by s.length
decreasing_by
  · simp
  · exact readToken_length c rest

def tokens (s : Text) : List Token := readTokens [] s

end WasmReceipt.Json
