import WasmReceipt.Text.Utf8

/-! # Module output

The daemon that runs a module lets it share its output stream, so the text of the module and the
daemon's log lines come in one stream. A module that prints no line feed at its end has the next
log line glued to it:

    dlroW ,olleH2025-11-09T04:50:35.000Z INFO done

The output of the module is recovered line by line, once escape sequences are gone: what stands
before the first timestamp of a line is the module's, and a line that begins with one is the
daemon's alone. -/

namespace WasmReceipt.ModuleOutput

/-! ## Escape sequences -/

/-- A parameter byte of a control sequence. -/
def isParameter (c : CodePoint) : Bool := 0x30 ≤ c.val && c.val ≤ 0x3F

/-- An intermediate byte of a control sequence. -/
def isIntermediate (c : CodePoint) : Bool := 0x20 ≤ c.val && c.val ≤ 0x2F

/-- The final byte of a control sequence. -/
def isFinal (c : CodePoint) : Bool := 0x40 ≤ c.val && c.val ≤ 0x7E

def isEscape (c : CodePoint) : Bool := c.val == 0x1B

/-- What follows a control sequence whose escape character has just been read, if the rest of it
is there: a bracket, parameters, intermediates and a final byte. -/
def afterSequence? (t : Text) : Option Text :=
  match t with
  | bracket :: rest =>
    if bracket.is '[' then
      match (rest.dropWhile isParameter).dropWhile isIntermediate with
      | final :: rest => if isFinal final then some rest else none
      | [] => none
    else none
  | [] => none

theorem afterSequence?_length {t rest : Text} (h : afterSequence? t = some rest) :
    rest.length < t.length := by
  unfold afterSequence? at h
  split at h
  · rename_i bracket t
    split at h
    · split at h
      · rename_i final tail heq
        split at h
        · cases h
          have h1 := (List.dropWhile_suffix (l := t) isParameter).length_le
          have h2 := (List.dropWhile_suffix (l := t.dropWhile isParameter) isIntermediate).length_le
          have h3 := congrArg List.length heq
          simp only [List.length_cons] at h3 ⊢
          omega
        · simp at h
      · simp at h
    · simp at h
  · simp at h

/-- Drops control sequences from a text onto the text so far, which is kept in reverse. -/
def dropSequences (done : Text) (t : Text) : Text :=
  match t with
  | [] => done.reverse
  | c :: rest =>
    if isEscape c then
      match h : afterSequence? rest with
      | some after =>
        have := afterSequence?_length h
        dropSequences done after
      | none => dropSequences (c :: done) rest
    else dropSequences (c :: done) rest
termination_by t.length
decreasing_by all_goals simp_all <;> omega

/-- A text without its complete control sequences. A broken one stays as it is. -/
def plain (t : Text) : Text := dropSequences [] t

/-! ## Lines -/

/-- Whether a text begins with a date and the letter that a time follows. -/
def beginsWithTimestamp : Text → Bool
  | a :: b :: c :: d :: h1 :: e :: f :: h2 :: g :: h :: t :: _ =>
    a.isDigit && b.isDigit && c.isDigit && d.isDigit && h1.is '-' && e.isDigit && f.isDigit &&
      h2.is '-' && g.isDigit && h.isDigit && t.is 'T'
  | _ => false

/-- The part of a line before its first timestamp, onto the part so far, which is kept in
reverse. -/
def untilTimestamp (done : Text) : Text → Text
  | [] => done.reverse
  | c :: rest =>
    if beginsWithTimestamp (c :: rest) then done.reverse else untilTimestamp (c :: done) rest

/-- White space that is dropped around the output on a line. -/
def isTrimmed (c : CodePoint) : Bool :=
  c.val == 0x20 || c.val == 0x09 || c.val == 0x0A || c.val == 0x0D || c.val == 0x00 ||
    c.val == 0x0B

/-- The module's part of a line, if there is any. -/
def ofLine (line : Text) : Option Text :=
  if beginsWithTimestamp line then none
  else
    let part := (untilTimestamp [] line).strip isTrimmed
    if part.isEmpty then none else some part

/-- The output of the module in a stream that it shares with the daemon. -/
def extract (stream : Text) : Text := Text.join "\n" ((plain stream).lines.filterMap ofLine)

/-- The output of the module in the bytes of such a stream. -/
def ofBytes (bytes : Bytes) : Text := extract (Utf8.decodeReplacing bytes)

end WasmReceipt.ModuleOutput
