import WasmReceipt.Decimal
import WasmReceipt.Text.Quoted

/-! # Reading the arguments of a command

A grammar says which options a command takes and what stands beside them: nothing, one operand, or
another command with arguments of its own. Every argument is first told to be an operand or an
option by its own text, and then all are taken from left to right. An option may be shortened as
long as only one fits. What fits nowhere is left over, and whoever reads the whole command line
decides about it. -/

namespace WasmReceipt.Arguments

/-- What an option does. The first two end the reading. -/
inductive Use where
  | help
  | version
  | mark
  | text
  | integer
deriving DecidableEq

/-- An option with its spellings. A spelling begins with two dashes, or with one and is a letter. -/
structure Parameter where
  spellings : List Text
  use : Use
  isRequired : Bool
deriving DecidableEq

def Parameter.title (p : Parameter) : Text := Text.join "/" p.spellings

/-- What a command takes beside its options. -/
inductive Operand where
  | absent
  | single (name : Text)
  | command (name : Text) (choices : List Text)

/-- The arguments that a command takes. -/
structure Grammar where
  program : Text
  parameters : List Parameter
  operand : Operand

/-- Why arguments are refused. -/
inductive Refusal where
  | ambiguous (given : Text) (spellings : List Text)
  | noValue (parameter : Parameter)
  | needlessValue (parameter : Parameter) (given : Text)
  | notInteger (parameter : Parameter) (given : Text)
  | unknownCommand (name given : Text) (choices : List Text)
  | missing (names : List Text)
  | leftOver (arguments : List Text)

def Refusal.message : Refusal → Text
  | ambiguous given spellings =>
    "ambiguous option: " ++ given ++ " could match " ++ Text.join ", " spellings
  | noValue p => "argument " ++ p.title ++ ": expected one argument"
  | needlessValue p given =>
    "argument " ++ p.title ++ ": ignored explicit argument " ++ given.quoted
  | notInteger p given => "argument " ++ p.title ++ ": invalid int value: " ++ given.quoted
  | unknownCommand name given choices =>
    "argument " ++ name ++ ": invalid choice: " ++ given.quoted ++ " (choose from " ++
      Text.join ", " (choices.map Text.quoted) ++ ")"
  | missing names => "the following arguments are required: " ++ Text.join ", " names
  | leftOver arguments => "unrecognized arguments: " ++ Text.join " " arguments

/-- Why reading ends before the last argument. -/
inductive Ending where
  | help
  | version
  | refused (refusal : Refusal)

/-! ## Telling options from operands -/

/-- A value that is written in one argument with its option: behind an equals sign, or right behind
the letter of an option that was spelled with one. -/
structure Attached where
  followsLetter : Bool
  value : Text

/-- What an argument is by its own text. -/
inductive Role where
  | operand
  | separator
  | option (parameter : Parameter) (attached : Option Attached)
  | unknownOption

/-- An argument as it was given and what it is. -/
structure Word where
  given : Text
  role : Role

/-- Two dashes: the beginning of a long spelling, or alone what separates operands. -/
def dashes : Text := "--"

/-- The parts of a text before and behind the first equals sign. -/
def splitAtEquals (t : Text) : Text × Option Text :=
  match t.dropWhile (!·.is '=') with
  | [] => (t, none)
  | _ :: value => (t.takeWhile (!·.is '='), some value)

/-- Whether a text is a minus and digits, which may have a point among them but not behind them.
A line feed at the end does not count. -/
def isNegativeNumber (t : Text) : Bool :=
  let t := if t.getLast?.any (·.is '\n') then t.dropLast else t
  match t with
  | [] => false
  | minus :: number =>
    let whole := number.takeWhile (·.digitValue?.isSome)
    match number.dropWhile (·.digitValue?.isSome) with
    | [] => minus.is '-' && !whole.isEmpty
    | point :: fraction =>
      minus.is '-' && point.is '.' && !fraction.isEmpty && fraction.all (·.digitValue?.isSome)

namespace Grammar

def parameter? (g : Grammar) (spelling : Text) : Option Parameter :=
  g.parameters.find? fun p => p.spellings.contains spelling

/-- The options that a shortened long spelling fits, each with the full spelling. -/
def shortenedFrom (g : Grammar) (stem : Text) : List (Parameter × Text) :=
  g.parameters.flatMap fun p => (p.spellings.filter stem.isPrefixOf).map fun s => (p, s)

/-- What an argument that begins with a dash is, when it is no full spelling. -/
def roleOfDashed (g : Grammar) (given : Text) : Except Refusal Role :=
  let (stem, value) := splitAtEquals given
  let attached := value.map (Attached.mk !dashes.isPrefixOf given)
  let fallback : Role :=
    if isNegativeNumber given || given.any (·.is ' ') then .operand else .unknownOption
  match value, g.parameter? stem with
  | some _, some p => .ok (.option p attached)
  | _, _ =>
    if dashes.isPrefixOf given then
      match g.shortenedFrom stem with
      | [] => .ok fallback
      | [(p, _)] => .ok (.option p attached)
      | several => .error (.ambiguous given (several.map Prod.snd))
    else
      match g.parameter? (given.take 2) with
      | some p => .ok (.option p (some ⟨true, given.drop 2⟩))
      | none => .ok fallback

/-- What an argument is. A single dash is an operand. -/
def role (g : Grammar) (given : Text) : Except Refusal Role :=
  match given with
  | [] => .ok .operand
  | [_] => .ok .operand
  | first :: _ =>
    if !first.is '-' then .ok .operand
    else
      match g.parameter? given with
      | some p => .ok (.option p none)
      | none => g.roleOfDashed given

/-- The arguments with what they are. Two dashes alone separate: all behind them are operands. -/
def words (g : Grammar) : List Text → Except Refusal (List Word)
  | [] => .ok []
  | given :: rest =>
    if given = dashes then
      .ok (⟨given, .separator⟩ :: rest.map fun t => ⟨t, .operand⟩)
    else do
      let role ← g.role given
      let rest ← g.words rest
      return ⟨given, role⟩ :: rest

end Grammar

/-! ## Taking arguments -/

/-- The value of an option. -/
inductive Value where
  | mark
  | text (t : Text)
  | integer (n : Int)

/-- What was taken so far: values of options, the last one first, the operand with what belongs to
it, and what is left over, the last one first. -/
structure Reading where
  values : List (Parameter × Value)
  operand : Option (Text × List Text)
  rest : List Text

namespace Reading

def start : Reading := ⟨[], none, []⟩

/-- Leaves an argument over. -/
def leave (r : Reading) (given : Text) : Reading := { r with rest := given :: r.rest }

def leaveAll (r : Reading) (given : List Text) : Reading := given.foldl leave r

def bind (r : Reading) (p : Parameter) (v : Value) : Reading :=
  { r with values := (p, v) :: r.values }

def value? (r : Reading) (spelling : Text) : Option Value :=
  (r.values.find? fun v => v.1.spellings.contains spelling).map (·.2)

def text? (r : Reading) (spelling : Text) : Option Text :=
  match r.value? spelling with
  | some (.text t) => some t
  | _ => none

def integer? (r : Reading) (spelling : Text) : Option Int :=
  match r.value? spelling with
  | some (.integer n) => some n
  | _ => none

def has (r : Reading) (spelling : Text) : Bool := (r.value? spelling).isSome

/-- What is left over, in order. -/
def leftOver (r : Reading) : List Text := r.rest.reverse

end Reading

def Grammar.hasLetter (g : Grammar) (c : CodePoint) : Bool :=
  (g.parameter? [CodePoint.ofChar '-', c]).isSome

/-- What is refused of a value that is attached to an option which takes none. Behind a letter it
may be a row of letters that spell options too, and only what follows them is refused. -/
def refusedValue (g : Grammar) (attached : Attached) : Option Text :=
  if attached.followsLetter && !attached.value.isEmpty then
    match attached.value.dropWhile g.hasLetter with
    | [] => none
    | refused => some refused
  else some attached.value

def Parameter.valueOf (p : Parameter) (t : Text) : Except Ending Value :=
  match p.use with
  | .integer =>
    match Decimal.readLoose t with
    | .ok n => .ok (.integer n)
    | .error _ => .error (.refused (.notInteger p t))
  | _ => .ok (.text t)

def Parameter.takesValue (p : Parameter) : Bool := p.use = .text || p.use = .integer

def Reading.flag (r : Reading) (p : Parameter) : Except Ending Reading :=
  match p.use with
  | .help => .error .help
  | .version => .error .version
  | _ => .ok (r.bind p .mark)

/-- Takes an option together with the value that is attached to it. -/
def Reading.attached (r : Reading) (g : Grammar) (p : Parameter) (a : Attached) :
    Except Ending Reading :=
  if p.takesValue then return r.bind p (← p.valueOf a.value)
  else
    match refusedValue g a with
    | some refused => .error (.refused (.needlessValue p refused))
    | none => r.flag p

/-- Takes what stands behind a separator, which is operands alone. A separator next to the operand
is dropped, and one in front of a command is read as its name. -/
def afterSeparator (g : Grammar) (r : Reading) (separator : Text) : List Text → Reading
  | [] => r.leave separator
  | first :: others =>
    match g.operand, r.operand with
    | .command _ _, none => { r with operand := some (separator, first :: others) }
    | .single _, none => { r with operand := some (first, []) }.leaveAll others
    | _, _ => r.leaveAll (separator :: first :: others)

def take (g : Grammar) (r : Reading) : List Word → Except Ending Reading
  | [] => .ok r
  | ⟨given, .unknownOption⟩ :: rest => take g (r.leave given) rest
  | ⟨_, .option p (some a)⟩ :: rest => do take g (← r.attached g p a) rest
  | ⟨_, .option p none⟩ :: rest =>
    if p.takesValue then
      match rest with
      | ⟨given, .operand⟩ :: others => do take g (r.bind p (← p.valueOf given)) others
      | _ => .error (.refused (.noValue p))
    else do take g (← r.flag p) rest
  | ⟨given, .operand⟩ :: rest =>
    match g.operand, r.operand with
    | .command _ _, none => .ok { r with operand := some (given, rest.map Word.given) }
    | .single _, none =>
      let taken : Reading := { r with operand := some (given, []) }
      match rest with
      | ⟨_, .separator⟩ :: others => .ok (taken.leaveAll (others.map Word.given))
      | rest => take g taken rest
    | _, _ => take g (r.leave given) rest
  | ⟨given, .separator⟩ :: rest => .ok (afterSeparator g r given (rest.map Word.given))

/-- The required arguments that are missing. The operand comes before all options of its own. -/
def missing (g : Grammar) (r : Reading) : List Text :=
  let operand : List Text :=
    match g.operand, r.operand with
    | .single name, none => [name]
    | _, _ => []
  let absent := g.parameters.filter fun p => p.isRequired && !(r.values.any fun v => v.1 == p)
  operand ++ absent.map Parameter.title

def checkCommand (g : Grammar) (r : Reading) : Except Ending Unit :=
  match g.operand, r.operand with
  | .command name choices, some (given, _) =>
    if choices.contains given then .ok ()
    else .error (.refused (.unknownCommand name given choices))
  | _, _ => .ok ()

def Grammar.read (g : Grammar) (arguments : List Text) : Except Ending Reading := do
  let words ← (g.words arguments).mapError .refused
  let r ← take g .start words
  checkCommand g r
  match missing g r with
  | [] => return r
  | names => throw (.refused (.missing names))

/-! ## Usage -/

/-- How usage shows an option: with a place for its value, in brackets if it may be left out. -/
def Parameter.usage (p : Parameter) : Text :=
  let spelling := p.spellings.headD []
  let shown : Text := if p.takesValue then spelling ++ " VALUE" else spelling
  if p.isRequired then shown else "[" ++ shown ++ "]"

/-- How usage shows what a command takes beside its options. -/
def Operand.usage : Operand → List Text
  | absent => []
  | single name => [name]
  | command _ choices => ["\x7b" ++ Text.join "," choices ++ "\x7d", "..."]

def Grammar.usage (g : Grammar) : Text :=
  let parts := g.program :: (g.parameters.map Parameter.usage ++ g.operand.usage)
  "usage: " ++ Text.join " " parts ++ "\n"

end WasmReceipt.Arguments
