import WasmReceipt.Field
import WasmReceipt.Json.Encoding
import WasmReceipt.Json.Printer
import WasmReceipt.Path
import WasmReceipt.Seconds
import WasmReceipt.Text.Quoted

/-! # Failures

A failure is a cause. Its kind says who is expected to handle it, and its message is made in one
place, from the cause. Kinds form a hierarchy: whoever handles a kind handles what lies below. -/

namespace WasmReceipt

/-! ## Kinds -/

/-- The kinds of failure. The seven from `library` on are this library's own. The last two stand for
all further kinds by their names: those of the operating system and those of anybody else. -/
inductive FailureKind where
  | root
  | base
  | ordinary
  | value
  | type
  | overflow
  | runtime
  | recursion
  | unicode
  | encoding
  | decoding
  | validation
  | os
  | connection
  | connectionRefused
  | brokenPipe
  | timeout
  | permission
  | fileNotFound
  | fileExists
  | notADirectory
  | isADirectory
  | library
  | format
  | missingKey
  | transport
  | noEligibleNode
  | jobTimeout
  | config
  | system (name : Text)
  | foreign (name : Text)
deriving DecidableEq

namespace FailureKind

/-- The kinds that a kind belongs to, itself first, the special before the general. -/
def lineage (kind : FailureKind) : List FailureKind :=
  let general := [ordinary, base, root]
  match kind with
  | root => [root]
  | base => [base, root]
  | ordinary => general
  | value => value :: general
  | type => type :: general
  | overflow => overflow :: general
  | runtime => runtime :: general
  | recursion => recursion :: runtime :: general
  | unicode => unicode :: value :: general
  | encoding => encoding :: unicode :: value :: general
  | decoding => decoding :: unicode :: value :: general
  | validation => validation :: value :: general
  | os => os :: general
  | connection => connection :: os :: general
  | connectionRefused => connectionRefused :: connection :: os :: general
  | brokenPipe => brokenPipe :: connection :: os :: general
  | timeout => timeout :: os :: general
  | permission => permission :: os :: general
  | fileNotFound => fileNotFound :: os :: general
  | fileExists => fileExists :: os :: general
  | notADirectory => notADirectory :: os :: general
  | isADirectory => isADirectory :: os :: general
  | library => library :: general
  | format => format :: library :: value :: general
  | missingKey => missingKey :: format :: library :: value :: general
  | transport => transport :: library :: runtime :: general
  | noEligibleNode => noEligibleNode :: transport :: library :: runtime :: general
  | jobTimeout => jobTimeout :: transport :: library :: runtime :: general
  | config => config :: library :: value :: general
  | system name => system name :: os :: general
  | foreign name => foreign name :: general

/-- Whether a kind is handled where another one is. -/
def isA (kind other : FailureKind) : Bool := kind.lineage.contains other

end FailureKind

/-! ## Causes -/

/-- What the operating system refuses about a path. -/
inductive PathTrouble where
  | notFound
  | exists
  | notDirectory
  | isDirectory
  | nameTooLong
  | denied
  | notOwner
deriving DecidableEq

/-- Which record a text was to be. -/
inductive DocumentKind where
  | receipt
  | manifest
deriving DecidableEq

/-- A value that stands for no number. -/
inductive NotNumber where
  | null
  | array
  | object
deriving DecidableEq

/-- Why an operation fails. -/
inductive Failure where
  -- documents and records
  | unreadable (fault : Json.Fault)
  | undecodable (fault : Json.EncodingFault)
  | noDocument
  | notObject (kind : DocumentKind)
  | badReceipt (invalid : Invalid)
  | badManifest (invalid : Invalid)
  | badLimits (invalid : Invalid)
  | badConfig (invalid : Invalid)
  | invalid (invalid : Invalid)
  | reservedName (operation name : Text)
  -- keys, signatures, content
  | notHex (what : Text)
  | wrongLength (what : Text) (expected actual : Nat)
  | markerAsKey
  | noPublicKey
  | noSignature
  | emptyJobId
  | emptyModule
  | moduleMismatch (expected actual : Text)
  -- numbers and text
  | longInteger (digits : Nat)
  | longIntegerText
  | notIntegerText (given : Text)
  | notNumber (given : NotNumber)
  | notFinite (fault : Binary64.NotFinite)
  | tooDeep
  | unencodable (fault : Utf8.EncodeFault)
  | notUtf8 (fault : Utf8.DecodeFault)
  | nulInPath
  | noContent
  -- files
  | path (trouble : PathTrouble) (path : Path)
  | noModule (path : Path)
  -- configuration and execution
  | configAndOptions
  | noCollaborators
  | spawn (text : Text)
  | discovery (text : Text)
  | unreachable (peer text : Text)
  | nodeHasMarker (peer : Text)
  | jobIdMismatch (expected actual : Text)
  | localReceipt
  | wrongSigner (signer expected : Text)
  | exitCodeMismatch (receipt reported : Int)
  | wrongModule (expected actual : Text)
  | noEligibleNode (moduleHash : Text) (cpuCores memoryMb : Int)
  | jobTimeout (job : Text) (seconds : Seconds)
  | raised (kind : FailureKind) (text : Text)
deriving DecidableEq

namespace Failure

def kind : Failure → FailureKind
  | unreadable _ | undecodable _ | notObject _ | badReceipt _ | badManifest _ | badLimits _ => .format
  | notHex _ | wrongLength _ _ _ | markerAsKey => .format
  | emptyJobId | emptyModule | moduleMismatch _ _ => .format
  | noPublicKey | noSignature => .missingKey
  | badConfig _ | configAndOptions | noCollaborators => .config
  | invalid _ => .validation
  | reservedName _ _ | notNumber _ | noDocument | noContent => .type
  | longInteger _ | longIntegerText | notIntegerText _ | nulInPath => .value
  | notFinite .nan => .value
  | notFinite .infinite => .overflow
  | tooDeep => .recursion
  | unencodable _ => .encoding
  | notUtf8 _ => .decoding
  | path .notFound _ | noModule _ => .fileNotFound
  | path .exists _ => .fileExists
  | path .notDirectory _ => .notADirectory
  | path .isDirectory _ => .isADirectory
  | path .nameTooLong _ => .os
  | path .denied _ | path .notOwner _ => .permission
  | spawn _ | discovery _ | unreachable _ _ | nodeHasMarker _ | jobIdMismatch _ _ => .transport
  | localReceipt | wrongSigner _ _ | exitCodeMismatch _ _ | wrongModule _ _ => .transport
  | noEligibleNode _ _ _ => .noEligibleNode
  | jobTimeout _ _ => .jobTimeout
  | raised kind _ => kind

/-- A failure with numbers in its message. If one of them is too long to be written, that is the
failure. -/
def ifWritable (writable : Bool) (failure : Failure) : Failure :=
  if writable then failure else longIntegerText

/-- The failure of a record with faults. If the faults cannot be told, that is the failure. -/
def ofInvalid (wrap : Invalid → Failure) (invalid : Invalid) : Failure :=
  match invalid.encodeFault? with
  | some fault => .unencodable fault
  | none => wrap invalid

end Failure

/-- The value of a record, or the failure of its faults. -/
def Checked.orFail (record : RecordKind) (wrap : Invalid → Failure) :
    Checked α → Except Failure α
  | .valid a => .ok a
  | .faulty faults => .error (.ofInvalid wrap ⟨record, faults⟩)

/-! ## Messages -/

def Json.Fault.message : Json.Fault → Text
  | .expectingValue => "Expecting value"
  | .expectingName => "Expecting property name enclosed in double quotes"
  | .expectingColon => "Expecting ':' delimiter"
  | .expectingComma => "Expecting ',' delimiter"
  | .extraData => "Extra data"
  | .unterminatedString => "Unterminated string starting at"
  | .controlCharacter => "Invalid control character at"
  | .badEscape => "Invalid \\escape"
  | .badUnicodeEscape => "Invalid \\uXXXX escape"
  | .byteOrderMark => "Unexpected UTF-8 BOM (decode using utf-8-sig)"

def Utf8.Reason.message : Utf8.Reason → Text
  | .invalidStart => "invalid start byte"
  | .invalidContinuation => "invalid continuation byte"
  | .unexpectedEnd => "unexpected end of data"

/-- The text of a reason why bytes are no text in their encoding. -/
def Json.EncodingFault.message : Json.EncodingFault → Text
  | .utf8 reason => reason.message
  | .units .truncated => "truncated data"
  | .units .outOfRange => "code point not in range(0x110000)"

def surrogateEscape (c : CodePoint) : Text := "\\u" ++ Text.hexOfNat 4 c.val

/-- What could not be encoded, and where. -/
def Utf8.EncodeFault.message (fault : Utf8.EncodeFault) : Text :=
  let start := Decimal.ofNat fault.start
  let what : Text :=
    if fault.length = 1 then
      "character '" ++ surrogateEscape fault.first ++ "' in position " ++ start
    else
      "characters in position " ++ start ++ "-" ++ Decimal.ofNat (fault.start + fault.length - 1)
  "'utf-8' codec can't encode " ++ what ++ ": surrogates not allowed"

/-- What could not be decoded, where and why. -/
def Utf8.DecodeFault.message (fault : Utf8.DecodeFault) : Text :=
  let start := Decimal.ofNat fault.start
  let what : Text :=
    if fault.length = 1 then
      "byte 0x" ++ Text.hexOfNat 2 fault.first.toNat ++ " in position " ++ start
    else "bytes in position " ++ start ++ "-" ++ Decimal.ofNat (fault.start + fault.length - 1)
  "'utf-8' codec can't decode " ++ what ++ ": " ++ fault.reason.message

/-- The number and the text of a trouble with a path. -/
def PathTrouble.message : PathTrouble → Text
  | .notFound => "[Errno 2] No such file or directory"
  | .exists => "[Errno 17] File exists"
  | .notDirectory => "[Errno 20] Not a directory"
  | .isDirectory => "[Errno 21] Is a directory"
  | .nameTooLong => "[Errno 36] File name too long"
  | .denied => "[Errno 13] Permission denied"
  | .notOwner => "[Errno 1] Operation not permitted"

def DocumentKind.noun : DocumentKind → Text
  | .receipt => "receipt"
  | .manifest => "manifest"

/-- The name of the type of a value that stands for no number. -/
def NotNumber.typeName : NotNumber → Text
  | .null => "NoneType"
  | .array => "list"
  | .object => "dict"

/-- A given text in quotes, cut to 200 code points. -/
def Text.quotedBriefly (t : Text) : Text := t.quoted.take 200

def Failure.message : Failure → Text
  | .unreadable fault => "Invalid JSON: " ++ fault.message
  | .undecodable fault => "Invalid JSON: not UTF-8 (" ++ fault.message ++ ")"
  | .noDocument => "the JSON object must be str, bytes or bytearray, not NoneType"
  | .notObject kind => "Invalid " ++ kind.noun ++ ": expected a JSON object"
  | .badReceipt v => "Invalid receipt: " ++ v.message
  | .badManifest v => "Invalid manifest: " ++ v.message
  | .badLimits v => "Invalid resource limits: " ++ v.message
  | .badConfig v => "Invalid client configuration: " ++ v.message
  | .invalid v => v.message
  | .reservedName operation name =>
    operation ++ "() got multiple values for argument '" ++ name ++ "'"
  | .notHex what => "Invalid " ++ what ++ " format: not valid hex"
  | .wrongLength what expected actual =>
    "Invalid " ++ what ++ " format: expected " ++ Decimal.ofNat expected ++ " bytes, got " ++
      Decimal.ofNat actual
  | .markerAsKey => "'local_execution' is a trust marker, not a public key"
  | .noPublicKey => "Receipt has no public key"
  | .noSignature => "Receipt has no signature"
  | .emptyJobId => "job_id cannot be empty"
  | .emptyModule => "wasm_bytes cannot be empty"
  | .moduleMismatch expected actual =>
    "Module hash mismatch: expected " ++ expected ++ ", got " ++ actual
  | .longInteger digits =>
    "Exceeds the limit (" ++ Decimal.ofNat Decimal.maxDigits ++
      " digits) for integer string conversion: value has " ++ Decimal.ofNat digits ++
      " digits; use sys.set_int_max_str_digits() to increase the limit"
  | .longIntegerText =>
    "Exceeds the limit (" ++ Decimal.ofNat Decimal.maxDigits ++
      " digits) for integer string conversion; use sys.set_int_max_str_digits() to increase the limit"
  | .notIntegerText given => "invalid literal for int() with base 10: " ++ given.quotedBriefly
  | .notNumber given =>
    "int() argument must be a string, a bytes-like object or a real number, not '" ++
      given.typeName ++ "'"
  | .notFinite .nan => "cannot convert float NaN to integer"
  | .notFinite .infinite => "cannot convert float infinity to integer"
  | .tooDeep => "maximum recursion depth exceeded"
  | .unencodable fault => fault.message
  | .notUtf8 fault => fault.message
  | .nulInPath => "embedded null byte"
  | .noContent => "object supporting the buffer API required"
  | .path trouble p => trouble.message ++ ": " ++ p.text.quoted
  | .noModule p => "WASM file not found: " ++ p.text
  | .configAndOptions => "Pass either a ClientConfig or keyword options, not both"
  | .noCollaborators => "Remote mode requires a node discovery and a job submitter"
  | .spawn text => "Failed to start plasmd process: " ++ text
  | .discovery text => "Node discovery failed: " ++ text
  | .unreachable peer text => "Remote peer " ++ peer ++ " unreachable: " ++ text
  | .nodeHasMarker peer => "Node " ++ peer ++ " advertises a local trust marker as its key"
  | .jobIdMismatch expected actual =>
    "Result job id mismatch. Expected " ++ expected ++ ", got " ++ actual
  | .localReceipt => "Remote node returned a receipt with the local trust marker"
  | .wrongSigner signer expected =>
    let shown : Text := if signer.isEmpty then "<none>" else signer
    "Receipt signed by " ++ shown ++ ", expected node key " ++ expected
  | .exitCodeMismatch receipt reported =>
    "Receipt exit code " ++ Decimal.ofInt receipt ++ " does not match reported exit code " ++
      Decimal.ofInt reported
  | .wrongModule expected actual =>
    "Receipt module hash mismatch. Expected " ++ expected ++ ", got " ++ actual
  | .noEligibleNode moduleHash cpuCores memoryMb =>
    "No eligible node found for " ++ moduleHash ++ " (cpu=" ++ Decimal.ofInt cpuCores ++
      ", memory_mb=" ++ Decimal.ofInt memoryMb ++ ")"
  | .jobTimeout job seconds =>
    "Job " ++ job ++ " did not finish within " ++ seconds.text ++ "s"
  | .raised _ text => text

end WasmReceipt
