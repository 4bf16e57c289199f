import WasmReceipt.Failure

/-! # Client configuration

Where jobs run, with which runner, and how long to wait. Options come from the environment and from
overrides; for each option the override wins, then the environment, then the default. -/

namespace WasmReceipt

/-- Where a job runs. -/
inductive Mode where
  | here
  | remote
deriving DecidableEq

def Mode.name : Mode → Text
  | .here => "local"
  | .remote => "remote"

/-- The options of a client. Without a timeout a remote job may take what its manifest allows. -/
structure Config where
  mode : Mode
  runnerPath : Text
  waitTimeout : Option Int
deriving DecidableEq

namespace Config

/-- The runner that is started unless another one is named. -/
def defaultRunner : Text := "plasmd"

def names : List Text := ["mode", "runner_path", "wait_timeout"]

/-- A mode by its name. -/
def mode? : Field.Rule Mode
  | .string t =>
    if !t.isScalar then .fault .unpairedSurrogate
    else if t = Mode.here.name then .valid .here
    else if t = Mode.remote.name then .valid .remote
    else .fault .notMode
  | _ => .fault .notMode

/-- A count of seconds from one on. -/
def seconds : Field.Rule Int := fun v => (Field.laxInteger v).andThen (Field.atLeast 1)

/-- Reads options from members and refuses every other member. -/
def ofMembers (ms : Json.Members) : Checked Config :=
  Field.exactly ms names
    (mk <$> Field.withDefault ms "mode" .here mode?
      <*> Field.withDefault ms "runner_path" defaultRunner Field.nonEmptyText
      <*> Field.withDefault ms "wait_timeout" none (Field.nullable seconds))

def toMembers (c : Config) : Json.Members :=
  [("mode", .string c.mode.name), ("runner_path", .string c.runnerPath),
    ("wait_timeout", c.waitTimeout.elim .null .int)]

/-- Refuses options with a name that stands for something else in an operation. The first such
option is the one that is named. -/
def refuse (operation : Text) (reserved : List Text) (options : Json.Members) :
    Except Failure Unit :=
  match options.find? fun m => reserved.contains m.1 with
  | some m => .error (.reservedName operation m.1)
  | none => .ok ()

def ofOptions (options : Json.Members) : Except Failure Config := do
  refuse "ClientConfig.create" ["cls"] options
  (ofMembers options).orFail .config .badConfig

/-! ## The environment -/

/-- The variables that name options. -/
def settings : List (Text × Text) :=
  [("PLASM_MODE", "mode"), ("PLASMD_PATH", "runner_path"), ("PLASM_WAIT_TIMEOUT", "wait_timeout")]

/-- Whether a variable counts as unset. -/
def isUnset : Json → Bool
  | .null => true
  | .bool b => !b
  | .int n => n == 0
  | .float x => x.isZero
  | .string t => t.isEmpty
  | .array vs => vs.isEmpty
  | .object ms => ms.isEmpty

/-- The options that an environment sets. -/
def optionsOf (environment : Json.Members) : Json.Members :=
  settings.filterMap fun names =>
    match environment.get? names.1 with
    | some v => if isUnset v then none else some (names.2, v)
    | none => none

def ofEnvironment (environment overrides : Json.Members) : Except Failure Config := do
  refuse "ClientConfig.from_env" ["cls", "environ"] overrides
  ofOptions ((optionsOf environment).update overrides)

end Config

end WasmReceipt
