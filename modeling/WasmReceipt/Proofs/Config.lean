import WasmReceipt.Config
import WasmReceipt.Proofs.Decimal.Plain
import WasmReceipt.Proofs.Manifest.Changes

/-! # Layers of configuration

Each option of a client has three layers: an override, a variable of the environment, a default. The
first of them that is there decides what the option is, and no option has a say in another one. -/

namespace WasmReceipt.Config

/-! ## Options and their values -/

inductive Setting where
  | mode
  | runnerPath
  | waitTimeout
deriving DecidableEq

namespace Setting

def all : List Setting := [.mode, .runnerPath, .waitTimeout]

def name : Setting → Text
  | .mode => "mode"
  | .runnerPath => "runner_path"
  | .waitTimeout => "wait_timeout"

def variableName : Setting → Text
  | .mode => "PLASM_MODE"
  | .runnerPath => "PLASMD_PATH"
  | .waitTimeout => "PLASM_WAIT_TIMEOUT"

def default : Setting → Json
  | .mode => .string Mode.here.name
  | .runnerPath => .string defaultRunner
  | .waitTimeout => .null

theorem mem_all (s : Setting) : s ∈ all := by
  cases s <;> decide

theorem names_eq : names = all.map name := rfl

theorem settings_eq : settings = all.map fun s => (s.variableName, s.name) := rfl

theorem name_injective {s r : Setting} (h : s.name = r.name) : s = r := by
  revert h
  cases s <;> cases r <;> decide

end Setting

abbrev Environment := List (Text × Text)

def Environment.members (environment : Environment) : Json.Members :=
  environment.map fun v => (v.1, .string v.2)

/-- Options that are given by name, each at most once. -/
structure Overrides where
  members : Json.Members
  nodup : (members.map Prod.fst).Nodup
  known : ∀ m ∈ members, m.1 ∈ names

namespace Setting

/-- The text of the variable of an option. An empty one counts for nothing. -/
def inEnvironment (s : Setting) (environment : Environment) : Option Text :=
  (environment.lookup s.variableName).filter fun t => !t.isEmpty

/-- The value of an option: from the overrides, or else from the environment, or else by default. -/
def effective (s : Setting) (environment : Environment) (overrides : Overrides) : Json :=
  ((overrides.members.get? s.name).or ((s.inEnvironment environment).map .string)).getD s.default

end Setting

/-! ## What values stand for -/

/-- A value stands for a timeout: for none, or for a number of seconds from one on. -/
inductive StandsForTimeout : Json → Option Int → Prop
  | null : StandsForTimeout .null none
  | int {n : Int} : 1 ≤ n → StandsForTimeout (.int n) (some n)
  | yes : StandsForTimeout (.bool true) (some 1)
  | float {x : Binary64} {n : Int} : x.truncate = .ok n → x.isIntegral = true → 1 ≤ n →
      n < 0x8000000000000000 → StandsForTimeout (.float x) (some n)
  | string {t : Text} {n : Int} : 1 ≤ n →
      Decimal.Numeral (t.strip CodePoint.isWhiteSpace) n → StandsForTimeout (.string t) (some n)

/-- A configuration is made of values: each of them stands for its option. -/
structure MadeOf (value : Setting → Json) (c : Config) : Prop where
  mode : value .mode = .string c.mode.name
  runnerPath : value .runnerPath = .string c.runnerPath ∧ c.runnerPath ≠ [] ∧
    c.runnerPath.isScalar = true
  waitTimeout : StandsForTimeout (value .waitTimeout) c.waitTimeout

def told : Setting → Json → List Field.Fault
  | .mode, v => ((mode? v).under (Setting.name .mode)).faults
  | .runnerPath, v => ((Field.nonEmptyText v).under (Setting.name .runnerPath)).faults
  | .waitTimeout, v => ((Field.nullable seconds v).under (Setting.name .waitTimeout)).faults

def ofValues (value : Setting → Json) : Checked Config :=
  mk <$> (mode? (value .mode)).under (Setting.name .mode)
    <*> (Field.nonEmptyText (value .runnerPath)).under (Setting.name .runnerPath)
    <*> (Field.nullable seconds (value .waitTimeout)).under (Setting.name .waitTimeout)

variable {value : Setting → Json} {c : Config} {environment other : Environment}
  {overrides : Overrides} {ms : Json.Members} {v : Json} {t : Text} {n : Int}

/-! ## Rules -/

theorem mode?_eq_valid_iff {m : Mode} : mode? v = .valid m ↔ v = .string m.name := by
  constructor
  · intro h
    cases v with
    | string t =>
      simp only [mode?] at h
      split at h
      · cases h
      split at h
      · rename_i hname
        cases h
        rw [hname]
      split at h
      · rename_i hname
        cases h
        rw [hname]
      · cases h
    | _ => cases h
  · rintro rfl
    cases m <;> rfl

theorem nonEmptyText_eq_valid_iff :
    Field.nonEmptyText v = .valid t ↔ v = .string t ∧ t ≠ [] ∧ t.isScalar = true := by
  constructor
  · intro h
    cases v with
    | string s =>
      simp only [Field.nonEmptyText] at h
      split at h
      · cases h
      split at h
      · cases h
      · rename_i hscalar hempty
        cases h
        exact ⟨rfl, by simpa using hempty, by simpa using hscalar⟩
    | _ => cases h
  · rintro ⟨rfl, hne, hscalar⟩
    have hempty : t.isEmpty = false := by simpa using hne
    simp only [Field.nonEmptyText, hscalar, hempty]
    rfl

theorem atLeast_eq_valid_iff {least m : Int} :
    Field.atLeast least m = .valid n ↔ m = n ∧ least ≤ n := by
  unfold Field.atLeast
  split
  · refine iff_of_false (by simp [Checked.fault]) ?_
    rintro ⟨rfl, hle⟩
    omega
  · rw [Checked.valid.injEq]
    refine ⟨fun h => ⟨h, by omega⟩, And.left⟩

theorem seconds_eq_valid_iff : seconds v = .valid n ↔ Field.laxInteger v = .valid n ∧ 1 ≤ n := by
  unfold seconds
  cases Field.laxInteger v with
  | valid m =>
    rw [Checked.andThen, atLeast_eq_valid_iff, Checked.valid.injEq]
  | faulty faults => simp [Checked.andThen]

/-- A text is read as a number from one on if it is a numeral, with white space around it or not. -/
theorem laxInteger_string_eq_valid_iff (hn : 1 ≤ n) :
    Field.laxInteger (.string t) = .valid n ↔
      Decimal.Numeral (t.strip CodePoint.isWhiteSpace) n := by
  rw [← Decimal.readPlain_eq_ok_iff_numeral hn]
  simp only [Field.laxInteger]
  cases hscalar : t.isScalar with
  | false =>
    refine iff_of_false (by simp [Checked.fault]) fun h => ?_
    have hnumeral := (Decimal.readPlain_eq_ok_iff_numeral hn).mp h
    rw [Text.isScalar_of_strip hnumeral.isScalar] at hscalar
    cases hscalar
  | true =>
    cases Decimal.readPlain t with
    | ok m => simp
    | error fault => cases fault <;> simp [Checked.fault]

/-- So is a double without a fraction, within 64 bits. -/
theorem laxInteger_float_eq_valid_iff {x : Binary64} (hn : 1 ≤ n) :
    Field.laxInteger (.float x) = .valid n ↔
      x.truncate = .ok n ∧ x.isIntegral = true ∧ n < 0x8000000000000000 := by
  simp only [Field.laxInteger]
  cases x.truncate with
  | error fault => simp [Checked.fault]
  | ok m =>
    dsimp only
    cases x.isIntegral with
    | false => simp [Checked.fault]
    | true =>
      rw [Except.ok.injEq, if_neg (by decide)]
      split
      · rename_i hm
        rw [Checked.valid.injEq]
        refine ⟨?_, And.left⟩
        rintro rfl
        exact ⟨rfl, rfl, hm.2⟩
      · rename_i hm
        refine iff_of_false (by simp [Checked.fault]) ?_
        rintro ⟨rfl, -, hlt⟩
        exact hm ⟨by omega, hlt⟩

theorem seconds_eq_valid_iff_stands : seconds v = .valid n ↔ StandsForTimeout v (some n) := by
  rw [seconds_eq_valid_iff]
  constructor
  · rintro ⟨h, hn⟩
    cases v with
    | int m =>
      cases h
      exact .int hn
    | bool b =>
      cases b with
      | false =>
        cases h
        exact absurd hn (by decide)
      | true =>
        cases h
        exact .yes
    | float x =>
      obtain ⟨htruncate, hintegral, hlt⟩ := (laxInteger_float_eq_valid_iff hn).mp h
      exact .float htruncate hintegral hn hlt
    | string t => exact .string hn ((laxInteger_string_eq_valid_iff hn).mp h)
    | _ => cases h
  · intro h
    cases h with
    | int hn => exact ⟨rfl, hn⟩
    | yes => exact ⟨rfl, by decide⟩
    | float htruncate hintegral hn hlt =>
      exact ⟨(laxInteger_float_eq_valid_iff hn).mpr ⟨htruncate, hintegral, hlt⟩, hn⟩
    | string hn hnumeral => exact ⟨(laxInteger_string_eq_valid_iff hn).mpr hnumeral, hn⟩

/-- **A value is taken for a timeout exactly if it stands for one.** -/
theorem timeout_eq_valid_iff {timeout : Option Int} :
    Field.nullable seconds v = .valid timeout ↔ StandsForTimeout v timeout := by
  by_cases hnull : v = .null
  · subst hnull
    constructor
    · rintro ⟨⟩
      exact .null
    · rintro ⟨⟩
      rfl
  · have hmap : Field.nullable seconds v = some <$> seconds v := by
      cases v with
      | null => exact absurd rfl hnull
      | _ => rfl
    rw [hmap, Checked.map_eq_valid_iff]
    constructor
    · rintro ⟨n, hn, rfl⟩
      exact seconds_eq_valid_iff_stands.mp hn
    · intro h
      cases timeout with
      | none =>
        cases h
        exact absurd rfl hnull
      | some n => exact ⟨n, seconds_eq_valid_iff_stands.mpr h, rfl⟩

/-- **Values are read as the configuration that is made of them.** -/
theorem ofValues_eq_valid_iff : ofValues value = .valid c ↔ MadeOf value c := by
  simp only [ofValues, Checked.seq_eq_valid_iff, Checked.map_eq_valid_iff,
    Checked.under_eq_valid_iff, mode?_eq_valid_iff, nonEmptyText_eq_valid_iff, timeout_eq_valid_iff]
  constructor
  · rintro ⟨_, timeout, ⟨_, runner, ⟨m, hmode, rfl⟩, hrunner, rfl⟩, htimeout, rfl⟩
    exact ⟨hmode, hrunner, htimeout⟩
  · rintro ⟨hmode, hrunner, htimeout⟩
    exact ⟨_, _, ⟨_, _, ⟨_, hmode, rfl⟩, hrunner, rfl⟩, htimeout, rfl⟩

/-! ## What is told -/

/-- All that is wrong with a value is wrong with it as a whole, and can be told. -/
def AtValue {α : Type} (x : Checked α) : Prop :=
  ∀ f ∈ x.faults, f.path = [] ∧ f.reason.encodeFault? = none

section

variable {α β : Type}

theorem atValue_valid (a : α) : AtValue (.valid a) := List.forall_mem_nil _

theorem atValue_fault {reason : Field.Reason} (h : reason.encodeFault? = none) :
    AtValue (Checked.fault reason : Checked α) := List.forall_mem_singleton.mpr ⟨rfl, h⟩

theorem AtValue.map {x : Checked α} (hx : AtValue x) (f : α → β) : AtValue (x.map f) := by
  cases x with
  | valid a => exact atValue_valid (f a)
  | faulty faults => exact hx

theorem AtValue.andThen {x : Checked α} {f : α → Checked β} (hx : AtValue x)
    (hf : ∀ a, AtValue (f a)) : AtValue (x.andThen f) := by
  cases x with
  | valid a => exact hf a
  | faulty faults => exact hx

end

theorem atValue_mode? (v : Json) : AtValue (mode? v) := by
  cases v with
  | string t =>
    simp only [mode?]
    split
    · exact atValue_fault rfl
    split
    · exact atValue_valid _
    split
    · exact atValue_valid _
    · exact atValue_fault rfl
  | _ => exact atValue_fault rfl

theorem atValue_nonEmptyText (v : Json) : AtValue (Field.nonEmptyText v) := by
  cases v with
  | string t =>
    simp only [Field.nonEmptyText]
    split
    · exact atValue_fault rfl
    split
    · exact atValue_fault rfl
    · exact atValue_valid _
  | _ => exact atValue_fault rfl

theorem atValue_laxInteger (v : Json) : AtValue (Field.laxInteger v) := by
  cases v with
  | int n => exact atValue_valid n
  | bool b => exact atValue_valid _
  | float x =>
    simp only [Field.laxInteger]
    split
    · exact atValue_fault rfl
    split
    · exact atValue_fault rfl
    split
    · exact atValue_valid _
    · exact atValue_fault rfl
  | string t =>
    simp only [Field.laxInteger]
    split
    · exact atValue_fault rfl
    split
    · exact atValue_valid _
    · exact atValue_fault rfl
    · exact atValue_fault rfl
  | _ => exact atValue_fault rfl

theorem atValue_timeout (v : Json) : AtValue (Field.nullable seconds v) := by
  have hseconds : AtValue (seconds v) := by
    refine (atValue_laxInteger v).andThen fun n => ?_
    unfold Field.atLeast
    split
    · exact atValue_fault rfl
    · exact atValue_valid n
  cases v with
  | null => exact atValue_valid none
  | _ => exact hseconds.map some

/-- What is told of an option names it. -/
theorem path_of_mem_told {s : Setting} {fault : Field.Fault} (h : fault ∈ told s v) :
    fault.path = [s.name] := by
  have hunder {α : Type} {x : Checked α} (hx : AtValue x)
      (hfault : fault ∈ (x.under s.name).faults) : fault.path = [s.name] := by
    rw [Checked.faults_under] at hfault
    obtain ⟨f, hf, rfl⟩ := List.mem_map.mp hfault
    rw [(hx f hf).1]
  cases s with
  | mode => exact hunder (atValue_mode? v) h
  | runnerPath => exact hunder (atValue_nonEmptyText v) h
  | waitTimeout => exact hunder (atValue_timeout v) h

theorem tellable_ofValues (value : Setting → Json) : (ofValues value).Tellable := by
  have htell {α : Type} {x : Checked α} (hx : AtValue x) : x.Tellable :=
    Checked.tellable_iff.mpr fun f hf => (hx f hf).2
  simp only [ofValues, Checked.tellable_seq_iff, Checked.tellable_map_iff,
    Checked.tellable_under_iff]
  exact ⟨⟨htell (atValue_mode? _), htell (atValue_nonEmptyText _)⟩, htell (atValue_timeout _)⟩

theorem filter_told (s r : Setting) (v : Json) :
    (told r v).filter (fun f => f.path = [s.name]) = if r = s then told r v else [] := by
  split
  · rename_i hsame
    subst hsame
    exact List.filter_eq_self.mpr fun f hf => decide_eq_true (path_of_mem_told hf)
  · rename_i hother
    refine List.filter_eq_nil_iff.mpr fun f hf => ?_
    rw [path_of_mem_told hf, decide_eq_true_eq, List.singleton_inj]
    exact fun hname => hother (Setting.name_injective hname)

theorem faults_ofValues (value : Setting → Json) :
    (ofValues value).faults = told .mode (value .mode) ++ told .runnerPath (value .runnerPath) ++
      told .waitTimeout (value .waitTimeout) := by
  simp only [ofValues, Checked.faults_seq, Checked.faults_map, told]

theorem path_of_mem_faults (value : Setting → Json) :
    ∀ f ∈ (ofValues value).faults, ∃ s : Setting, f.path = [s.name] := by
  intro f hf
  rw [faults_ofValues, List.mem_append, List.mem_append] at hf
  rcases hf with (hf | hf) | hf
  · exact ⟨.mode, path_of_mem_told hf⟩
  · exact ⟨.runnerPath, path_of_mem_told hf⟩
  · exact ⟨.waitTimeout, path_of_mem_told hf⟩

/-- What is told of an option is what is wrong with its value. -/
theorem filter_faults_ofValues (value : Setting → Json) (s : Setting) :
    (ofValues value).faults.filter (fun f => f.path = [s.name]) = told s (value s) := by
  rw [faults_ofValues, List.filter_append, List.filter_append, filter_told, filter_told, filter_told]
  cases s <;> simp

/-! ## From layers to values -/

theorem get?_members (environment : Environment) (name : Text) :
    environment.members.get? name = (environment.lookup name).map .string := by
  unfold Environment.members Json.Members.get?
  induction environment with
  | nil => rfl
  | cons v environment ih =>
    rw [List.map_cons, List.lookup_cons, List.lookup_cons]
    cases name == v.1 with
    | true => rfl
    | false => exact ih

/-- An environment gives the options whose variables are not empty. -/
theorem optionsOf_eq (environment : Environment) :
    optionsOf environment.members = Setting.all.filterMap fun s =>
      (s.inEnvironment environment).map fun t => (s.name, .string t) := by
  rw [optionsOf, Setting.settings_eq, List.filterMap_map]
  refine congrArg (List.filterMap · Setting.all) (funext fun s => ?_)
  simp only [Function.comp_apply, get?_members, Setting.inEnvironment]
  cases environment.lookup s.variableName with
  | none => rfl
  | some t => cases t <;> rfl

/-- Options with texts come in the order of the options. -/
theorem names_filterMap_sublist (given : Setting → Option Text) (settings : List Setting) :
    ((settings.filterMap fun r => (given r).map fun t => (r.name, Json.string t)).map
      Prod.fst).Sublist (settings.map Setting.name) := by
  induction settings with
  | nil => exact .slnil
  | cons r settings ih =>
    rw [List.filterMap_cons]
    cases given r with
    | none => exact ih.cons r.name
    | some t => exact ih.cons_cons r.name

/-- Where options have texts by name, each has its own. -/
theorem get?_filterMap {given : Setting → Option Text} {settings : List Setting}
    (hnodup : settings.Nodup) {s : Setting} (hs : s ∈ settings) :
    Json.Members.get? (settings.filterMap fun r => (given r).map fun t => (r.name, .string t))
      s.name = (given s).map .string := by
  have hnames : (settings.map Setting.name).Nodup :=
    hnodup.map fun _ _ hname => Setting.name_injective hname
  have hnodup' := (names_filterMap_sublist given settings).nodup hnames
  refine Option.ext fun v => ?_
  rw [Json.get?_eq_some_iff hnodup', List.mem_filterMap, Option.map_eq_some_iff]
  constructor
  · rintro ⟨r, -, h⟩
    obtain ⟨t, ht, heq⟩ := Option.map_eq_some_iff.mp h
    obtain ⟨hname, rfl⟩ := Prod.mk.inj heq
    rw [← Setting.name_injective hname]
    exact ⟨t, ht, rfl⟩
  · rintro ⟨t, ht, rfl⟩
    exact ⟨s, hs, by rw [ht]; rfl⟩

theorem get?_optionsOf (environment : Environment) (s : Setting) :
    (optionsOf environment.members).get? s.name =
      (s.inEnvironment environment).map .string := by
  rw [optionsOf_eq, get?_filterMap (by decide) s.mem_all]

theorem get?_layers (environment : Environment) (overrides : Overrides) (s : Setting) :
    ((optionsOf environment.members).update overrides.members).get? s.name =
      (overrides.members.get? s.name).or ((s.inEnvironment environment).map .string) := by
  rw [Json.get?_update, Json.get?_reverse overrides.nodup, get?_optionsOf]

theorem refuse_of_known {operation : Text} {reserved : List Text}
    (hknown : ∀ m ∈ ms, m.1 ∈ names) (hreserved : ∀ name ∈ names, name ∉ reserved) :
    refuse operation reserved ms = .ok () := by
  have hfind : (ms.find? fun m => reserved.contains m.1) = none := by
    rw [List.find?_eq_none]
    intro m hm
    simpa using hreserved m.1 (hknown m hm)
  rw [refuse, hfind]

theorem exactly_of_known {known : List Text} {record : Checked Config}
    (hscalar : ∀ name ∈ known, name.isScalar = true) (hknown : ∀ m ∈ ms, m.1 ∈ known) :
    Field.exactly ms known record = record := by
  have hall : ms.all (fun m => m.1.isScalar) = true :=
    List.all_eq_true.mpr fun m hm => hscalar m.1 (hknown m hm)
  rw [Field.exactly, if_pos hall, Field.onlyKnown_eq_valid_iff.mpr hknown]
  cases record <;> rfl

theorem withDefault_eq {α : Type} {rule : Field.Rule α} {default : α} {shown : Json}
    (hdefault : rule shown = .valid default) (name : Text) :
    Field.withDefault ms name default rule = (rule ((ms.get? name).getD shown)).under name := by
  unfold Field.withDefault
  cases ms.get? name with
  | some v => rfl
  | none =>
    rw [Option.getD_none, hdefault]
    rfl

/-- Members of known names are read as the values that they give, by default if they give none. -/
theorem ofMembers_of_known (hknown : ∀ m ∈ ms, m.1 ∈ names) :
    ofMembers ms = ofValues fun s => (ms.get? s.name).getD s.default := by
  have hmode : mode? (Setting.default .mode) = .valid .here := rfl
  have hrunner : Field.nonEmptyText (Setting.default .runnerPath) = .valid defaultRunner := rfl
  have htimeout : Field.nullable seconds (Setting.default .waitTimeout) = .valid none := rfl
  rw [ofMembers, exactly_of_known (by decide) hknown, withDefault_eq hmode, withDefault_eq hrunner,
    withDefault_eq htimeout]
  rfl

theorem known_optionsOf (environment : Environment) :
    ∀ m ∈ optionsOf environment.members, m.1 ∈ names := by
  rw [optionsOf_eq, Setting.names_eq]
  intro m hm
  obtain ⟨s, hs, hm⟩ := List.mem_filterMap.mp hm
  obtain ⟨t, -, rfl⟩ := Option.map_eq_some_iff.mp hm
  exact List.mem_map_of_mem hs

theorem known_layers (environment : Environment) (overrides : Overrides) :
    ∀ m ∈ (optionsOf environment.members).update overrides.members, m.1 ∈ names := by
  have henvironment := known_optionsOf environment
  have hoverrides := overrides.known
  rw [Json.forall_names_iff] at henvironment hoverrides ⊢
  intro name hname
  rw [Json.get?_update, Json.get?_reverse overrides.nodup] at hname
  cases hget : overrides.members.get? name with
  | none =>
    rw [hget, Option.none_or] at hname
    exact henvironment name hname
  | some v => exact hoverrides name (by simp [hget])

/-- **A configuration is read from the values that the layers give**, and from nothing else. -/
theorem ofEnvironment_eq (environment : Environment) (overrides : Overrides) :
    ofEnvironment environment.members overrides.members =
      (ofValues fun s => s.effective environment overrides).orFail .config .badConfig := by
  have hknown := known_layers environment overrides
  have hvalues : (fun s : Setting =>
      (((optionsOf environment.members).update overrides.members).get? s.name).getD s.default) =
        fun s => s.effective environment overrides :=
    funext fun s => congrArg (Option.getD · s.default) (get?_layers environment overrides s)
  rw [ofEnvironment, refuse_of_known overrides.known (by decide)]
  dsimp only [bind, Except.bind]
  rw [ofOptions, refuse_of_known hknown (by decide)]
  dsimp only [bind, Except.bind]
  rw [ofMembers_of_known hknown, hvalues]

/-! ## Layers -/

structure IsLayered (environment : Environment) (overrides : Overrides) : Prop where
  /-- A configuration is read if it is made of the values that the layers give. -/
  made : ∀ c, ofEnvironment environment.members overrides.members = .ok c ↔
    MadeOf (fun s => s.effective environment overrides) c
  /-- If none is, each option is told what is wrong with its value, and nothing else is told. -/
  refused : (∀ c, ¬ MadeOf (fun s => s.effective environment overrides) c) → ∃ faults,
    ofEnvironment environment.members overrides.members =
      .error (.badConfig ⟨.config, faults⟩) ∧
    (∀ fault ∈ faults, ∃ s : Setting, fault.path = [s.name]) ∧
    ∀ s : Setting, faults.filter (fun f => f.path = [s.name]) =
      told s (s.effective environment overrides)
  /-- Variables that are no options, empty or overridden have no influence. -/
  unaffected : ∀ other : Environment,
    (∀ s : Setting, overrides.members.get? s.name = none →
      s.inEnvironment other = s.inEnvironment environment) →
    ofEnvironment other.members overrides.members =
      ofEnvironment environment.members overrides.members

theorem isLayered (environment : Environment) (overrides : Overrides) :
    IsLayered environment overrides where
  made c := by
    rw [ofEnvironment_eq, Checked.orFail_eq_ok_iff, ofValues_eq_valid_iff]
  refused h := by
    rw [ofEnvironment_eq]
    have htell := tellable_ofValues fun s => s.effective environment overrides
    have hfilter := filter_faults_ofValues fun s => s.effective environment overrides
    have hpath := path_of_mem_faults fun s => s.effective environment overrides
    cases hread : ofValues fun s => s.effective environment overrides with
    | valid c => exact absurd (ofValues_eq_valid_iff.mp hread) (h c)
    | faulty faults =>
      rw [hread] at htell hfilter hpath
      exact ⟨faults, Checked.orFail_of_tellable htell .config .badConfig, hpath, hfilter⟩
  unaffected other h := by
    have hsame : (fun s : Setting => s.effective other overrides) =
        fun s => s.effective environment overrides := by
      funext s
      unfold Setting.effective
      cases hget : overrides.members.get? s.name with
      | none => rw [h s hget]
      | some v => rw [Option.some_or, Option.some_or]
    rw [ofEnvironment_eq, ofEnvironment_eq, hsame]

/-- The decimal text of a number from one on, if it is not too long, is taken for a timeout. -/
theorem timeout_ofNat {k : Nat} (hk : 1 ≤ k) (hlength : (Decimal.ofNat k).length ≤ Decimal.maxDigits) :
    Field.nullable seconds (.string (Decimal.ofNat k)) = .valid (some (k : Int)) := by
  have hwhite : ∀ c ∈ Decimal.ofNat k, c.isWhiteSpace = false := fun c hc =>
    Decimal.isWhiteSpace_of_isDigit (Decimal.isDigit_of_mem_ofNat hc)
  have hstrip : (Decimal.ofNat k).strip CodePoint.isWhiteSpace = Decimal.ofNat k :=
    Text.strip_eq_self (fun c hc => hwhite c (List.mem_of_head? hc))
      fun c hc => hwhite c (List.mem_of_getLast? hc)
  have hone : (1 : Int) ≤ k := Int.ofNat_le.mpr hk
  have hnumeral := (Decimal.strictNumeral_ofNat hlength).numeral hone
  rw [← hstrip] at hnumeral
  exact timeout_eq_valid_iff.mpr (.string hone hnumeral)

theorem timeout_string_iff :
    Field.nullable seconds (.string t) = .valid (some n) ↔
      1 ≤ n ∧ Decimal.Numeral (t.strip CodePoint.isWhiteSpace) n := by
  rw [timeout_eq_valid_iff]
  constructor
  · rintro ⟨⟩
    exact ⟨‹_›, ‹_›⟩
  · rintro ⟨hn, hnumeral⟩
    exact .string hn hnumeral

/-- **Options come from the first of three layers, each for itself.** The configuration is made of
the values that the layers give, or each option is told what is wrong with its value. A text is
taken for a timeout exactly if it is a numeral of a number from one on, with white space around it
or not. -/
theorem ofEnvironment_layered (environment : Environment) (overrides : Overrides) :
    IsLayered environment overrides ∧
      (∀ (t : Text) (n : Int), Field.nullable seconds (.string t) = .valid (some n) ↔
        1 ≤ n ∧ Decimal.Numeral (t.strip CodePoint.isWhiteSpace) n) ∧
      (∀ (t : Text) (n : Int), 1 ≤ n →
        Decimal.StrictNumeral (t.strip CodePoint.isWhiteSpace) n →
        Field.nullable seconds (.string t) = .valid (some n)) ∧
      ∀ k : Nat, 1 ≤ k → (Decimal.ofNat k).length ≤ Decimal.maxDigits →
        Field.nullable seconds (.string (Decimal.ofNat k)) = .valid (some (k : Int)) :=
  ⟨isLayered environment overrides, fun _ _ => timeout_string_iff,
    fun _ _ hn h => timeout_string_iff.mpr ⟨hn, h.numeral hn⟩, fun _ => timeout_ofNat⟩

/-- A timeout of zeros and underscores in front of a digit is taken, though it is no strict
numeral. -/
theorem ofEnvironment_loose_zeros :
    ofEnvironment (Environment.members [("PLASM_WAIT_TIMEOUT", "0__5")]) [] =
        .ok ⟨.here, defaultRunner, some 5⟩ ∧
      ¬ Decimal.StrictNumeral (Text.strip CodePoint.isWhiteSpace "0__5") 5 := by
  have hstrip : Text.strip CodePoint.isWhiteSpace "0__5" = "0__5" := rfl
  refine ⟨rfl, ?_⟩
  rw [hstrip]
  exact Decimal.not_strictNumeral_adjacent

end WasmReceipt.Config
