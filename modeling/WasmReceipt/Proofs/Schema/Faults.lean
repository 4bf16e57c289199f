import WasmReceipt.Proofs.Schema.Agreement
import WasmReceipt.Proofs.Utf8

/-! # What is told of members that are no record

Each property of a schema has one fault or none in the members of an object, and the faults are told
in the order of the properties, each in its own words and with its tag. So what becomes of an object
depends on the seven fields of a receipt and on nothing else in it. -/

namespace WasmReceipt

/-! ## Faults by schema -/

namespace Schema

/-- What is wrong with a value that is to be of a kind. -/
def Kind.fault? : Kind → Json → Option Field.Reason
  | .text, .string _ => none
  | .text, _ => some .notText
  | .integer least greatest, .int n =>
    ((least.filter (n < ·)).map .below).or ((greatest.filter (· < n)).map .above)
  | .integer _ _, _ => some .notInteger

def Property.fault? (p : Property) (ms : Json.Members) : Option Field.Reason :=
  match ms.get? p.name with
  | some v => p.kind.fault? v
  | none => if p.default.isSome then none else some .missing

/-- The properties that are at fault, by name, with what is wrong. -/
def faults (s : Schema) (ms : Json.Members) : List (Text × Field.Reason) :=
  s.properties.filterMap fun p => (p.fault? ms).map (p.name, ·)

variable {s : Schema} {kind : Kind} {v : Json} {p : Property} {ms : Json.Members}
  {reason : Field.Reason}

theorem Kind.fault?_eq_none_iff : kind.fault? v = none ↔ kind.Holds v := by
  cases kind with
  | text => cases v <;> simp [fault?, Holds]
  | integer least greatest => cases v <;> simp [fault?, Holds]

theorem Property.fault?_eq_none_iff : p.fault? ms = none ↔ p.Admits ms := by
  unfold fault? Admits
  cases ms.get? p.name with
  | some v => exact Kind.fault?_eq_none_iff
  | none => simp [Option.isSome_iff_ne_none]

theorem faults_eq_nil_iff : s.faults ms = [] ↔ ∀ p ∈ s.properties, p.Admits ms := by
  simp only [faults, List.filterMap_eq_nil_iff, Option.map_eq_none_iff,
    Property.fault?_eq_none_iff]

/-- The faults come in the order of the properties, each once. -/
theorem names_faults_sublist :
    ((s.faults ms).map Prod.fst).Sublist (s.properties.map (·.name)) := by
  unfold faults
  induction s.properties with
  | nil => exact .slnil
  | cons p rest ih =>
    rw [List.filterMap_cons]
    cases p.fault? ms with
    | none => exact ih.cons p.name
    | some reason => exact ih.cons_cons p.name

/-! ## What is told of a fault -/

/-- What is wrong at a field, in words and by the tag that tells one kind of fault from another. A
number is held against its greatest value only if it is not below its least. -/
inductive IsWrong (s : Schema) (ms : Json.Members) (name : Text) : Text → Text → Prop
  | missing {kind : Kind} (hp : ⟨name, kind, none⟩ ∈ s.properties) (h : ms.get? name = none) :
    IsWrong s ms name "Field required" "missing"
  | notText {default : Option Json} {v : Json} (hp : ⟨name, .text, default⟩ ∈ s.properties)
      (h : ms.get? name = some v) (hv : ∀ t, v ≠ .string t) :
    IsWrong s ms name "Input should be a valid string" "string_type"
  | notInteger {least greatest : Option Int} {default : Option Json} {v : Json}
      (hp : ⟨name, .integer least greatest, default⟩ ∈ s.properties)
      (h : ms.get? name = some v) (hv : ∀ n, v ≠ .int n) :
    IsWrong s ms name "Input should be a valid integer" "int_type"
  | below {least n : Int} {greatest : Option Int} {default : Option Json}
      (hp : ⟨name, .integer (some least) greatest, default⟩ ∈ s.properties)
      (h : ms.get? name = some (.int n)) (hn : n < least) :
    IsWrong s ms name ("Input should be greater than or equal to " ++ Decimal.ofInt least)
      "greater_than_equal"
  | above {least : Option Int} {greatest n : Int} {default : Option Json}
      (hp : ⟨name, .integer least (some greatest), default⟩ ∈ s.properties)
      (h : ms.get? name = some (.int n)) (hleast : ∀ m ∈ least, m ≤ n) (hn : greatest < n) :
    IsWrong s ms name ("Input should be less than or equal to " ++ Decimal.ofInt greatest)
      "less_than_equal"

def told (fault : Text × Field.Reason) : Text × Text × Text :=
  (fault.1, fault.2.describe)

theorem Kind.fault?_integer_eq_some {least greatest : Option Int} {n : Int}
    (h : (Kind.integer least greatest).fault? (.int n) = some reason) :
    (∃ m, least = some m ∧ n < m ∧ reason = .below m) ∨
      ∃ m, greatest = some m ∧ (∀ l ∈ least, l ≤ n) ∧ m < n ∧ reason = .above m := by
  simp only [fault?, Option.or_eq_some_iff, Option.map_eq_some_iff, Option.map_eq_none_iff,
    Option.filter_eq_some_iff, Option.filter_eq_none_iff, decide_eq_true_eq] at h
  obtain ⟨m, ⟨hm, hlt⟩, rfl⟩ | ⟨hleast, m, ⟨hm, hlt⟩, rfl⟩ := h
  · exact .inl ⟨m, hm, hlt, rfl⟩
  · exact .inr ⟨m, hm, fun l hl => by simpa using hleast l hl, hlt, rfl⟩

/-- The fault of a property is told as what is wrong at its field. -/
theorem Property.isWrong (hp : p ∈ s.properties) (h : p.fault? ms = some reason) :
    s.IsWrong ms p.name reason.describe.1 reason.describe.2 := by
  obtain ⟨name, kind, default⟩ := p
  unfold fault? at h
  cases hv : ms.get? name with
  | none =>
    cases default with
    | none =>
      simp only [hv] at h
      cases h
      exact .missing hp hv
    | some default => simp [hv] at h
  | some v =>
    simp only [hv] at h
    cases kind with
    | text =>
      cases v with
      | string t => cases h
      | _ =>
        cases h
        exact .notText hp hv (fun t => Json.noConfusion)
    | integer least greatest =>
      cases v with
      | int n =>
        obtain ⟨m, rfl, hn, rfl⟩ | ⟨m, rfl, hleast, hn, rfl⟩ := Kind.fault?_integer_eq_some h
        · exact .below hp hv hn
        · exact .above hp hv hleast hn
      | _ =>
        cases h
        exact .notInteger hp hv (fun n => Json.noConfusion)

theorem IsWrong.exists_fault {name words tag : Text} (h : s.IsWrong ms name words tag) :
    ∃ p ∈ s.properties, p.name = name ∧
      ∃ reason, p.fault? ms = some reason ∧ reason.describe = (words, tag) := by
  cases h with
  | missing hp h => exact ⟨_, hp, rfl, .missing, by simp [Property.fault?, h], rfl⟩
  | @notText default v hp h hv =>
    refine ⟨_, hp, rfl, .notText, ?_, rfl⟩
    cases v with
    | string t => exact absurd rfl (hv t)
    | _ => simp [Property.fault?, Kind.fault?, h]
  | @notInteger least greatest default v hp h hv =>
    refine ⟨_, hp, rfl, .notInteger, ?_, rfl⟩
    cases v with
    | int n => exact absurd rfl (hv n)
    | _ => simp [Property.fault?, Kind.fault?, h]
  | below hp h hn => exact ⟨_, hp, rfl, .below _, by simp [Property.fault?, Kind.fault?, h, hn], rfl⟩
  | @above least greatest n default hp h hleast hn =>
    refine ⟨_, hp, rfl, .above _, ?_, rfl⟩
    have hkept : least.filter (n < ·) = none := by
      rw [Option.filter_eq_none_iff]
      intro m hm
      simpa using hleast m hm
    simp [Property.fault?, Kind.fault?, h, hkept, hn]

/-- What is told of the faults of members is what is wrong at their fields. -/
theorem mem_told_faults_iff {name words tag : Text} :
    (name, words, tag) ∈ (s.faults ms).map told ↔ s.IsWrong ms name words tag := by
  simp only [faults, List.mem_map, List.mem_filterMap]
  constructor
  · rintro ⟨fault, ⟨p, hp, hfault⟩, htold⟩
    obtain ⟨reason, hreason, rfl⟩ := Option.map_eq_some_iff.mp hfault
    obtain ⟨rfl, hdescribe⟩ := Prod.mk.inj htold
    have hwrong := p.isWrong hp hreason
    rwa [hdescribe] at hwrong
  · intro h
    obtain ⟨p, hp, rfl, reason, hreason, hdescribe⟩ := h.exists_fault
    refine ⟨(p.name, reason), ⟨p, hp, by rw [hreason]; rfl⟩, ?_⟩
    rw [told, hdescribe]

/-! ## What the properties of receipts admit -/

theorem Property.admits_text_iff {name : Text} :
    Admits ⟨name, .text, none⟩ ms ↔ ∃ t, ms.get? name = some (.string t) := by
  unfold Admits
  cases ms.get? name <;> simp [Kind.Holds]

theorem Property.admits_optionalText_iff {name : Text} {default : Json} :
    Admits ⟨name, .text, some default⟩ ms ↔
      ∀ v, ms.get? name = some v → ∃ t, v = .string t := by
  unfold Admits
  cases ms.get? name <;> simp [Kind.Holds]

theorem Property.admits_integer_iff {name : Text} {least greatest : Int} :
    Admits ⟨name, .integer (some least) (some greatest), none⟩ ms ↔
      ∃ n, ms.get? name = some (.int n) ∧ least ≤ n ∧ n ≤ greatest := by
  unfold Admits
  cases ms.get? name <;> simp [Kind.Holds]

end Schema

/-! ## Faults of a reader -/

namespace Field

variable {α : Type} {rule : Rule α} {kind : Schema.Kind} {ms : Json.Members} {name : Text}

def Fault.ofField (fault : Text × Reason) : Fault := ⟨[fault.1], fault.2⟩

/-- A rule finds with a value what is wrong with it as one of a kind, if anything is. -/
def Judges (rule : Rule α) (kind : Schema.Kind) : Prop :=
  ∀ v, (rule v).faults = (kind.fault? v).toList.map fun reason => ⟨[], reason⟩

theorem judges_text : Judges text .text := by
  intro v
  cases v <;> rfl

theorem judges_within (least greatest : Int) :
    Judges (within least greatest) (.integer (some least) (some greatest)) := by
  intro v
  cases v with
  | int n =>
    simp only [within, strictInteger, Checked.andThen, Schema.Kind.fault?, Option.filter_some]
    by_cases hl : n < least
    · simp [atLeast, hl, Checked.fault, Checked.faults]
    · by_cases hg : greatest < n <;> simp [atLeast, atMost, hl, hg, Checked.fault, Checked.faults]
  | _ => rfl

def propertyFaults (p : Schema.Property) (ms : Json.Members) : List Fault :=
  ((p.fault? ms).map (p.name, ·)).toList.map Fault.ofField

theorem faults_required (h : Judges rule kind) :
    (required ms name rule).faults = propertyFaults ⟨name, kind, none⟩ ms := by
  unfold required propertyFaults Schema.Property.fault?
  cases ms.get? name with
  | some v =>
    dsimp only
    rw [Checked.faults_under, h v]
    cases kind.fault? v <;> rfl
  | none => rfl

theorem faults_withDefault (h : Judges rule kind) (default : α) (shown : Json) :
    (withDefault ms name default rule).faults = propertyFaults ⟨name, kind, some shown⟩ ms := by
  unfold withDefault propertyFaults Schema.Property.fault?
  cases ms.get? name with
  | some v =>
    dsimp only
    rw [Checked.faults_under, h v]
    cases kind.fault? v <;> rfl
  | none => rfl

end Field

theorem Schema.map_ofField_faults (s : Schema) (ms : Json.Members) :
    (s.faults ms).map Field.Fault.ofField =
      s.properties.flatMap (Field.propertyFaults · ms) := by
  unfold faults
  rw [List.filterMap_eq_flatMap_toList, List.map_flatMap]
  rfl

/-! ## Receipts -/

namespace Receipt

variable {r : Receipt} {ms : Json.Members} {failure : Failure}

def fieldNames : List Text :=
  ["version", "module_hash", "exit_code", "wall_time_ms", "timestamp", "node_pubkey", "signature"]

theorem nodup_fieldNames : fieldNames.Nodup := by decide

/-- **The reader of receipts tells what the schema finds wrong.** -/
theorem faults_ofMembers (ms : Json.Members) :
    (ofMembers ms).faults = (Schema.receipt.faults ms).map Field.Fault.ofField := by
  have hexit := Field.judges_within minExitCode maxExitCode
  have htime := Field.judges_within 0 maxTime
  rw [Schema.map_ofField_faults]
  simp only [ofMembers, Checked.faults_seq, Checked.faults_map,
    Field.faults_required Field.judges_text, Field.faults_required hexit,
    Field.faults_required htime, Field.faults_withDefault Field.judges_text [] (.string []),
    Schema.receipt, List.flatMap_cons, List.flatMap_nil, List.append_nil, List.append_assoc]

/-- Members are those of a receipt: five fields are there, the two others may be, and each is of its
type. The exit code has 32 bits with a sign, and the times have 64 without. -/
structure IsWire (ms : Json.Members) : Prop where
  version : ∃ t, ms.get? "version" = some (.string t)
  moduleHash : ∃ t, ms.get? "module_hash" = some (.string t)
  exitCode : ∃ n, ms.get? "exit_code" = some (.int n) ∧ -0x80000000 ≤ n ∧ n ≤ 0x7FFFFFFF
  wallTimeMs : ∃ n, ms.get? "wall_time_ms" = some (.int n) ∧ 0 ≤ n ∧ n ≤ 0xFFFFFFFFFFFFFFFF
  timestamp : ∃ n, ms.get? "timestamp" = some (.int n) ∧ 0 ≤ n ∧ n ≤ 0xFFFFFFFFFFFFFFFF
  nodeKey : ∀ v, ms.get? "node_pubkey" = some v → ∃ t, v = .string t
  signature : ∀ v, ms.get? "signature" = some v → ∃ t, v = .string t

/-- They are the members that every property of a receipt admits. -/
theorem isWire_iff : IsWire ms ↔ ∀ p ∈ Schema.receipt.properties, p.Admits ms := by
  simp only [Schema.receipt, List.forall_mem_cons, List.not_mem_nil, false_implies, implies_true,
    and_true, Schema.Property.admits_text_iff, Schema.Property.admits_integer_iff,
    Schema.Property.admits_optionalText_iff]
  constructor
  · rintro ⟨hversion, hmodule, hexit, hwall, htime, hnode, hsignature⟩
    exact ⟨hversion, hmodule, hexit, hwall, htime, hnode, hsignature⟩
  · rintro ⟨hversion, hmodule, hexit, hwall, htime, hnode, hsignature⟩
    exact ⟨hversion, hmodule, hexit, hwall, htime, hnode, hsignature⟩

theorem exists_ofValue_iff : (∃ r, ofValue (.object ms) = .ok r) ↔ IsWire ms :=
  exists_ofValue_iff_admits.trans isWire_iff.symm

/-- The lines of one fault: its field, and its words with the tag. -/
def complaint : Text × Text × Text → Text
  | (name, words, tag) => name ++ "\n  " ++ words ++ " [type=" ++ tag ++ "]"

/-- How faults are told: their number, and each of them on its own lines. -/
def complaints (faults : List (Text × Text × Text)) : Text :=
  let noun : Text :=
    if faults.length = 1 then " validation error for " else " validation errors for "
  "Invalid receipt: " ++
    Text.join "\n" ((Decimal.ofNat faults.length ++ noun ++ "Receipt") :: faults.map complaint)

theorem message_ofField {fault : Text × Field.Reason} (h : fault.1 ∈ fieldNames) :
    (Field.Fault.ofField fault).message = complaint (Schema.told fault) := by
  have hplain : ∀ name ∈ fieldNames, name.isScalar = true ∧ name.any (·.is '.') = false := by
    decide
  obtain ⟨hscalar, hpoint⟩ := hplain _ h
  have hstep : Field.shownStep fault.1 = fault.1 := by
    rw [Field.shownStep, Utf8.decodeReplacing_encodeLoose hscalar]
    simp only [hpoint, Bool.false_eq_true, if_false]
  have hplace : (Field.Fault.ofField fault).place = fault.1 ++ "\n" := by
    simp [Field.Fault.place, Field.Fault.ofField, hstep, Text.join]
  have hlead : ("\n  " : Text) = "\n" ++ "  " := rfl
  rw [Field.Fault.message, hplace, Schema.told, complaint, hlead]
  simp only [Field.Fault.ofField, List.append_assoc]

theorem message_badReceipt (ms : Json.Members) :
    (Failure.badReceipt ⟨.receipt, (Schema.receipt.faults ms).map Field.Fault.ofField⟩).message =
      complaints ((Schema.receipt.faults ms).map Schema.told) := by
  have hlines : ((Schema.receipt.faults ms).map Field.Fault.ofField).map Field.Fault.message =
      ((Schema.receipt.faults ms).map Schema.told).map complaint := by
    rw [List.map_map, List.map_map]
    refine List.map_congr_left fun fault hfault => message_ofField ?_
    exact Schema.names_faults_sublist.subset (List.mem_map_of_mem hfault)
  simp only [Failure.message, Invalid.message, complaints, hlines, List.length_map]
  rfl

/-- Members that are no receipt are refused, and all that is wrong with them is told. -/
theorem ofValue_eq_error (h : ¬ IsWire ms) :
    ofValue (.object ms) =
      .error (.badReceipt ⟨.receipt, (Schema.receipt.faults ms).map Field.Fault.ofField⟩) := by
  rw [isWire_iff, ← succeeds_ofMembers_iff] at h
  have hfaults := faults_ofMembers ms
  have htold := tellable_ofMembers ms
  change (ofMembers ms).orFail .receipt .badReceipt = _
  cases hx : ofMembers ms with
  | valid r => exact absurd ⟨r, hx⟩ h
  | faulty faults =>
    rw [hx] at hfaults htold
    cases hfaults
    exact Checked.orFail_of_tellable htold .receipt .badReceipt

/-- What becomes of members depends on the fields of a receipt only. -/
theorem ofValue_congr {others : Json.Members}
    (h : ∀ name ∈ fieldNames, others.get? name = ms.get? name) :
    ofValue (.object others) = ofValue (.object ms) := by
  have hmembers : ofMembers others = ofMembers ms := by
    have hrequired (name : Text) (hname : name ∈ fieldNames) {α : Type} (rule : Field.Rule α) :
        Field.required others name rule = Field.required ms name rule := by
      rw [Field.required, h name hname]
      rfl
    have hdefault (name : Text) (hname : name ∈ fieldNames) :
        Field.withDefault others name [] Field.text = Field.withDefault ms name [] Field.text := by
      rw [Field.withDefault, h name hname]
      rfl
    unfold ofMembers
    rw [hrequired "version" (by decide), hrequired "module_hash" (by decide),
      hrequired "exit_code" (by decide), hrequired "wall_time_ms" (by decide),
      hrequired "timestamp" (by decide), hdefault "node_pubkey" (by decide),
      hdefault "signature" (by decide)]
  change (ofMembers others).orFail .receipt .badReceipt = _
  rw [hmembers]
  rfl

/-- A message gives the number of the fields that are at fault, of which there is one at least, and
names each of them once, in the order of the fields, with the words and the tag of its fault. -/
def TellsFaults (ms : Json.Members) (message : Text) : Prop :=
  ∃ faults, message = complaints faults ∧ faults ≠ [] ∧
    (faults.map Prod.fst).Sublist fieldNames ∧ (faults.map Prod.fst).Nodup ∧
    ∀ name words tag, (name, words, tag) ∈ faults ↔ Schema.receipt.IsWrong ms name words tag

theorem tellsFaults_complaints (h : ¬ IsWire ms) :
    TellsFaults ms (complaints ((Schema.receipt.faults ms).map Schema.told)) := by
  have hsome : (Schema.receipt.faults ms).map Schema.told ≠ [] := by
    rw [isWire_iff, ← Schema.faults_eq_nil_iff] at h
    exact mt List.map_eq_nil_iff.mp h
  have hnames : (((Schema.receipt.faults ms).map Schema.told).map Prod.fst).Sublist fieldNames := by
    rw [List.map_map]
    exact Schema.names_faults_sublist
  exact ⟨_, rfl, hsome, hnames, hnames.nodup nodup_fieldNames,
    fun _ _ _ => Schema.mem_told_faults_iff⟩

/-- **What becomes of an object depends on the seven fields of a receipt alone.** It is read exactly
when five of them are there and the two others are texts or missing, all of their types and within
their bounds. Otherwise the failure is one of form, and its message names every field at fault, once
and in order, with its fault. -/
theorem ofValue_by_fields (ms : Json.Members) :
    ((∃ r, ofValue (.object ms) = .ok r) ↔ IsWire ms) ∧
      (∀ r, ofValue (.object ms) = .ok r → r.GivenBy ms) ∧
      (¬ IsWire ms → ∃ failure, ofValue (.object ms) = .error failure ∧ failure.kind = .format ∧
        TellsFaults ms failure.message) ∧
      ∀ others : Json.Members, (∀ name ∈ fieldNames, others.get? name = ms.get? name) →
        ofValue (.object others) = ofValue (.object ms) := by
  refine ⟨exists_ofValue_iff, ?_, ?_, fun others => ofValue_congr⟩
  · intro r hr
    obtain ⟨_, hms, -, hgiven⟩ := ofValue_eq_ok_iff.mp hr
    cases hms
    exact hgiven
  · intro hwire
    refine ⟨_, ofValue_eq_error hwire, rfl, ?_⟩
    rw [message_badReceipt]
    exact tellsFaults_complaints hwire

/-- Five of seven fields are at fault, and a note is no field: with or without it, the object is
refused with the same words. -/
theorem ofValue_by_fields_five :
    let ms : Json.Members :=
      [("timestamp", .int 0x10000000000000000), ("signature", .null), ("exit_code", .bool true),
        ("version", .string "0.1"), ("wall_time_ms", .int (-1))]
    let others : Json.Members := ("note", .null) :: ms
    let message : Text :=
      complaints
        [("module_hash", "Field required", "missing"),
          ("exit_code", "Input should be a valid integer", "int_type"),
          ("wall_time_ms", "Input should be greater than or equal to 0", "greater_than_equal"),
          ("timestamp", "Input should be less than or equal to 18446744073709551615",
            "less_than_equal"),
          ("signature", "Input should be a valid string", "string_type")]
    ¬ IsWire ms ∧
      (∃ failure, ofValue (.object ms) = .error failure ∧ TellsFaults ms failure.message) ∧
      (∃ failure, ofValue (.object ms) = .error failure ∧ failure.message = message) ∧
      ofValue (.object others) = ofValue (.object ms) := by
  intro ms others message
  obtain ⟨-, -, hrefused, hblind⟩ := ofValue_by_fields ms
  have hwire : ¬ IsWire ms := by
    intro h
    obtain ⟨t, ht⟩ := h.moduleHash
    cases ht
  obtain ⟨failure, hfailure, -, htells⟩ := hrefused hwire
  have hagree : ∀ name ∈ fieldNames, others.get? name = ms.get? name := by
    intro name hname
    have hnote : (name == "note") = false :=
      beq_eq_false_iff_ne.mpr (ne_of_mem_of_not_mem hname (by decide))
    rw [Json.Members.get?, List.lookup_cons, hnote]
    rfl
  refine ⟨hwire, ⟨failure, hfailure, htells⟩, ⟨_, ofValue_eq_error hwire, ?_⟩, hblind others hagree⟩
  rw [message_badReceipt]
  decide +kernel

end Receipt

end WasmReceipt
