import WasmReceipt.Proofs.Run
import WasmReceipt.Receipt

/-! # Receipts as members

Members are read as a receipt exactly when they give its fields and its numbers are in range,
whatever other members there are and in whatever order they come. So every receipt that is read,
from wherever, has its numbers in range. -/

namespace WasmReceipt

namespace Checked

variable {α β : Type}

theorem seq_eq_valid_iff {f : Checked (α → β)} {x : Checked α} {b : β} :
    f <*> x = .valid b ↔ ∃ g a, f = .valid g ∧ x = .valid a ∧ g a = b := by
  constructor
  · intro h
    cases f with
    | faulty faults =>
      cases x with
      | valid a => cases h
      | faulty others => cases h
    | valid g =>
      cases x with
      | valid a =>
        cases h
        exact ⟨g, a, rfl, rfl, rfl⟩
      | faulty faults => cases h
  · rintro ⟨g, a, rfl, rfl, rfl⟩
    rfl

theorem map_eq_valid_iff {f : α → β} {x : Checked α} {b : β} :
    f <$> x = .valid b ↔ ∃ a, x = .valid a ∧ f a = b := by
  constructor
  · intro h
    cases x with
    | valid a =>
      cases h
      exact ⟨a, rfl, rfl⟩
    | faulty faults => cases h
  · rintro ⟨a, rfl, rfl⟩
    rfl

@[simp] theorem under_eq_valid_iff {x : Checked α} {step : Text} {a : α} :
    x.under step = .valid a ↔ x = .valid a := by
  cases x <;> simp [under]

def faults : Checked α → List Field.Fault
  | .valid _ => []
  | .faulty faults => faults

@[simp] theorem faults_map (f : α → β) (x : Checked α) : (f <$> x).faults = x.faults := by
  cases x <;> rfl

@[simp] theorem faults_seq (f : Checked (α → β)) (x : Checked α) :
    (f <*> x).faults = f.faults ++ x.faults := by
  cases f with
  | valid g => cases x <;> rfl
  | faulty faults =>
    cases x with
    | valid a => exact (List.append_nil faults).symm
    | faulty others => rfl

@[simp] theorem faults_under (x : Checked α) (step : Text) :
    (x.under step).faults = x.faults.map fun f => ⟨step :: f.path, f.reason⟩ := by
  cases x <;> rfl

/-- Whatever is wrong with a value can be told. -/
def Tellable (x : Checked α) : Prop :=
  ∀ faults, x = .faulty faults → ∀ f ∈ faults, f.reason.encodeFault? = none

theorem tellable_iff {x : Checked α} :
    x.Tellable ↔ ∀ f ∈ x.faults, f.reason.encodeFault? = none := by
  constructor
  · intro h
    cases x with
    | valid a => exact List.forall_mem_nil _
    | faulty faults => exact h faults rfl
  · rintro h faults rfl
    exact h

theorem tellable_valid (a : α) : (Checked.valid a).Tellable :=
  tellable_iff.mpr (List.forall_mem_nil _)

theorem tellable_fault {reason : Field.Reason} (h : reason.encodeFault? = none) :
    (Checked.fault reason : Checked α).Tellable := by
  rw [tellable_iff]
  intro f hf
  rw [List.mem_singleton.mp hf]
  exact h

theorem tellable_map_iff {f : α → β} {x : Checked α} : (f <$> x).Tellable ↔ x.Tellable := by
  rw [tellable_iff, tellable_iff, faults_map]

theorem tellable_seq_iff {f : Checked (α → β)} {x : Checked α} :
    (f <*> x).Tellable ↔ f.Tellable ∧ x.Tellable := by
  simp only [tellable_iff, faults_seq, List.forall_mem_append]

theorem tellable_under_iff {x : Checked α} {step : Text} :
    (x.under step).Tellable ↔ x.Tellable := by
  simp only [tellable_iff, faults_under, List.forall_mem_map]

theorem Tellable.andThen {x : Checked α} {f : α → Checked β} (hx : x.Tellable)
    (hf : ∀ a, (f a).Tellable) : (x.andThen f).Tellable := by
  cases x with
  | valid a => exact hf a
  | faulty faults =>
    rintro others ⟨⟩
    exact hx faults rfl

/-- Faults that can be told are the failure of a record. -/
theorem orFail_of_tellable {faults : List Field.Fault} (h : (faulty faults : Checked α).Tellable)
    (record : RecordKind) (wrap : Invalid → Failure) :
    (faulty faults : Checked α).orFail record wrap = .error (wrap ⟨record, faults⟩) := by
  have htold : faults.findSome? (fun f => f.reason.encodeFault?) = none :=
    List.findSome?_eq_none_iff.mpr (h faults rfl)
  simp only [orFail, Failure.ofInvalid, Invalid.encodeFault?, htold]

theorem Tellable.orFail {x : Checked α} (h : x.Tellable) {record : RecordKind}
    {wrap : Invalid → Failure} {failure : Failure} (hx : x.orFail record wrap = .error failure) :
    ∃ invalid, failure = wrap invalid := by
  cases x with
  | valid a => cases hx
  | faulty faults =>
    rw [orFail_of_tellable h] at hx
    cases hx
    exact ⟨_, rfl⟩

theorem orFail_eq_ok_iff {x : Checked α} {record : RecordKind} {wrap : Invalid → Failure} {a : α} :
    x.orFail record wrap = .ok a ↔ x = .valid a := by
  cases x <;> simp [orFail]

end Checked

namespace Field

theorem text_eq_valid_iff {v : Json} {t : Text} : text v = .valid t ↔ v = .string t := by
  cases v <;> simp [text, Checked.fault]

theorem within_eq_valid_iff {least greatest n : Int} {v : Json} :
    within least greatest v = .valid n ↔ v = .int n ∧ least ≤ n ∧ n ≤ greatest := by
  constructor
  · intro h
    cases v with
    | int m =>
      simp only [within, strictInteger, Checked.andThen] at h
      by_cases hl : m < least
      · rw [atLeast, if_pos hl] at h
        cases h
      · rw [atLeast, if_neg hl] at h
        simp only [atMost] at h
        split at h
        · cases h
        · cases h
          exact ⟨rfl, by omega, by omega⟩
    | _ => cases h
  · rintro ⟨rfl, hl, hg⟩
    rw [within, strictInteger, Checked.andThen, atLeast, if_neg (by omega), Checked.andThen, atMost,
      if_neg (by omega)]

theorem required_eq_valid_iff {α : Type} {ms : Json.Members} {name : Text} {rule : Rule α} {a : α} :
    required ms name rule = .valid a ↔ ∃ v, ms.get? name = some v ∧ rule v = .valid a := by
  unfold required
  cases ms.get? name <;> simp [Checked.fault]

theorem tellable_text (v : Json) : (text v).Tellable := by
  cases v with
  | string t => exact Checked.tellable_valid t
  | _ => exact Checked.tellable_fault rfl

theorem tellable_within (least greatest : Int) (v : Json) : (within least greatest v).Tellable := by
  have hinteger : (strictInteger v).Tellable := by
    cases v with
    | int n => exact Checked.tellable_valid n
    | _ => exact Checked.tellable_fault rfl
  refine hinteger.andThen fun n => Checked.Tellable.andThen ?_ fun m => ?_
  · unfold atLeast
    split
    · exact Checked.tellable_fault rfl
    · exact Checked.tellable_valid n
  · unfold atMost
    split
    · exact Checked.tellable_fault rfl
    · exact Checked.tellable_valid m

theorem tellable_required {α : Type} {rule : Rule α} (h : ∀ v, (rule v).Tellable)
    (ms : Json.Members) (name : Text) : (required ms name rule).Tellable := by
  unfold required
  split
  · exact Checked.tellable_under_iff.mpr (h _)
  · exact Checked.tellable_under_iff.mpr (Checked.tellable_fault rfl)

theorem tellable_withDefault {α : Type} {rule : Rule α} (h : ∀ v, (rule v).Tellable)
    (ms : Json.Members) (name : Text) (default : α) :
    (withDefault ms name default rule).Tellable := by
  unfold withDefault
  split
  · exact Checked.tellable_under_iff.mpr (h _)
  · exact Checked.tellable_valid default

/-- A text that may be missing is one that the empty text stands for. -/
theorem optionalText_eq_valid_iff {ms : Json.Members} {name t : Text} :
    withDefault ms name [] text = .valid t ↔
      (ms.get? name).getD (.string []) = .string t := by
  unfold withDefault
  cases ms.get? name with
  | none => simp [eq_comm]
  | some v => simp [text_eq_valid_iff]

end Field

/-- A document that cannot be read is at fault in its form, with two exceptions: an integer that is
too long to be read at all, and values that nest too deep. -/
theorem Json.ofDocument_error {document : Content} {failure : Failure}
    (h : ofDocument document = .error failure) :
    failure.kind = .format ∨
      (∃ digits, failure = .longInteger digits ∧
        readDocument document = .error (.content (.longInteger digits))) ∨
      (failure = .tooDeep ∧ readDocument document = .error (.content .tooDeep)) := by
  unfold ofDocument at h
  cases hread : readDocument document with
  | ok v =>
    rw [hread] at h
    cases h
  | error fault =>
    rw [hread] at h
    cases h
    cases fault with
    | encoding _ => exact .inl rfl
    | content fault =>
      cases fault with
      | text _ => exact .inl rfl
      | longInteger digits => exact .inr (.inl ⟨digits, rfl, rfl⟩)
      | tooDeep => exact .inr (.inr ⟨rfl, rfl⟩)

namespace Receipt

/-- The numbers of a receipt are in their ranges: 32 bits with a sign, and 64 bits without. -/
structure InRange (r : Receipt) : Prop where
  minExitCode_le : minExitCode ≤ r.exitCode
  le_maxExitCode : r.exitCode ≤ maxExitCode
  wallTimeMs_nonneg : 0 ≤ r.wallTimeMs
  wallTimeMs_le : r.wallTimeMs ≤ maxTime
  timestamp_nonneg : 0 ≤ r.timestamp
  timestamp_le : r.timestamp ≤ maxTime

/-- Members give the fields of a receipt. The node key and the signature may be missing when they
are empty. -/
structure GivenBy (r : Receipt) (ms : Json.Members) : Prop where
  version : ms.get? "version" = some (.string r.version)
  moduleHash : ms.get? "module_hash" = some (.string r.moduleHash)
  exitCode : ms.get? "exit_code" = some (.int r.exitCode)
  wallTimeMs : ms.get? "wall_time_ms" = some (.int r.wallTimeMs)
  timestamp : ms.get? "timestamp" = some (.int r.timestamp)
  nodeKey : (ms.get? "node_pubkey").getD (.string []) = .string r.nodeKey
  signature : (ms.get? "signature").getD (.string []) = .string r.signature

theorem ofMembers_of_givenBy {r : Receipt} {ms : Json.Members} (hr : r.InRange)
    (h : r.GivenBy ms) : ofMembers ms = .valid r := by
  have hversion : Field.required ms "version" Field.text = .valid r.version :=
    Field.required_eq_valid_iff.mpr ⟨_, h.version, rfl⟩
  have hmodule : Field.required ms "module_hash" Field.text = .valid r.moduleHash :=
    Field.required_eq_valid_iff.mpr ⟨_, h.moduleHash, rfl⟩
  have hexit : Field.required ms "exit_code" (Field.within minExitCode maxExitCode) =
      .valid r.exitCode :=
    Field.required_eq_valid_iff.mpr ⟨_, h.exitCode,
      Field.within_eq_valid_iff.mpr ⟨rfl, hr.minExitCode_le, hr.le_maxExitCode⟩⟩
  have hwall : Field.required ms "wall_time_ms" (Field.within 0 maxTime) = .valid r.wallTimeMs :=
    Field.required_eq_valid_iff.mpr ⟨_, h.wallTimeMs,
      Field.within_eq_valid_iff.mpr ⟨rfl, hr.wallTimeMs_nonneg, hr.wallTimeMs_le⟩⟩
  have htime : Field.required ms "timestamp" (Field.within 0 maxTime) = .valid r.timestamp :=
    Field.required_eq_valid_iff.mpr ⟨_, h.timestamp,
      Field.within_eq_valid_iff.mpr ⟨rfl, hr.timestamp_nonneg, hr.timestamp_le⟩⟩
  unfold ofMembers
  rw [hversion, hmodule, hexit, hwall, htime, Field.optionalText_eq_valid_iff.mpr h.nodeKey,
    Field.optionalText_eq_valid_iff.mpr h.signature]
  rfl

/-- **What is read as a receipt**: members that give its fields, with numbers in range. -/
theorem ofMembers_eq_valid_iff {r : Receipt} {ms : Json.Members} :
    ofMembers ms = .valid r ↔ r.InRange ∧ r.GivenBy ms := by
  constructor
  · intro h
    unfold ofMembers at h
    -- the fields come off from the last one on
    obtain ⟨_, signature, h₆, hsignature, rfl⟩ := Checked.seq_eq_valid_iff.mp h
    obtain ⟨_, nodeKey, h₅, hnode, rfl⟩ := Checked.seq_eq_valid_iff.mp h₆
    obtain ⟨_, timestamp, h₄, htime, rfl⟩ := Checked.seq_eq_valid_iff.mp h₅
    obtain ⟨_, wallTimeMs, h₃, hwall, rfl⟩ := Checked.seq_eq_valid_iff.mp h₄
    obtain ⟨_, exitCode, h₂, hexit, rfl⟩ := Checked.seq_eq_valid_iff.mp h₃
    obtain ⟨_, moduleHash, h₁, hmodule, rfl⟩ := Checked.seq_eq_valid_iff.mp h₂
    obtain ⟨version, hversion, rfl⟩ := Checked.map_eq_valid_iff.mp h₁
    simp only [Field.required_eq_valid_iff, Field.text_eq_valid_iff, Field.within_eq_valid_iff,
      Field.optionalText_eq_valid_iff] at hversion hmodule hexit hwall htime hnode hsignature
    obtain ⟨_, hversion, rfl⟩ := hversion
    obtain ⟨_, hmodule, rfl⟩ := hmodule
    obtain ⟨_, hexit, rfl, hexit'⟩ := hexit
    obtain ⟨_, hwall, rfl, hwall'⟩ := hwall
    obtain ⟨_, htime, rfl, htime'⟩ := htime
    exact ⟨⟨hexit'.1, hexit'.2, hwall'.1, hwall'.2, htime'.1, htime'.2⟩,
      ⟨hversion, hmodule, hexit, hwall, htime, hnode, hsignature⟩⟩
  · rintro ⟨hr, h⟩
    exact ofMembers_of_givenBy hr h

theorem givenBy_toMembers (r : Receipt) : r.GivenBy r.toMembers :=
  ⟨rfl, rfl, rfl, rfl, rfl, rfl, rfl⟩

theorem ofMembers_toMembers {r : Receipt} (hr : r.InRange) : ofMembers r.toMembers = .valid r :=
  ofMembers_of_givenBy hr r.givenBy_toMembers

/-- The receipt of an execution by the caller is made when its numbers are in range. -/
theorem ofLocal_eq_ok_iff {moduleHash : Text} {exitCode wallTimeMs timestamp : Int} {r : Receipt} :
    ofLocal moduleHash exitCode wallTimeMs timestamp = .ok r ↔
      r = ⟨currentVersion, moduleHash, exitCode, wallTimeMs, timestamp, localMarker,
        unsignedMarker⟩ ∧ r.InRange := by
  unfold ofLocal ofLocalValues
  dsimp only
  rw [Checked.orFail_eq_ok_iff]
  constructor
  · intro h
    obtain ⟨hr, hg⟩ := ofMembers_eq_valid_iff.mp h
    obtain ⟨version, moduleHash, exitCode, wallTimeMs, timestamp, nodeKey, signature⟩ := r
    obtain ⟨hversion, hmodule, hexit, hwall, htime, hnode, hsignature⟩ := hg
    cases hversion
    cases hmodule
    cases hexit
    cases hwall
    cases htime
    cases hnode
    cases hsignature
    exact ⟨rfl, hr⟩
  · rintro ⟨rfl, hr⟩
    exact ofMembers_of_givenBy hr ⟨rfl, rfl, rfl, rfl, rfl, rfl, rfl⟩

/-- What is read from a value is read from the members of an object. -/
theorem ofValue_eq_ok_iff {v : Json} {r : Receipt} :
    ofValue v = .ok r ↔ ∃ ms, v = .object ms ∧ r.InRange ∧ r.GivenBy ms := by
  constructor
  · intro h
    cases v with
    | object ms =>
      exact ⟨ms, rfl, ofMembers_eq_valid_iff.mp (Checked.orFail_eq_ok_iff.mp h)⟩
    | _ => cases h
  · rintro ⟨ms, rfl, h⟩
    exact Checked.orFail_eq_ok_iff.mpr (ofMembers_eq_valid_iff.mpr h)

theorem inRange_of_ofValue {v : Json} {r : Receipt} (h : ofValue v = .ok r) : r.InRange := by
  obtain ⟨_, _, hr, _⟩ := ofValue_eq_ok_iff.mp h
  exact hr

/-- The kinds of failure that reading a receipt may end in. -/
def readingKinds : List FailureKind := [.format, .value, .recursion, .encoding]

/-- What is wrong with the members of a receipt can always be told. -/
theorem tellable_ofMembers (ms : Json.Members) : (ofMembers ms).Tellable := by
  have htext (name : Text) := Field.tellable_required Field.tellable_text ms name
  have htime (name : Text) := Field.tellable_required (Field.tellable_within 0 maxTime) ms name
  have hexit :=
    Field.tellable_required (Field.tellable_within minExitCode maxExitCode) ms "exit_code"
  have hdefault (name : Text) := Field.tellable_withDefault Field.tellable_text ms name []
  simp only [ofMembers, Checked.tellable_seq_iff, Checked.tellable_map_iff, htext, htime, hexit,
    hdefault, and_self]

theorem kind_of_ofValue {v : Json} {failure : Failure} (h : ofValue v = .error failure) :
    failure.kind = .format := by
  cases v with
  | object ms =>
    obtain ⟨invalid, rfl⟩ := (tellable_ofMembers ms).orFail h
    rfl
  | _ =>
    cases h
    rfl

/-- **Reading a receipt fails for its form**, with two exceptions: an integer that is too long to be
read at all, and a document that nests too deep. -/
theorem ofDocument_error {document : Content} {failure : Failure}
    (h : ofDocument document = .error failure) :
    failure.kind = .format ∨ (∃ digits, failure = .longInteger digits) ∨
      (failure = .tooDeep ∧ Json.readDocument document = .error (.content .tooDeep)) := by
  unfold ofDocument at h
  rcases bind_eq_error h with hcause | ⟨v, -, hv⟩
  · rcases Json.ofDocument_error hcause with hformat | ⟨digits, rfl, -⟩ | hdeep
    · exact .inl hformat
    · exact .inr (.inl ⟨digits, rfl⟩)
    · exact .inr (.inr hdeep)
  · exact .inl (kind_of_ofValue hv)

theorem kind_of_ofDocument {document : Content} {failure : Failure}
    (h : ofDocument document = .error failure) : failure.kind ∈ readingKinds := by
  rcases ofDocument_error h with hformat | ⟨digits, rfl⟩ | ⟨rfl, -⟩
  · rw [hformat]
    decide
  · simp [readingKinds, Failure.kind]
  · decide

theorem inRange_of_ofDocument {document : Content} {r : Receipt}
    (h : ofDocument document = .ok r) : r.InRange := by
  unfold ofDocument at h
  obtain ⟨v, -, h⟩ := bind_eq_ok h
  exact inRange_of_ofValue h

end Receipt

end WasmReceipt
