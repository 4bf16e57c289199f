import WasmReceipt.Proofs.ContentHash
import WasmReceipt.Proofs.Reading

/-! # Manifests as members

A resource is read as an integer from one on. The members of a manifest are read as that manifest
exactly when it is sound, so sound manifests are those that can come out of any check. -/

namespace WasmReceipt

/-! ## Records without other members -/

namespace Field

variable {α : Type} {ms : Json.Members} {known : List Text} {record : Checked α} {a : α}

theorem onlyKnown_eq_valid_iff : onlyKnown ms known = .valid () ↔ ∀ m ∈ ms, m.1 ∈ known := by
  have hfilter : (ms.filter fun m => !known.contains m.1) = [] ↔ ∀ m ∈ ms, m.1 ∈ known := by
    simp [List.filter_eq_nil_iff]
  rw [← hfilter, onlyKnown]
  split
  · rename_i hnone
    exact iff_of_true rfl hnone
  · rename_i hsome
    exact iff_of_false (by simp) hsome

/-- A record is read from its own members and no others. -/
theorem exactly_eq_valid_iff (hknown : ∀ name ∈ known, name.isScalar = true) :
    exactly ms known record = .valid a ↔ (∀ m ∈ ms, m.1 ∈ known) ∧ record = .valid a := by
  unfold exactly
  split
  · simp only [Checked.seq_eq_valid_iff, Checked.map_eq_valid_iff, ← onlyKnown_eq_valid_iff]
    constructor
    · rintro ⟨_, ⟨⟩, ⟨b, hb, rfl⟩, honly, rfl⟩
      exact ⟨honly, hb⟩
    · rintro ⟨honly, ha⟩
      exact ⟨_, (), ⟨a, ha, rfl⟩, honly, rfl⟩
  · rename_i hscalar
    refine iff_of_false (by simp [Checked.fault]) ?_
    rintro ⟨hnames, -⟩
    exact hscalar (List.all_eq_true.mpr fun m hm => hknown m.1 (hnames m hm))

theorem tellable_exactly (h : record.Tellable) : (exactly ms known record).Tellable := by
  have honly : (onlyKnown ms known).Tellable := by
    unfold onlyKnown
    split
    · exact Checked.tellable_valid ()
    · rintro faults ⟨⟩ f hf
      obtain ⟨m, -, rfl⟩ := List.mem_map.mp hf
      rfl
  unfold exactly
  split
  · exact Checked.tellable_seq_iff.mpr ⟨Checked.tellable_map_iff.mpr h, honly⟩
  · exact Checked.tellable_fault rfl

end Field

/-! ## Resources -/

namespace Limits

variable {limits others : Limits} {ms : Json.Members} {v : Json} {n : Int}

structure IsPositive (limits : Limits) : Prop where
  cpuCores : 1 ≤ limits.cpuCores
  memoryMb : 1 ≤ limits.memoryMb
  timeoutSeconds : 1 ≤ limits.timeoutSeconds

theorem amount_eq_valid_iff : amount v = .valid n ↔ v = .int n ∧ 1 ≤ n := by
  constructor
  · intro h
    cases v with
    | int k =>
      have hk : k = n := by
        simp only [amount, Field.strictInteger, Checked.andThen, Field.atLeast] at h
        split at h
        · cases h
        · exact Checked.valid.inj h
      exact ⟨congrArg Json.int hk, Manifest.one_le_of_amount h⟩
    | _ => cases h
  · rintro ⟨rfl, hn⟩
    rw [amount, Field.strictInteger, Checked.andThen, Field.atLeast, if_neg (by omega)]

/-- The three names, one by one. -/
theorem forall_names_iff {p : Text → Prop} :
    (∀ name ∈ names, p name) ↔ p "cpu_cores" ∧ p "memory_mb" ∧ p "timeout_seconds" := by
  simp [names]

theorem isPositive_iff :
    limits.IsPositive ↔
      ∀ name ∈ names, ∃ n : Int, limits.toMembers.get? name = some (.int n) ∧ 1 ≤ n := by
  rw [forall_names_iff]
  constructor
  · rintro ⟨hcpu, hmemory, htimeout⟩
    exact ⟨⟨_, rfl, hcpu⟩, ⟨_, rfl, hmemory⟩, ⟨_, rfl, htimeout⟩⟩
  · rintro ⟨⟨_, ⟨⟩, hcpu⟩, ⟨_, ⟨⟩, hmemory⟩, ⟨_, ⟨⟩, htimeout⟩⟩
    exact ⟨hcpu, hmemory, htimeout⟩

/-- Resources are the same if every name gives the same. -/
theorem eq_of_get?
    (h : ∀ name ∈ names, limits.toMembers.get? name = others.toMembers.get? name) :
    limits = others := by
  obtain ⟨hcpu, hmemory, htimeout⟩ := forall_names_iff.mp h
  cases limits
  cases others
  cases hcpu
  cases hmemory
  cases htimeout
  rfl

/-- Any three integers are the resources under the three names. -/
theorem exists_of_get? {given : Text → Option Json}
    (h : ∀ name ∈ names, ∃ n : Int, given name = some (.int n) ∧ 1 ≤ n) :
    ∃ limits : Limits, limits.IsPositive ∧
      ∀ name ∈ names, limits.toMembers.get? name = given name := by
  obtain ⟨⟨cpuCores, hcpu, hcpu'⟩, ⟨memoryMb, hmemory, hmemory'⟩, timeout, htimeout, htimeout'⟩ :=
    forall_names_iff.mp h
  exact ⟨⟨cpuCores, memoryMb, timeout⟩, ⟨hcpu', hmemory', htimeout'⟩,
    forall_names_iff.mpr ⟨hcpu.symm, hmemory.symm, htimeout.symm⟩⟩

theorem withDefault_eq_valid_iff {name : Text} {default : Int} (h : ms.get? name ≠ none) :
    Field.withDefault ms name default amount = .valid n ↔ ms.get? name = some (.int n) ∧ 1 ≤ n := by
  unfold Field.withDefault
  cases hget : ms.get? name with
  | none => exact absurd hget h
  | some v => simp [amount_eq_valid_iff]

theorem isPositive_of_ofMembers (h : ofMembers ms = .valid limits) : limits.IsPositive := by
  obtain ⟨hcpu, hmemory, htimeout⟩ := ofMembers_eq_valid_iff.mp h
  exact ⟨Manifest.one_le_of_withDefault (by decide) hcpu,
    Manifest.one_le_of_withDefault (by decide) hmemory,
    Manifest.one_le_of_withDefault (by decide) htimeout⟩

/-- **Members that give every resource are read as the resources that they give.** -/
theorem ofMembers_eq_valid_iff_of_given (h : ∀ name ∈ names, ms.get? name ≠ none) :
    ofMembers ms = .valid limits ↔
      limits.IsPositive ∧ ∀ name ∈ names, ms.get? name = limits.toMembers.get? name := by
  obtain ⟨hcpu, hmemory, htimeout⟩ := forall_names_iff.mp h
  rw [ofMembers_eq_valid_iff, withDefault_eq_valid_iff hcpu, withDefault_eq_valid_iff hmemory,
    withDefault_eq_valid_iff htimeout, forall_names_iff]
  constructor
  · rintro ⟨⟨hcpu, hcpu'⟩, ⟨hmemory, hmemory'⟩, htimeout, htimeout'⟩
    exact ⟨⟨hcpu', hmemory', htimeout'⟩, hcpu, hmemory, htimeout⟩
  · rintro ⟨⟨hcpu', hmemory', htimeout'⟩, hcpu, hmemory, htimeout⟩
    exact ⟨⟨hcpu, hcpu'⟩, ⟨hmemory, hmemory'⟩, htimeout, htimeout'⟩

theorem tellable_ofMembers (ms : Json.Members) : (ofMembers ms).Tellable := by
  have hamount (name : Text) (n : Int) :=
    Field.tellable_withDefault Manifest.tellable_amount ms name n
  simp only [ofMembers, Checked.tellable_seq_iff, Checked.tellable_map_iff, hamount, and_self]

theorem ofExactMembers_eq_valid_iff :
    ofExactMembers ms = .valid limits ↔ (∀ m ∈ ms, m.1 ∈ names) ∧ ofMembers ms = .valid limits :=
  Field.exactly_eq_valid_iff (by decide)

theorem isPositive_of_ofGiven (h : ofGiven ms = .ok limits) : limits.IsPositive :=
  isPositive_of_ofMembers (ofExactMembers_eq_valid_iff.mp (Checked.orFail_eq_ok_iff.mp h)).2

theorem tellable_ofExactMembers (ms : Json.Members) : (ofExactMembers ms).Tellable :=
  Field.tellable_exactly (tellable_ofMembers ms)

end Limits

/-! ## Manifests -/

namespace Manifest

variable {m : Manifest}

theorem IsSound.limits (h : m.IsSound) : m.limits.IsPositive :=
  ⟨h.cpuCores, h.memoryMb, h.timeoutSeconds⟩

/-- The resources of a manifest stand among its members. -/
theorem get?_toMembers (m : Manifest) :
    ∀ name ∈ Limits.names, m.toMembers.get? name = m.limits.toMembers.get? name :=
  Limits.forall_names_iff.mpr ⟨rfl, rfl, rfl⟩

theorem ofMembers_toMembers (h : m.IsSound) : ofMembers m.toMembers = .valid m := by
  have hgiven : ∀ name ∈ Limits.names, m.toMembers.get? name ≠ none := by
    intro name hname
    obtain ⟨n, hn, -⟩ := Limits.isPositive_iff.mp h.limits name hname
    rw [get?_toMembers m name hname, hn]
    exact Option.some_ne_none _
  have hlimits : Limits.ofMembers m.toMembers = .valid m.limits :=
    (Limits.ofMembers_eq_valid_iff_of_given hgiven).mpr ⟨h.limits, get?_toMembers m⟩
  have hhash : contentHash (.string m.moduleHash) = .valid m.moduleHash :=
    contentHash_eq_valid_iff.mpr ⟨rfl, ContentHash.isWellFormed_iff.mpr h.moduleHash⟩
  have hmodule : Field.required m.toMembers "module_hash" contentHash = .valid m.moduleHash :=
    Field.required_eq_valid_iff.mpr ⟨_, rfl, hhash⟩
  exact ofMembers_eq_valid_iff.mpr ⟨rfl, hmodule, hlimits⟩

/-- **The members of a manifest are read as that manifest exactly when it is sound.** -/
theorem ofValue_toValue_iff : ofValue m.toValue = .ok m ↔ m.IsSound :=
  ⟨isSound_of_ofValue, fun h => Checked.orFail_eq_ok_iff.mpr (ofMembers_toMembers h)⟩

/-- A manifest with the content hash of any bytes is sound. -/
theorem isSound_of_ofBytes {version : Text} {content : Bytes} {limits : Limits}
    (hl : limits.IsPositive) : IsSound ⟨version, ContentHash.ofBytes content, limits⟩ := by
  obtain ⟨digits, hdigits, hlength, -⟩ := ContentHash.exists_digits content
  refine ⟨⟨digits, ?_, hdigits⟩, hl.cpuCores, hl.memoryMb, hl.timeoutSeconds⟩
  rintro rfl
  cases hlength

end Manifest

end WasmReceipt
