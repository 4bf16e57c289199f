import WasmReceipt.Proofs.Json.Grammar
import WasmReceipt.Proofs.Json.Sorted
import WasmReceipt.Proofs.Manifest.Fields

/-! # Changes of resources

Changes give some resources by name, and the members that they are put into keep their own value
under every other name. A manifest that is changed twice is therefore changed once, by the later
changes where both give something. -/

namespace WasmReceipt

/-! ## Members that are replaced -/

namespace Json

variable {ms changes : Members} {name : Text}

theorem get?_eq_none_iff : ms.get? name = none ↔ name ∉ ms.map Prod.fst := by
  rw [Members.get?, List.lookup_eq_none_iff]
  simp only [List.mem_map, not_exists, not_and, bne_iff_ne]
  exact forall₂_congr fun m _ => ne_comm

/-- The names of members are those that stand for something. -/
theorem forall_names_iff {p : Text → Prop} :
    (∀ m ∈ ms, p m.1) ↔ ∀ name, ms.get? name ≠ none → p name := by
  constructor
  · intro h name hname
    rw [Ne, get?_eq_none_iff, not_not, List.mem_map] at hname
    obtain ⟨m, hm, rfl⟩ := hname
    exact h m hm
  · intro h m hm
    refine h m.1 ?_
    rw [Ne, get?_eq_none_iff, not_not]
    exact List.mem_map_of_mem hm

/-- **Members keep the last value that changes give a name**, and their own if they give none. -/
theorem get?_update (ms changes : Members) (name : Text) :
    (ms.update changes).get? name =
      (Members.get? changes.reverse name).or (ms.get? name) := by
  induction changes generalizing ms with
  | nil => rfl
  | cons c changes ih =>
    obtain ⟨given, v⟩ := c
    have hlast : Members.get? ((given, v) :: changes).reverse name =
        (Members.get? changes.reverse name).or (Members.get? [(given, v)] name) := by
      rw [List.reverse_cons]
      exact List.lookup_append
    have hset : (ms.set given v).get? name =
        (Members.get? [(given, v)] name).or (ms.get? name) := by
      rw [get?_set, get?_cons]
      split <;> rfl
    rw [hlast, Option.or_assoc, ← hset]
    exact ih (ms.set given v)

/-- Where no name is given twice, the last value of a name is its only one. -/
theorem get?_reverse (h : (ms.map Prod.fst).Nodup) :
    Members.get? ms.reverse name = ms.get? name := by
  have hreverse : (ms.reverse.map Prod.fst).Nodup := by
    rw [List.map_reverse]
    exact List.nodup_reverse.mpr h
  refine Option.ext fun v => ?_
  rw [get?_eq_some_iff hreverse, get?_eq_some_iff h, List.mem_reverse]

theorem nodup_set (h : (ms.map Prod.fst).Nodup) (v : Json) :
    ((ms.set name v).map Prod.fst).Nodup := by
  induction ms with
  | nil => exact List.nodup_singleton name
  | cons m ms ih =>
    obtain ⟨first, w⟩ := m
    rw [List.map_cons, List.nodup_cons, ← get?_eq_none_iff] at h
    rw [Members.set]
    split
    · rename_i hname
      rw [List.map_cons, List.nodup_cons, ← get?_eq_none_iff, ← hname]
      exact h
    · rename_i hname
      rw [List.map_cons, List.nodup_cons, ← get?_eq_none_iff, get?_set, if_neg hname]
      exact ⟨h.1, ih h.2⟩

theorem nodup_update (h : (ms.map Prod.fst).Nodup) (changes : Members) :
    ((ms.update changes).map Prod.fst).Nodup := by
  induction changes generalizing ms with
  | nil => exact h
  | cons c changes ih => exact ih (nodup_set h c.2)

end Json

namespace Manifest

/-! ## Changes -/

/-- Changes as they are given by name: no name is given twice, and none is the name of what is to be
changed. -/
structure Changes where
  members : Json.Members
  nodup : (members.map Prod.fst).Nodup
  unreserved : reservedName ∉ members.map Prod.fst

namespace Changes

variable {a b : Changes} {name : Text} {v : Json}

def get? (a : Changes) (name : Text) : Option Json := a.members.get? name

def single (name : Text) (v : Json) (h : reservedName ≠ name) : Changes :=
  ⟨[(name, v)], List.nodup_singleton name, by simpa using h⟩

/-- The changes of both, the later ones where both give something. -/
def merge (a b : Changes) : Changes where
  members := a.members.update b.members
  nodup := Json.nodup_update a.nodup b.members
  unreserved := by
    rw [← Json.get?_eq_none_iff, Json.get?_update, Json.get?_reverse b.nodup,
      Json.get?_eq_none_iff.mpr a.unreserved, Json.get?_eq_none_iff.mpr b.unreserved]
    rfl

theorem get?_merge (a b : Changes) :
    (a.merge b).get? = fun name => (b.get? name).or (a.get? name) := by
  funext name
  rw [get?, merge, Json.get?_update, Json.get?_reverse b.nodup]
  rfl

/-- Changes are taken if each of them gives a resource, an integer from one on. -/
def Accepted (a : Changes) : Prop :=
  ∀ c ∈ a.members, c.1 ∈ Limits.names ∧ ∃ n : Int, c.2 = .int n ∧ 1 ≤ n

theorem accepted_iff :
    a.Accepted ↔ ∀ name v, a.get? name = some v → name ∈ Limits.names ∧ ∃ n : Int,
      v = .int n ∧ 1 ≤ n := by
  constructor
  · intro h name v hget
    exact h (name, v) ((Json.get?_eq_some_iff a.nodup).mp hget)
  · rintro h ⟨name, v⟩ hc
    exact h name v ((Json.get?_eq_some_iff a.nodup).mpr hc)

theorem Accepted.merge (ha : a.Accepted) (hb : b.Accepted) : (a.merge b).Accepted := by
  rw [accepted_iff] at ha hb ⊢
  intro name v hget
  rw [get?_merge] at hget
  rcases Option.or_eq_some_iff.mp hget with hb' | ⟨-, ha'⟩
  · exact hb name v hb'
  · exact ha name v ha'

def Disjoint (a b : Changes) : Prop := ∀ name, a.get? name = none ∨ b.get? name = none

theorem Disjoint.get?_merge (h : a.Disjoint b) : (a.merge b).get? = (b.merge a).get? := by
  rw [Changes.get?_merge, Changes.get?_merge]
  funext name
  rcases h name with hnone | hnone
  · rw [hnone, Option.none_or, Option.or_none]
  · rw [hnone, Option.none_or, Option.or_none]

end Changes

/-! ## Manifests with other resources -/

variable {m changed twice : Manifest} {a b : Changes} {given later : Text → Option Json}

/-- A manifest is another one with changes: a resource that is given is as given, and all else is as
it was. -/
structure ChangedBy (m : Manifest) (given : Text → Option Json) (changed : Manifest) : Prop where
  version : changed.version = m.version
  moduleHash : changed.moduleHash = m.moduleHash
  limits : ∀ name ∈ Limits.names,
    changed.limits.toMembers.get? name = (given name).or (m.limits.toMembers.get? name)

theorem ChangedBy.unique (h : m.ChangedBy given changed) (h' : m.ChangedBy given twice) :
    changed = twice := by
  have hlimits : changed.limits = twice.limits :=
    Limits.eq_of_get? fun name hname => (h.limits name hname).trans (h'.limits name hname).symm
  cases changed
  cases twice
  cases hlimits
  cases h.version.trans h'.version.symm
  cases h.moduleHash.trans h'.moduleHash.symm
  rfl

/-- **Two changes are one**: what the second does not give, the first does. -/
theorem ChangedBy.trans_iff (h : m.ChangedBy given changed) :
    changed.ChangedBy later twice ↔
      m.ChangedBy (fun name => (later name).or (given name)) twice := by
  have hlimits : ∀ name ∈ Limits.names,
      (later name).or (changed.limits.toMembers.get? name) =
        ((later name).or (given name)).or (m.limits.toMembers.get? name) := by
    intro name hname
    rw [h.limits name hname, Option.or_assoc]
  constructor
  · intro h'
    exact ⟨h'.version.trans h.version, h'.moduleHash.trans h.moduleHash,
      fun name hname => (h'.limits name hname).trans (hlimits name hname)⟩
  · intro h'
    exact ⟨h'.version.trans h.version.symm, h'.moduleHash.trans h.moduleHash.symm,
      fun name hname => (h'.limits name hname).trans (hlimits name hname).symm⟩

/-- Resources are checked when they have been replaced. -/
theorem withLimits_eq (m : Manifest) (a : Changes) :
    m.withLimits a.members =
      (Limits.ofExactMembers (m.limits.toMembers.update a.members)).orFail .limits .badLimits >>=
        fun limits => .ok { m with limits := limits } := by
  have hfree : a.members.get? reservedName = none := Json.get?_eq_none_iff.mpr a.unreserved
  rw [withLimits, hfree]
  rfl

theorem withLimits_eq_ok_iff_valid :
    m.withLimits a.members = .ok changed ↔
      ∃ limits, Limits.ofExactMembers (m.limits.toMembers.update a.members) = .valid limits ∧
        changed = { m with limits := limits } := by
  rw [withLimits_eq]
  constructor
  · intro h
    obtain ⟨limits, hlimits, hchanged⟩ := bind_eq_ok h
    exact ⟨limits, Checked.orFail_eq_ok_iff.mp hlimits, (Except.ok.inj hchanged).symm⟩
  · rintro ⟨limits, hlimits, rfl⟩
    rw [Checked.orFail_eq_ok_iff.mpr hlimits]
    rfl

/-- Changes that are refused are at fault in their form. -/
theorem kind_of_withLimits {failure : Failure} (h : m.withLimits a.members = .error failure) :
    failure.kind = .format := by
  rw [withLimits_eq] at h
  rcases bind_eq_error h with h | ⟨limits, -, h⟩
  · obtain ⟨invalid, rfl⟩ := (Limits.tellable_ofExactMembers _).orFail h
    rfl
  · cases h

/-- What the members with the changes in them give. -/
theorem get?_update_changes (limits : Limits) (a : Changes) (name : Text) :
    (limits.toMembers.update a.members).get? name =
      (a.get? name).or (limits.toMembers.get? name) := by
  rw [Json.get?_update, Json.get?_reverse a.nodup]
  rfl

def GivesAmounts (given : Text → Option Json) : Prop :=
  ∀ name v, given name = some v → ∃ n : Int, v = .int n ∧ 1 ≤ n

theorem Changes.Accepted.givesAmounts (ha : a.Accepted) : GivesAmounts a.get? :=
  fun name v hget => (accepted_iff.mp ha name v hget).2

/-- Over the resources of a sound manifest, there is an integer from one on for each of them. -/
theorem GivesAmounts.exists_given (hg : GivesAmounts given) (hm : m.IsSound) :
    ∀ name ∈ Limits.names, ∃ n : Int,
      (given name).or (m.limits.toMembers.get? name) = some (.int n) ∧ 1 ≤ n := by
  intro name hname
  cases hget : given name with
  | none => exact Limits.isPositive_iff.mp hm.limits name hname
  | some v =>
    obtain ⟨n, rfl, hn⟩ := hg name v hget
    exact ⟨n, rfl, hn⟩

theorem exists_changedBy (hm : m.IsSound) (hg : GivesAmounts given) :
    ∃ changed, m.ChangedBy given changed := by
  obtain ⟨limits, -, hlimits⟩ := Limits.exists_of_get? (hg.exists_given hm)
  exact ⟨{ m with limits := limits }, rfl, rfl, hlimits⟩

theorem ChangedBy.isPositive (h : m.ChangedBy given changed) (hm : m.IsSound)
    (hg : GivesAmounts given) : changed.limits.IsPositive := by
  rw [Limits.isPositive_iff]
  intro name hname
  rw [h.limits name hname]
  exact hg.exists_given hm name hname

theorem ChangedBy.isSound (h : m.ChangedBy given changed) (hm : m.IsSound)
    (hg : GivesAmounts given) : changed.IsSound := by
  obtain ⟨hcpu, hmemory, htimeout⟩ := h.isPositive hm hg
  exact ⟨h.moduleHash ▸ hm.moduleHash, hcpu, hmemory, htimeout⟩

/-- The members that are checked have no name but those of resources, if the changes have none. -/
theorem names_update_changes (limits : Limits) (ha : ∀ c ∈ a.members, c.1 ∈ Limits.names) :
    ∀ c ∈ limits.toMembers.update a.members, c.1 ∈ Limits.names := by
  have hown : ∀ c ∈ limits.toMembers, c.1 ∈ Limits.names := by
    simp [Limits.toMembers, Limits.names]
  rw [Json.forall_names_iff] at ha hown ⊢
  intro name hname
  rw [get?_update_changes] at hname
  cases hget : a.get? name with
  | none =>
    rw [hget, Option.none_or] at hname
    exact hown name hname
  | some v => exact ha name (by rw [Changes.get?] at hget; simp [hget])

/-- **Changes of a sound manifest are taken exactly if they are accepted**, and then it is changed
by them. -/
theorem withLimits_eq_ok_iff (hm : m.IsSound) :
    m.withLimits a.members = .ok changed ↔ a.Accepted ∧ m.ChangedBy a.get? changed := by
  have hgiven : ∀ name ∈ Limits.names,
      (m.limits.toMembers.update a.members).get? name ≠ none := by
    intro name hname
    obtain ⟨n, hn, -⟩ := Limits.isPositive_iff.mp hm.limits name hname
    rw [get?_update_changes, hn]
    cases a.get? name <;> simp
  simp only [withLimits_eq_ok_iff_valid, Limits.ofExactMembers_eq_valid_iff,
    Limits.ofMembers_eq_valid_iff_of_given hgiven, get?_update_changes]
  constructor
  · rintro ⟨limits, ⟨hnames, hpositive, hlimits⟩, rfl⟩
    refine ⟨Changes.accepted_iff.mpr fun name v hget => ?_, rfl, rfl,
      fun name hname => (hlimits name hname).symm⟩
    have hname : name ∈ Limits.names := by
      refine Json.forall_names_iff.mp hnames name ?_
      rw [get?_update_changes, hget, Option.some_or]
      exact Option.some_ne_none v
    obtain ⟨n, hn, hle⟩ := Limits.isPositive_iff.mp hpositive name hname
    rw [← hlimits name hname, hget, Option.some_or] at hn
    exact ⟨hname, n, Option.some.inj hn, hle⟩
  · rintro ⟨ha, hchanged⟩
    refine ⟨changed.limits, ⟨names_update_changes m.limits fun c hc => (ha c hc).1,
      hchanged.isPositive hm ha.givesAmounts, fun name hname => (hchanged.limits name hname).symm⟩, ?_⟩
    exact hchanged.unique ⟨rfl, rfl, hchanged.limits⟩

theorem exists_withLimits_iff (hm : m.IsSound) :
    (∃ changed, m.withLimits a.members = .ok changed) ↔ a.Accepted := by
  simp only [withLimits_eq_ok_iff hm]
  constructor
  · rintro ⟨changed, ha, -⟩
    exact ha
  · intro ha
    obtain ⟨changed, hchanged⟩ := exists_changedBy hm ha.givesAmounts
    exact ⟨changed, ha, hchanged⟩

theorem withLimits_of_not_accepted (hm : m.IsSound) (ha : ¬ a.Accepted) :
    ∃ failure, m.withLimits a.members = .error failure ∧ failure.kind = .format := by
  cases h : m.withLimits a.members with
  | ok changed => exact absurd ((exists_withLimits_iff hm).mp ⟨changed, h⟩) ha
  | error failure => exact ⟨failure, rfl, kind_of_withLimits h⟩

/-- **Two changes in a row are one**, the later changes put over the earlier ones. -/
theorem withLimits_withLimits (hm : m.IsSound) (ha : a.Accepted) (hb : b.Accepted) :
    (m.withLimits a.members >>= fun changed => changed.withLimits b.members) =
      m.withLimits (a.merge b).members := by
  obtain ⟨changed, hchanged⟩ := exists_changedBy hm ha.givesAmounts
  have hsound := hchanged.isSound hm ha.givesAmounts
  obtain ⟨twice, htwice⟩ := exists_changedBy hsound hb.givesAmounts
  have honce : m.ChangedBy (a.merge b).get? twice := by
    rw [Changes.get?_merge]
    exact hchanged.trans_iff.mp htwice
  rw [(withLimits_eq_ok_iff hm).mpr ⟨ha, hchanged⟩,
    (withLimits_eq_ok_iff hm).mpr ⟨ha.merge hb, honce⟩]
  exact (withLimits_eq_ok_iff hsound).mpr ⟨hb, htwice⟩

/-- **Changes of different resources commute.** -/
theorem withLimits_comm (hm : m.IsSound) (ha : a.Accepted) (hb : b.Accepted)
    (hab : a.Disjoint b) :
    (m.withLimits a.members >>= fun changed => changed.withLimits b.members) =
      m.withLimits b.members >>= fun changed => changed.withLimits a.members := by
  obtain ⟨changed, hchanged⟩ := exists_changedBy hm (ha.merge hb).givesAmounts
  rw [withLimits_withLimits hm ha hb, withLimits_withLimits hm hb ha,
    (withLimits_eq_ok_iff hm).mpr ⟨ha.merge hb, hchanged⟩,
    (withLimits_eq_ok_iff hm).mpr ⟨hb.merge ha, hab.get?_merge ▸ hchanged⟩]

end Manifest

end WasmReceipt
