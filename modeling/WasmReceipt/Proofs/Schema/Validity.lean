import WasmReceipt.Proofs.Json.Sorted
import WasmReceipt.Schema

/-! # What a published schema says

The rules of JSON Schema are given here for the keywords that describe a record. They are then
worked out for the schemas that are made of properties: an object without doubles is valid exactly
when every property admits it. -/

namespace WasmReceipt

/-- The number that a value stands for. A truth value is no number. -/
def Json.number? : Json → Option Rat
  | .int n => some n
  | .float (.finite negative mantissa exponent) =>
    some (Binary64.signedMantissa negative mantissa * 2 ^ exponent)
  | _ => none

namespace Schema

/-! ## Validity -/

/-- The types of values. An integer is a number without a fraction, however it is written. -/
inductive TypeName where
  | null
  | boolean
  | integer
  | number
  | string
  | array
  | object

namespace TypeName

def text : TypeName → Text
  | null => "null"
  | boolean => "boolean"
  | integer => "integer"
  | number => "number"
  | string => "string"
  | array => "array"
  | object => "object"

/-- Whether a value is of a type. -/
def Covers : TypeName → Json → Prop
  | null, v => v = .null
  | boolean, v => ∃ b, v = .bool b
  | integer, v => ∃ n : Int, v.number? = some (n : Rat)
  | number, v => ∃ q, v.number? = some q
  | string, v => ∃ t, v = .string t
  | array, v => ∃ items, v = .array items
  | object, v => ∃ members, v = .object members

theorem eq_of_text {a b : TypeName} (h : a.text = b.text) : a = b := by
  cases a <;> cases b <;> first | rfl | exact absurd h (by decide)

/-- Without doubles, only the integers that are written as such are left. -/
theorem covers_integer_iff {v : Json} (hv : v.isNoDouble = true) :
    integer.Covers v ↔ ∃ n, v = .int n := by
  constructor
  · rintro ⟨n, hn⟩
    cases v with
    | int m => exact ⟨m, rfl⟩
    | float x => cases hv
    | _ => cases hn
  · rintro ⟨n, rfl⟩
    exact ⟨n, rfl⟩

end TypeName

/-- The keywords that say something about values. -/
def assertions : List Text := ["type", "minimum", "maximum", "required", "properties"]

/-- The keywords that say something to readers only. -/
def annotations : List Text := ["title", "description", "default"]

/-- A value is valid under a schema: what each keyword asks for holds. A schema with a keyword that
is none of those above is not understood, and nothing is valid under it. -/
inductive Validates : Json → Json → Prop
  | intro {keywords : Json.Members} {v : Json}
    (understood : ∀ m ∈ keywords, m.1 ∈ assertions ++ annotations)
    (type : ∀ name, keywords.get? "type" = some (.string name) →
      ∃ type : TypeName, type.text = name ∧ type.Covers v)
    (minimum : ∀ bound least q, keywords.get? "minimum" = some bound →
      bound.number? = some least → v.number? = some q → least ≤ q)
    (maximum : ∀ bound greatest q, keywords.get? "maximum" = some bound →
      bound.number? = some greatest → v.number? = some q → q ≤ greatest)
    (required : ∀ (names : List Json) (name : Text) (members : Json.Members),
      keywords.get? "required" = some (.array names) → .string name ∈ names →
      v = .object members → (members.get? name).isSome)
    (properties : ∀ (schemas : Json.Members) (name : Text) (schema : Json)
      (members : Json.Members) (value : Json),
      keywords.get? "properties" = some (.object schemas) → schemas.get? name = some schema →
      v = .object members → members.get? name = some value → Validates schema value) :
    Validates (.object keywords) v

/-! ## Schemas of fields -/

/-- What a field of a kind may hold. -/
def Kind.Holds : Kind → Json → Prop
  | .text, v => ∃ t, v = .string t
  | .integer least greatest, v =>
    ∃ n, v = .int n ∧ (∀ l, least = some l → l ≤ n) ∧ ∀ g, greatest = some g → n ≤ g

def Kind.type : Kind → TypeName
  | .text => .string
  | .integer _ _ => .integer

namespace Property

variable {p : Property} {v : Json}

def keywords (p : Property) : Json.Members :=
  let described : Json.Members :=
    [("title", .string (title p.name)), ("type", .string p.typeName)]
  optional "default" p.default ++ p.bounds ++ described

theorem toJson_eq (p : Property) : p.toJson = .object p.keywords := rfl

def least? (p : Property) : Option Int :=
  match p.kind with
  | .text => none
  | .integer least _ => least

def greatest? (p : Property) : Option Int :=
  match p.kind with
  | .text => none
  | .integer _ greatest => greatest

/-- What the keywords of a property are, by name. -/
theorem get?_keywords (p : Property) :
    p.keywords.get? "type" = some (.string p.typeName) ∧
      p.keywords.get? "minimum" = p.least?.map .int ∧
      p.keywords.get? "maximum" = p.greatest?.map .int ∧
      p.keywords.get? "required" = none ∧ p.keywords.get? "properties" = none := by
  obtain ⟨name, kind, default⟩ := p
  cases default <;> cases kind with
  | text => exact ⟨rfl, rfl, rfl, rfl, rfl⟩
  | integer least greatest =>
    cases least <;> cases greatest <;> exact ⟨rfl, rfl, rfl, rfl, rfl⟩

theorem understood_keywords (p : Property) :
    ∀ m ∈ p.keywords, m.1 ∈ assertions ++ annotations := by
  have hall : p.keywords.all (fun m => (assertions ++ annotations).contains m.1) = true := by
    obtain ⟨name, kind, default⟩ := p
    cases default <;> cases kind with
    | text => rfl
    | integer least greatest => cases least <;> cases greatest <;> rfl
  intro m hm
  simpa using List.all_eq_true.mp hall m hm

theorem typeName_eq (p : Property) : p.typeName = p.kind.type.text := by
  unfold typeName
  cases p.kind <;> rfl

theorem holds_of_validates (hv : v.isNoDouble = true) (h : Validates p.toJson v) :
    p.kind.Holds v := by
  obtain ⟨htype, hminimum, hmaximum, -, -⟩ := p.get?_keywords
  cases h with
  | intro _ type minimum maximum _ _ =>
    obtain ⟨name, hname, hcovers⟩ := type _ htype
    rw [p.typeName_eq] at hname
    cases TypeName.eq_of_text hname
    cases hkind : p.kind with
    | text =>
      rw [hkind] at hcovers
      exact hcovers
    | integer least greatest =>
      rw [hkind] at hcovers
      obtain ⟨n, rfl⟩ := (TypeName.covers_integer_iff hv).mp hcovers
      refine ⟨n, rfl, ?_, ?_⟩
      · intro l hl
        have hbound : p.keywords.get? "minimum" = some (.int l) := by
          rw [hminimum, least?, hkind, hl]
          rfl
        exact Rat.intCast_le_intCast.mp (minimum _ _ _ hbound rfl rfl)
      · intro g hg
        have hbound : p.keywords.get? "maximum" = some (.int g) := by
          rw [hmaximum, greatest?, hkind, hg]
          rfl
        exact Rat.intCast_le_intCast.mp (maximum _ _ _ hbound rfl rfl)

theorem exists_least (h : p.kind.Holds v) {l : Int} (hl : p.least? = some l) :
    ∃ n, v = .int n ∧ l ≤ n := by
  unfold least? at hl
  cases hkind : p.kind with
  | text =>
    rw [hkind] at hl
    cases hl
  | integer _ _ =>
    rw [hkind] at h hl
    obtain ⟨n, rfl, hleast, -⟩ := h
    exact ⟨n, rfl, hleast l hl⟩

theorem exists_greatest (h : p.kind.Holds v) {g : Int} (hg : p.greatest? = some g) :
    ∃ n, v = .int n ∧ n ≤ g := by
  unfold greatest? at hg
  cases hkind : p.kind with
  | text =>
    rw [hkind] at hg
    cases hg
  | integer _ _ =>
    rw [hkind] at h hg
    obtain ⟨n, rfl, -, hgreatest⟩ := h
    exact ⟨n, rfl, hgreatest g hg⟩

theorem covers_of_holds (h : p.kind.Holds v) : p.kind.type.Covers v := by
  cases hkind : p.kind with
  | text =>
    rw [hkind] at h
    exact h
  | integer least greatest =>
    rw [hkind] at h
    obtain ⟨n, rfl, -⟩ := h
    exact ⟨n, rfl⟩

theorem validates_of_holds (h : p.kind.Holds v) : Validates p.toJson v := by
  obtain ⟨htype, hminimum, hmaximum, hrequired, hproperties⟩ := p.get?_keywords
  rw [toJson_eq]
  refine .intro p.understood_keywords ?_ ?_ ?_ ?_ ?_
  · intro name hname
    rw [htype] at hname
    cases hname
    exact ⟨p.kind.type, p.typeName_eq.symm, covers_of_holds h⟩
  · intro bound least q hbound hleast hq
    rw [hminimum] at hbound
    obtain ⟨l, hl, rfl⟩ := Option.map_eq_some_iff.mp hbound
    obtain ⟨n, rfl, hle⟩ := exists_least h hl
    cases hleast
    cases hq
    exact Rat.intCast_le_intCast.mpr hle
  · intro bound greatest q hbound hgreatest hq
    rw [hmaximum] at hbound
    obtain ⟨g, hg, rfl⟩ := Option.map_eq_some_iff.mp hbound
    obtain ⟨n, rfl, hle⟩ := exists_greatest h hg
    cases hgreatest
    cases hq
    exact Rat.intCast_le_intCast.mpr hle
  · intro names name members hnames
    rw [hrequired] at hnames
    cases hnames
  · intro schemas name schema members value hschemas
    rw [hproperties] at hschemas
    cases hschemas

/-- Whether the members of an object have a property as they should. -/
def Admits (p : Property) (members : Json.Members) : Prop :=
  match members.get? p.name with
  | some v => p.kind.Holds v
  | none => p.default.isSome

end Property

/-! ## Schemas of records -/

variable {s : Schema} {members : Json.Members}

def propertySchemas (s : Schema) : Json.Members := s.properties.map fun p => (p.name, p.toJson)

def requiredNames (s : Schema) : List Json :=
  (s.properties.filter (·.default.isNone)).map fun p => .string p.name

def keywords (s : Schema) : Json.Members :=
  [("description", .string s.description), ("properties", .object s.propertySchemas),
    ("required", .array s.requiredNames), ("title", .string s.name), ("type", .string "object")]

theorem toJson_eq (s : Schema) : s.toJson = .object s.keywords := rfl

theorem understood_keywords (s : Schema) :
    ∀ m ∈ s.keywords, m.1 ∈ assertions ++ annotations := by
  have hall : s.keywords.all (fun m => (assertions ++ annotations).contains m.1) = true := rfl
  intro m hm
  simpa using List.all_eq_true.mp hall m hm

/-- What a property's name stands for among the schemas of properties. -/
theorem get?_propertySchemas_iff (hd : (s.properties.map Property.name).Nodup) {name : Text}
    {schema : Json} :
    s.propertySchemas.get? name = some schema ↔
      ∃ p ∈ s.properties, p.name = name ∧ p.toJson = schema := by
  have hnames : (s.propertySchemas.map Prod.fst).Nodup := by
    rw [propertySchemas, List.map_map]
    exact hd
  rw [Json.get?_eq_some_iff hnames, propertySchemas, List.mem_map]
  simp only [Prod.mk.injEq]

theorem mem_requiredNames_iff {name : Text} :
    .string name ∈ s.requiredNames ↔ ∃ p ∈ s.properties, p.name = name ∧ p.default = none := by
  simp only [requiredNames, List.mem_map, List.mem_filter, Option.isNone_iff_eq_none,
    Json.string.injEq]
  constructor
  · rintro ⟨p, ⟨hp, hdefault⟩, hname⟩
    exact ⟨p, hp, hname, hdefault⟩
  · rintro ⟨p, hp, hname, hdefault⟩
    exact ⟨p, ⟨hp, hdefault⟩, hname⟩

/-- What the members of an object without doubles stand for is no double. -/
theorem isNoDouble_of_get? (hf : (Json.object members).floatFree = true) {name : Text} {v : Json}
    (h : members.get? name = some v) : v.isNoDouble = true := by
  obtain ⟨before, behind, rfl, -⟩ := List.lookup_eq_some_iff.mp h
  have hall : Json.membersFloatFree (before ++ (name, v) :: behind) = true := hf
  rw [Json.membersFloatFree_eq_all, List.all_eq_true] at hall
  have hv : v.floatFree = true := hall (name, v) (by simp)
  rw [Json.floatFree_eq, Bool.and_eq_true] at hv
  exact hv.1

/-- **An object without doubles is valid exactly when every property admits it.** -/
theorem validates_iff (hd : (s.properties.map Property.name).Nodup)
    (hf : (Json.object members).floatFree = true) :
    Validates s.toJson (.object members) ↔ ∀ p ∈ s.properties, p.Admits members := by
  rw [toJson_eq]
  constructor
  · intro h p hp
    cases h with
    | intro _ _ _ _ required properties =>
      unfold Property.Admits
      cases hv : members.get? p.name with
      | none =>
        by_contra hdefault
        have hname : .string p.name ∈ s.requiredNames :=
          mem_requiredNames_iff.mpr ⟨p, hp, rfl, by simpa using hdefault⟩
        have hthere := required _ _ _ rfl hname rfl
        rw [hv] at hthere
        cases hthere
      | some v =>
        have hschema := (get?_propertySchemas_iff hd).mpr ⟨p, hp, rfl, rfl⟩
        exact Property.holds_of_validates (isNoDouble_of_get? hf hv)
          (properties _ _ _ _ _ rfl hschema rfl hv)
  · intro h
    refine .intro s.understood_keywords ?_ ?_ ?_ ?_ ?_
    · intro name hname
      cases hname
      exact ⟨.object, rfl, members, rfl⟩
    · intro bound least q hbound
      cases hbound
    · intro bound greatest q hbound
      cases hbound
    · intro names name ms hnames hname hms
      cases hnames
      cases hms
      obtain ⟨p, hp, rfl, hdefault⟩ := mem_requiredNames_iff.mp hname
      have hadmits := h p hp
      unfold Property.Admits at hadmits
      cases hv : members.get? p.name with
      | some v => rfl
      | none =>
        rw [hv, hdefault] at hadmits
        cases hadmits
    · intro schemas name schema ms value hschemas hschema hms hvalue
      cases hschemas
      cases hms
      obtain ⟨p, hp, rfl, rfl⟩ := (get?_propertySchemas_iff hd).mp hschema
      have hadmits := h p hp
      unfold Property.Admits at hadmits
      rw [hvalue] at hadmits
      exact Property.validates_of_holds hadmits

end Schema

end WasmReceipt
