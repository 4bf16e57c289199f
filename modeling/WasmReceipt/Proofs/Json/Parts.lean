import WasmReceipt.Proofs.Json.RoundTrip

/-! # The parts of a value

What is said of a value at every depth is said of its parts: the value itself and the parts of its
items or members. -/

namespace WasmReceipt.Json

/-! ## Values inside values -/

def children : Json → List Json
  | .array items => items
  | .object members => members.map Prod.snd
  | _ => []

/-- A value is a part of another one: it is that value, or a part of a value directly inside it. -/
inductive Part (u : Json) : Json → Prop
  | self : Part u u
  | inside {v w : Json} : w ∈ v.children → Part u w → Part u v

theorem part_iff {u v : Json} : Part u v ↔ u = v ∨ ∃ w ∈ v.children, Part u w := by
  constructor
  · intro h
    cases h with
    | self => exact .inl rfl
    | inside hw h => exact .inr ⟨_, hw, h⟩
  · rintro (rfl | ⟨w, hw, h⟩)
    · exact .self
    · exact .inside hw h

theorem sizeOf_lt_of_mem_children {v w : Json} (h : w ∈ v.children) : sizeOf w < sizeOf v := by
  cases v with
  | array items =>
    have hlt : sizeOf w < sizeOf items := List.sizeOf_lt_of_mem h
    simp only [array.sizeOf_spec]
    omega
  | object members =>
    obtain ⟨m, hm, rfl⟩ := List.mem_map.mp h
    have hlt := List.sizeOf_lt_of_mem hm
    have hsnd : sizeOf m.2 < sizeOf m := by
      obtain ⟨name, value⟩ := m
      simp only [Prod.mk.sizeOf_spec]
      omega
    simp only [object.sizeOf_spec]
    omega
  | _ => cases h

/-- What passes from the values directly inside a value to that value holds of all values. -/
theorem children_induction {P : Json → Prop} (step : ∀ v, (∀ w ∈ v.children, P w) → P v) (v : Json) :
    P v :=
  step v fun w _ => children_induction step w
termination_by sizeOf v
decreasing_by exact sizeOf_lt_of_mem_children ‹_›

/-- The parts of an object whose values have nothing in them are the object and these values. -/
theorem part_of_flat {members : Members} {u : Json} (h : ∀ m ∈ members, m.2.children = [])
    (hu : Part u (.object members)) : u = .object members ∨ ∃ m ∈ members, u = m.2 := by
  cases hu with
  | self => exact .inl rfl
  | inside hw hpart =>
    obtain ⟨m, hm, rfl⟩ := List.mem_map.mp hw
    rcases part_iff.mp hpart with rfl | ⟨w, hw, -⟩
    · exact .inr ⟨m, hm, rfl⟩
    · rw [h m hm] at hw
      cases hw

/-! ## Lists of items and members -/

theorem itemsFloatFree_eq_all (items : List Json) : itemsFloatFree items = items.all floatFree := by
  induction items with
  | nil => rfl
  | cons v rest ih => rw [itemsFloatFree, ih, List.all_cons]

theorem membersFloatFree_eq_all (members : Members) :
    membersFloatFree members = members.all (floatFree ·.2) := by
  induction members with
  | nil => rfl
  | cons m rest ih => rw [membersFloatFree, ih, List.all_cons]

theorem itemsFit_eq_all (items : List Json) : itemsFit items = items.all integersFit := by
  induction items with
  | nil => rfl
  | cons v rest ih => rw [itemsFit, ih, List.all_cons]

theorem membersFit_eq_all (members : Members) :
    membersFit members = members.all (integersFit ·.2) := by
  induction members with
  | nil => rfl
  | cons m rest ih => rw [membersFit, ih, List.all_cons]

theorem itemsDepth_le_iff {items : List Json} {k : Nat} :
    itemsDepth items ≤ k ↔ ∀ v ∈ items, v.depth ≤ k := by
  induction items with
  | nil => simp [itemsDepth]
  | cons v rest ih => rw [itemsDepth, Nat.max_le, ih, List.forall_mem_cons]

theorem membersDepth_le_iff {members : Members} {k : Nat} :
    membersDepth members ≤ k ↔ ∀ m ∈ members, m.2.depth ≤ k := by
  induction members with
  | nil => simp [membersDepth]
  | cons m rest ih => rw [membersDepth, Nat.max_le, ih, List.forall_mem_cons]

/-! ## What the writer asks of a value -/

/-- A check of a value and of all values directly inside it is a check of its parts. -/
theorem forall_part_iff {check own : Json → Bool}
    (hcheck : ∀ v, check v = (own v && v.children.all check)) {v : Json} :
    check v = true ↔ ∀ u, Part u v → own u = true := by
  induction v using children_induction with
  | step v ih =>
    rw [hcheck v, Bool.and_eq_true, List.all_eq_true]
    constructor
    · rintro ⟨hown, hinside⟩ u hu
      cases hu with
      | self => exact hown
      | inside hw hu => exact (ih _ hw).mp (hinside _ hw) u hu
    · intro h
      refine ⟨h v .self, fun w hw => (ih w hw).mpr fun u hu => ?_⟩
      exact h u (.inside hw hu)

def isNoDouble : Json → Bool
  | .float _ => false
  | _ => true

theorem floatFree_eq (v : Json) : v.floatFree = (v.isNoDouble && v.children.all floatFree) := by
  cases v with
  | array items => exact itemsFloatFree_eq_all items
  | object members =>
    have hown : isNoDouble (.object members) = true := rfl
    rw [floatFree, membersFloatFree_eq_all, hown, Bool.true_and, children, List.all_map]
    rfl
  | _ => rfl

theorem floatFree_iff {v : Json} : v.floatFree = true ↔ ∀ x, ¬ Part (.float x) v := by
  rw [forall_part_iff floatFree_eq]
  constructor
  · intro h x hx
    cases h _ hx
  · intro h u hu
    cases u with
    | float x => exact absurd hu (h x)
    | _ => rfl

def isNoLongInteger : Json → Bool
  | .int n => Decimal.isWritable n
  | _ => true

theorem integersFit_eq (v : Json) :
    v.integersFit = (v.isNoLongInteger && v.children.all integersFit) := by
  cases v with
  | int n => exact (Bool.and_true _).symm
  | array items => exact itemsFit_eq_all items
  | object members =>
    have hown : isNoLongInteger (.object members) = true := rfl
    rw [integersFit, membersFit_eq_all, hown, Bool.true_and, children, List.all_map]
    rfl
  | _ => rfl

theorem integersFit_iff {v : Json} :
    v.integersFit = true ↔ ∀ n, Part (.int n) v → Decimal.isWritable n = true := by
  rw [forall_part_iff integersFit_eq]
  constructor
  · intro h n hn
    exact h _ hn
  · intro h u hu
    cases u with
    | int n => exact h n hu
    | _ => rfl

end WasmReceipt.Json
