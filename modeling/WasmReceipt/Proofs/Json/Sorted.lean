import Mathlib.Data.List.Nodup
import WasmReceipt.Proofs.Json.Parts

/-! # Values up to the order of members

Two values are alike when they differ only in the order of the members of their objects, at any
depth. Putting the members of every object in the order of their names picks one value of all that
are alike, as long as no object has two members of one name. -/

namespace WasmReceipt

namespace Json

/-! ## Alike -/

mutual

/-- Two values are equal up to the order of members, at every depth. -/
inductive Alike : Json → Json → Prop
  | null : Alike .null .null
  | bool (b : Bool) : Alike (.bool b) (.bool b)
  | int (n : Int) : Alike (.int n) (.int n)
  | float (x : Binary64) : Alike (.float x) (.float x)
  | string (t : Text) : Alike (.string t) (.string t)
  | array {items others : List Json} : AlikeItems items others → Alike (.array items) (.array others)
  | object {members others : Members} :
      AlikeMembers members others → Alike (.object members) (.object others)

inductive AlikeItems : List Json → List Json → Prop
  | nil : AlikeItems [] []
  | cons {v w : Json} {items others : List Json} :
      Alike v w → AlikeItems items others → AlikeItems (v :: items) (w :: others)

/-- Members are alike in some order: the first one has its fellow anywhere among the others. -/
inductive AlikeMembers : Members → Members → Prop
  | nil : AlikeMembers [] []
  | cons {name : Text} {v w : Json} {members before after : Members} :
      Alike v w → AlikeMembers members (before ++ after) →
      AlikeMembers ((name, v) :: members) (before ++ (name, w) :: after)

end

/-- No object in a value has two members of one name. -/
def Distinct (v : Json) : Prop := ∀ ms, Part (.object ms) v → (ms.map Prod.fst).Nodup

/-- The names of every object in a value increase, code point by code point. -/
def InOrder (v : Json) : Prop :=
  ∀ ms, Part (.object ms) v → (ms.map Prod.fst).Pairwise Text.Before

theorem Distinct.child {v w : Json} (h : v.Distinct) (hw : w ∈ v.children) : w.Distinct :=
  fun ms hms => h ms (.inside hw hms)

theorem InOrder.child {v w : Json} (h : v.InOrder) (hw : w ∈ v.children) : w.InOrder :=
  fun ms hms => h ms (.inside hw hms)

theorem InOrder.distinct {v : Json} (h : v.InOrder) : v.Distinct := by
  intro ms hms
  exact (h ms hms).imp fun hbefore => (Text.before_iff.mp hbefore).2

theorem distinct_of_flat {members : Members} (hnames : (members.map Prod.fst).Nodup)
    (h : ∀ m ∈ members, m.2.children = []) : Distinct (.object members) := by
  intro ms hms
  rcases part_of_flat h hms with heq | ⟨m, hm, hvalue⟩
  · cases heq
    exact hnames
  · have hnil := h m hm
    rw [← hvalue] at hnil
    have hnone : ms.map Prod.snd = [] := hnil
    rw [List.map_eq_nil_iff.mp hnone]
    exact List.nodup_nil

/-! ## Sorting -/

def sortedMember (m : Text × Json) : Text × Json := (m.1, sorted m.2)

theorem sortedItems_eq_map (items : List Json) : sortedItems items = items.map sorted := by
  induction items with
  | nil => rfl
  | cons v rest ih => rw [sortedItems, ih, List.map_cons]

theorem sortedMembers_eq_map (members : Members) :
    sortedMembers members = members.map sortedMember := by
  induction members with
  | nil => rfl
  | cons m rest ih =>
    rw [sortedMembers, ih, List.map_cons]
    rfl

theorem sorted_array (items : List Json) : sorted (.array items) = .array (items.map sorted) := by
  rw [sorted, sortedItems_eq_map]

theorem sorted_object (members : Members) :
    sorted (.object members) = .object ((members.map sortedMember).mergeSort memberLe) := by
  rw [sorted, sortedMembers_eq_map]

theorem memberLe_trans (a b c : Text × Json) (hab : memberLe a b = true)
    (hbc : memberLe b c = true) : memberLe a c = true := Text.le_trans hab hbc

theorem memberLe_total (a b : Text × Json) : (memberLe a b || memberLe b a) = true := by
  rw [Bool.or_eq_true]
  exact Text.le_total a.1 b.1

theorem pairwise_mergeSort_members (members : Members) :
    (members.mergeSort memberLe).Pairwise fun a b => memberLe a b = true :=
  List.pairwise_mergeSort memberLe_trans memberLe_total members

theorem names_sortedMember (members : Members) :
    (members.map sortedMember).map Prod.fst = members.map Prod.fst := by
  rw [List.map_map]
  rfl

theorem values_sortedMember (members : Members) :
    (members.map sortedMember).map Prod.snd = (members.map Prod.snd).map sorted := by
  rw [List.map_map, List.map_map]
  rfl

/-- Members of different names stand in one order only. -/
theorem mergeSort_eq_of_perm {members others : Members} (hnames : (members.map Prod.fst).Nodup)
    (h : members.Perm others) : members.mergeSort memberLe = others.mergeSort memberLe := by
  have hmembers := List.mergeSort_perm members memberLe
  have hothers := List.mergeSort_perm others memberLe
  refine List.Perm.eq_of_pairwise ?_ (pairwise_mergeSort_members members)
    (pairwise_mergeSort_members others) (hmembers.trans (h.trans hothers.symm))
  intro a b ha hb hab hba
  have ha : a ∈ members := hmembers.mem_iff.mp ha
  have hb : b ∈ members := h.mem_iff.mpr (hothers.mem_iff.mp hb)
  exact List.inj_on_of_nodup_map hnames ha hb (Text.le_antisymm hab hba)

/-- A name that no two members have stands for the value of its member. -/
theorem get?_eq_some_iff {ms : Members} (h : (ms.map Prod.fst).Nodup) {name : Text} {v : Json} :
    ms.get? name = some v ↔ (name, v) ∈ ms := by
  unfold Members.get?
  induction ms with
  | nil => simp
  | cons m rest ih =>
    obtain ⟨first, w⟩ := m
    rw [List.map_cons, List.nodup_cons] at h
    rw [List.lookup_cons, List.mem_cons]
    cases hname : name == first with
    | true =>
      have hfirst := beq_iff_eq.mp hname
      subst hfirst
      have hrest : (name, v) ∉ rest := fun hmem => h.1 (List.mem_map.mpr ⟨_, hmem, rfl⟩)
      simp [hrest, eq_comm]
    | false =>
      have hfirst : name ≠ first := by simpa using hname
      simp only [ih h.2, Prod.mk.injEq, hfirst, false_and, false_or]

/-- What stands directly inside a value in order is what stands inside it, in order. -/
theorem mem_children_sorted {u v : Json} :
    u ∈ (sorted v).children ↔ ∃ w ∈ v.children, sorted w = u := by
  cases v with
  | array items => rw [sorted_array, children, children, List.mem_map]
  | object members =>
    have hperm := List.mergeSort_perm (members.map sortedMember) memberLe
    rw [sorted_object, children, children, (hperm.map Prod.snd).mem_iff, values_sortedMember,
      List.mem_map]
  | _ => simp [sorted, children]

/-- The name of a member stands for its value in the object in order. -/
theorem exists_sorted_get? {members : Members} (h : (members.map Prod.fst).Nodup) :
    ∃ ms : Members, sorted (.object members) = .object ms ∧
      ∀ m ∈ members, ms.get? m.1 = some (sorted m.2) := by
  refine ⟨_, sorted_object members, ?_⟩
  intro m hm
  have hperm := List.mergeSort_perm (members.map sortedMember) memberLe
  have hnodup : ((members.map sortedMember).mergeSort memberLe |>.map Prod.fst).Nodup := by
    rw [(hperm.map Prod.fst).nodup_iff, names_sortedMember]
    exact h
  rw [get?_eq_some_iff hnodup, hperm.mem_iff]
  exact List.mem_map.mpr ⟨m, hm, rfl⟩

theorem inOrder_sorted {v : Json} (h : v.Distinct) : (sorted v).InOrder := by
  induction v using children_induction with
  | step v ih =>
    intro ms hms
    generalize hv : sorted v = u at hms
    cases hms with
    | inside hw hpart =>
      rw [← hv] at hw
      obtain ⟨inner, hinner, rfl⟩ := mem_children_sorted.mp hw
      exact ih inner hinner (h.child hinner) ms hpart
    | self =>
      cases v with
      | object members =>
        rw [sorted_object] at hv
        cases hv
        have hperm := List.mergeSort_perm (members.map sortedMember) memberLe
        have hnodup : ((members.map sortedMember).mergeSort memberLe |>.map Prod.fst).Nodup := by
          rw [(hperm.map Prod.fst).nodup_iff, names_sortedMember]
          exact h members .self
        rw [List.pairwise_map]
        refine ((pairwise_mergeSort_members _).and (List.pairwise_map.mp hnodup)).imp ?_
        exact Text.before_iff.mpr
      | array items =>
        rw [sorted_array] at hv
        cases hv
      | _ => cases hv

/-! ## Alike values are sorted into one -/

mutual

theorem sorted_eq_of_alike : ∀ {v w : Json}, Alike v w → v.Distinct → sorted v = sorted w
  | _, _, .null, _ => rfl
  | _, _, .bool _, _ => rfl
  | _, _, .int _, _ => rfl
  | _, _, .float _, _ => rfl
  | _, _, .string _, _ => rfl
  | _, _, .array h, hv => by
    rw [sorted_array, sorted_array, map_sorted_of_alike h fun u hu => hv.child hu]
  | _, _, @Alike.object members others h, hv => by
    have hperm := perm_of_alike h fun m hm => hv.child (List.mem_map_of_mem hm)
    have hnames : ((members.map sortedMember).map Prod.fst).Nodup := by
      rw [names_sortedMember]
      exact hv members .self
    rw [sorted_object, sorted_object, mergeSort_eq_of_perm hnames hperm]

theorem map_sorted_of_alike : ∀ {items others : List Json}, AlikeItems items others →
    (∀ v ∈ items, v.Distinct) → items.map sorted = others.map sorted
  | _, _, .nil, _ => rfl
  | _, _, .cons h hrest, hd => by
    rw [List.map_cons, List.map_cons, sorted_eq_of_alike h (hd _ List.mem_cons_self),
      map_sorted_of_alike hrest fun v hv => hd v (List.mem_cons_of_mem _ hv)]

theorem perm_of_alike : ∀ {members others : Members}, AlikeMembers members others →
    (∀ m ∈ members, m.2.Distinct) →
    (members.map sortedMember).Perm (others.map sortedMember)
  | _, _, .nil, _ => .refl _
  | _, _, @AlikeMembers.cons name v w members before after h hrest, hd => by
    have hperm := perm_of_alike hrest fun m hm => hd m (List.mem_cons_of_mem _ hm)
    have hfirst : sortedMember (name, v) = sortedMember (name, w) :=
      congrArg (Prod.mk name) (sorted_eq_of_alike h (hd _ List.mem_cons_self))
    rw [List.map_cons, List.map_append, List.map_cons, hfirst]
    rw [List.map_append] at hperm
    exact (hperm.cons _).trans List.perm_middle.symm

end

/-! ## Values that are sorted into one are alike -/

theorem alikeItems_of_map {items others : List Json}
    (ih : ∀ v ∈ items, ∀ w, sorted v = sorted w → Alike v w)
    (h : items.map sorted = others.map sorted) : AlikeItems items others := by
  induction items generalizing others with
  | nil =>
    cases others with
    | nil => exact .nil
    | cons w others => cases h
  | cons v items step =>
    cases others with
    | nil => cases h
    | cons w others =>
      rw [List.map_cons, List.map_cons] at h
      obtain ⟨hfirst, hrest⟩ := List.cons.inj h
      exact .cons (ih v List.mem_cons_self w hfirst)
        (step (fun u hu => ih u (List.mem_cons_of_mem v hu)) hrest)

theorem alikeMembers_of_perm {members others : Members}
    (ih : ∀ m ∈ members, ∀ w, sorted m.2 = sorted w → Alike m.2 w)
    (h : (members.map sortedMember).Perm (others.map sortedMember)) :
    AlikeMembers members others := by
  induction members generalizing others with
  | nil =>
    have hnil := List.map_eq_nil_iff.mp h.symm.eq_nil
    rw [hnil]
    exact .nil
  | cons m members step =>
    rw [List.map_cons] at h
    have hmem : sortedMember m ∈ others.map sortedMember := h.mem_iff.mp List.mem_cons_self
    obtain ⟨other, hother, hfellow⟩ := List.mem_map.mp hmem
    obtain ⟨before, after, rfl⟩ := List.append_of_mem hother
    obtain ⟨name, v⟩ := m
    obtain ⟨name', w⟩ := other
    obtain ⟨rfl, hvalue⟩ := Prod.mk.inj hfellow
    refine .cons (ih _ List.mem_cons_self w hvalue.symm)
      (step (fun u hu => ih u (List.mem_cons_of_mem _ hu)) ?_)
    rw [List.map_append, List.map_cons, hfellow] at h
    rw [List.map_append]
    exact (h.trans List.perm_middle).cons_inv

/-- Nothing but arrays and objects is changed by sorting, or made by it. -/
theorem eq_of_sorted_eq {u w : Json} (harray : ∀ items, u ≠ .array items)
    (hobject : ∀ members, u ≠ .object members) (h : sorted w = u) : w = u := by
  cases w with
  | array items =>
    rw [sorted_array] at h
    exact absurd h.symm (harray _)
  | object members =>
    rw [sorted_object] at h
    exact absurd h.symm (hobject _)
  | _ => exact h

theorem alike_of_sorted_eq {v w : Json} (h : sorted v = sorted w) : Alike v w := by
  induction v using children_induction generalizing w with
  | step v ih =>
    cases v with
    | array items =>
      rw [sorted_array] at h
      cases w with
      | array others =>
        rw [sorted_array] at h
        exact .array (alikeItems_of_map (fun u hu w => ih u hu) (array.inj h))
      | object others =>
        rw [sorted_object] at h
        cases h
      | _ => cases h
    | object members =>
      rw [sorted_object] at h
      cases w with
      | object others =>
        rw [sorted_object] at h
        refine .object (alikeMembers_of_perm (fun m hm w => ih m.2 (List.mem_map_of_mem hm)) ?_)
        have hmembers := List.mergeSort_perm (members.map sortedMember) memberLe
        have hothers := List.mergeSort_perm (others.map sortedMember) memberLe
        rw [object.inj h] at hmembers
        exact hmembers.symm.trans hothers
      | array others =>
        rw [sorted_array] at h
        cases h
      | _ => cases h
    | _ =>
      -- neither an array nor an object: the other one is the same value
      rw [eq_of_sorted_eq (by simp [sorted]) (by simp [sorted]) h.symm]
      constructor

/-- **Sorting picks one value of all that are alike.** -/
theorem sorted_eq_iff_alike {v w : Json} (hv : v.Distinct) : sorted v = sorted w ↔ Alike v w :=
  ⟨alike_of_sorted_eq, fun h => sorted_eq_of_alike h hv⟩

end Json

end WasmReceipt
