import WasmReceipt.Document
import WasmReceipt.Proofs.Json.Encoding
import WasmReceipt.Proofs.Json.PlainText
import WasmReceipt.Proofs.Json.Sorted

/-! # The canonical text of a value

The canonical text of a value is the text of the sorted value on one line. A sorted value is read
back as it was, so the text tells values apart up to the order of members and no further. -/

namespace WasmReceipt.Json

/-! ## What sorting leaves as it is -/

/-- A check of a value and of all values directly inside it does not see the order of members. -/
theorem check_sorted {check own : Json → Bool}
    (hcheck : ∀ v, check v = (own v && v.children.all check))
    (hown : ∀ v, own (sorted v) = own v) (v : Json) : check (sorted v) = check v := by
  induction v using children_induction with
  | step v ih =>
    have hinside : (sorted v).children.all check = v.children.all check := by
      rw [Bool.eq_iff_iff, List.all_eq_true, List.all_eq_true]
      constructor
      · intro h w hw
        rw [← ih w hw]
        exact h _ (mem_children_sorted.mpr ⟨w, hw, rfl⟩)
      · intro h u hu
        obtain ⟨w, hw, rfl⟩ := mem_children_sorted.mp hu
        rw [ih w hw]
        exact h w hw
    rw [hcheck, hcheck v, hown, hinside]

theorem floatFree_sorted (v : Json) : (sorted v).floatFree = v.floatFree := by
  refine check_sorted floatFree_eq (fun v => ?_) v
  cases v <;> simp [sorted, isNoDouble]

theorem integersFit_sorted (v : Json) : (sorted v).integersFit = v.integersFit := by
  refine check_sorted integersFit_eq (fun v => ?_) v
  cases v <;> simp [sorted, isNoLongInteger]

theorem depth_sorted_le (v : Json) : (sorted v).depth ≤ v.depth := by
  induction v using children_induction with
  | step v ih =>
    cases v with
    | array items =>
      rw [sorted_array, depth, depth]
      refine Nat.add_le_add_right (itemsDepth_le_iff.mpr fun u hu => ?_) 1
      obtain ⟨w, hw, rfl⟩ := List.mem_map.mp hu
      exact Nat.le_trans (ih w hw) (itemsDepth_le_iff.mp (Nat.le_refl _) w hw)
    | object members =>
      rw [sorted_object, depth, depth]
      refine Nat.add_le_add_right (membersDepth_le_iff.mpr fun m hm => ?_) 1
      rw [(List.mergeSort_perm _ _).mem_iff] at hm
      obtain ⟨w, hw, rfl⟩ := List.mem_map.mp hm
      have hw2 := membersDepth_le_iff.mp (Nat.le_refl _) w hw
      exact Nat.le_trans (ih w.2 (List.mem_map_of_mem hw)) hw2
    | _ => exact Nat.le_refl _

/-- A value in order is sorted already. -/
theorem sorted_of_inOrder {v : Json} (h : v.InOrder) : sorted v = v := by
  induction v using children_induction with
  | step v ih =>
    have hsame : ∀ w ∈ v.children, sorted w = w := fun w hw => ih w hw (h.child hw)
    cases v with
    | array items =>
      have hitems : items.map sorted = items :=
        (List.map_congr_left hsame).trans (List.map_id' items)
      rw [sorted_array, hitems]
    | object members =>
      have hmembers : members.map sortedMember = members := by
        refine (List.map_congr_left fun m hm => ?_).trans (List.map_id' members)
        exact congrArg (Prod.mk m.1) (hsame m.2 (List.mem_map_of_mem hm))
      have hnames := List.pairwise_map.mp (h members .self)
      have hle : members.Pairwise fun a b => memberLe a b = true :=
        hnames.imp fun hbefore => (Text.before_iff.mp hbefore).1
      rw [sorted_object, hmembers, List.mergeSort_of_pairwise hle]
    | _ => rfl

/-- A value is alike to itself in order. -/
theorem alike_sorted {v : Json} (h : v.Distinct) : Alike v (sorted v) :=
  alike_of_sorted_eq (sorted_of_inOrder (inOrder_sorted h)).symm

/-! ## Reading raw text back -/

/-- A new name goes behind the others. -/
theorem Members.set_of_notMem {name : Text} {value : Json} {ms : Members}
    (h : name ∉ ms.map Prod.fst) : ms.set name value = ms ++ [(name, value)] := by
  induction ms with
  | nil => rfl
  | cons m rest ih =>
    rw [List.map_cons, List.mem_cons, not_or] at h
    rw [Members.set, if_neg (Ne.symm h.1), ih h.2, List.cons_append]

theorem readBackItems_eq_map (ascii : Bool) (items : List Json) :
    readBackItems ascii items = items.map (readBack ascii) := by
  induction items with
  | nil => rfl
  | cons v rest ih => rw [readBackItems, ih, List.map_cons]

/-- Members of different names come back one behind the other. -/
theorem readBackMembers_of_nodup {done ms : Members} (hms : ∀ m ∈ ms, readBack false m.2 = m.2)
    (h : ((done ++ ms).map Prod.fst).Nodup) : readBackMembers false done ms = done ++ ms := by
  induction ms generalizing done with
  | nil => rw [readBackMembers, List.append_nil]
  | cons m rest ih =>
    obtain ⟨name, v⟩ := m
    have hv : readBack false v = v := hms (name, v) List.mem_cons_self
    have hnew : name ∉ done.map Prod.fst := by
      rw [List.map_append, List.map_cons] at h
      intro hold
      exact (List.nodup_append.mp h).2.2 name hold name List.mem_cons_self rfl
    have hset : done.set (reread false name) v = done ++ [(name, v)] :=
      Members.set_of_notMem hnew
    rw [readBackMembers, hv, hset,
      ih (fun m hm => hms m (List.mem_cons_of_mem _ hm)) (by simpa using h), List.append_assoc,
      List.singleton_append]

/-- Raw text gives every value back whose objects have one member for each name. -/
theorem readBack_of_distinct {v : Json} (h : v.Distinct) : readBack false v = v := by
  induction v using children_induction with
  | step v ih =>
    have hsame : ∀ w ∈ v.children, readBack false w = w := fun w hw => ih w hw (h.child hw)
    cases v with
    | array items =>
      have hitems : items.map (readBack false) = items :=
        (List.map_congr_left hsame).trans (List.map_id' items)
      rw [readBack, readBackItems_eq_map, hitems]
    | object members =>
      rw [readBack, readBackMembers_of_nodup fun m hm => hsame m.2 (List.mem_map_of_mem hm)]
      · rfl
      · exact h members .self
    | _ => rfl

/-- The text of a value begins with a character of ASCII. -/
theorem exists_head_render (layout : Layout) {v : Json} (hf : v.floatFree = true) :
    ∃ c rest, v.render layout = c :: rest ∧ c.isPrintableAscii = true := by
  cases v with
  | bool b => cases b <;> exact ⟨_, _, rfl, by decide⟩
  | int n =>
    have hall := List.all_eq_true.mp (Decimal.all_isPrintableAscii_ofInt n)
    show ∃ c rest, Decimal.ofInt n = c :: rest ∧ c.isPrintableAscii = true
    cases hn : Decimal.ofInt n with
    | nil => exact absurd hn (Decimal.ofInt_ne_nil n)
    | cons c rest => exact ⟨c, rest, rfl, hall c (by rw [hn]; exact List.mem_cons_self)⟩
  | float x => cases hf
  | array items => cases items <;> exact ⟨_, _, rfl, by decide⟩
  | object members => cases members <;> exact ⟨_, _, rfl, by decide⟩
  | _ => exact ⟨_, _, rfl, by decide⟩

/-- A document in text is read as its text is, if it begins with ASCII. -/
theorem readDocument_text {c : CodePoint} {rest : Text} (hc : c.isPrintableAscii = true) :
    readDocument (.text (c :: rest)) = (read (c :: rest)).mapError .content := by
  have hlt := (CodePoint.isPrintableAscii_iff.mp hc).2
  have hmark : ((c :: rest).head?.any (·.val == 0xFEFF)) = false := by
    simp only [List.head?_cons, Option.any_some, beq_eq_false_iff_ne]
    omega
  rw [readDocument, hmark]
  rfl

theorem render_of_write {layout : Layout} {v : Json} {t : Text} (h : write layout v = .ok t) :
    t = v.render layout := by
  unfold write at h
  split at h
  · cases h
  · split at h
    · exact (Except.ok.inj h).symm
    · cases h

section

variable {layout : Layout} {v : Json} {t after : Text}

/-- **Raw text is read as the value that it was written from.** White space may follow it. -/
theorem read_write_raw (hraw : layout.ascii = false) (hf : v.floatFree = true) (hd : v.Distinct)
    (ha : ∀ c ∈ after, c.isJsonBlank = true) (h : write layout v = .ok t) :
    read (t ++ after) = .ok v := by
  rw [read_write hf ha h, hraw, readBack_of_distinct hd]

theorem ofDocument_write (hraw : layout.ascii = false) (hf : v.floatFree = true)
    (hd : v.Distinct) (h : write layout v = .ok t) : ofDocument (.text t) = .ok v := by
  have hread : read (t ++ []) = .ok v := read_write_raw hraw hf hd (by simp) h
  rw [List.append_nil] at hread
  obtain ⟨c, rest, hhead, hc⟩ := exists_head_render layout hf
  rw [← render_of_write h] at hhead
  subst hhead
  rw [ofDocument, readDocument_text hc, hread]
  rfl

/-- A document in bytes on one line, with a line feed behind it. -/
theorem ofDocument_write_line (hraw : layout.ascii = false) (hline : layout.indent = none)
    (hf : v.floatFree = true) (hd : v.Distinct) (h : write layout v = .ok t) :
    ofDocument (.bytes (Utf8.encodeLoose (t ++ "\n"))) = .ok v := by
  have hread : read (t ++ "\n") = .ok v := read_write_raw hraw hf hd (by decide) h
  obtain ⟨c, rest, hhead, hc⟩ := exists_head_render layout hf
  obtain ⟨hl, hg⟩ := CodePoint.isPrintableAscii_iff.mp hc
  have hbegins : BeginsAscii (t ++ "\n") := by
    rw [render_of_write h, hhead]
    cases rest with
    | nil => exact ⟨c, _, _, rfl, by omega, by omega, by decide⟩
    | cons d rest =>
      have hd : 0x20 ≤ d.val := le_val_of_mem_render hline hf (by simp [hhead])
      exact ⟨c, d, _, rfl, by omega, by omega, by omega⟩
  rw [ofDocument, readDocument_encodeLoose hbegins]
  rw [render_of_write h, hhead, List.cons_append] at hread ⊢
  rw [readDocument_text hc, hread]
  rfl

end

/-! ## Canonical text -/

/-- What a record or a report is made of: no double, one member for each name of an object, and
arrays and objects within arrays and objects up to five hundred. -/
structure IsData (v : Json) : Prop where
  noDouble : ∀ x, ¬ Part (.float x) v
  distinct : v.Distinct
  shallow : v.depth ≤ 500

/-- Somewhere in a value is an integer of more digits than can be written. -/
def HoldsLongInteger (v : Json) : Prop :=
  ∃ n, Part (.int n) v ∧ Decimal.maxDigits < Decimal.digitCount n

theorem holdsLongInteger_iff {v : Json} : v.HoldsLongInteger ↔ v.integersFit = false := by
  rw [← Bool.not_eq_true, integersFit_iff]
  simp [HoldsLongInteger, Decimal.isWritable]

variable {v w : Json}

theorem IsData.floatFree (h : v.IsData) : v.floatFree = true := floatFree_iff.mpr h.noDouble

theorem IsData.shallow_sorted (h : v.IsData) : ¬ maxDepth < (sorted v).depth := by
  have hle := depth_sorted_le v
  have hshallow := h.shallow
  simp only [maxDepth]
  omega

theorem canonical_of_holdsLongInteger (h : v.IsData) (hl : v.HoldsLongInteger) :
    v.canonical = .error .longInteger := by
  rw [canonical, write, if_neg h.shallow_sorted, integersFit_sorted, holdsLongInteger_iff.mp hl]
  rfl

theorem canonical_eq (h : v.IsData) (hl : ¬ v.HoldsLongInteger) :
    v.canonical = .ok ((sorted v).render .compact) := by
  rw [holdsLongInteger_iff, Bool.not_eq_false] at hl
  rw [canonical, write, if_neg h.shallow_sorted, integersFit_sorted, if_pos hl]

/-- Canonical text is read as the value in order. -/
theorem ofDocument_canonical (h : v.IsData) (hl : ¬ v.HoldsLongInteger) :
    ofDocument (.text ((sorted v).render .compact)) = .ok (sorted v) := by
  refine ofDocument_write rfl ?_ (inOrder_sorted h.distinct).distinct (canonical_eq h hl)
  rw [floatFree_sorted]
  exact h.floatFree

/-- Two values have one canonical text only if they are alike: the text is read as either of them
in order. -/
theorem render_sorted_eq_iff (hv : v.IsData) (hvl : ¬ v.HoldsLongInteger) (hw : w.IsData)
    (hwl : ¬ w.HoldsLongInteger) :
    (sorted v).render .compact = (sorted w).render .compact ↔ Alike v w := by
  rw [← sorted_eq_iff_alike hv.distinct]
  constructor
  · intro h
    have hreadv := ofDocument_canonical hv hvl
    rw [h, ofDocument_canonical hw hwl] at hreadv
    exact (Except.ok.inj hreadv).symm
  · intro h
    rw [h]

/-- A text that stands for a value and all that are alike to it: it is read as one of them, the one
whose members are in order, of which it is the text on one line. -/
structure IsCanonicalText (v : Json) (t : Text) : Prop where
  back : ∃ u, ofDocument (.text t) = .ok u ∧ Alike v u ∧ u.InOrder ∧ t = u.render .compact
  noControl : ∀ c ∈ t, 0x20 ≤ c.val

theorem isCanonicalText_render (h : v.IsData) (hl : ¬ v.HoldsLongInteger) :
    IsCanonicalText v ((sorted v).render .compact) where
  back := ⟨sorted v, ofDocument_canonical h hl, alike_sorted h.distinct,
    inOrder_sorted h.distinct, rfl⟩
  noControl c hc := by
    refine le_val_of_mem_render rfl ?_ hc
    rw [floatFree_sorted]
    exact h.floatFree

/-- **Canonical text is a canonical form.** A value without doubles is refused if an integer in it
is too long. Otherwise it has a text that is read back as the value up to the order of members, with
the names of every object in order and no control, and two values have the same text exactly if they
are equal up to the order of members. -/
theorem toCanonical_canonical_form (v : Json) (hv : v.IsData) :
    (v.HoldsLongInteger →
      v.toCanonical = .error .longIntegerText ∧ Failure.longIntegerText.kind.isA .value = true) ∧
    (¬ v.HoldsLongInteger →
      (∃ t, v.toCanonical = .ok t ∧ IsCanonicalText v t) ∧
      ∀ w : Json, w.IsData → ¬ w.HoldsLongInteger →
        (v.toCanonical = w.toCanonical ↔ Alike v w)) := by
  constructor
  · intro hl
    refine ⟨?_, rfl⟩
    rw [toCanonical, canonical_of_holdsLongInteger hv hl]
    rfl
  · intro hl
    have hvt : v.toCanonical = .ok ((sorted v).render .compact) := by
      rw [toCanonical, canonical_eq hv hl]
      rfl
    refine ⟨⟨_, hvt, isCanonicalText_render hv hl⟩, ?_⟩
    intro w hw hwl
    have hwt : w.toCanonical = .ok ((sorted w).render .compact) := by
      rw [toCanonical, canonical_eq hw hwl]
      rfl
    rw [hvt, hwt, Except.ok.injEq]
    exact render_sorted_eq_iff hv hl hw hwl

namespace Sample

def halves : Text × Json := ("b", .string [CodePoint.ofNat 0xD83D, CodePoint.ofNat 0xDE00])

def plain : Text × Json := ("a", .string "x")

end Sample

theorem isData_of_strings (members : Members) (hnames : (members.map Prod.fst).Nodup)
    (hvalues : ∀ m ∈ members, ∃ t, m.2 = .string t) :
    IsData (.object members) ∧ ¬ HoldsLongInteger (.object members) := by
  have hflat : ∀ m ∈ members, m.2.children = [] := by
    intro m hm
    obtain ⟨t, ht⟩ := hvalues m hm
    rw [ht]
    rfl
  have hparts : ∀ u, Part u (.object members) → u = .object members ∨ ∃ t, u = .string t := by
    intro u hu
    rcases part_of_flat hflat hu with rfl | ⟨m, hm, rfl⟩
    · exact .inl rfl
    · exact .inr (hvalues m hm)
  refine ⟨⟨?_, distinct_of_flat hnames hflat, ?_⟩, ?_⟩
  · intro x hx
    rcases hparts _ hx with h | ⟨t, h⟩
    · cases h
    · cases h
  · rw [depth]
    refine Nat.add_le_add_right (membersDepth_le_iff.mpr fun m hm => ?_) 1
    obtain ⟨t, ht⟩ := hvalues m hm
    rw [ht]
    exact Nat.zero_le 499
  · intro h
    obtain ⟨n, hn, -⟩ := h
    rcases hparts _ hn with h | ⟨t, h⟩
    · cases h
    · cases h

open Sample in
/-- Two orders of two members, one of them with surrogates that are not joined: one text, which is
read as the two members in order. -/
theorem toCanonical_halves :
    (∃ t, (object [halves, plain]).toCanonical = .ok t ∧ IsCanonicalText (.object [halves, plain]) t) ∧
      (object [halves, plain]).toCanonical = (object [plain, halves]).toCanonical := by
  have hstring : ∀ m ∈ [halves, plain], ∃ t, m.2 = .string t := by simp [halves, plain]
  have hswap : [plain, halves].Perm [halves, plain] := List.Perm.swap _ _ _
  obtain ⟨hv, hvl⟩ := isData_of_strings [halves, plain] (by decide) hstring
  obtain ⟨hw, hwl⟩ := isData_of_strings [plain, halves] (by decide)
    fun m hm => hstring m (hswap.mem_iff.mp hm)
  obtain ⟨htext, hsame⟩ := (toCanonical_canonical_form _ hv).2 hvl
  refine ⟨htext, (hsame _ hw hwl).mpr (.object ?_)⟩
  have hnil : AlikeMembers [] ([] ++ []) := .nil
  have hrest : AlikeMembers [plain] ([plain] ++ []) := .cons (.string _) hnil
  exact .cons (.string _) hrest

end WasmReceipt.Json
