import WasmReceipt.Proofs.FileTree.Frame

/-! # Absolute paths

A command writes to a path as it was given and reads it in its absolute form. Both lead to the same
place if the working directory is there: double dots go back along directories that are there, so
they can be worked off beforehand. -/

namespace WasmReceipt

theorem Text.mem_join_iff {c : CodePoint} {sep : Text} {parts : List Text} :
    c ∈ Text.join sep parts ↔
      (c ∈ sep ∧ 1 < parts.length) ∨ ∃ part ∈ parts, c ∈ part := by
  induction parts with
  | nil => simp [join, List.intercalate]
  | cons part rest ih =>
    cases rest with
    | nil => simp [join, List.intercalate]
    | cons next rest =>
      have hjoin : join sep (part :: next :: rest) = part ++ (sep ++ join sep (next :: rest)) := by
        simp [join, List.intercalate]
      rw [hjoin, List.mem_append, List.mem_append, ih]
      simp only [List.length_cons, List.mem_cons, exists_eq_or_imp]
      constructor
      · rintro (h | h | ⟨h, -⟩ | h)
        · exact .inr (.inl h)
        · exact .inl ⟨h, by omega⟩
        · exact .inl ⟨h, by omega⟩
        · exact .inr (.inr h)
      · rintro (⟨h, -⟩ | h | h)
        · exact .inr (.inl h)
        · exact .inl h
        · exact .inr (.inr (.inr h))

namespace FileTree

variable {tree : FileTree} {p : Path} {place start : Location} {name : Text} {names : List Text}

/-! ## What can be said -/

/-- The system can be told a code point: it is not half of a pair, unless it stands for a byte, and
not the end of a string. -/
def IsSayable (c : CodePoint) : Prop := (c.isSurrogate = true → isByteEscape c = true) ∧ c.val ≠ 0

theorem unencodable?_eq_none_iff {t : Text} :
    unencodable? t = none ↔ ∀ c ∈ t, c.isSurrogate = true → isByteEscape c = true := by
  rw [unencodable?, Utf8.firstRefused_eq_none_iff]
  refine forall₂_congr fun c _ => ?_
  cases c.isSurrogate <;> simp

theorem sayable_iff_text : sayable p = .ok () ↔ ∀ c ∈ p.text, IsSayable c := by
  unfold sayable IsSayable
  cases h : unencodable? p.text with
  | some fault =>
    refine iff_of_false nofun ?_
    intro hall
    have hnone := unencodable?_eq_none_iff.mpr fun c hc => (hall c hc).1
    rw [h] at hnone
    cases hnone
  | none =>
    have hbytes := unencodable?_eq_none_iff.mp h
    dsimp only
    split
    · rename_i hnul
      obtain ⟨c, hc, hzero⟩ := List.any_eq_true.mp hnul
      exact iff_of_false nofun fun hall => (hall c hc).2 (by simpa using hzero)
    · rename_i hnul
      refine iff_of_true rfl fun c hc => ⟨hbytes c hc, ?_⟩
      intro hzero
      exact hnul (List.any_eq_true.mpr ⟨c, hc, by simpa using hzero⟩)

/-- A path can be said when its root and all of its names can. -/
theorem sayable_iff : sayable p = .ok () ↔
    (∀ c ∈ p.root, IsSayable c) ∧ ∀ name ∈ p.names, ∀ c ∈ name, IsSayable c := by
  rw [sayable_iff_text]
  have hslash : IsSayable (CodePoint.ofChar '/') := ⟨by decide, by decide⟩
  have hdot : IsSayable (CodePoint.ofChar '.') := ⟨by decide, by decide⟩
  unfold Path.text
  split
  · rename_i hempty
    simp only [Bool.and_eq_true, List.isEmpty_iff] at hempty
    rw [hempty.1, hempty.2]
    refine iff_of_true ?_ ⟨nofun, nofun⟩
    intro c hc
    cases List.mem_singleton.mp hc
    exact hdot
  · simp only [List.mem_append, Text.mem_join_iff]
    constructor
    · intro h
      exact ⟨fun c hc => h c (.inl hc), fun name hname c hc => h c (.inr (.inr ⟨name, hname, hc⟩))⟩
    · rintro ⟨hroot, hnames⟩ c (hc | ⟨hc, -⟩ | ⟨name, hname, hc⟩)
      · exact hroot c hc
      · cases List.mem_singleton.mp hc
        exact hslash
      · exact hnames name hname c hc

/-- Going along a name that can be said leads to a path that can be said. -/
theorem sayable_along (hp : sayable p = .ok ()) (hname : ∀ c ∈ name, IsSayable c) :
    sayable (p.along name) = .ok () := by
  rw [sayable_iff] at hp ⊢
  obtain ⟨hroot, hnames⟩ := hp
  have hlonger : (∀ c ∈ p.root, IsSayable c) ∧
      ∀ other ∈ p.names ++ [name], ∀ c ∈ other, IsSayable c := by
    refine ⟨hroot, fun other hother => ?_⟩
    rcases List.mem_append.mp hother with h | h
    · exact hnames other h
    · cases List.mem_singleton.mp h
      exact hname
  unfold Path.along
  split
  · exact hlonger
  · split
    · exact ⟨hroot, fun other hother => hnames other (List.dropLast_subset _ hother)⟩
    · split
      · exact hlonger
      · exact ⟨hroot, hnames⟩

/-- A path that can be said has an absolute form. -/
theorem resolve_of_sayable (tree : FileTree) (hp : sayable p = .ok ()) :
    tree.resolve p = .ok (p.resolve tree.workingDirectory) := by
  obtain ⟨hroot, hnames⟩ := sayable_iff.mp hp
  -- along the names: every beginning can be said
  have hwalk : ∀ (names : List Text) (seen : Path), sayable seen = .ok () →
      (∀ name ∈ names, ∀ c ∈ name, IsSayable c) →
      ∃ last, names.foldlM (fun seen name => do
        let seen := Path.along seen name
        sayable seen
        return seen) seen = .ok last := by
    intro names
    induction names with
    | nil => exact fun seen _ _ => ⟨seen, rfl⟩
    | cons name rest ih =>
      intro seen hseen hall
      have hnext := sayable_along hseen (hall name List.mem_cons_self)
      obtain ⟨last, hlast⟩ :=
        ih (seen.along name) hnext fun other hother => hall other (List.mem_cons_of_mem name hother)
      refine ⟨last, ?_⟩
      rw [List.foldlM_cons]
      dsimp only
      rw [hnext]
      exact hlast
  have hstart : sayable ⟨p.root.take 1, []⟩ = .ok () :=
    sayable_iff.mpr ⟨fun c hc => hroot c (List.mem_of_mem_take hc), nofun⟩
  obtain ⟨last, hlast⟩ := hwalk p.names _ hstart hnames
  unfold resolve
  dsimp only
  rw [hlast]
  rfl

/-! ## Places below the root -/

/-- All directories above a place are there and open, and its names are ones that the system
takes. -/
structure IsRooted (tree : FileTree) (place : Location) : Prop where
  above : ∀ n < place.length, tree.IsOpen (place.take n)
  plain : ∀ name ∈ place, name ≠ Text.ofString ".."
  short : ∀ name ∈ place, (systemBytes name).length ≤ maxNameBytes
  said : ∀ name ∈ place, ∀ c ∈ name, IsSayable c

theorem isRooted_follow (h : tree.IsRooted place) (hopen : tree.IsOpen place)
    (hshort : (systemBytes name).length ≤ maxNameBytes) (hsaid : ∀ c ∈ name, IsSayable c) :
    tree.IsRooted (Path.follow place name) := by
  unfold Path.follow
  split
  · refine ⟨fun n hn => ?_, fun other hother => h.plain other (List.dropLast_subset _ hother),
      fun other hother => h.short other (List.dropLast_subset _ hother),
      fun other hother => h.said other (List.dropLast_subset _ hother)⟩
    rw [List.length_dropLast] at hn
    have htake : place.dropLast.take n = place.take n := by
      rw [List.dropLast_eq_take, List.take_take, Nat.min_eq_left (by omega)]
    rw [htake]
    exact h.above n (by omega)
  · rename_i hplain
    have hcase {P : Text → Prop} (hall : ∀ other ∈ place, P other) (hlast : P name) :
        ∀ other ∈ place ++ [name], P other := by
      intro other hother
      rcases List.mem_append.mp hother with hold | hnew
      · exact hall other hold
      · cases List.mem_singleton.mp hnew
        exact hlast
    refine ⟨fun n hn => ?_, hcase h.plain hplain, hcase h.short hshort, hcase h.said hsaid⟩
    rw [List.length_append, List.length_singleton] at hn
    rw [List.take_append_of_le_length (by omega)]
    by_cases hlast : n < place.length
    · exact h.above n hlast
    · rw [List.take_of_length_le (by omega)]
      exact hopen

/-- Names that are followed from a place below the root lead to a place below the root, and to the
one that they spell. -/
theorem isRooted_of_follow (h : tree.IsRooted start)
    (hsaid : ∀ name ∈ names, ∀ c ∈ name, IsSayable c) (hfollow : tree.follow start names = .ok place) :
    tree.IsRooted place ∧ place = names.foldl Path.follow start := by
  induction names generalizing start with
  | nil =>
    cases hfollow
    exact ⟨h, rfl⟩
  | cons name rest ih =>
    obtain ⟨hopen, hshort, hfollow⟩ := follow_cons_eq_ok_iff.mp hfollow
    exact ih (isRooted_follow h hopen hshort (hsaid name List.mem_cons_self))
      (fun other hother => hsaid other (List.mem_cons_of_mem name hother)) hfollow

/-- The names of a place below the root lead to it. -/
theorem follow_of_isRooted (h : tree.IsRooted place) : tree.follow [] place = .ok place := by
  -- along the names, from where the first of them have led
  have hwalk : ∀ (names : List Text) (start : Location), start ++ names = place →
      tree.follow start names = .ok place := by
    intro names
    induction names with
    | nil =>
      intro start hstart
      rw [List.append_nil] at hstart
      rw [hstart]
      rfl
    | cons name rest ih =>
      intro start hstart
      have hmem : name ∈ place := by
        rw [← hstart]
        simp
      have hopen : tree.IsOpen start := by
        have habove := h.above start.length (by rw [← hstart]; simp)
        rwa [← hstart, List.take_left] at habove
      have hnext : Path.follow start name = start ++ [name] := if_neg (h.plain name hmem)
      refine follow_cons_eq_ok_iff.mpr ⟨hopen, h.short name hmem, ?_⟩
      rw [hnext]
      exact ih (start ++ [name]) (by rw [← hstart]; simp)
  exact hwalk place [] rfl

/-! ## Absolute forms -/

def HasHome (tree : FileTree) : Prop := tree.IsRooted tree.workingDirectory

/-- **The absolute form of a path leads to where the path leads**, unless it is too long for the
system. -/
theorem locate_resolve (home : tree.HasHome) (h : tree.locate p = .ok place)
    (hlength : (systemBytes (p.resolve tree.workingDirectory).text).length ≤ maxPathBytes) :
    tree.resolve p = .ok (p.resolve tree.workingDirectory) ∧
      tree.locate (p.resolve tree.workingDirectory) = .ok place := by
  obtain ⟨hsayable, hreach⟩ := locate_eq_ok_iff.mp h
  refine ⟨resolve_of_sayable tree hsayable, ?_⟩
  have hsaid := (sayable_iff.mp hsayable).2
  have horigin : tree.IsRooted (tree.origin p) := by
    unfold origin
    split
    · exact home
    · exact ⟨nofun, nofun, nofun, nofun⟩
  unfold reach at hreach
  split at hreach
  · cases hreach
  · obtain ⟨hrooted, hplace⟩ := isRooted_of_follow horigin hsaid hreach
    have habsolute : p.resolve tree.workingDirectory = ⟨"/", place⟩ := by
      rw [hplace]
      rfl
    rw [habsolute] at hlength ⊢
    have hslash : ∀ c ∈ Text.ofString "/", IsSayable c := by
      intro c hc
      cases List.mem_singleton.mp hc
      exact ⟨by decide, by decide⟩
    refine locate_eq_ok_iff.mpr ⟨sayable_iff.mpr ⟨hslash, hrooted.said⟩, ?_⟩
    rw [reach, if_neg (Nat.not_lt_of_le hlength)]
    exact follow_of_isRooted hrooted

/-- A file can be read by the absolute form of its path, too. -/
theorem HoldsReadable.resolve {content : Bytes} (home : tree.HasHome)
    (h : tree.HoldsReadable p content)
    (hlength : (systemBytes (p.resolve tree.workingDirectory).text).length ≤ maxPathBytes) :
    ∃ q, tree.resolve p = .ok q ∧ tree.HoldsReadable q content := by
  obtain ⟨place, isPrivate, hplace, hfile, hread⟩ := h
  obtain ⟨hresolve, hsame⟩ := locate_resolve home hplace hlength
  exact ⟨_, hresolve, place, isPrivate, hsame, hfile, hread⟩

end FileTree

end WasmReceipt
