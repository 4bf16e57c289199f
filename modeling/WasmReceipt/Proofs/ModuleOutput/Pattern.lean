import Mathlib.Data.List.Forall2
import Mathlib.Data.List.Infix
import WasmReceipt.Proofs.ModuleOutput.ControlSequence
import WasmReceipt.Proofs.ModuleOutput.Timestamp

/-! # Module output by patterns

A search for a pattern tries its ways in an order and takes the first. Here that order is made
explicit, and the functions that read a stream are shown to find what the searches find. What a
search with backtracking finds is then one rule: the text of a line in front of the least position
at which a timestamp stands. -/

namespace WasmReceipt.ModuleOutput

/-! ## Patterns and searches -/

/-- How many code points a part of a pattern takes: a fixed count, or any count, where the greatest
is tried first or the least. -/
inductive Amount where
  | exactly (n : Nat)
  | greedy
  | lazy

/-- A part of a pattern: a class of code points, and how many of them. -/
structure Part where
  holds : CodePoint → Bool
  amount : Amount

abbrev Pattern := List Part

/-- How many code points a part may take from the front of a text, in the order in which a search
tries the counts. -/
def Part.counts (part : Part) (t : Text) : List Nat :=
  let run := (t.takeWhile part.holds).length
  match part.amount with
  | .exactly n => if n ≤ run then [n] else []
  | .greedy => (List.range (run + 1)).reverse
  | .lazy => List.range (run + 1)

namespace Pattern

/-- The ways in which a pattern matches at the front of a text, each as what its parts take. A part
tries its next count when the parts behind it have no way left. -/
def ways : Pattern → Text → List (List Text)
  | [], _ => [[]]
  | part :: parts, t =>
    (part.counts t).flatMap fun n => (ways parts (t.drop n)).map (t.take n :: ·)

def first? (pattern : Pattern) (t : Text) : Option (List Text) := (ways pattern t).head?

/-- A text without what a pattern matches, searched from its front. A match that takes nothing
removes nothing. -/
def erase (pattern : Pattern) (t : Text) : Text :=
  match t with
  | [] => []
  | c :: rest =>
    match first? pattern (c :: rest) with
    | some pieces =>
      if pieces.flatten = [] then c :: erase pattern rest
      else erase pattern ((c :: rest).drop pieces.flatten.length)
    | none => c :: erase pattern rest
termination_by t.length
decreasing_by
  · simp
  · rename_i h
    have hpos := List.length_pos_iff.mpr h
    simp only [List.length_drop, List.length_cons]
    omega
  · simp

end Pattern

structure Part.Takes (part : Part) (piece : Text) : Prop where
  holds : ∀ c ∈ piece, part.holds c = true
  amount : ∀ n, part.amount = .exactly n → piece.length = n

variable {part : Part} {parts : Pattern} {pieces : List Text} {piece t rest : Text} {c : CodePoint}
  {n : Nat}

/-! ## What a search finds -/

theorem le_length_takeWhile_iff {p : CodePoint → Bool} :
    n ≤ (t.takeWhile p).length ↔ n ≤ t.length ∧ ∀ c ∈ t.take n, p c = true := by
  constructor
  · intro h
    have hrun : t.takeWhile p <+: t := List.takeWhile_prefix p
    refine ⟨Nat.le_trans h hrun.length_le, fun c hc => ?_⟩
    have htake : t.take n = (t.takeWhile p).take n := by
      conv => lhs; rw [← List.takeWhile_append_dropWhile (p := p) (l := t)]
      exact List.take_append_of_le_length h
    rw [htake] at hc
    exact List.all_eq_true.mp List.all_takeWhile c (List.mem_of_mem_take hc)
  · rintro ⟨hle, hall⟩
    have hsplit : (t.take n ++ t.drop n).takeWhile p = t.take n ++ (t.drop n).takeWhile p :=
      List.takeWhile_append_of_pos hall
    rw [List.take_append_drop] at hsplit
    rw [hsplit, List.length_append, List.length_take_of_le hle]
    exact Nat.le_add_right n _

theorem Part.mem_counts_iff :
    n ∈ part.counts t ↔ n ≤ t.length ∧ part.Takes (t.take n) := by
  have hrun : n < (t.takeWhile part.holds).length + 1 ↔ _ :=
    Nat.lt_succ_iff.trans le_length_takeWhile_iff
  obtain ⟨holds, amount⟩ := part
  cases amount with
  | exactly m =>
    simp only [counts]
    constructor
    · intro h
      split at h
      · rename_i hm
        obtain rfl := List.mem_singleton.mp h
        obtain ⟨hle, hall⟩ := le_length_takeWhile_iff.mp hm
        refine ⟨hle, hall, fun k hk => ?_⟩
        cases hk
        exact List.length_take_of_le hle
      · cases h
    · rintro ⟨hle, hall, hcount⟩
      have hn := hcount m rfl
      rw [List.length_take_of_le hle] at hn
      subst hn
      rw [if_pos (le_length_takeWhile_iff.mpr ⟨hle, hall⟩)]
      exact List.mem_singleton_self n
  | greedy =>
    simp only [counts, List.mem_reverse, List.mem_range, hrun]
    exact and_congr_right fun _ => ⟨fun h => ⟨h, fun k hk => by cases hk⟩, fun h => h.holds⟩
  | lazy =>
    simp only [counts, List.mem_range, hrun]
    exact and_congr_right fun _ => ⟨fun h => ⟨h, fun k hk => by cases hk⟩, fun h => h.holds⟩

namespace Pattern

/-- **All ways are tried, and nothing else.** -/
theorem mem_ways_iff :
    pieces ∈ ways parts t ↔ List.Forall₂ Part.Takes parts pieces ∧ pieces.flatten <+: t := by
  induction parts generalizing pieces t with
  | nil =>
    simp only [ways, List.mem_singleton, List.forall₂_nil_left_iff]
    constructor
    · rintro rfl
      exact ⟨rfl, List.nil_prefix⟩
    · exact And.left
  | cons part parts ih =>
    simp only [ways, List.mem_flatMap, List.mem_map, Part.mem_counts_iff]
    constructor
    · rintro ⟨n, ⟨hle, htakes⟩, others, hothers, rfl⟩
      obtain ⟨hall, behind, hbehind⟩ := ih.mp hothers
      refine ⟨.cons htakes hall, behind, ?_⟩
      rw [List.flatten_cons, List.append_assoc, hbehind, List.take_append_drop]
    · rintro ⟨hall, behind, hbehind⟩
      obtain ⟨piece, others, htakes, hothers, rfl⟩ := List.forall₂_cons_left_iff.mp hall
      rw [List.flatten_cons, List.append_assoc] at hbehind
      subst hbehind
      refine ⟨piece.length, ⟨by simp, ?_⟩, others, ih.mpr ⟨hothers, ?_⟩, ?_⟩
      · rwa [List.take_left]
      · rw [List.drop_left]
        exact List.prefix_append others.flatten behind
      · rw [List.take_left]

theorem takes_of_first? (h : first? parts t = some pieces) :
    List.Forall₂ Part.Takes parts pieces ∧ pieces.flatten <+: t :=
  mem_ways_iff.mp (List.mem_of_head? h)

theorem isSome_first?_iff :
    (first? parts t).isSome = true ↔
      ∃ pieces, List.Forall₂ Part.Takes parts pieces ∧ pieces.flatten <+: t := by
  constructor
  · intro h
    obtain ⟨pieces, hpieces⟩ := Option.isSome_iff_exists.mp h
    exact ⟨pieces, takes_of_first? hpieces⟩
  · rintro ⟨pieces, hpieces⟩
    rw [first?, List.isSome_head?]
    exact List.ne_nil_of_mem (mem_ways_iff.mpr hpieces)

theorem first?_cons :
    first? (part :: parts) t =
      (part.counts t).findSome? fun n => (first? parts (t.drop n)).map (t.take n :: ·) := by
  simp only [first?, ways, List.head?_flatMap, List.head?_map]

/-- A lazy part takes nothing if the parts behind it match at once. Otherwise it takes one code
point of its class and goes on from there. -/
theorem first?_lazy_cons (p : CodePoint → Bool) :
    first? (⟨p, .lazy⟩ :: parts) (c :: rest) =
      match first? parts (c :: rest) with
      | some pieces => some ([] :: pieces)
      | none =>
        if p c then
          (first? (⟨p, .lazy⟩ :: parts) rest).map fun pieces =>
            (c :: pieces.headD []) :: pieces.tail
        else none := by
  have hnone : first? parts ((c :: rest).drop 0) = first? parts (c :: rest) := rfl
  rw [first?_cons]
  cases hc : p c with
  | false =>
    have hcounts : Part.counts ⟨p, .lazy⟩ (c :: rest) = [0] := by
      simp [Part.counts, hc]
    rw [hcounts]
    cases hfirst : first? parts (c :: rest) with
    | none => simp [hfirst]
    | some pieces => simp [hfirst]
  | true =>
    have hcounts : Part.counts ⟨p, .lazy⟩ (c :: rest) =
        0 :: (Part.counts ⟨p, .lazy⟩ rest).map (· + 1) := by
      simp [Part.counts, hc, List.range_succ_eq_map]
    rw [hcounts, first?_cons]
    cases hfirst : first? parts (c :: rest) with
    | none => simp [hfirst, List.findSome?_map, Function.comp_def]
    | some pieces => simp [hfirst]

end Pattern

/-! ## The patterns of a stream -/

def sequencePattern : Pattern :=
  [⟨isEscape, .exactly 1⟩, ⟨(·.is '['), .exactly 1⟩, ⟨isParameter, .greedy⟩,
    ⟨isIntermediate, .greedy⟩, ⟨isFinal, .exactly 1⟩]

def stampPattern : Pattern :=
  [⟨CodePoint.isDigit, .exactly 4⟩, ⟨(·.is '-'), .exactly 1⟩, ⟨CodePoint.isDigit, .exactly 2⟩,
    ⟨(·.is '-'), .exactly 1⟩, ⟨CodePoint.isDigit, .exactly 2⟩, ⟨(·.is 'T'), .exactly 1⟩]

/-- Whatever stands on a line in front of a timestamp, as little as there may be, and the
timestamp. -/
def glued : Pattern := ⟨(!·.is '\n'), .lazy⟩ :: stampPattern

/-- The text in front of a timestamp as the search finds it, and a line without one as it is. -/
def inFront (line : Text) : Text := ((glued.first? line).bind List.head?).getD line

/-- The module's part of a line by the patterns. A line that begins with a timestamp is set aside
before the search for one. -/
def ofLineByPattern (line : Text) : Option Text :=
  if (stampPattern.first? line).isSome then none else trimmed (inFront line)

/-- The output of the module in a stream by the patterns. -/
def extractByPattern (stream : Text) : Text :=
  Text.join "\n" ((sequencePattern.erase stream).lines.filterMap ofLineByPattern)

theorem takes_one_iff {k : Char} :
    Part.Takes ⟨(·.is k), .exactly 1⟩ piece ↔ piece = [CodePoint.ofChar k] := by
  constructor
  · rintro ⟨hall, hcount⟩
    obtain ⟨c, rfl⟩ := List.length_eq_one_iff.mp (hcount 1 rfl)
    rw [CodePoint.is_iff.mp (hall c (List.mem_singleton_self c))]
  · rintro rfl
    refine ⟨fun c hc => ?_, fun n hn => ?_⟩
    · exact CodePoint.is_iff.mpr (List.mem_singleton.mp hc)
    · cases hn
      rfl

theorem takes_exactly_iff {p : CodePoint → Bool} :
    Part.Takes ⟨p, .exactly n⟩ piece ↔ piece.length = n ∧ ∀ c ∈ piece, p c = true := by
  constructor
  · rintro ⟨hall, hcount⟩
    exact ⟨hcount n rfl, hall⟩
  · rintro ⟨hcount, hall⟩
    refine ⟨hall, fun m hm => ?_⟩
    cases hm
    exact hcount

theorem takes_greedy_iff {p : CodePoint → Bool} :
    Part.Takes ⟨p, .greedy⟩ piece ↔ ∀ c ∈ piece, p c = true :=
  ⟨Part.Takes.holds, fun h => ⟨h, fun n hn => by cases hn⟩⟩

/-- What the parts of a timestamp take is a timestamp. -/
theorem isTimestamp_of_takes (h : List.Forall₂ Part.Takes stampPattern pieces) :
    IsTimestamp pieces.flatten := by
  obtain ⟨year, _, hyear, h₁, rfl⟩ := List.forall₂_cons_left_iff.mp h
  obtain ⟨_, _, hfirst, h₂, rfl⟩ := List.forall₂_cons_left_iff.mp h₁
  obtain ⟨month, _, hmonth, h₃, rfl⟩ := List.forall₂_cons_left_iff.mp h₂
  obtain ⟨_, _, hsecond, h₄, rfl⟩ := List.forall₂_cons_left_iff.mp h₃
  obtain ⟨day, _, hday, h₅, rfl⟩ := List.forall₂_cons_left_iff.mp h₄
  obtain ⟨_, _, hletter, h₆, rfl⟩ := List.forall₂_cons_left_iff.mp h₅
  obtain rfl := List.forall₂_nil_left_iff.mp h₆
  obtain rfl := takes_one_iff.mp hfirst
  obtain rfl := takes_one_iff.mp hsecond
  obtain rfl := takes_one_iff.mp hletter
  refine ⟨year, month, day, ?_, hyear.amount 4 rfl, hmonth.amount 2 rfl, hday.amount 2 rfl, ?_⟩
  · simp [Text.ofString]
  · intro c hc
    rcases List.mem_append.mp hc with hc | hc
    · rcases List.mem_append.mp hc with hc | hc
      · exact hyear.holds c hc
      · exact hmonth.holds c hc
    · exact hday.holds c hc

theorem exists_takes_of_isTimestamp (h : IsTimestamp t) :
    ∃ pieces, List.Forall₂ Part.Takes stampPattern pieces ∧ pieces.flatten = t := by
  obtain ⟨year, month, day, rfl, hy, hm, hd, hall⟩ := h
  have hyear : ∀ c ∈ year, c.isDigit = true := fun c hc => hall c (by simp [hc])
  have hmonth : ∀ c ∈ month, c.isDigit = true := fun c hc => hall c (by simp [hc])
  have hday : ∀ c ∈ day, c.isDigit = true := fun c hc => hall c (by simp [hc])
  refine ⟨[year, "-", month, "-", day, "T"], ?_, by simp [Text.ofString]⟩
  exact .cons (takes_exactly_iff.mpr ⟨hy, hyear⟩) (.cons (takes_one_iff.mpr rfl)
    (.cons (takes_exactly_iff.mpr ⟨hm, hmonth⟩) (.cons (takes_one_iff.mpr rfl)
      (.cons (takes_exactly_iff.mpr ⟨hd, hday⟩) (.cons (takes_one_iff.mpr rfl) .nil)))))

/-- A search for a timestamp at the front finds one where one stands. -/
theorem isSome_first?_stampPattern :
    (stampPattern.first? t).isSome = true ↔ BeginsStamped t := by
  rw [Pattern.isSome_first?_iff]
  constructor
  · rintro ⟨pieces, hpieces, behind, rfl⟩
    exact ⟨pieces.flatten, behind, isTimestamp_of_takes hpieces, rfl⟩
  · rintro ⟨stamp, behind, hstamp, rfl⟩
    obtain ⟨pieces, hpieces, rfl⟩ := exists_takes_of_isTimestamp hstamp
    exact ⟨pieces, hpieces, List.prefix_append pieces.flatten behind⟩

theorem first?_stampPattern_of_not_begins (h : ¬ BeginsStamped t) :
    stampPattern.first? t = none := by
  rw [← isSome_first?_stampPattern] at h
  simpa using h

/-- **A lazy search cuts at the first timestamp.** It tries the positions of the line one after the
other, and stops at the first one at which a timestamp stands. -/
theorem inFront_eq {line : Text} (h : CodePoint.ofChar '\n' ∉ line) :
    inFront line = untilTimestamp [] line := by
  induction line with
  | nil =>
    have hnone : stampPattern.first? [] = none :=
      first?_stampPattern_of_not_begins not_beginsStamped_nil
    simp [inFront, glued, Pattern.first?_cons, Part.counts, hnone, untilTimestamp_nil]
  | cons c rest ih =>
    rw [List.mem_cons, not_or] at h
    have hc : (!c.is '\n') = true := by
      rw [Bool.not_eq_true']
      exact Bool.eq_false_iff.mpr fun hfeed => h.1 (CodePoint.is_iff.mp hfeed).symm
    unfold inFront glued
    rw [Pattern.first?_lazy_cons]
    by_cases hb : BeginsStamped (c :: rest)
    · obtain ⟨pieces, hpieces⟩ :=
        Option.isSome_iff_exists.mp (isSome_first?_stampPattern.mpr hb)
      rw [hpieces, untilTimestamp_of_begins_stamped hb]
      rfl
    · rw [first?_stampPattern_of_not_begins hb, untilTimestamp_cons hb, ← ih h.2]
      dsimp only
      rw [if_pos hc]
      unfold inFront glued
      cases hfirst : Pattern.first? (⟨(!·.is '\n'), .lazy⟩ :: stampPattern) rest with
      | none => rfl
      | some pieces =>
        obtain ⟨piece, others, -, -, rfl⟩ :=
          List.forall₂_cons_left_iff.mp (Pattern.takes_of_first? hfirst).1
        rfl

/-! ## Control sequences -/

theorem isSequence_of_takes (h : List.Forall₂ Part.Takes sequencePattern pieces) :
    IsSequence pieces.flatten := by
  obtain ⟨_, _, hescape, h₁, rfl⟩ := List.forall₂_cons_left_iff.mp h
  obtain ⟨_, _, hbracket, h₂, rfl⟩ := List.forall₂_cons_left_iff.mp h₁
  obtain ⟨parameters, _, hparameters, h₃, rfl⟩ := List.forall₂_cons_left_iff.mp h₂
  obtain ⟨intermediates, _, hintermediates, h₄, rfl⟩ := List.forall₂_cons_left_iff.mp h₃
  obtain ⟨_, _, hfinal, h₅, rfl⟩ := List.forall₂_cons_left_iff.mp h₄
  obtain rfl := List.forall₂_nil_left_iff.mp h₅
  obtain ⟨escape, rfl⟩ := List.length_eq_one_iff.mp (hescape.amount 1 rfl)
  obtain ⟨final, rfl⟩ := List.length_eq_one_iff.mp (hfinal.amount 1 rfl)
  obtain rfl := takes_one_iff.mp hbracket
  have hsequence := IsSequence.mk (hescape.holds escape (List.mem_singleton_self escape)) rfl
    hparameters.holds hintermediates.holds (hfinal.holds final (List.mem_singleton_self final))
  simpa using hsequence

theorem exists_takes_of_isSequence (h : IsSequence t) :
    ∃ pieces, List.Forall₂ Part.Takes sequencePattern pieces ∧ pieces.flatten = t := by
  cases h with
  | @mk escape bracket final parameters intermediates he hb hp hi hf =>
    subst hb
    refine ⟨[[escape], "[", parameters, intermediates, [final]], ?_, by simp [Text.ofString]⟩
    exact .cons (takes_exactly_iff.mpr ⟨rfl, by simpa using he⟩) (.cons (takes_one_iff.mpr rfl)
      (.cons (takes_greedy_iff.mpr hp) (.cons (takes_greedy_iff.mpr hi)
        (.cons (takes_exactly_iff.mpr ⟨rfl, by simpa using hf⟩) .nil))))

theorem isSome_first?_sequencePattern :
    (sequencePattern.first? t).isSome = true ↔ BeginsSequence t := by
  rw [Pattern.isSome_first?_iff]
  constructor
  · rintro ⟨pieces, hpieces, after, rfl⟩
    exact ⟨pieces.flatten, after, isSequence_of_takes hpieces, rfl⟩
  · rintro ⟨q, after, hq, rfl⟩
    obtain ⟨pieces, hpieces, rfl⟩ := exists_takes_of_isSequence hq
    exact ⟨pieces, hpieces, List.prefix_append pieces.flatten after⟩

/-- **A search for control sequences removes what the scan drops.** -/
theorem erase_sequencePattern (t : Text) : sequencePattern.erase t = plain t := by
  fun_induction Pattern.erase sequencePattern t with
  | case1 => exact plain_nil.symm
  | case2 c rest pieces hpieces hempty ih =>
    have hsequence := isSequence_of_takes (Pattern.takes_of_first? hpieces).1
    exact absurd hempty hsequence.ne_nil
  | case3 c rest pieces hpieces hempty ih =>
    obtain ⟨htakes, after, hafter⟩ := Pattern.takes_of_first? hpieces
    rw [ih, ← hafter, List.drop_left, plain_sequence (isSequence_of_takes htakes)]
  | case4 c rest hnone ih =>
    have hbegins : ¬ BeginsSequence (c :: rest) := by
      rw [← isSome_first?_sequencePattern, hnone]
      exact Bool.false_ne_true
    rw [ih, plain_cons_of_not_begins hbegins]

/-! ## One rule for a line -/

/-- The text of a line in front of the least position at which a timestamp stands, or the whole line
if there is none. -/
def beforeStamp (line : Text) : Text := line.take (line.tails.findIdx fun t => BeginsStamped t)

theorem beforeStamp_eq (line : Text) : beforeStamp line = untilTimestamp [] line := by
  induction line with
  | nil => rfl
  | cons c rest ih =>
    unfold beforeStamp at ih ⊢
    rw [List.tails_cons, List.findIdx_cons]
    by_cases h : BeginsStamped (c :: rest)
    · rw [decide_eq_true h, untilTimestamp_of_begins_stamped h]
      rfl
    · rw [decide_eq_false h, untilTimestamp_cons h, ← ih]
      rfl

/-- The output of the module by one rule for all lines. -/
def extractByRule (stream : Text) : Text :=
  Text.join "\n"
    (((plain stream).lines.map fun line => (beforeStamp line).strip isTrimmed).filter (!·.isEmpty))

theorem ofLineByPattern_eq {line : Text} (h : CodePoint.ofChar '\n' ∉ line) :
    ofLineByPattern line = trimmed (untilTimestamp [] line) := by
  unfold ofLineByPattern
  rw [inFront_eq h]
  split
  · rename_i hstamp
    rw [untilTimestamp_of_begins_stamped (isSome_first?_stampPattern.mp hstamp)]
    rfl
  · rfl

theorem filterMap_trimmed (parts : List Text) :
    parts.filterMap trimmed = (parts.map (·.strip isTrimmed)).filter (!·.isEmpty) := by
  induction parts with
  | nil => rfl
  | cons part parts ih =>
    cases h : (part.strip isTrimmed).isEmpty with
    | true =>
      have hnone : trimmed part = none := by simp only [trimmed, h, if_true]
      rw [List.filterMap_cons_none hnone, List.map_cons, List.filter_cons_of_neg (by simp [h]), ih]
    | false =>
      have hsome : trimmed part = some (part.strip isTrimmed) := by simp [trimmed, h]
      rw [List.filterMap_cons_some hsome, List.map_cons, List.filter_cons_of_pos (by simp [h]), ih]

/-- **Module output by one rule.** Each line is cut in front of the least position at which a
timestamp stands, or kept as a whole; what is left without white space around it makes up the
output. The searches by patterns come to the same. -/
theorem extract_by_one_rule (t : Text) :
    extract t = extractByRule t ∧ extract t = extractByPattern t ∧
      ∀ line : Text, CodePoint.ofChar '\n' ∉ line →
        inFront line = beforeStamp line ∧ ofLineByPattern line = trimmed (inFront line) := by
  have hofLine : ofLine = fun line => trimmed (untilTimestamp [] line) := funext ofLine_eq_trimmed
  refine ⟨?rule, ?pattern, ?line⟩
  case rule =>
    have hbefore : beforeStamp = untilTimestamp [] := funext beforeStamp_eq
    have hparts := filterMap_trimmed ((plain t).lines.map (untilTimestamp []))
    rw [List.filterMap_map, List.map_map] at hparts
    rw [extract, extractByRule, hofLine, hbefore]
    exact congrArg (Text.join "\n") hparts
  case pattern =>
    have hlines : (plain t).lines.filterMap ofLineByPattern = (plain t).lines.filterMap ofLine := by
      refine List.filterMap_congr fun line hline => ?_
      rw [ofLineByPattern_eq (Text.lineFeed_notMem_of_mem_lines hline), ofLine_eq_trimmed]
    rw [extractByPattern, erase_sequencePattern, hlines, extract]
  case line =>
    intro line hline
    exact ⟨(inFront_eq hline).trans (beforeStamp_eq line).symm,
      by rw [ofLineByPattern_eq hline, inFront_eq hline]⟩

/-- Digits glued to the year, a date that is cut short by another one, a digit that is not ASCII,
and a second timestamp. -/
theorem extract_by_one_rule_overlapping :
    let line : Text := "\u06632025-11-02025-11-09T04:50 2025-01-01T"
    CodePoint.ofChar '\n' ∉ line ∧ inFront line = "\u06632025-11-0" ∧
      extract line = "\u06632025-11-0" := by
  intro line
  have hfeed : CodePoint.ofChar '\n' ∉ line := by decide
  obtain ⟨hrule, -, hline⟩ := extract_by_one_rule line
  have hbefore : beforeStamp line = "\u06632025-11-0" := rfl
  have hplain : plain line = line := plain_of_withSequences (by decide) (.refl line)
  refine ⟨hfeed, (hline line hfeed).1.trans hbefore, ?_⟩
  have hlines : line.lines = [line] := List.splitOn_eq_singleton hfeed
  rw [hrule, extractByRule, hplain, hlines, List.map_singleton, hbefore]
  rfl

end WasmReceipt.ModuleOutput
