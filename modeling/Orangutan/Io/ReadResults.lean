import Orangutan.Core.ScalarValues
import Orangutan.Io.FileLines

/-!
# Whole reads and line reads

From a file that stays as it is, both reads have a result of their own, whatever the single reads
give. The line read counts the lines before it trims the text to whole code points, the whole
read afterwards.
-/

namespace Orangutan.Io

set_option autoImplicit false

open Orangutan.Core Orangutan.Core.Str Orangutan.Lib Orangutan.Lib.Fallible

/-- What `read_lines` gives of a file with this content. -/
def windowResult (lines : LineSpan) (maxBytes : Nat) (content : Bytes) : ReadTextResult where
  text := windowText lines maxBytes content
  startLine := lines.startLine
  endLine := lines.startLine - 1 + countLineSpan ((windowFrom lines 1 content).take maxBytes)
  returnedBytes := (windowText lines maxBytes content).length
  truncated := maxBytes < (windowFrom lines 1 content).length

/-- The text of a whole read. -/
def wholeText (maxBytes : Nat) (content : Bytes) : Bytes :=
  if content.length ≤ maxBytes then content else alignToUtf8Boundaries (content.take maxBytes)

/-- What `read_whole` gives of a file with this content. -/
def wholeResult (maxBytes : Nat) (content : Bytes) : ReadTextResult where
  text := wholeText maxBytes content
  startLine := 1
  endLine := countLineSpan (wholeText maxBytes content)
  returnedBytes := (wholeText maxBytes content).length
  truncated := maxBytes < content.length

section Reads

variable {file : ReadOnlyFile} {v : Version} (hfd : v.holds file.fd = true)

include hfd

theorem reads_readLines_result {lines : LineSpan} {maxBytes : Nat} (hstart : 0 < lines.startLine)
    (hcount : 0 < lines.lineCount) :
    Reads v (readLines file lines maxBytes) fun read =>
      read = windowResult lines maxBytes v.content := by
  unfold readLines
  refine Reads.bind (Q := fun last =>
    ((last.text = windowFrom lines 1 v.content ∧ last.text.length ≤ maxBytes ∧
      last.truncated = false) ∨
      Cut lines maxBytes v.content last) ∧ Tallied lines last) ?_ ?_
  · intro w hw
    have hrounds : v.content.length < 0 + w.rounds := by
      simp only [World.rounds, hw.target, versionBytes, Option.map_some, Option.getD_some]
      omega
    have hscanned : Scanned lines maxBytes (v.content.take 0) { endLine := lines.startLine - 1 } :=
      ⟨rfl, Nat.zero_le _, rfl, (by dsimp only; omega), rfl⟩
    have htallied : Tallied lines { endLine := lines.startLine - 1 } :=
      ⟨rfl, rfl, fun hne => absurd rfl hne⟩
    obtain ⟨last, w', hrun, hw', hlast⟩ :=
      reads_readLinesLoop hfd hcount w.rounds 0 _ hscanned (Nat.zero_le _) hrounds w hw
    exact ⟨last, w', hrun, hw', hlast, readLinesLoop_tallied file htallied hstart hrun⟩
  · rintro last ⟨hlast, htallied⟩
    refine Reads.pure ?_
    have hend := htallied.endLine hstart
    rcases hlast with ⟨htext, hfits, hwhole⟩ | ⟨hover, hcut, htext⟩
    · rw [htext] at hfits
      have htake : last.text = (windowFrom lines 1 v.content).take maxBytes := by
        rw [htext, List.take_of_length_le hfits]
      have hwindow : windowText lines maxBytes v.content = last.text := by
        rw [windowText, if_pos hfits, htext]
      simp only [windowResult, hwindow, hwhole, Bool.false_eq_true, false_and, if_false, ← htake,
        ← hend, decide_eq_true_eq]
      simp [Nat.not_lt.mpr hfits]
    · have hwindow : windowText lines maxBytes v.content = alignToUtf8Boundaries last.text := by
        rw [windowText, if_neg (by omega), htext]
      have hshown : (if last.truncated = true ∧ last.text ≠ [] then alignToUtf8Boundaries last.text
        else last.text) =
          windowText lines maxBytes v.content := by
        rw [hwindow]
        by_cases hempty : last.text = []
        · simp [hempty, alignToUtf8Boundaries, wholeCodePoints]
        · simp [hcut, hempty]
      simp only [windowResult, hshown, ← htext, ← hend, decide_eq_true_eq]
      simp [hcut, hover]

theorem reads_readBytesLoop (offset length rounds : Nat) (text : Bytes)
    (htext : text = (v.content.drop offset).take text.length) (hoffset : offset + text.length ≤
      v.content.length)
    (hshort : text.length ≤ length) (hrounds : length ≤ text.length + rounds) :
    Reads v (readBytesLoop file offset length rounds text) fun read =>
      read = (v.content.drop offset).take length := by
  induction rounds generalizing text with
  | zero =>
    refine Reads.pure ?_
    have hfull : text.length = length := by omega
    rw [← hfull]
    exact htext
  | succ rounds ih =>
    unfold readBytesLoop
    split
    · rename_i hmore
      refine (reads_readChunk hfd _ _ hoffset).bind ?_
      rintro piece ⟨n, hn, hpiece⟩
      split
      · rename_i hnone
        rw [hnone] at hpiece
        exact Reads.pure (chunk_ends htext hmore hn hpiece.symm)
      · rename_i hsome
        have hpositive : 0 < piece.length := List.length_pos_iff.mpr hsome
        obtain ⟨hextended, hbound⟩ := chunk_extends htext hpiece
        have hinside : piece.length ≤ v.content.length - (offset + text.length) := by
          rw [hpiece, List.length_take, List.length_drop]
          omega
        apply ih _ hextended
        · rw [List.length_append]
          omega
        · rw [List.length_append]
          omega
        · rw [List.length_append]
          omega
    · rename_i hdone
      refine Reads.pure ?_
      have hfull : text.length = length := by omega
      rw [← hfull]
      exact htext

theorem reads_readWhole (maxBytes : Nat) :
    Reads v (readWhole file v.content.length maxBytes) fun read =>
      read = wholeResult maxBytes v.content := by
  unfold readWhole
  refine (reads_readBytesLoop hfd 0 _ _ [] (by simp) (by simp) (by simp) (by simp)).bind ?_
  rintro text rfl
  refine Reads.pure ?_
  rw [List.drop_zero]
  by_cases hfits : v.content.length ≤ maxBytes
  · simp [wholeResult, wholeText, hfits, Nat.not_lt.mpr hfits]
  · have htake : v.content.take (min v.content.length maxBytes) = v.content.take maxBytes := by
      rw [Nat.min_eq_right (by omega)]
    have hcut : maxBytes < v.content.length := by omega
    have hshown : (if decide (maxBytes < v.content.length) = true ∧
      v.content.take maxBytes ≠ [] then
        alignToUtf8Boundaries (v.content.take maxBytes) else v.content.take maxBytes) =
          wholeText maxBytes v.content := by
      rw [wholeText, if_neg hfits]
      by_cases hempty : v.content.take maxBytes = []
      · simp [hempty, alignToUtf8Boundaries, wholeCodePoints]
      · simp only [hcut, decide_true, true_and, hempty, ne_eq, not_false_eq_true, if_true]
    simp only [htake, hshown, wholeResult]

end Reads

/-- The walk over whole code points keeps the longest well-formed prefix. -/
theorem wholeCodePoints_longest {t : Bytes} {m fuel : Nat} (ht : isValidUtf8 t = true)
    (hfuel : (t.take m).length ≤ fuel) :
    LongestPrefix t m (wholeCodePoints fuel (t.take m)) := by
  induction fuel generalizing t m with
  | zero =>
    have hcut : t.take m = [] := List.length_eq_zero_iff.mp (Nat.le_zero.mp hfuel)
    refine LongestPrefix.nil fun q hq _ hfits => ?_
    have hprefix := List.prefix_take_iff.mpr ⟨hq, hfits⟩
    rw [hcut] at hprefix
    exact List.prefix_nil.mp hprefix
  | succ fuel ih =>
    rcases t with _ | ⟨b, rest⟩
    · rw [List.take_nil]
      exact LongestPrefix.nil fun q hq _ _ => List.prefix_nil.mp hq
    · obtain ⟨hlead, hinside, -, hrest⟩ := (isValidUtf8_cons b rest).mp ht
      by_cases hshort : m < leadLength b
      · have hcut : wholeCodePoints (fuel + 1) ((b :: rest).take m) = [] := by
          rcases m with _ | m
          · rfl
          · rw [List.take_succ_cons, wholeCodePoints, announcedLength_eq, if_neg hlead]
            dsimp only
            rw [if_pos]
            rw [List.length_cons, List.length_take]
            omega
        rw [hcut]
        refine LongestPrefix.nil fun q hq hvalid hfits => ?_
        by_contra hne
        have hlong := (prefix_cons hq hvalid hne).1
        omega
      · obtain ⟨n, rfl⟩ := Nat.exists_eq_succ_of_ne_zero (show m ≠ 0 by omega)
        have hstep : wholeCodePoints (fuel + 1) ((b :: rest).take (n + 1)) =
          (b :: rest).take (leadLength b) ++
            wholeCodePoints fuel (((b :: rest).drop (leadLength b)).take
              (n + 1 - leadLength b)) := by
          have htaken : b :: rest.take n = (b :: rest).take (n + 1) := rfl
          rw [List.take_succ_cons, wholeCodePoints, announcedLength_eq, if_neg hlead]
          dsimp only
          rw [htaken, if_neg (by rw [List.length_take]; omega), List.take_take,
            Nat.min_eq_left (by omega), List.drop_take]
        rw [hstep]
        refine LongestPrefix.cons ht (by omega) (ih hrest ?_)
        simp only [List.length_take, List.length_drop, List.length_cons] at hfuel ⊢
        omega

theorem not_continuation {b : UInt8} (h : leadLength b ≠ 0) : (b &&& 0xC0 = 0x80) = False := by
  have hall : ∀ n < 256, UInt8.ofNat n &&& 0xC0 = 0x80 → leadLength (UInt8.ofNat n) = 0 := by
    decide +kernel
  have hb := hall b.toNat b.toNat_lt
  rw [UInt8.ofNat_toNat] at hb
  exact eq_false (mt hb h)

/-- Well-formed text is trimmed to its longest well-formed prefix under the cap. -/
theorem alignToUtf8Boundaries_longest {t : Bytes} (ht : isValidUtf8 t = true) (m : Nat) :
    LongestPrefix t m (alignToUtf8Boundaries (t.take m)) := by
  have hkeep : (t.take m).dropWhile (fun byte => decide (byte &&& 0xC0 = 0x80)) = t.take m := by
    rcases t with _ | ⟨b, rest⟩
    · simp
    · obtain ⟨hlead, -⟩ := (isValidUtf8_cons b rest).mp ht
      rcases m with _ | m
      · simp
      · simp [not_continuation hlead]
  have hsame : alignToUtf8Boundaries (t.take m) = wholeCodePoints (t.take m).length (t.take m) := by
    unfold alignToUtf8Boundaries
    rw [hkeep]
  rw [hsame]
  exact wholeCodePoints_longest ht (le_refl _)

/-- The bytes of a longer sequence are not ASCII. -/
theorem sequence_not_ascii {s : Bytes} (h : Sequence s) (hlong : s.length ≠ 1) :
    ∀ b ∈ s, ¬b < 0x80 := by
  have htail {b : UInt8} (hb : inRange b (0x80, 0xBF) = true) : ¬b < 0x80 :=
    not_ascii_of_inRange (by decide) hb
  have hfirst {lead b : UInt8} (hb : inRange b (firstContinuationRange lead) = true) : ¬b < 0x80 :=
    not_ascii_of_inRange (continuation_not_ascii lead) hb
  intro b hb
  cases h with
  | one _ => exact absurd rfl hlong
  | two hl h₁ =>
    simp only [List.mem_cons, List.not_mem_nil, or_false] at hb
    rcases hb with rfl | rfl
    · exact not_ascii_of_lead (by omega)
    · exact hfirst h₁
  | three hl h₁ h₂ =>
    simp only [List.mem_cons, List.not_mem_nil, or_false] at hb
    rcases hb with rfl | rfl | rfl
    · exact not_ascii_of_lead (by omega)
    · exact hfirst h₁
    · exact htail h₂
  | four hl h₁ h₂ h₃ =>
    simp only [List.mem_cons, List.not_mem_nil, or_false] at hb
    rcases hb with rfl | rfl | rfl | rfl
    · exact not_ascii_of_lead (by omega)
    · exact hfirst h₁
    · exact htail h₂
    · exact htail h₃

/-- What is trimmed away is a part of one character, so no line ends in it. -/
theorem trimmed_no_line_end {t p : Bytes} {m : Nat} (ht : isValidUtf8 t = true)
    (h : LongestPrefix t m p) :
    10 ∉ (t.take m).drop p.length := by
  obtain ⟨u, rfl⟩ := h.starts
  have hu : isValidUtf8 u = true := by
    rwa [isValidUtf8_append h.valid] at ht
  have hrest : ((p ++ u).take m).drop p.length = u.take (m - p.length) := by
    rw [List.drop_take, List.drop_left]
  rw [hrest]
  by_cases hne : u = []
  · rw [hne, List.take_nil]
    exact List.not_mem_nil
  · obtain ⟨s, u', rfl, hs, -⟩ := exists_sequence hu hne
    have hspositive : 0 < s.length := by cases hs <;> simp
    have hbeyond : m < p.length + s.length := by
      by_contra hfits
      have hlonger : p ++ s <+: p := by
        refine h.longest (p ++ s) ⟨u', by simp⟩ ?_ (by rw [List.length_append]; omega)
        have hsvalid := hs.valid []
        rw [List.append_nil] at hsvalid
        rw [isValidUtf8_append h.valid, hsvalid]
        rfl
      have hlength := hlonger.length_le
      rw [List.length_append] at hlength
      omega
    rw [List.take_append_of_le_length (by omega)]
    intro hmem
    by_cases hone : s.length = 1
    · have hnone : m - p.length = 0 := by omega
      rw [hnone, List.take_zero] at hmem
      cases hmem
    · exact sequence_not_ascii hs hone 10 (List.mem_of_mem_take hmem) (by decide)

/-- The cap lies inside a character that is the first one of its line. -/
def SplitsFirst (content : Bytes) (maxBytes : Nat) : Prop :=
  maxBytes < content.length ∧
    ∃ p, LongestPrefix content maxBytes p ∧ p.length < maxBytes ∧ (p = [] ∨ p.getLast? = some 10)

/-- The span covers exactly the lines with a byte in the text. -/
def SpanCovers (read : ReadTextResult) : Prop :=
    read.endLine = read.startLine - 1 + (fileLines read.text).length

structure Agree (a b : ReadTextResult) : Prop where
  text : a.text = b.text
  returnedBytes : a.returnedBytes = b.returnedBytes
  truncated : a.truncated = b.truncated
  startLine : a.startLine = b.startLine
  endLine : a.endLine = b.endLine

theorem LongestPrefix.unique {t p q : Bytes} {m : Nat} (h : LongestPrefix t m p)
    (h' : LongestPrefix t m q) : p = q :=
  (h'.longest p h.starts h.valid h.fits).eq_of_length_le
    (h.longest q h'.starts h'.valid h'.fits).length_le

theorem windowFrom_all {count : Nat} {content : Bytes}
    (hcount : (fileLines content).length ≤ count) :
    windowFrom ⟨1, count⟩ 1 content = content := by
  rw [windowFrom_lines (by exact Nat.one_pos), windowLines]
  simp only [Nat.sub_self, List.drop_zero, List.take_of_length_le hcount]
  exact fileLines_flatten content

/-- A part of a character behind the text counts as a line exactly if it begins one. -/
theorem countLineSpan_append {p r : Bytes} (hr : 10 ∉ r) :
    countLineSpan (p ++ r) = countLineSpan p ↔ ¬(r ≠ [] ∧ (p = [] ∨ p.getLast? = some 10)) := by
  have hcount : r.count 10 = 0 := List.count_eq_zero.mpr hr
  by_cases hempty : r = []
  · simp [hempty]
  · have hlast : (p ++ r).getLast? ≠ some 10 := by
      rw [List.getLast?_append_of_ne_nil p hempty]
      exact fun hlast => hr (List.mem_of_getLast? hlast)
    rw [countLineSpan, if_neg (by simp [hempty]), if_neg hlast, List.count_append, hcount,
      countLineSpan]
    by_cases hp : p = []
    · simp [hp, hempty]
    · rw [if_neg hp]
      by_cases hend : p.getLast? = some 10
      · simp [hend, hempty, hp]
      · simp [hend, hempty, hp]

/-- Both reads agree, and their spans cover the lines of the text, exactly if the cap does not split
the first character of a line. -/
theorem results_agree_iff {content : Bytes} (hvalid : isValidUtf8 content = true) {count : Nat}
    (maxBytes : Nat) (hcount : (fileLines content).length ≤ count) :
    (Agree (wholeResult maxBytes content) (windowResult ⟨1, count⟩ maxBytes content) ∧
        SpanCovers (wholeResult maxBytes content) ∧
          SpanCovers (windowResult ⟨1, count⟩ maxBytes content)) ↔
      ¬SplitsFirst content maxBytes := by
  have hall := windowFrom_all hcount
  have htext : windowText ⟨1, count⟩ maxBytes content = wholeText maxBytes content := by
    rw [windowText, wholeText, hall]
  have hwhole : SpanCovers (wholeResult maxBytes content) := by
    rw [SpanCovers, wholeResult, countLineSpan_eq]
    exact (Nat.zero_add _).symm
  have hspan : (Agree (wholeResult maxBytes content) (windowResult ⟨1, count⟩ maxBytes content) ∧
      SpanCovers (wholeResult maxBytes content) ∧
        SpanCovers (windowResult ⟨1, count⟩ maxBytes content)) ↔
      countLineSpan (content.take maxBytes) = countLineSpan (wholeText maxBytes content) := by
    have hend : (windowResult ⟨1, count⟩ maxBytes content).endLine =
        countLineSpan (content.take maxBytes) := by
      rw [windowResult, hall]
      exact Nat.zero_add _
    constructor
    · rintro ⟨hagree, -, -⟩
      rw [← hend, ← hagree.endLine]
      rfl
    · intro hsame
      have hagree : Agree (wholeResult maxBytes content)
          (windowResult ⟨1, count⟩ maxBytes content) := by
        refine ⟨htext.symm, congrArg List.length htext.symm, ?_, rfl, ?_⟩
        · rw [wholeResult, windowResult, hall]
        · rw [hend, hsame]
          rfl
      refine ⟨hagree, hwhole, ?_⟩
      rw [SpanCovers, ← hagree.endLine, ← hagree.text, hwhole]
      rfl
  rw [hspan]
  by_cases hfits : content.length ≤ maxBytes
  · rw [wholeText, if_pos hfits, List.take_of_length_le hfits]
    simp [SplitsFirst, Nat.not_lt.mpr hfits]
  · have hlongest := alignToUtf8Boundaries_longest hvalid maxBytes
    rw [wholeText, if_neg hfits]
    generalize alignToUtf8Boundaries (content.take maxBytes) = p at hlongest
    have hsplit : content.take maxBytes = p ++ (content.take maxBytes).drop p.length := by
      have hprefix := List.prefix_take_iff.mpr ⟨hlongest.starts, hlongest.fits⟩
      obtain ⟨r, hr⟩ := hprefix
      rw [← hr, List.drop_left]
    have hnone := trimmed_no_line_end hvalid hlongest
    have hrest : (content.take maxBytes).drop p.length ≠ [] ↔ p.length < maxBytes := by
      rw [ne_eq, List.drop_eq_nil_iff, List.length_take, Nat.min_eq_left (by omega), Nat.not_le]
    rw [hsplit, countLineSpan_append hnone, hrest]
    constructor
    · rintro hclear ⟨-, p', hlongest', hsplits⟩
      rw [LongestPrefix.unique hlongest' hlongest] at hsplits
      exact hclear hsplits
    · intro hclear hsplits
      exact hclear ⟨by omega, p, hlongest, hsplits⟩

/-- A whole read and a read of all lines agree exactly if the cap does not split the first character
of a line. -/
theorem whole_and_line_reads_agree_iff {file : ReadOnlyFile} {v : Version}
    (hfd : v.holds file.fd = true) (hvalid : isValidUtf8 v.content = true) {count : Nat}
    (maxBytes : Nat) (hpositive : 0 < count) (hcount : (fileLines v.content).length ≤ count)
    {w w' : World} (hw : Still v w) (hw' : Still v w') :
    (∃ a b, (runIn (readWhole file v.content.length maxBytes) w).1 = .ok a ∧
      (runIn (readLines file ⟨1, count⟩ maxBytes) w').1 = .ok b ∧ Agree a b ∧ SpanCovers a ∧
        SpanCovers b) ↔
      ¬SplitsFirst v.content maxBytes := by
  obtain ⟨a, u, ha, -, rfl⟩ := reads_readWhole hfd maxBytes w hw
  obtain ⟨b, u', hb, -, rfl⟩ :=
    @reads_readLines_result file v hfd ⟨1, count⟩ maxBytes Nat.one_pos hpositive w' hw'
  rw [← results_agree_iff hvalid maxBytes hcount, ha, hb]
  constructor
  · rintro ⟨a, b, hra, hrb, hagree⟩
    cases hra
    cases hrb
    exact hagree
  · intro hagree
    exact ⟨_, _, rfl, rfl, hagree⟩

-- A line with the euro sign, after a line with a letter.
def euroVersion : Version := { content := text "a\n" ++ [0xE2, 0x82, 0xAC], inode := 1 }

def euroFile : ReadOnlyFile := { fd := ⟨0, 1⟩, displayPath := text "/w/note" }

def euroWorld : World := { target := some euroVersion, script := [], seen := [euroVersion] }

theorem euroWorld_still : Still euroVersion euroWorld :=
  ⟨rfl, fun _ h => (by cases h), rfl, (by decide)⟩

/-- A cap of four bytes splits the sign. -/
theorem euro_splitsFirst : SplitsFirst euroVersion.content 4 := by
  refine ⟨by decide, text "a\n", ?_, by decide, .inr (by decide)⟩
  have hlongest := alignToUtf8Boundaries_longest (show isValidUtf8 euroVersion.content =
    true by decide) 4
  have htrimmed : alignToUtf8Boundaries (euroVersion.content.take 4) = text "a\n" := by decide
  rwa [htrimmed] at hlongest

theorem whole_and_line_reads_agree_iff_euro :
    ∃ a b, (runIn (readWhole euroFile 5 5) euroWorld).1 = .ok a ∧
      (runIn (readLines euroFile ⟨1, 9⟩ 5) euroWorld).1 = .ok b ∧ Agree a b ∧ SpanCovers a ∧
        SpanCovers b :=
  (@whole_and_line_reads_agree_iff euroFile euroVersion (by decide) (by decide) 9 5 (by decide)
    (by decide) euroWorld
    euroWorld euroWorld_still euroWorld_still).mpr fun h => absurd h.1 (by decide)

/-- The line read reports a second line, of which there is no byte in its text. -/
theorem whole_and_line_reads_disagree :
    (runIn (readWhole euroFile 5 4) euroWorld).1.map (fun read => (read.text, read.endLine)) =
      .ok (text "a\n", 1) ∧
      (runIn (readLines euroFile ⟨1, 9⟩ 4) euroWorld).1.map
        (fun read => (read.text, read.endLine)) =
        .ok (text "a\n", 2) := by
  constructor
  · obtain ⟨a, u, ha, -, rfl⟩ :=
      @reads_readWhole euroFile euroVersion (by decide) 4 euroWorld euroWorld_still
    have hread : ((wholeResult 4 euroVersion.content).text,
      (wholeResult 4 euroVersion.content).endLine) =
        (text "a\n", 1) := by decide
    rw [show (5 : Nat) = euroVersion.content.length from rfl, ha]
    exact congrArg Except.ok hread
  · obtain ⟨b, u', hb, -, rfl⟩ :=
      @reads_readLines_result euroFile euroVersion (by decide) ⟨1, 9⟩ 4 Nat.one_pos (by decide)
      euroWorld euroWorld_still
    have hread : ((windowResult ⟨1, 9⟩ 4 euroVersion.content).text,
      (windowResult ⟨1, 9⟩ 4 euroVersion.content).endLine) =
        (text "a\n", 2) := by decide
    rw [hb]
    exact congrArg Except.ok hread

end Orangutan.Io
