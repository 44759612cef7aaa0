import Orangutan.Io.LineWindows

/-!
# The lines of a file

A line goes up to its line end; what stands behind the last line end is a line too. A window has
the lines with the numbers asked for, and the scan knows how many they are.
-/

namespace Orangutan.Io

set_option autoImplicit false

open Orangutan.Core Orangutan.Core.Str Orangutan.Lib Orangutan.Lib.Fallible

def fileLines : Bytes → List Bytes
  | [] => []
  | ch :: rest =>
    if ch = 10 then [10] :: fileLines rest
    else
      match fileLines rest with
      | [] => [[ch]]
      | line :: lines => (ch :: line) :: lines

/-- All lines but the last end at a line end. -/
inductive IsLines : List Bytes → Prop
  | nil : IsLines []
  | last {line : Bytes} (hne : line ≠ []) (h : 10 ∉ line) : IsLines [line]
  | cons {body : Bytes} {rest : List Bytes} (h : 10 ∉ body) (hrest : IsLines rest) :
      IsLines ((body ++ [10]) :: rest)

theorem isLines_fileLines (content : Bytes) : IsLines (fileLines content) := by
  induction content with
  | nil => exact .nil
  | cons ch rest ih =>
    unfold fileLines
    split
    · exact @IsLines.cons [] _ (by simp) ih
    · rename_i hch
      have hch' : 10 ∉ [ch] := by simpa using Ne.symm hch
      split
      · exact .last (by simp) hch'
      · rename_i line lines hlines
        rw [hlines] at ih
        cases ih with
        | last hne h => exact .last (by simp) (by simp_all)
        | @cons body _ h hrest =>
          have hbody : 10 ∉ ch :: body := by simp_all
          exact .cons hbody hrest

theorem fileLines_flatten (content : Bytes) : (fileLines content).flatten = content := by
  induction content with
  | nil => rfl
  | cons ch rest ih =>
    unfold fileLines
    split
    · rename_i hch
      rw [List.flatten_cons, ih, hch]
      rfl
    · split
      · rename_i hnone
        rw [hnone] at ih
        rw [← ih]
        rfl
      · rename_i line lines hlines
        rw [hlines] at ih
        rw [← ih]
        rfl

theorem fileLines_append_end {body : Bytes} (h : 10 ∉ body) (rest : Bytes) :
    fileLines (body ++ 10 :: rest) = (body ++ [10]) :: fileLines rest := by
  induction body with
  | nil => simp [fileLines]
  | cons ch body ih =>
    have hch : ch ≠ 10 := fun e => h (e ▸ List.mem_cons_self)
    rw [List.cons_append, fileLines, if_neg hch, ih fun hmem => h (List.mem_cons_of_mem ch hmem)]
    rfl

theorem fileLines_open {line : Bytes} (hne : line ≠ []) (h : 10 ∉ line) :
    fileLines line = [line] := by
  induction line with
  | nil => exact absurd rfl hne
  | cons ch rest ih =>
    have hch : ch ≠ 10 := fun e => h (e ▸ List.mem_cons_self)
    rw [fileLines, if_neg hch]
    cases rest with
    | nil => rfl
    | cons ch' rest => rw [ih (by simp) fun hmem => h (List.mem_cons_of_mem ch hmem)]

namespace IsLines

variable {lines : List Bytes}

/-- The lines of a text are found again in it. -/
theorem fileLines_flatten (h : IsLines lines) : fileLines lines.flatten = lines := by
  induction h with
  | nil => rfl
  | last hne h => simpa using fileLines_open hne h
  | cons h _ ih => rw [List.flatten_cons, List.append_assoc, List.singleton_append,
      fileLines_append_end h, ih]

theorem drop (h : IsLines lines) (n : Nat) : IsLines (lines.drop n) := by
  induction h generalizing n with
  | nil => simpa using IsLines.nil
  | last hne h =>
    cases n with
    | zero => exact .last hne h
    | succ n => simpa using IsLines.nil
  | cons h hrest ih =>
    cases n with
    | zero => exact .cons h hrest
    | succ n => exact ih n

theorem take (h : IsLines lines) (n : Nat) : IsLines (lines.take n) := by
  induction h generalizing n with
  | nil => simpa using IsLines.nil
  | last hne h =>
    cases n with
    | zero => exact .nil
    | succ n => simpa using IsLines.last hne h
  | cons h hrest ih =>
    cases n with
    | zero => exact .nil
    | succ n => exact .cons h (ih n)

theorem countLineSpan_flatten (h : IsLines lines) : countLineSpan lines.flatten = lines.length := by
  induction h with
  | nil => rfl
  | @last line hne h =>
    have hlast : line.getLast? ≠ some 10 := fun hlast => h (List.mem_of_getLast? hlast)
    simp [countLineSpan, hne, hlast, List.count_eq_zero.mpr h]
  | @cons body rest h hrest ih =>
    have hcount : body.count 10 = 0 := List.count_eq_zero.mpr h
    rw [List.length_cons, ← ih, List.flatten_cons, countLineSpan, if_neg (by simp)]
    by_cases hempty : rest.flatten = []
    · simp [countLineSpan, hempty, hcount]
    · rw [countLineSpan, if_neg hempty, List.getLast?_append_of_ne_nil _ hempty]
      simp only [List.count_append, List.count_singleton_self, hcount]
      omega

end IsLines

/-- Lines are counted as they are split. -/
theorem countLineSpan_eq (content : Bytes) :
    countLineSpan content = (fileLines content).length := by
  rw [← (isLines_fileLines content).countLineSpan_flatten, fileLines_flatten]

/-- The lines that exist of those asked for. -/
def windowLines (lines : LineSpan) (content : Bytes) : List Bytes :=
  ((fileLines content).drop (lines.startLine - 1)).take lines.lineCount

theorem isLines_windowLines (lines : LineSpan) (content : Bytes) :
    IsLines (windowLines lines content) :=
  ((isLines_fileLines content).drop _).take _

theorem windowFrom_eq (lines : LineSpan) (line : Nat) (content : Bytes) :
    windowFrom lines line content =
      (((fileLines content).drop (lines.startLine - line)).take
        (lines.startLine + lines.lineCount - max lines.startLine line)).flatten := by
  induction content generalizing line with
  | nil => simp [windowFrom, fileLines]
  | cons ch rest ih =>
    rw [windowFrom, ih]
    by_cases hch : ch = 10
    · rw [if_pos hch, fileLines, if_pos hch]
      by_cases hbefore : line < lines.startLine
      · have hdrop : lines.startLine - line = lines.startLine - (line + 1) + 1 := by omega
        have hmax : max lines.startLine (line + 1) = max lines.startLine line := by omega
        rw [if_neg (by omega), hdrop, List.drop_succ_cons, hmax, List.nil_append]
      · have hdrop : lines.startLine - line = 0 := by omega
        have hdrop' : lines.startLine - (line + 1) = 0 := by omega
        rw [hdrop, hdrop', List.drop_zero, List.drop_zero]
        by_cases hinside : line < lines.startLine + lines.lineCount
        · have htake : lines.startLine + lines.lineCount - max lines.startLine line =
              lines.startLine + lines.lineCount - max lines.startLine (line + 1) + 1 := by omega
          rw [if_pos ⟨by omega, hinside⟩, htake, List.take_succ_cons, List.flatten_cons, hch]
        · have htake : lines.startLine + lines.lineCount - max lines.startLine line = 0 := by omega
          have htake' : lines.startLine + lines.lineCount - max lines.startLine (line + 1) = 0 := by
            omega
          rw [if_neg (by omega), htake, htake', List.take_zero, List.take_zero]
          rfl
    · rw [if_neg hch, fileLines, if_neg hch]
      by_cases hbefore : line < lines.startLine
      · obtain ⟨n, hn⟩ := Nat.exists_eq_succ_of_ne_zero (show lines.startLine - line ≠ 0 by omega)
        rw [if_neg (by omega), hn, List.nil_append]
        cases fileLines rest with
        | nil => simp
        | cons first others => rw [List.drop_succ_cons, List.drop_succ_cons]
      · have hdrop : lines.startLine - line = 0 := by omega
        rw [hdrop, List.drop_zero, List.drop_zero]
        by_cases hinside : line < lines.startLine + lines.lineCount
        · obtain ⟨n, hn⟩ := Nat.exists_eq_succ_of_ne_zero
            (show lines.startLine + lines.lineCount - max lines.startLine line ≠ 0 by omega)
          rw [if_pos ⟨by omega, hinside⟩, hn]
          cases fileLines rest with
          | nil => simp
          | cons first others =>
            rw [List.take_succ_cons, List.take_succ_cons, List.flatten_cons, List.flatten_cons]
            rfl
        · have htake : lines.startLine + lines.lineCount - max lines.startLine line = 0 := by omega
          rw [if_neg (by omega), htake, List.take_zero, List.take_zero]
          rfl

theorem windowFrom_lines {lines : LineSpan} (hstart : 0 < lines.startLine) (content : Bytes) :
    windowFrom lines 1 content = (windowLines lines content).flatten := by
  have hmax : lines.startLine + lines.lineCount - max lines.startLine 1 = lines.lineCount := by
    omega
  rw [windowFrom_eq, hmax, windowLines]

structure Tallied (lines : LineSpan) (scan : LineScan) : Prop where
  newlines : scan.emittedLines = scan.text.count 10
  ended : scan.endLine = lines.startLine - 1 + scan.emittedLines
  unfinished : scan.text ≠ [] → scan.text.getLast? ≠ some 10 → scan.inRange lines = true

section Tallied

variable {lines : LineSpan} {scan : LineScan}

theorem Tallied.scanByte (h : Tallied lines scan) (hstart : 0 < lines.startLine) (ch : UInt8) :
    Tallied lines (scanByte lines scan ch) := by
  have hnewlines := h.newlines
  have hended := h.ended
  have hunfinished := h.unfinished
  unfold Io.scanByte
  by_cases hin : scan.inRange lines = true
  · by_cases hch : ch = 10
    · simp only [hin, hch, if_true]
      refine ⟨?_, ?_, ?_⟩
      · simp [hnewlines]
      · dsimp only
        omega
      · simp
    · simp only [hin, hch, if_true, if_false]
      refine ⟨?_, hended, fun _ _ => hin⟩
      simp [hnewlines, hch]
  · by_cases hch : ch = 10
    · simp only [hin, hch, if_true, Bool.false_eq_true, if_false]
      exact ⟨hnewlines, hended, fun hne hlast => absurd (hunfinished hne hlast) hin⟩
    · simp only [hin, hch, Bool.false_eq_true, if_false]
      exact ⟨hnewlines, hended, hunfinished⟩

theorem Tallied.scanChunk (h : Tallied lines scan) (hstart : 0 < lines.startLine) (maxBytes : Nat)
    (chunk : Bytes) :
    Tallied lines (scanChunk lines maxBytes scan chunk) := by
  induction chunk generalizing scan with
  | nil => exact h
  | cons ch rest ih =>
    unfold Io.scanChunk
    split
    · exact ⟨h.newlines, h.ended, h.unfinished⟩
    · exact ih (h.scanByte hstart ch)

theorem readLinesLoop_tallied (file : ReadOnlyFile) {maxBytes rounds offset : Nat}
    (h : Tallied lines scan) (hstart : 0 < lines.startLine) {w w' : World} {last : LineScan}
    (hrun : runIn (readLinesLoop file lines maxBytes rounds offset scan) w = (.ok last, w')) :
    Tallied lines last := by
  induction rounds generalizing offset scan w with
  | zero =>
    cases hrun
    exact h
  | succ rounds ih =>
    unfold readLinesLoop at hrun
    split at hrun
    · obtain ⟨chunk, w₁, -, hrun⟩ := runIn_bind_ok hrun
      split at hrun
      · cases hrun
        exact h
      · dsimp only at hrun
        split at hrun
        · cases hrun
          exact h.scanChunk hstart maxBytes chunk
        · exact ih (h.scanChunk hstart maxBytes chunk) hrun
    · cases hrun
      exact h

/-- The last line counts, also if it has no line end. -/
theorem Tallied.endLine (h : Tallied lines scan) (hstart : 0 < lines.startLine) :
    (if scan.text ≠ [] ∧ scan.text.getLast? ≠ some 10 ∧ scan.emittedLines < lines.lineCount then
        lines.startLine + (scan.emittedLines + 1) - 1
      else scan.endLine) = lines.startLine - 1 + countLineSpan scan.text := by
  have hnewlines := h.newlines
  have hended := h.ended
  unfold countLineSpan
  by_cases hempty : scan.text = []
  · rw [hempty] at hnewlines
    rw [if_neg fun hall => hall.1 hempty, if_pos hempty, hended, hnewlines]
    rfl
  · by_cases hlast : scan.text.getLast? = some 10
    · rw [if_neg fun hall => hall.2.1 hlast, if_neg hempty, if_pos hlast]
      omega
    · have hin := h.unfinished hempty hlast
      have hmore : scan.emittedLines < lines.lineCount := by
        simp only [LineScan.inRange, decide_eq_true_eq] at hin
        exact hin.2
      rw [if_pos ⟨hempty, hlast, hmore⟩, if_neg hempty, if_neg hlast]
      omega

end Tallied

end Orangutan.Io
