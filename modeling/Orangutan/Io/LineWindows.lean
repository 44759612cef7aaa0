import Orangutan.Core.CodePoints
import Orangutan.Io.SteadyReads

/-!
# The lines that a read gives

From a file that stays as it is, a read of some lines gives these lines as far as the cap goes,
however short the single reads are.
-/

namespace Orangutan.Io

set_option autoImplicit false

open Orangutan.Core Orangutan.Core.Str Orangutan.Lib Orangutan.Lib.Fallible

/-- Nobody touches the target, and no call fails. A file's size is an `off_t`. -/
structure Still (v : Version) (w : World) : Prop where
  target : w.target = some v
  quiet : ∀ turn ∈ w.script, turn.others = [] ∧ turn.failure = none
  regular : v.kind = .regular
  size : v.content.length < 2 ^ 63

/-- What is computed succeeds while the file stays as it is, and is as `Q` says. -/
def Reads {α : Type} (v : Version) (m : Sys α) (Q : α → Prop) : Prop :=
  ∀ w, Still v w → ∃ a w', runIn m w = (.ok a, w') ∧ Still v w' ∧ Q a

theorem Still.takeTurn {v : Version} {w : World} (h : Still v w) :
    w.takeTurn.1.failure = none ∧ Still v w.takeTurn.2 := by
  unfold World.takeTurn
  split
  · exact ⟨rfl, h⟩
  · rename_i turn rest hscript
    obtain ⟨hothers, hfailure⟩ := h.quiet turn (by rw [hscript]; exact List.mem_cons_self)
    refine ⟨hfailure, ?_⟩
    rw [hothers]
    refine ⟨h.target, fun later hlater => h.quiet later ?_, h.regular, h.size⟩
    rw [hscript]
    exact List.mem_cons_of_mem turn hlater

section Rules

variable {α β : Type} {v : Version} {m : Sys α} {f : α → Sys β} {Q : α → Prop} {T : β →
  Prop} {call : Call α}
  {failed : Failure → Error}

theorem Reads.pure {a : α} (h : Q a) : Reads v (pure a : Sys α) Q := fun w hw => ⟨a, w, rfl, hw, h⟩

theorem Reads.bind (h : Reads v m Q) (hok : ∀ a, Q a → Reads v (f a) T) : Reads v (m >>= f) T := by
  intro w hw
  obtain ⟨a, w₁, hrun, hw₁, ha⟩ := h w hw
  obtain ⟨b, w', hrest, hw', hb⟩ := hok a ha w₁ hw₁
  refine ⟨b, w', ?_, hw', hb⟩
  rw [runIn_bind, hrun]
  exact hrest

theorem Reads.check (hcall : Idle call)
    (h : ∀ turn w, Still v w → turn.failure = none → ∃ a, (call turn w).1 = .ok a ∧ Q a) :
    Reads v (Sys.check call failed) Q := by
  intro w hw
  obtain ⟨hfailure, hw'⟩ := hw.takeTurn
  obtain ⟨a, hresult, ha⟩ := h w.takeTurn.1 w.takeTurn.2 hw' hfailure
  refine ⟨a, w.takeTurn.2, ?_, hw', ha⟩
  rw [runIn_check, hcall, hresult]

theorem Reads.retrying (hcall : Idle call)
    (h : ∀ turn w, Still v w → turn.failure = none → ∃ a, (call turn w).1 = .ok a ∧ Q a) :
    Reads v (retrying call failed) Q := by
  intro w hw
  obtain ⟨hfailure, hw'⟩ := hw.takeTurn
  obtain ⟨a, hresult, ha⟩ := h w.takeTurn.1 w.takeTurn.2 hw' hfailure
  refine ⟨a, w.takeTurn.2, ?_, hw', ha⟩
  have hfirst : call w.takeTurn.1 w.takeTurn.2 = (.ok a, w.takeTurn.2) :=
    Prod.ext hresult (hcall w.takeTurn.1 w.takeTurn.2)
  change retryLoop call failed w.script w = (.ok a, w.takeTurn.2)
  rcases hscript : w.script with _ | ⟨turn, rest⟩
  · rw [World.takeTurn, hscript] at hfirst ⊢
    simp only [retryLoop, hfirst]
  · rw [World.takeTurn, hscript] at hfirst ⊢
    simp only [retryLoop, hfirst]

end Rules

/-- Each code point that begins here and ends here is well formed, up to the first byte that begins
none. -/
def soundCodePoints : Nat → Bytes → Bool
  | 0, _ => true
  | _, [] => true
  | fuel + 1, byte :: rest =>
    match announcedLength byte with
    | none => true
    | some length =>
      if (byte :: rest).length < length then true
      else isValidUtf8 ((byte :: rest).take length) &&
        soundCodePoints fuel ((byte :: rest).drop length)

theorem announcedLength_eq (byte : UInt8) :
    announcedLength byte = if leadLength byte = 0 then none else some (leadLength byte) := by
  unfold announcedLength leadLength
  split_ifs <;> simp_all

theorem isValidUtf8_wholeCodePoints (fuel : Nat) (t : Bytes) :
    isValidUtf8 (wholeCodePoints fuel t) = soundCodePoints fuel t := by
  induction fuel generalizing t with
  | zero => simp [wholeCodePoints, soundCodePoints, isValidUtf8]
  | succ fuel ih =>
    cases t with
    | nil => simp [wholeCodePoints, soundCodePoints, isValidUtf8]
    | cons byte rest =>
      by_cases hlead : leadLength byte = 0
      · simp [wholeCodePoints, soundCodePoints, announcedLength_eq, hlead, isValidUtf8]
      · by_cases hshort : (byte :: rest).length < leadLength byte
        · simp only [wholeCodePoints, soundCodePoints, announcedLength_eq, if_neg hlead,
            if_pos hshort]
          rfl
        · simp only [wholeCodePoints, soundCodePoints, announcedLength_eq, if_neg hlead,
            if_neg hshort]
          rw [← ih]
          by_cases hfirst : isValidUtf8 ((byte :: rest).take (leadLength byte)) = true
          · rw [isValidUtf8_append hfirst, hfirst, Bool.true_and]
          · rw [Bool.not_eq_true] at hfirst
            rw [hfirst, Bool.false_and, Bool.eq_false_iff]
            intro hwhole
            obtain ⟨n, hn⟩ := Nat.exists_eq_succ_of_ne_zero hlead
            rw [hn, List.take_succ_cons, List.cons_append] at hwhole
            have hparts := (isValidUtf8_cons _ _).mp hwhole
            have htake :
              (byte :: (rest.take n ++ wholeCodePoints fuel ((byte :: rest).drop (n + 1)))).take
              (n + 1) =
                (byte :: rest).take (n + 1) := by
              have hlength : (rest.take n).length = n := by
                rw [hn, List.length_cons] at hshort
                rw [List.length_take]
                omega
              rw [List.take_succ_cons, List.take_succ_cons, List.take_left' hlength]
            rw [hn] at hparts hfirst
            rw [htake, hfirst] at hparts
            exact absurd hparts.2.2.1 (by simp)

/-- The bytes on the lines of the window, when the first byte is on this line. -/
def windowFrom (lines : LineSpan) : Nat → Bytes → Bytes
  | _, [] => []
  | line, ch :: rest =>
    (if lines.startLine ≤ line ∧ line < lines.startLine + lines.lineCount then [ch] else []) ++
      windowFrom lines (if ch = 10 then line + 1 else line) rest

theorem windowFrom_append (lines : LineSpan) (line : Nat) (t u : Bytes) :
    windowFrom lines line (t ++ u) = windowFrom lines line t ++
      windowFrom lines (line + t.count 10) u := by
  induction t generalizing line with
  | nil => simp [windowFrom]
  | cons ch rest ih =>
    rw [List.cons_append, windowFrom, windowFrom, ih, List.append_assoc]
    by_cases hnewline : ch = 10
    · simp only [hnewline, if_true, List.count_cons_self]
      rw [Nat.add_right_comm, Nat.add_assoc line]
    · simp [hnewline]

theorem windowFrom_past (lines : LineSpan) (line : Nat) (t : Bytes)
    (h : lines.startLine + lines.lineCount ≤ line) :
    windowFrom lines line t = [] := by
  induction t generalizing line with
  | nil => rfl
  | cons ch rest ih =>
    rw [windowFrom, if_neg (by omega), List.nil_append]
    apply ih
    split <;> omega

/-- The scan has come to the end of these bytes within the cap. -/
structure Scanned (lines : LineSpan) (maxBytes : Nat) (seen : Bytes) (scan : LineScan) : Prop where
  text : scan.text = windowFrom lines 1 seen
  fits : scan.text.length ≤ maxBytes
  current : scan.currentLine = 1 + seen.count 10
  emitted : scan.emittedLines = min (scan.currentLine - lines.startLine) lines.lineCount
  whole : scan.truncated = false

/-- The scan was cut at the cap. -/
def Cut (lines : LineSpan) (maxBytes : Nat) (seen : Bytes) (scan : LineScan) : Prop :=
  maxBytes < (windowFrom lines 1 seen).length ∧ scan.truncated = true ∧
    scan.text = (windowFrom lines 1 seen).take maxBytes

theorem Scanned.inRange_iff {lines : LineSpan} {maxBytes : Nat} {seen : Bytes} {scan : LineScan}
    (h : Scanned lines maxBytes seen scan) :
    scan.inRange lines = true ↔ lines.startLine ≤ 1 + seen.count 10 ∧
      1 + seen.count 10 < lines.startLine + lines.lineCount := by
  have hcurrent := h.current
  have hemitted := h.emitted
  simp only [LineScan.inRange, decide_eq_true_eq]
  omega

theorem windowFrom_snoc (lines : LineSpan) (seen : Bytes) (ch : UInt8) :
    windowFrom lines 1 (seen ++ [ch]) = windowFrom lines 1 seen ++
      if lines.startLine ≤ 1 + seen.count 10 ∧ 1 + seen.count 10 < lines.startLine + lines.lineCount
        then [ch] else [] := by
  rw [windowFrom_append]
  simp [windowFrom]

section ScanByte

variable (lines : LineSpan) (scan : LineScan) (ch : UInt8)

theorem scanByte_text :
    (scanByte lines scan ch).text = if scan.inRange lines = true then scan.text ++ [ch]
      else scan.text := by
  unfold scanByte
  by_cases hnewline : ch = 10 <;> by_cases hin : scan.inRange lines = true <;> simp [hnewline, hin]

theorem scanByte_currentLine :
    (scanByte lines scan ch).currentLine = if ch = 10 then scan.currentLine + 1
      else scan.currentLine := by
  unfold scanByte
  by_cases hnewline : ch = 10 <;> by_cases hin : scan.inRange lines = true <;> simp [hnewline, hin]

theorem scanByte_emittedLines :
    (scanByte lines scan ch).emittedLines =
      if ch = 10 ∧ scan.inRange lines = true then scan.emittedLines + 1 else scan.emittedLines := by
  unfold scanByte
  by_cases hnewline : ch = 10 <;> by_cases hin : scan.inRange lines = true <;> simp [hnewline, hin]

theorem scanByte_truncated : (scanByte lines scan ch).truncated = scan.truncated := by
  unfold scanByte
  by_cases hnewline : ch = 10 <;> by_cases hin : scan.inRange lines = true <;> simp [hnewline, hin]

end ScanByte

theorem scanByte_scanned {lines : LineSpan} {maxBytes : Nat} {seen : Bytes} {scan : LineScan}
    (ch : UInt8) (h : Scanned lines maxBytes seen scan)
    (hroom : scan.inRange lines = true → scan.text.length < maxBytes) :
    Scanned lines maxBytes (seen ++ [ch]) (scanByte lines scan ch) := by
  have hrange := h.inRange_iff
  have hemitted := h.emitted
  have hcurrent := h.current
  constructor
  · rw [scanByte_text, windowFrom_snoc, h.text]
    by_cases hin : scan.inRange lines = true
    · rw [if_pos hin, if_pos (hrange.mp hin)]
    · rw [if_neg hin, if_neg (mt hrange.mpr hin), List.append_nil]
  · rw [scanByte_text]
    split
    · rename_i hin
      have hless := hroom hin
      rw [List.length_append, List.length_singleton]
      omega
    · exact h.fits
  · rw [scanByte_currentLine, List.count_append, List.count_singleton]
    by_cases hnewline : ch = 10
    · simp [hnewline, hcurrent, Nat.add_assoc]
    · simp [hnewline, hcurrent]
  · rw [scanByte_currentLine, scanByte_emittedLines]
    by_cases hnewline : ch = 10
    · by_cases hin : scan.inRange lines = true
      · have hlines := hrange.mp hin
        rw [if_pos ⟨hnewline, hin⟩, if_pos hnewline]
        omega
      · have hlines := mt hrange.mpr hin
        rw [if_neg fun hboth => hin hboth.2, if_pos hnewline]
        omega
    · rw [if_neg fun hboth => hnewline hboth.1, if_neg hnewline]
      exact hemitted
  · rw [scanByte_truncated]
    exact h.whole

theorem scanChunk_spec {lines : LineSpan} {maxBytes : Nat} {seen : Bytes} {scan : LineScan}
    (chunk : Bytes) (h : Scanned lines maxBytes seen scan) :
    Scanned lines maxBytes (seen ++ chunk) (scanChunk lines maxBytes scan chunk) ∨
      Cut lines maxBytes (seen ++ chunk) (scanChunk lines maxBytes scan chunk) := by
  induction chunk generalizing seen scan with
  | nil =>
    rw [List.append_nil]
    exact .inl h
  | cons ch rest ih =>
    have hsplit : seen ++ ch :: rest = (seen ++ [ch]) ++ rest := by simp
    unfold scanChunk
    split
    · rename_i hfull
      right
      have hwindow : windowFrom lines 1 (seen ++ ch :: rest) =
          scan.text ++ ([ch] ++ windowFrom lines (1 + (seen ++ [ch]).count 10) rest) := by
        rw [hsplit, windowFrom_append, windowFrom_snoc, if_pos (h.inRange_iff.mp hfull.1), h.text,
          List.append_assoc]
      have hlength : scan.text.length = maxBytes := le_antisymm h.fits hfull.2
      refine ⟨?_, rfl, ?_⟩
      · rw [hwindow, List.length_append, List.length_append, List.length_singleton]
        omega
      · rw [hwindow, ← hlength, List.take_left]
    · rename_i hroom
      rw [hsplit]
      apply ih
      apply scanByte_scanned ch h
      intro hin
      by_contra hless
      exact hroom ⟨hin, by omega⟩

/-- The text of the window, which is trimmed to whole code points if it was cut. -/
def windowText (lines : LineSpan) (maxBytes : Nat) (content : Bytes) : Bytes :=
  if (windowFrom lines 1 content).length ≤ maxBytes then windowFrom lines 1 content
  else alignToUtf8Boundaries ((windowFrom lines 1 content).take maxBytes)

/-- The window is well-formed text: all of it if the cap does not cut it, otherwise the code points
that begin and end under the cap. -/
def Legible (lines : LineSpan) (maxBytes : Nat) (content : Bytes) : Bool :=
  if (windowFrom lines 1 content).length ≤ maxBytes then isValidUtf8 (windowFrom lines 1 content)
  else
    let rest := ((windowFrom lines 1 content).take maxBytes).dropWhile fun byte =>
      byte &&& 0xC0 = 0x80
    soundCodePoints rest.length rest

theorem legible_eq (lines : LineSpan) (maxBytes : Nat) (content : Bytes) :
    isValidUtf8 (windowText lines maxBytes content) = Legible lines maxBytes content := by
  unfold windowText Legible
  split
  · rfl
  · exact isValidUtf8_wholeCodePoints _ _

section Read

variable {file : ReadOnlyFile} {v : Version} (hfd : v.holds file.fd = true)

include hfd

theorem reads_computeFileFingerprint :
    Reads v (computeFileFingerprint file) fun fingerprint =>
      fingerprint = fingerprintFromStat v.stamp := by
  have hstat : Reads v (Sys.check (fstat file.fd true)
      (descriptorError "failed to inspect file descriptor for fingerprint" file))
      fun status => status = v.stat ∧ v.kind = .regular := by
    refine Reads.check (idle_fstat _ _) fun turn w hw hfailure => ⟨v.stat, ?_, rfl, hw.regular⟩
    simp [fstat, hfailure, statOf_holds hw.target hfd]
  refine hstat.bind ?_
  rintro status ⟨rfl, hregular⟩
  rw [if_neg (by simpa [Version.stat] using hregular)]
  exact Reads.pure rfl

theorem reads_readChunk (offset requested : Nat) (hoffset : offset ≤ v.content.length) :
    Reads v (readChunk file offset requested) fun piece =>
      ∃ n, 0 < n ∧ piece = (v.content.drop offset).take (min requested n) := by
  intro w hw
  have hsize := hw.size
  rw [readChunk, if_neg (by omega)]
  refine Reads.retrying (idle_pread _ _ _) (fun turn w hw hfailure => ?_) w hw
  refine ⟨(v.content.drop offset).take (min requested (max 1 turn.amount)), ?_, max 1 turn.amount,
    by omega, rfl⟩
  simp [pread, hfailure, hw.target, hfd]

/-- The loop ends with the whole window, or cut at the cap. -/
theorem reads_readLinesLoop {lines : LineSpan} {maxBytes : Nat} (hcount : 0 < lines.lineCount)
    (rounds offset : Nat) (scan : LineScan)
    (hscan : Scanned lines maxBytes (v.content.take offset) scan)
    (hoffset : offset ≤ v.content.length) (hrounds : v.content.length < offset + rounds) :
    Reads v (readLinesLoop file lines maxBytes rounds offset scan) fun last =>
      (last.text = windowFrom lines 1 v.content ∧ last.text.length ≤ maxBytes ∧
        last.truncated = false) ∨
        Cut lines maxBytes v.content last := by
  induction rounds generalizing offset scan with
  | zero => omega
  | succ rounds ih =>
    have hwindow : windowFrom lines 1 v.content = scan.text ++
        windowFrom lines (1 + (v.content.take offset).count 10) (v.content.drop offset) := by
      rw [hscan.text, ← windowFrom_append, List.take_append_drop]
    unfold readLinesLoop
    by_cases hmore : scan.emittedLines < lines.lineCount
    · rw [if_pos hmore]
      refine (reads_readChunk hfd offset kChunkSize hoffset).bind ?_
      rintro chunk ⟨n, hn, hchunk⟩
      by_cases hnone : chunk = []
      · rw [if_pos hnone]
        have hend : v.content.drop offset = [] := by
          have hsize : 0 < kChunkSize := by decide
          rw [hnone] at hchunk
          rcases List.take_eq_nil_iff.mp hchunk.symm with hzero | hnil
          · omega
          · exact hnil
        refine Reads.pure (.inl ⟨?_, hscan.fits, hscan.whole⟩)
        rw [hwindow, hend]
        simp [windowFrom]
      · rw [if_neg hnone]
        have hpositive : 0 < chunk.length := List.length_pos_iff.mpr hnone
        have hprefix : v.content.drop offset = chunk ++ v.content.drop (offset + chunk.length) := by
          have htake : chunk = (v.content.drop offset).take chunk.length := by
            conv_lhs => rw [hchunk]
            rw [hchunk, List.length_take, List.take_eq_take_iff]
            omega
          conv_lhs => rw [← List.take_append_drop chunk.length (v.content.drop offset)]
          rw [← htake, List.drop_drop]
        have hseen : v.content.take offset ++ chunk = v.content.take (offset + chunk.length) := by
          rw [List.take_add, hprefix, List.take_left]
        have hbound : offset + chunk.length ≤ v.content.length := by
          have hlength := congrArg List.length hprefix
          rw [List.length_append, List.length_drop] at hlength
          omega
        rcases scanChunk_spec chunk hscan with hscanned | ⟨hover, htruncated, htext⟩
        · rw [hseen] at hscanned
          simp only [hscanned.whole, Bool.false_eq_true, if_false]
          exact ih _ _ hscanned hbound (by omega)
        · simp only [htruncated, if_true]
          refine Reads.pure (.inr ?_)
          have hwhole : windowFrom lines 1 v.content =
            windowFrom lines 1 (v.content.take offset ++ chunk) ++
              windowFrom lines (1 + (v.content.take offset ++ chunk).count 10)
                (v.content.drop (offset + chunk.length)) := by
            rw [← windowFrom_append, List.append_assoc, ← hprefix, List.take_append_drop]
          refine ⟨?_, htruncated, ?_⟩
          · rw [hwhole, List.length_append]
            omega
          · rw [htext, hwhole, List.take_append_of_le_length (by omega)]
    · rw [if_neg hmore]
      refine Reads.pure (.inl ⟨?_, hscan.fits, hscan.whole⟩)
      have hcurrent := hscan.current
      have hemitted := hscan.emitted
      rw [hwindow, windowFrom_past lines _ _ (by omega), List.append_nil]

theorem reads_readLines {lines : LineSpan} {maxBytes : Nat} (hstart : 0 < lines.startLine)
    (hcount : 0 < lines.lineCount) :
    Reads v (readLines file lines maxBytes) fun read =>
      read.text = windowText lines maxBytes v.content := by
  unfold readLines
  refine Reads.bind (Q := fun last =>
    (last.text = windowFrom lines 1 v.content ∧ last.text.length ≤ maxBytes ∧
      last.truncated = false) ∨
      Cut lines maxBytes v.content last) ?_ ?_
  · intro w hw
    have hrounds : v.content.length < 0 + w.rounds := by
      simp only [World.rounds, hw.target, versionBytes, Option.map_some, Option.getD_some]
      omega
    refine reads_readLinesLoop hfd hcount w.rounds 0 _ ?_ (Nat.zero_le _) hrounds w hw
    constructor
    · rfl
    · exact Nat.zero_le _
    · rfl
    · dsimp only
      omega
    · rfl
  · rintro last (⟨htext, hfits, hwhole⟩ | ⟨hover, hcut, htext⟩)
    · refine Reads.pure ?_
      rw [htext] at hfits
      simp only [hwhole, Bool.false_eq_true, false_and, if_false, windowText, if_pos hfits, htext]
    · refine Reads.pure ?_
      have hwindow : windowText lines maxBytes v.content = alignToUtf8Boundaries last.text := by
        rw [windowText, if_neg (by omega), htext]
      rw [hwindow]
      by_cases hempty : last.text = []
      · simp [hempty, alignToUtf8Boundaries, wholeCodePoints]
      · simp [hcut, hempty]

/-- What holds of the lines that are read holds of the read between the fingerprints. -/
theorem reads_readFile_of {lines : LineSpan} {maxBytes : Nat} (hstart : 0 < lines.startLine)
    (hcount : 0 < lines.lineCount) (hmax : 0 < maxBytes) {Q : ReadTextResult → Prop}
    (h : Reads v (readLines file lines maxBytes) Q) :
    Reads v (readFile file { maxBytes, range := some { lines := some lines } }) fun read =>
      ∃ result, Q result ∧ read = { result with fingerprint := fingerprintFromStat v.stamp } := by
  have hprint := reads_computeFileFingerprint hfd
  have hvalid : validateRange { lines := some lines } = .ok () := by
    simp only [validateRange]
    rw [if_neg (by omega)]
  unfold readFile
  rw [if_neg (by simpa using hmax.ne')]
  simp only [Option.map_some, hvalid]
  refine hprint.bind ?_
  rintro pre rfl
  refine Reads.bind h fun read hread => ?_
  refine hprint.bind ?_
  rintro post rfl
  rw [comparePrints, if_pos rfl]
  exact Reads.pure ⟨read, hread, rfl⟩

/-- A read of some lines gives the text of their window. -/
theorem reads_readFile {lines : LineSpan} {maxBytes : Nat} (hstart : 0 < lines.startLine)
    (hcount : 0 < lines.lineCount) (hmax : 0 < maxBytes) :
    Reads v (readFile file { maxBytes, range := some { lines := some lines } }) fun read =>
      read.text = windowText lines maxBytes v.content := by
  intro w hw
  obtain ⟨read, w', hrun, hw', result, hresult, rfl⟩ :=
    reads_readFile_of hfd hstart hcount hmax (reads_readLines hfd hstart hcount) w hw
  exact ⟨_, w', hrun, hw', hresult⟩

end Read

end Orangutan.Io
