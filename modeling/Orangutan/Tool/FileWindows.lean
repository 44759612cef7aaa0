import Orangutan.Io.ReadResults
import Orangutan.Tool.FileRead

/-!
# Reading a file window by window

Whoever follows the offsets that FileRead prints comes to the end of the file and has all of it,
provided that it is text.
-/

namespace Orangutan.Tool

set_option autoImplicit false

open Orangutan.Core Orangutan.Core.Str Orangutan.Io Orangutan.Lib Orangutan.Lib.Fallible

/-- Text can be cut at a line end. -/
theorem isValidUtf8_cut {p q : Bytes} (h : isValidUtf8 (p ++ 10 :: q) = true) :
    isValidUtf8 p = true ∧ isValidUtf8 q = true := by
  obtain ⟨s, u, hsplit, hs, hu⟩ := exists_sequence h (by simp)
  have hsvalid : isValidUtf8 s = true := by
    have hvalid := hs.valid []
    rw [List.append_nil] at hvalid
    rw [hvalid]
    rfl
  have hten : leadLength 10 = 1 := by decide
  rcases List.append_eq_append_iff.mp hsplit with ⟨c, rfl, hrest⟩ | ⟨a, rfl, rfl⟩
  · rcases c with _ | ⟨ch, c⟩
    · rw [List.nil_append] at hrest
      rw [← hrest, isValidUtf8_one hten] at hu
      rw [List.append_nil] at hsvalid
      exact ⟨hsvalid, hu⟩
    · obtain ⟨rfl, rfl⟩ := List.cons.inj hrest
      -- the line end stands in the first sequence, which has no other byte then
      by_cases hone : (p ++ 10 :: c).length = 1
      · have hp : p = [] := List.length_eq_zero_iff.mp
          (by simp only [List.length_append, List.length_cons] at hone; omega)
        have hc : c = [] := List.length_eq_zero_iff.mp
          (by simp only [List.length_append, List.length_cons] at hone; omega)
        subst hp hc
        exact ⟨rfl, hu⟩
      · exact absurd (by decide) (sequence_not_ascii hs hone 10 (by simp))
  · have hshorter : a.length < (s ++ a).length := by
      have hpositive : 0 < s.length := by cases hs <;> simp
      rw [List.length_append]
      omega
    have hrest := isValidUtf8_cut hu
    rw [isValidUtf8_append hsvalid]
    exact hrest
termination_by p.length

theorem isLines_valid {lines : List Bytes} (hlines : IsLines lines)
    (h : isValidUtf8 lines.flatten = true) :
    ∀ line ∈ lines, isValidUtf8 line = true := by
  induction hlines with
  | nil => exact fun _ hmem => (by cases hmem)
  | @last line _ _ =>
    intro other hmem
    rw [List.mem_singleton.mp hmem]
    simpa using h
  | @cons body rest _ _ ih =>
    rw [List.flatten_cons, List.append_assoc, List.singleton_append] at h
    obtain ⟨hbody, hrest⟩ := isValidUtf8_cut h
    intro line hmem
    rcases List.mem_cons.mp hmem with rfl | hmem
    · rw [isValidUtf8_append hbody]
      decide
    · exact ih hrest line hmem

theorem isValidUtf8_flatten {parts : List Bytes} (h : ∀ part ∈ parts, isValidUtf8 part = true) :
    isValidUtf8 parts.flatten = true := by
  induction parts with
  | nil => rfl
  | cons part rest ih =>
    rw [List.flatten_cons, isValidUtf8_append (h part List.mem_cons_self)]
    exact ih fun other hmem => h other (List.mem_cons_of_mem part hmem)

theorem windowLines_valid (lines : LineSpan) {content : Bytes} (h : isValidUtf8 content = true) :
    isValidUtf8 (windowLines lines content).flatten = true := by
  apply isValidUtf8_flatten
  intro line hmem
  refine isLines_valid (isLines_fileLines content) (by rwa [fileLines_flatten]) line ?_
  exact List.mem_of_mem_drop (List.mem_of_mem_take hmem)

/-- The lines that exist, not cut, and the number of the last one. -/
theorem windowResult_fits {lines : LineSpan} (hstart : 0 < lines.startLine) {maxBytes : Nat}
    {content : Bytes} (hfits : (windowLines lines content).flatten.length ≤ maxBytes) :
    windowResult lines maxBytes content =
      { text := (windowLines lines content).flatten
        startLine := lines.startLine
        endLine := lines.startLine - 1 + (windowLines lines content).length
        returnedBytes := (windowLines lines content).flatten.length
        truncated := false } := by
  have hwindow := @windowFrom_lines lines hstart content
  have htext : windowText lines maxBytes content = (windowLines lines content).flatten := by
    rw [windowText, hwindow, if_pos hfits]
  have hcount := (isLines_windowLines lines content).countLineSpan_flatten
  rw [windowResult, htext, hwindow, List.take_of_length_le hfits, hcount,
    decide_eq_false (Nat.not_lt.mpr hfits)]

/-- How much is asked for in one step. -/
structure PageChoice where
  limit : Nat := 2000
  maxBytes : Nat := 16 * 1024 * 1024
  limit_pos : 0 < limit := by decide
  limit_le : limit ≤ 2000 := by decide
  maxBytes_pos : 0 < maxBytes := by decide
  maxBytes_le : maxBytes ≤ 16 * 1024 * 1024 := by decide

def PageChoice.request (choice : PageChoice) (path : Bytes) (offset : Nat) (h : 0 < offset) :
    FileReadRequest where
  path := path
  offset := offset
  limit := choice.limit
  maxBytes := choice.maxBytes
  offset_pos := h
  limit_pos := choice.limit_pos
  limit_le := choice.limit_le
  maxBytes_pos := choice.maxBytes_pos
  maxBytes_le := choice.maxBytes_le

/-- The offset of a step, if every step before had as many lines as it asked for. -/
def offsetAt (choices : Nat → PageChoice) : Nat → Nat
  | 0 => 1
  | i + 1 => offsetAt choices i + (choices i).limit

theorem offsetAt_pos (choices : Nat → PageChoice) (i : Nat) : 0 < offsetAt choices i := by
  induction i with
  | zero => exact Nat.one_pos
  | succ i ih => exact Nat.add_pos_left ih _

section Pages

variable (sha256 : Bytes → Bytes) (openFile : Nat → Bytes →
  Result ReadOnlyFile) (openTrusted : Bytes → Result ReadOnlyFile)
  (path : Bytes) (ctx : DispatchContext) (file : ReadOnlyFile) (v : Version)

/-- A read of the file as it stays prints a header that ends with this about its rest, and this body
below it. -/
def Prints (request : FileReadRequest) (note body : Bytes) : Prop :=
  ∀ w, Still v w → ∃ result output w',
    runIn (readFile file {
        maxBytes := request.maxBytes, range := some { lines := some request.lines } }) w =
      (.ok result, w') ∧
      runIn (fileReadHandler sha256 openFile openTrusted request ctx) w = (.ok (some output), w') ∧
      readOutput sha256 (shownPath request ctx) request.limit result = some output ∧
      continuation request.limit result = note ∧ result.text = body ∧
      output.text = formatHeader (shownPath request ctx) result
        (versionToken sha256 (shownPath request ctx) result.fingerprint) ++ note ++
          text "\n" ++ body

/-- The bodies, when the printed offsets are followed up to the end of the file. -/
inductive Follows (choices : Nat → PageChoice) : Nat → Nat → List Bytes → Prop
  | last {i offset : Nat} (ho : 0 < offset) {body : Bytes}
      (h : Prints sha256 openFile openTrusted ctx file v ((choices i).request path offset ho)
        (text "; end of file") body) :
      Follows choices i offset [body]
  | next {i offset next : Nat} (ho : 0 < offset) {body : Bytes} {bodies : List Bytes}
      (h : Prints sha256 openFile openTrusted ctx file v ((choices i).request path offset ho)
        (text "; continue with offset=" ++ decimal next) body)
      (rest : Follows choices (i + 1) next bodies) : Follows choices i offset (body :: bodies)

variable {sha256 openFile openTrusted path ctx file v}

theorem Prints.valid {request : FileReadRequest} {note body : Bytes}
    (h : Prints sha256 openFile openTrusted ctx file v request note body) {w : World}
      (hw : Still v w) :
    isValidUtf8 (shownPath request ctx) = true ∧ isValidUtf8 body = true := by
  obtain ⟨result, output, w', -, -, houtput, -, rfl, -⟩ := h w hw
  exact (readOutput_isSome sha256 _ _ result).mp (by rw [houtput]; rfl)

/-- The path that is shown does not depend on the window. -/
theorem shownPath_request (choice : PageChoice) (offset : Nat) (ho : 0 < offset) :
    shownPath (choice.request path offset ho) ctx =
      shownPath (({} : PageChoice).request path 1 Nat.one_pos) ctx := by
  unfold shownPath
  split <;> rfl

theorem Follows.valid {choices : Nat → PageChoice} {i offset : Nat} {bodies : List Bytes}
    (h : Follows sha256 openFile openTrusted path ctx file v choices i offset bodies) {w : World}
      (hw : Still v w) :
    isValidUtf8 (shownPath (({} : PageChoice).request path 1 Nat.one_pos) ctx) = true ∧
      isValidUtf8 bodies.flatten = true := by
  induction h with
  | last ho h =>
    obtain ⟨hpath, hbody⟩ := h.valid hw
    rw [shownPath_request] at hpath
    exact ⟨hpath, by simpa using hbody⟩
  | next ho h _ ih =>
    obtain ⟨hpath, hbody⟩ := h.valid hw
    rw [shownPath_request] at hpath
    rw [List.flatten_cons, isValidUtf8_append hbody]
    exact ⟨hpath, ih.2⟩

/-- What a read prints of a window that fits. -/
theorem prints_window (hopened : ∀ request : FileReadRequest, request.path = path →
      openedFile openFile openTrusted request ctx = .ok file)
    (hfd : v.holds file.fd = true) {request : FileReadRequest} (hrequest : request.path = path)
    (hpath : isValidUtf8 (shownPath request ctx) = true) (hvalid : isValidUtf8 v.content = true)
    (hfits : (windowLines request.lines v.content).flatten.length ≤ request.maxBytes) :
    Prints sha256 openFile openTrusted ctx file v request
      (if (windowLines request.lines v.content).length < request.limit then text "; end of file"
        else text "; continue with offset=" ++ decimal (request.offset + request.limit))
      (windowLines request.lines v.content).flatten := by
  intro w hw
  have hstart : 0 < request.lines.startLine := request.offset_pos
  have hcount : 0 < request.lines.lineCount := request.limit_pos
  obtain ⟨result, w', hrun, -, _, rfl, rfl⟩ :=
    reads_readFile_of hfd hstart hcount request.maxBytes_pos
      (reads_readLines_result hfd hstart hcount) w hw
  rw [windowResult_fits hstart hfits] at hrun
  have hwindow := windowLines_valid request.lines hvalid
  have hlength : (windowLines request.lines v.content).length ≤ request.limit :=
    List.length_take_le _ _
  generalize windowLines request.lines v.content = window at *
  generalize hresult : ({ text := window.flatten, startLine := request.lines.startLine
                          endLine := request.lines.startLine - 1 + window.length, returnedBytes :=
                            window.flatten.length
                          truncated := false, fingerprint := fingerprintFromStat v.stamp } :
                            ReadTextResult) = result at hrun
  have hsome := (readOutput_isSome sha256 (shownPath request ctx) request.limit result).mpr
    ⟨hpath, by rw [← hresult]; exact hwindow⟩
  obtain ⟨output, houtput⟩ := Option.isSome_iff_exists.mp hsome
  have hnote : continuation request.limit result = if window.length < request.limit
    then text "; end of file"
      else text "; continue with offset=" ++ decimal (request.offset + request.limit) := by
    have hoffset : request.lines.startLine = request.offset := rfl
    have hpos := request.offset_pos
    rw [← hresult, continuation]
    simp only [Bool.false_eq_true, if_false, hoffset]
    by_cases hshort : window.length < request.limit
    · rw [if_pos hshort]
      by_cases hnone : request.offset - 1 + window.length < request.offset
      · rw [if_pos hnone]
      · rw [if_neg hnone, if_pos (by omega)]
    · have hpositive := request.limit_pos
      have hnext : request.offset - 1 + window.length + 1 = request.offset + request.limit := by
        omega
      rw [if_neg hshort, if_neg (by omega), if_neg (by omega), hnext]
  have hbody : result.text = window.flatten := by rw [← hresult]
  refine ⟨result, output, w', hrun, ?_, houtput, hnote, hbody, ?_⟩
  · rw [fileReadHandler, hopened request hrequest]
    dsimp only
    rw [runIn_bind, hrun]
    dsimp only
    rw [houtput]
    rfl
  · rw [readOutput_text sha256 houtput, hnote, hbody]

/-- From every step on, the pages have all the lines that are left. -/
theorem follows_rest (hopened : ∀ request : FileReadRequest, request.path = path →
      openedFile openFile openTrusted request ctx = .ok file)
    (hfd : v.holds file.fd = true)
    (hpath : isValidUtf8 (shownPath (({} : PageChoice).request path 1 Nat.one_pos) ctx) = true)
    (hvalid : isValidUtf8 v.content = true) (choices : Nat → PageChoice)
    (hfits : ∀ i, (windowLines ⟨offsetAt choices i, (choices i).limit⟩ v.content).flatten.length ≤
      (choices i).maxBytes)
    (i : Nat) :
    ∃ bodies, Follows sha256 openFile openTrusted path ctx file v choices i
      (offsetAt choices i) bodies ∧
      bodies.flatten = ((fileLines v.content).drop (offsetAt choices i - 1)).flatten := by
  generalize hleft : (fileLines v.content).length - (offsetAt choices i - 1) = left
  induction left using Nat.strong_induction_on generalizing i with
  | _ left ih =>
    have ho := offsetAt_pos choices i
    have hpositive := (choices i).limit_pos
    have hprints := @prints_window sha256 openFile openTrusted path ctx file v hopened hfd
      ((choices i).request path (offsetAt choices i) ho) rfl
        (by rw [shownPath_request]; exact hpath) hvalid (hfits i)
    have hwindow : windowLines ⟨offsetAt choices i, (choices i).limit⟩ v.content =
        ((fileLines v.content).drop (offsetAt choices i - 1)).take (choices i).limit := rfl
    have hlength := congrArg List.length hwindow
    rw [List.length_take, List.length_drop, hleft] at hlength
    by_cases hshort : (windowLines ⟨offsetAt choices i, (choices i).limit⟩ v.content).length <
      (choices i).limit
    · rw [if_pos (by exact hshort)] at hprints
      refine ⟨[(windowLines ⟨offsetAt choices i, (choices i).limit⟩ v.content).flatten],
        .last ho hprints, ?_⟩
      rw [List.flatten_singleton, hwindow, List.take_of_length_le]
      rw [List.length_drop, hleft]
      omega
    · have hsucc : offsetAt choices (i + 1) = offsetAt choices i + (choices i).limit := rfl
      obtain ⟨bodies, hrest, hbodies⟩ := ih (left - (choices i).limit) (by omega) (i + 1) (by omega)
      rw [if_neg (by exact hshort)] at hprints
      refine ⟨(windowLines ⟨offsetAt choices i, (choices i).limit⟩ v.content).flatten :: bodies,
        .next ho hprints hrest, ?_⟩
      have hdrop : offsetAt choices (i + 1) - 1 = offsetAt choices i - 1 + (choices i).limit := by
        omega
      rw [List.flatten_cons, hbodies, hwindow, hdrop, ← List.drop_drop, ← List.flatten_append,
        List.take_append_drop]

/-- A read of lines that fit gives exactly these lines and the number of the last one. Following the
printed offsets gives the whole file exactly if the file and its path are text. -/
theorem line_windows_iff (hopened : ∀ request : FileReadRequest, request.path = path →
      openedFile openFile openTrusted request ctx = .ok file)
    (hfd : v.holds file.fd = true) {w : World} (hw : Still v w) (choices : Nat → PageChoice)
    (hfits : ∀ i, (windowLines ⟨offsetAt choices i, (choices i).limit⟩ v.content).flatten.length ≤
      (choices i).maxBytes) :
    (∀ lines maxBytes, 0 < lines.startLine → 0 < lines.lineCount →
      (windowLines lines v.content).flatten.length ≤ maxBytes →
      Reads v (readLines file lines maxBytes) fun read =>
        read.text = (windowLines lines v.content).flatten ∧ read.truncated = false ∧
          read.startLine = lines.startLine ∧
          read.endLine = lines.startLine - 1 + (windowLines lines v.content).length) ∧
    ((∃ bodies, Follows sha256 openFile openTrusted path ctx file v choices 0 1 bodies ∧
      bodies.flatten = v.content) ↔
      isValidUtf8 (shownPath (({} : PageChoice).request path 1 Nat.one_pos) ctx) = true ∧
        isValidUtf8 v.content = true) := by
  constructor
  · intro lines maxBytes hstart hcount hfits w hw
    obtain ⟨read, w', hrun, hw', rfl⟩ :=
      @reads_readLines_result file v hfd lines maxBytes hstart hcount w hw
    rw [windowResult_fits hstart hfits] at hrun
    exact ⟨_, w', hrun, hw', rfl, rfl, rfl, rfl⟩
  · constructor
    · rintro ⟨bodies, hfollows, hwhole⟩
      obtain ⟨hpath, hvalid⟩ := hfollows.valid hw
      rw [hwhole] at hvalid
      exact ⟨hpath, hvalid⟩
    · rintro ⟨hpath, hvalid⟩
      obtain ⟨bodies, hfollows, hwhole⟩ := follows_rest hopened hfd hpath hvalid choices hfits 0
      refine ⟨bodies, hfollows, ?_⟩
      rw [hwhole]
      exact fileLines_flatten v.content

end Pages

-- The note file, and a file of one byte that is no text.
def noteOpen (_ : Bytes) : Result ReadOnlyFile := .ok euroFile

theorem one_le_limit : 1 ≤ 2000 := by decide

theorem wholeFile_pos : 0 < 16 * 1024 * 1024 := by decide

theorem wholeFile_le : 16 * 1024 * 1024 ≤ 16 * 1024 * 1024 := Nat.le_refl _

def lineByLine (_ : Nat) : PageChoice :=
  { limit := 1
    limit_pos := Nat.one_pos
    limit_le := one_le_limit
    maxBytes_pos := wholeFile_pos
    maxBytes_le := wholeFile_le }

theorem lineByLine_fits {content : Bytes} (h : content.length ≤ 16) (i : Nat) :
    (windowLines ⟨offsetAt lineByLine i, (lineByLine i).limit⟩ content).flatten.length ≤
      (lineByLine i).maxBytes := by
  have hpart : (windowLines ⟨offsetAt lineByLine i, (lineByLine i).limit⟩ content).flatten.length ≤
      (fileLines content).flatten.length := by
    rw [windowLines, List.length_flatten, List.length_flatten]
    refine List.Sublist.sum_le_sum ?_ fun _ _ => Nat.zero_le _
    exact ((List.take_sublist _ _).trans (List.drop_sublist _ _)).map _
  rw [fileLines_flatten] at hpart
  have hroom : (lineByLine i).maxBytes = 16 * 1024 * 1024 := rfl
  omega

def readContext : DispatchContext := { rules := [], now := 0 }

theorem line_windows_iff_euro :
    ∃ bodies, Follows id (fun _ => noteOpen) noteOpen (text "note") readContext euroFile euroVersion
      lineByLine 0 1 bodies ∧
      bodies.flatten = euroVersion.content :=
  (line_windows_iff (fun _ _ => rfl) (by decide) euroWorld_still lineByLine
    (lineByLine_fits (by decide))).2.mpr ⟨by decide, by decide⟩

def byteVersion : Version := { content := [0xFF], inode := 1 }

theorem byteVersion_still :
    Still byteVersion { target := some byteVersion, script := [], seen := [byteVersion] } :=
  ⟨rfl, fun _ h => (by cases h), rfl, (by decide)⟩

/-- Nothing is printed of the byte, so there is no page to follow. -/
theorem byte_not_followed :
    ¬∃ bodies, Follows id (fun _ => noteOpen) noteOpen
      (text "note") readContext euroFile byteVersion lineByLine 0 1 bodies ∧
      bodies.flatten = byteVersion.content := by
  rintro ⟨bodies, hfollows, hwhole⟩
  have hvalid := (hfollows.valid byteVersion_still).2
  rw [hwhole] at hvalid
  exact absurd hvalid (by decide)

end Orangutan.Tool
