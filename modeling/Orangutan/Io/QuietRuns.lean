import Orangutan.Io.FileReading
import Orangutan.Io.Interference

/-!
# Runs that nothing disturbs

When the script has run out, nobody touches the target and no call fails. A mutation of a
regular file then captures it, reads all of it, and commits.
-/

namespace Orangutan.Io

set_option autoImplicit false

open Orangutan.Core Orangutan.Lib Orangutan.Lib.Fallible

/-- Nothing will happen to the target, which is this version. -/
def Quiet (v : Version) (w : World) : Prop := w.script = [] ∧ w.target = some v

/-- In a quiet world the computation gives this value and leaves the world as it is. -/
def Gives {α : Type} (v : Version) (m : Sys α) (a : α) : Prop := ∀ w, Quiet v w →
    runIn m w = (.ok a, w)

section Rules

variable {α β : Type} {v : Version} {m : Sys α} {f : α → Sys β} {a : α} {b : β} {call : Call α}

theorem Gives.pure : Gives v (pure a : Sys α) a := fun _ _ => rfl

theorem Gives.bind (h : Gives v m a) (h' : Gives v (f a) b) : Gives v (m >>= f) b := by
  intro w hw
  rw [runIn_bind, h w hw]
  exact h' w hw

theorem Quiet.takeTurn {w : World} (hw : Quiet v w) : w.takeTurn = ({}, w) := by
  rw [World.takeTurn, hw.1]

theorem Gives.syscall {r : Except Failure α} (h : ∀ w, Quiet v w → call {} w = (r, w)) :
    Gives v (syscall call) r := by
  intro w hw
  rw [runIn_syscall, hw.takeTurn, h w hw]

theorem Gives.check (failed : Failure → Error) (h : ∀ w, Quiet v w → call {} w = (.ok a, w)) :
    Gives v (Sys.check call failed) a :=
  Gives.bind (Gives.syscall h) Gives.pure

theorem Gives.retrying (failed : Failure → Error) (h : ∀ w, Quiet v w → call {} w = (.ok a, w)) :
    Gives v (retrying call failed) a := by
  intro w hw
  show retryLoop call failed w.script w = _
  rw [hw.1, retryLoop, h w hw]

end Rules

section Reads

variable {v : Version} {fd : Descriptor} {file : ReadOnlyFile}

def Version.descriptor (v : Version) : Descriptor where
  device := v.device
  inode := v.inode

theorem Version.holds_descriptor (v : Version) : v.holds v.descriptor = true := by
  simp [Version.holds, Version.descriptor]

theorem openTarget_quiet (hregular : v.kind = .regular) (reading : Bool) (w : World)
    (hw : Quiet v w) :
    openTarget reading {} w = (.ok v.descriptor, w) := by
  have hkind : ¬(reading = true ∧ v.kind = .symlink) := by
    rw [hregular]
    exact fun h => by cases h.2
  simp only [openTarget, hw.2, if_neg hkind]
  rfl

theorem fstat_quiet (hfd : v.holds fd = true) (later : Bool) (w : World) (hw : Quiet v w) :
    fstat fd later {} w = (.ok v.stat, w) := by
  simp only [fstat, statOf, hw.2, hfd, if_true]

theorem computeFileFingerprint_quiet (hregular : v.kind = .regular) (hfd : v.holds file.fd = true) :
    Gives v (computeFileFingerprint file) (fingerprintFromStat v.stamp) := by
  refine Gives.bind (Gives.check _ (fstat_quiet hfd true)) ?_
  have hkind : ¬v.stat.kind ≠ .regular := not_not.mpr hregular
  dsimp only
  rw [if_neg hkind]
  exact Gives.bind Gives.pure Gives.pure

theorem readChunk_quiet (hfd : v.holds file.fd = true) {offset requested : Nat}
    (hoffset : offset < 2 ^ 63) (hrequested : requested ≤ 2 ^ 63) :
    Gives v (readChunk file offset requested) ((v.content.drop offset).take requested) := by
  unfold readChunk
  rw [if_neg (by omega)]
  refine Gives.retrying _ fun w hw => ?_
  have hamount : min requested (max 1 (2 ^ 63)) = requested := by omega
  simp only [pread, hw.2, hfd, if_true, hamount]

/-- Every round reads a whole chunk. -/
theorem readBytesLoop_quiet (hfd : v.holds file.fd = true) (hsize : v.content.length < 2 ^ 63)
    (rounds : Nat) (text : Bytes) (htext : text = v.content.take text.length)
    (hshort : text.length ≤ v.content.length) (hrounds : v.content.length ≤ text.length + rounds) :
    Gives v (readBytesLoop file 0 v.content.length rounds text) v.content := by
  induction rounds generalizing text with
  | zero =>
    have hwhole : text = v.content := by
      rw [htext]
      exact List.take_of_length_le (by omega)
    rw [readBytesLoop, hwhole]
    exact Gives.pure
  | succ rounds ih =>
    unfold readBytesLoop
    by_cases hmore : text.length < v.content.length
    · rw [if_pos hmore]
      refine Gives.bind (readChunk_quiet hfd (by omega) (by unfold kChunkSize; omega)) ?_
      generalize hpiece : (v.content.drop (0 + text.length)).take
        (min kChunkSize (v.content.length - text.length)) = piece
      have hlength : piece.length = min kChunkSize (v.content.length - text.length) := by
        rw [← hpiece, List.length_take, List.length_drop]
        omega
      have hchunk : 0 < kChunkSize := by decide
      have hsome : piece ≠ [] := List.length_pos_iff.mp (by omega)
      rw [if_neg hsome]
      have hextended : text ++ piece = v.content.take (text ++ piece).length := by
        rw [List.length_append, List.take_add, ← htext, hlength, ← hpiece, Nat.zero_add]
      refine ih (text ++ piece) hextended ?_ ?_
      · rw [List.length_append]
        omega
      · rw [List.length_append]
        omega
    · rw [if_neg hmore]
      have hwhole : text = v.content := by
        rw [htext]
        exact List.take_of_length_le (by omega)
      rw [hwhole]
      exact Gives.pure

/-- A file within the cap is read whole. -/
theorem readFile_quiet (hregular : v.kind = .regular) (hfd : v.holds file.fd = true)
    (hsize : v.content.length < 2 ^ 63) {maxBytes : Nat} (hcap : 0 < maxBytes)
      (hfits : v.content.length ≤ maxBytes) :
    ∃ read, Gives v (readFile file { maxBytes }) read ∧ read.truncated = false ∧
      read.text = v.content := by
  have hprint := computeFileFingerprint_quiet hregular hfd
  have hwhole : Gives v (readWhole file v.content.length maxBytes)
      { text := v.content, truncated := false, returnedBytes := v.content.length, startLine := 1
        endLine := countLineSpan v.content } := by
    have hloop := readBytesLoop_quiet hfd hsize v.content.length [] (by simp)
      (Nat.zero_le _) (by simp)
    unfold readWhole readBytes
    rw [Nat.min_eq_left hfits]
    refine Gives.bind hloop ?_
    have hcut : decide (maxBytes < v.content.length) = false := decide_eq_false (by omega)
    simp only [hcut, Bool.false_eq_true, false_and, if_false]
    exact Gives.pure
  have hread : Gives v (readFile file { maxBytes })
      { text := v.content, truncated := false, returnedBytes := v.content.length, startLine := 1
        endLine := countLineSpan v.content, fingerprint := fingerprintFromStat v.stamp } := by
    unfold readFile
    rw [if_neg (by dsimp only; omega)]
    refine Gives.bind hprint (Gives.bind hwhole (Gives.bind hprint ?_))
    rw [comparePrints, if_pos rfl]
    exact Gives.pure
  exact ⟨_, hread, rfl, rfl⟩

end Reads

section Mutations

variable {v : Version} {root relativePath : Bytes}

theorem openParents_quiet (create : Bool) (components : List Bytes) :
    Gives v (openParents root relativePath create components) () := by
  induction components with
  | nil => exact Gives.pure
  | cons component rest ih =>
    have hcall : Gives v (syscall plain) (.ok ()) := Gives.syscall fun _ _ => rfl
    have hparent : Gives v (openOrCreateParent root relativePath create) (.ok ()) :=
      Gives.bind hcall Gives.pure
    exact Gives.bind (Gives.bind hparent Gives.pure) ih

theorem snapshotTarget_quiet (hregular : v.kind = .regular) :
    Gives v (snapshotTarget root relativePath) (some v.stamp) := by
  have hfd := v.holds_descriptor
  refine Gives.bind (Gives.syscall (openTarget_quiet hregular false)) ?_
  refine Gives.bind (Gives.check _ (fstat_quiet hfd false)) ?_
  have hlink : ¬v.stat.kind = .symlink := by
    rw [show v.stat.kind = v.kind from rfl, hregular]
    exact fun h => by cases h
  have hkind : ¬v.stat.kind ≠ .regular := not_not.mpr hregular
  have hfile : Gives v (requireRegularFile v.descriptor root relativePath) () := by
    refine Gives.bind (Gives.check _ (fstat_quiet hfd true)) ?_
    rw [if_neg hkind]
    exact Gives.pure
  rw [if_neg hlink]
  exact Gives.bind hfile Gives.pure

theorem beginFileMutation_quiet (hregular : v.kind = .regular)
    (hvalid : validateAnchoredPath relativePath = .ok ()) {name : Bytes}
    (hname : (pathComponents relativePath).getLast? = some name) (create : Bool) :
    Gives v (beginFileMutation root relativePath create)
      { name, display := root ++ [slash] ++ relativePath, captured := some v.stamp } := by
  unfold beginFileMutation
  rw [hvalid, hname]
  refine Gives.bind (Gives.check _ fun _ _ => rfl) (Gives.bind (openParents_quiet create _) ?_)
  exact Gives.bind (snapshotTarget_quiet hregular) Gives.pure

variable {m : FileMutation}

theorem openExisting_quiet (hregular : v.kind = .regular) (hcaptured : m.captured = some v.stamp) :
    Gives v m.openExisting { fd := v.descriptor, displayPath := m.display } := by
  unfold FileMutation.openExisting
  rw [hcaptured]
  refine Gives.bind (Gives.check _ (openTarget_quiet hregular true)) ?_
  refine Gives.bind (Gives.check _ (fstat_quiet v.holds_descriptor false)) ?_
  have hstamp : ¬v.stat.stamp ≠ v.stamp := not_not.mpr rfl
  rw [if_neg hstamp]
  exact Gives.pure

/-- The loop of the staged write comes to its end. -/
theorem writeAll_quiet {name path : Bytes} (rounds : Nat) (rest : Bytes)
    (hrounds : rest.length ≤ rounds) {w : World} (hw : Quiet v w) :
    ∃ w', runIn (writeAll (writeTemp name) path rounds rest) w = (.ok (), w') ∧ Quiet v w' := by
  induction rounds generalizing rest w with
  | zero => exact ⟨w, rfl, hw⟩
  | succ rounds ih =>
    unfold writeAll
    by_cases hnone : rest = []
    · rw [if_pos hnone]
      exact ⟨w, rfl, hw⟩
    · rw [if_neg hnone]
      have hpositive := List.length_pos_iff.mpr hnone
      generalize hchunk : rest.take (2 ^ 63 - 1) = chunk
      have hlength : chunk.length = min (2 ^ 63 - 1) rest.length := by
        rw [← hchunk, List.length_take]
      have hcall : runIn (retrying (writeTemp name chunk)
        (errnoError "failed to write anchored file" [] path)) w =
          (.ok chunk.length, w.writeTemp name (chunk.take (2 ^ 63))) := by
        show retryLoop _ _ w.script w = _
        have hamount : min chunk.length (2 ^ 63) = chunk.length := by omega
        rw [hw.1, retryLoop, writeTemp]
        simp only [hamount]
      have hnext : Quiet v (w.writeTemp name (chunk.take (2 ^ 63))) := hw
      rw [runIn_bind, hcall]
      dsimp only
      rw [if_neg (by omega)]
      exact ih (rest.drop chunk.length) (by rw [List.length_drop]; omega) hnext

/-- A captured file that is still the target is replaced, unless the verification refuses it. -/
theorem replaceText_quiet (hregular : v.kind = .regular) (hcaptured : m.captured = some v.stamp)
    (contents : Bytes) {options : WriteTextOptions} (hdurability : options.durability = .renameOnly)
    (hverify : ∀ verify, options.verifyBeforeCommit = some verify →
    verify (fingerprintFromStat v.stamp) = .ok ()) {w : World} (hw : Quiet v w) (htemps :
    w.temps = []) :
    (runIn (m.replaceText contents options) w).1 = .ok () := by
  have hcreate : runIn (createSiblingTemp m.display 32) w =
      (.ok (text ".orangutan.tmp"),
        { w with temps := [{ name := text ".orangutan.tmp", content := [] }] }) := by
    rw [createSiblingTemp, runIn_bind, runIn_syscall, hw.takeTurn]
    simp only [createTemp, htemps, List.any_nil, Bool.false_eq_true, if_false]
    rfl
  have hcurrent : Gives v (m.checkCurrent options) () := by
    refine Gives.bind (Gives.syscall (openTarget_quiet hregular false)) ?_
    unfold FileMutation.compareCurrent
    rw [hcaptured]
    refine Gives.bind (Gives.check _ (fstat_quiet v.holds_descriptor false)) ?_
    have hstamp : ¬v.stat.stamp ≠ v.stamp := not_not.mpr rfl
    rw [if_neg hstamp]
    cases hoptions : options.verifyBeforeCommit with
    | none => exact Gives.pure
    | some verify =>
      dsimp only
      rw [show v.stat.stamp = v.stamp from rfl, hverify verify hoptions]
      exact Gives.pure
  obtain ⟨w', hwritten, hw'⟩ :=
    @writeAll_quiet v (text ".orangutan.tmp") m.display contents.length contents le_rfl
    { w with temps := [{ name := text ".orangutan.tmp", content := [] }] } hw
  have hstaged :
    runIn (writeAndSyncTemp (text ".orangutan.tmp") contents m.display options.durability)
      { w with temps := [{ name := text ".orangutan.tmp", content := [] }] } = (.ok (), w') := by
    rw [writeAndSyncTemp, runIn_bind, hwritten, hdurability]
    rfl
  have hcommit : ∃ w'', runIn (m.commitReplacement (text ".orangutan.tmp") contents options)
      { w with temps := [{ name := text ".orangutan.tmp", content := [] }] } = (.ok (), w'') := by
    rw [FileMutation.commitReplacement, runIn_bind, hstaged]
    dsimp only
    rw [runIn_bind, hcurrent w' hw']
    dsimp only
    rw [runIn_bind, renameTemp, runIn_of, World.takeQuietTurn, hw'.1]
    exact ⟨_, rfl⟩
  obtain ⟨w'', hcommit⟩ := hcommit
  rw [FileMutation.replaceText, runIn_bind, hcreate]
  dsimp only
  rw [runIn_bind, onError, runIn_of, hcommit, hdurability]
  rfl

theorem writeText_quiet (hregular : v.kind = .regular) (hcaptured : m.captured = some v.stamp)
    (contents : Bytes) {options : WriteTextOptions} (hmode : options.mode = .truncate)
    (hatomic : options.atomic = true) (hdurability : options.durability = .renameOnly)
    (hverify : ∀ verify, options.verifyBeforeCommit = some verify →
    verify (fingerprintFromStat v.stamp) = .ok ()) {w : World} (hw : Quiet v w) (htemps :
    w.temps = []) :
    ∃ w', runIn (m.writeText contents options) w = (.ok (), w') := by
  have hvalid : m.validateOptions options = .ok () := by
    simp [FileMutation.validateOptions, hmode, hatomic, hdurability, hcaptured]
  have hreplaced := replaceText_quiet hregular hcaptured contents hdurability hverify hw htemps
  rw [FileMutation.writeText, hvalid, hmode]
  dsimp only
  rcases hrun : runIn (m.replaceText contents options) w with ⟨e | _, w'⟩
  · rw [hrun] at hreplaced
    cases hreplaced
  · exact ⟨w', rfl⟩

end Mutations

end Orangutan.Io
