import Orangutan.Io.LineWindows
import Orangutan.Tool.FileChanges

/-!
# FileRead

The executor of the prepared call. Its structured output is serialized by a library that throws
on a string that is not valid UTF-8.
-/

namespace Orangutan.Tool

set_option autoImplicit false

open Orangutan.Core Orangutan.Core.Str Orangutan.Io Orangutan.Lib Orangutan.Lib.Fallible

/-- Preparation checks the bounds. -/
structure FileReadRequest where
  path : Bytes
  offset : Nat := 1
  limit : Nat := 2000
  maxBytes : Nat := 16 * 1024 * 1024
  offset_pos : 0 < offset := by decide
  limit_pos : 0 < limit := by decide
  limit_le : limit ≤ 2000 := by decide
  maxBytes_pos : 0 < maxBytes := by decide
  maxBytes_le : maxBytes ≤ 16 * 1024 * 1024 := by decide

def FileReadRequest.lines (request : FileReadRequest) : LineSpan := ⟨request.offset, request.limit⟩

mutual

/-- Every string of the value is valid UTF-8, keys included. -/
def wellFormed : Json → Bool
  | .null => true
  | .bool _ => true
  | .num _ => true
  | .str s => isValidUtf8 s
  | .arr items => wellFormedItems items
  | .obj fields => wellFormedFields fields

def wellFormedItems : List Json → Bool
  | [] => true
  | item :: rest => wellFormed item && wellFormedItems rest

def wellFormedFields : List (Bytes × Json) → Bool
  | [] => true
  | (key, value) :: rest => isValidUtf8 key && (wellFormed value && wellFormedFields rest)

end

/-- `dump`, which has no result when it throws. -/
def dumpChecked (value : Json) : Option Bytes := if wellFormed value then some value.dump else none

mutual

theorem strings_of_wellFormed : ∀ value : Json, wellFormed value = true →
    value.Strings fun s => isValidUtf8 s = true
  | .null, _ => trivial
  | .bool _, _ => trivial
  | .num _, _ => trivial
  | .str _, h => h
  | .arr items, h => itemStrings_of_wellFormed items h
  | .obj fields, h => fieldStrings_of_wellFormed fields h

theorem itemStrings_of_wellFormed : ∀ items : List Json, wellFormedItems items = true →
    Json.ItemStrings (fun s => isValidUtf8 s = true) items
  | [], _ => trivial
  | item :: rest, h => by
    rw [wellFormedItems, Bool.and_eq_true] at h
    exact ⟨strings_of_wellFormed item h.1, itemStrings_of_wellFormed rest h.2⟩

theorem fieldStrings_of_wellFormed : ∀ fields : List (Bytes × Json),
    wellFormedFields fields = true →
    Json.FieldStrings (fun s => isValidUtf8 s = true) fields
  | [], _ => trivial
  | (key, value) :: rest, h => by
    rw [wellFormedFields, Bool.and_eq_true, Bool.and_eq_true] at h
    exact ⟨h.1, strings_of_wellFormed value h.2.1, fieldStrings_of_wellFormed rest h.2.2⟩

end

/-- What is written is valid UTF-8. -/
theorem dumpChecked_valid {value : Json} {data : Bytes} (h : dumpChecked value = some data) :
    isValidUtf8 data = true := by
  unfold dumpChecked at h
  split at h
  · rename_i hwell
    cases h
    exact Json.Serial.utf8.dump value (strings_of_wellFormed value hwell)
  · cases h

def formatHeader (path : Bytes) (result : ReadTextResult) (token : Bytes) : Bytes :=
  path ++ text ":" ++ decimal result.startLine ++ text "-" ++ decimal result.endLine ++
    text " fingerprint=" ++ token ++
    text " bytes=" ++ decimal result.returnedBytes ++ if result.truncated
      then text " truncated" else []

/-- What the header says about the rest of the file. -/
def continuation (lineCount : Nat) (result : ReadTextResult) : Bytes :=
  if result.truncated then
    text "; incomplete window: retry with a smaller limit or larger max_bytes before editing"
  else if result.endLine < result.startLine then text "; end of file"
  else if result.endLine - result.startLine + 1 < lineCount then text "; end of file"
  else text "; continue with offset=" ++ decimal (result.endLine + 1)

/-- The fields in the order of their keys. -/
def readDataJson (path body : Bytes) (result : ReadTextResult) (token : Bytes) : Json :=
  .obj
    [(text "end_line", .num result.endLine), (text "fingerprint", .str token),
      (text "kind", .str (text "file_read")), (text "path", .str path),
      (text "returned_bytes", .num result.returnedBytes),
      (text "start_line", .num result.startLine), (text "text", .str body),
      (text "truncated", .bool result.truncated)]

section Executor

variable (sha256 : Bytes → Bytes) (openFile : Nat → Bytes →
  Result ReadOnlyFile) (openTrusted : Bytes → Result ReadOnlyFile)

/-- The output of a read that succeeded; there is none if the serialization throws. -/
def readOutput (path : Bytes) (lineCount : Nat) (result : ReadTextResult) : Option Output :=
  let token := versionToken sha256 path result.fingerprint
  (dumpChecked (readDataJson path result.text result token)).map fun dataJson =>
    { text := formatHeader path result token ++ continuation lineCount result ++ text "\n" ++
      result.text
      dataJson := some dataJson
      usage :=
        { bytesRead := some result.returnedBytes
          filesTouched := some 1
          truncated := result.truncated } }

theorem readOutput_text {path : Bytes} {lineCount : Nat} {result : ReadTextResult} {output : Output}
    (h : readOutput sha256 path lineCount result = some output) :
    output.text = formatHeader path result (versionToken sha256 path result.fingerprint) ++
      continuation lineCount result ++ text "\n" ++ result.text := by
  obtain ⟨dataJson, -, rfl⟩ := Option.map_eq_some_iff.mp h
  rfl

/-- The path that the output shows. -/
def shownPath (request : FileReadRequest) (ctx : DispatchContext) : Bytes :=
  match ctx.resolvedPath with
  | some resolved => resolved.absolutePath
  | none => request.path

/-- The file that is read, or why there is none. -/
def openedFile (request : FileReadRequest) (ctx : DispatchContext) : Result ReadOnlyFile :=
  match ctx.resolvedPath with
  | some resolved => openFile resolved.authority resolved.authorityRelativePath
  | none =>
    if ctx.workspace.isSome then
      .error (.internal "FileRead: workspace dispatch did not provide a resolved authority")
    else openTrusted request.path

/-- The executor, when nobody cancels it. It gives no output if it throws. -/
def fileReadHandler (request : FileReadRequest) (ctx : DispatchContext) : Sys (Option Output) :=
  match openedFile openFile openTrusted request ctx with
  | .error e => throw e
  | .ok file => do
    let result ← readFile file
      { maxBytes := request.maxBytes, range := some { lines := some request.lines } }
    pure (readOutput sha256 (shownPath request ctx) request.limit result)

end Executor

theorem isValidUtf8_ascii {t : Bytes} (h : ∀ b ∈ t, b < 0x80) : isValidUtf8 t = true := by
  have hall := isValidUtf8_ascii_append h []
  rw [List.append_nil] at hall
  exact hall

theorem hexDigit_ascii : ∀ n < 16, hexDigit n < 0x80 := by decide +kernel

theorem toHex_ascii (digest : Bytes) : ∀ b ∈ toHex digest, b < 0x80 := by
  intro b hb
  obtain ⟨digit, -, hdigit⟩ := List.mem_flatMap.mp hb
  have hlow := digit.toNat_lt
  simp only [List.mem_cons, List.not_mem_nil, or_false] at hdigit
  rcases hdigit with rfl | rfl
  · exact hexDigit_ascii _ (by omega)
  · exact hexDigit_ascii _ (Nat.mod_lt _ (by decide))

theorem decimal_ascii (n : Nat) : ∀ b ∈ decimal n, b < 0x80 :=
  fun b hb => UInt8.lt_of_le_of_lt (decimal_digits n b hb).2 (by decide)

theorem versionToken_valid (sha256 : Bytes → Bytes) (path : Bytes) (fingerprint : FileFingerprint) :
    isValidUtf8 (versionToken sha256 path fingerprint) = true := by
  apply isValidUtf8_ascii
  have hversion : ∀ b ∈ text "v1:", b < 0x80 := List.all_iff_forall_prop.mp (by decide +kernel)
  have hcolon : ∀ b ∈ text ":", b < 0x80 := List.all_iff_forall_prop.mp (by decide +kernel)
  intro b hb
  simp only [versionToken, List.mem_append] at hb
  rcases hb with ((((hb | hb) | hb) | hb) | hb) | hb
  · exact hversion b hb
  · exact toHex_ascii _ b hb
  · exact hcolon b hb
  · exact decimal_ascii _ b hb
  · exact hcolon b hb
  · exact decimal_ascii _ b hb

theorem formatHeader_valid {path token : Bytes} (result : ReadTextResult)
    (hpath : isValidUtf8 path = true) (htoken : isValidUtf8 token = true) :
    isValidUtf8 (formatHeader path result token) = true := by
  have hdecimal (n : Nat) : isValidUtf8 (decimal n) = true := isValidUtf8_ascii (decimal_ascii n)
  have happend {t u : Bytes} (ht : isValidUtf8 t = true) (hu : isValidUtf8 u = true) :
      isValidUtf8 (t ++ u) = true :=
    (isValidUtf8_append ht).trans hu
  unfold formatHeader
  refine happend
    (happend
    (happend (happend (happend (happend (happend (happend (happend hpath ?_) (hdecimal _)) ?_)
    (hdecimal _)) ?_) htoken) ?_) (hdecimal _)) ?_
  · decide +kernel
  · decide +kernel
  · decide +kernel
  · decide +kernel
  · split <;> decide +kernel

theorem continuation_valid (lineCount : Nat) (result : ReadTextResult) :
    isValidUtf8 (continuation lineCount result) = true := by
  unfold continuation
  split
  · decide +kernel
  · split
    · decide +kernel
    · split
      · decide +kernel
      · rw [isValidUtf8_append (by decide +kernel)]
        exact isValidUtf8_ascii (decimal_ascii _)

/-- There is an output exactly if the path and the text are valid UTF-8. -/
theorem readOutput_isSome (sha256 : Bytes → Bytes) (path : Bytes) (lineCount : Nat)
    (result : ReadTextResult) :
    (readOutput sha256 path lineCount result).isSome = true ↔
      isValidUtf8 path = true ∧ isValidUtf8 result.text = true := by
  have hkeys : wellFormed (readDataJson path result.text result
    (versionToken sha256 path result.fingerprint)) =
      (isValidUtf8 path && isValidUtf8 result.text) := by
    have hkey : ∀ key ∈ [text "end_line", text "fingerprint", text "kind", text "file_read",
        text "path", text "returned_bytes", text "start_line", text "text", text "truncated"],
        isValidUtf8 key = true := by
      decide +kernel
    simp only [List.mem_cons, List.not_mem_nil, or_false, forall_eq_or_imp, forall_eq] at hkey
    obtain ⟨hend, hprint, hkind, hread, hpath, hbytes, hstart, htext, htruncated⟩ := hkey
    simp [readDataJson, wellFormed, wellFormedFields, versionToken_valid, hend, hprint, hkind,
      hread, hpath, hbytes, hstart, htext, htruncated]
  unfold readOutput dumpChecked
  dsimp only
  rw [hkeys]
  by_cases hpath : isValidUtf8 path = true
  · by_cases htext : isValidUtf8 result.text = true
    · simp [hpath, htext]
    · simp [hpath, htext]
  · simp [hpath]

/-- And what it holds is valid UTF-8 then. -/
theorem readOutput_valid {sha256 : Bytes → Bytes} {path : Bytes} {lineCount : Nat}
    {result : ReadTextResult} {output : Output}
    (h : readOutput sha256 path lineCount result = some output) :
    isValidUtf8 output.text = true ∧
      (∀ data, output.dataJson = some data → isValidUtf8 data = true) ∧
      output.isError = false := by
  have hvalid := (readOutput_isSome sha256 path lineCount result).mp (by rw [h]; rfl)
  unfold readOutput at h
  obtain ⟨data, hdata, rfl⟩ := Option.map_eq_some_iff.mp h
  refine ⟨?_, ?_, rfl⟩
  · have hheader := formatHeader_valid result hvalid.1
      (versionToken_valid sha256 path result.fingerprint)
    dsimp only
    rw [List.append_assoc, List.append_assoc, isValidUtf8_append hheader,
      isValidUtf8_append (continuation_valid lineCount result),
        isValidUtf8_append (by decide +kernel)]
    exact hvalid.2
  · rintro data' hdata'
    cases hdata'
    exact dumpChecked_valid hdata

end Orangutan.Tool
