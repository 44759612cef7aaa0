import Orangutan.Io.FileReading
import Orangutan.Tool.Registry

/-!
# FileEdit and FileWrite

The executors of the prepared calls, over the system calls of one file mutation. A stopped
blocking operation does not start.
-/

namespace Orangutan.Tool

set_option autoImplicit false

open Orangutan.Core Orangutan.Io Orangutan.Lib

/-- The blocking operations that are cancelled before they start. -/
structure Stops where
  read : Bool := false
  write : Bool := false

def runBlocking {α : Type} (stopped : Bool) (operation : Sys α) : Sys α :=
  if stopped then throw .cancelled else operation

section Tokens

variable (sha256 : Bytes → Bytes)

def versionToken (canonicalPath : Bytes) (fingerprint : FileFingerprint) : Bytes :=
  text "v1:" ++ toHex (sha256 canonicalPath) ++ text ":" ++ decimal fingerprint.sizeBytes ++
    text ":" ++
    decimal fingerprint.mtimeNs

def expectedVersionVerifier (path expected : Bytes) (fingerprint : FileFingerprint) : Result Unit :=
  if versionToken sha256 path fingerprint = expected then .ok ()
  else
    .error (((((Error.of .conflict "file changed during write").note "path" path).note
      "reason" (text "stale_fingerprint")).note "expected" expected).note
      "fingerprint" (versionToken sha256 path fingerprint))

def unverifiedError (message : String) (path : Bytes) (cause : Error) : Error :=
  (((Error.of .conflict message).note "path" path).note "reason" (text "stale_fingerprint")).note
    "detail" (text cause.message)

def compareToken (message : String) (path expected : Bytes) (pre : FileFingerprint) : Result Unit :=
  if expected ≠ versionToken sha256 path pre then
    .error
      (((((Error.of .conflict message).note "path" path).note "reason"
      (text "stale_fingerprint")).note
      "expected" expected).note "fingerprint" (versionToken sha256 path pre))
  else .ok ()

end Tokens

/-- `find` from the beginning. -/
def findFirst (needle : Bytes) : Bytes → Option Nat
  | [] => if needle = [] then some 0 else none
  | b :: rest => if needle.isPrefixOf (b :: rest) then some 0
      else (findFirst needle rest).map (· + 1)

def occurrencesFrom (haystack needle : Bytes) : Nat → Nat → List Nat
  | 0, _ => []
  | rounds + 1, start =>
    match findFirst needle (haystack.drop start) with
    | none => []
    | some skipped => (start + skipped) :: occurrencesFrom haystack needle rounds
        (start + skipped + needle.length)

/-- Every round but the last goes forward in the haystack. -/
def findOccurrences (haystack needle : Bytes) : List Nat :=
    occurrencesFrom haystack needle (haystack.length + 1) 0

def replacementSize (sourceSize oldSize newSize replacementCount : Nat) : Result Nat :=
  if newSize ≤ oldSize then .ok (sourceSize - (oldSize - newSize) * replacementCount)
  else if (2 ^ 64 - 1 - sourceSize) / (newSize - oldSize) < replacementCount then
    .error (.invalidArgument "FileEdit: replacement output is too large")
  else .ok (sourceSize + (newSize - oldSize) * replacementCount)

def stitch (source oldString newString : Bytes) : Nat → List Nat → Bytes
  | cursor, [] => source.drop cursor
  | cursor, pos :: rest =>
    (source.drop cursor).take (pos - cursor) ++ newString ++ stitch source oldString newString
      (pos + oldString.length) rest

def applyReplacements (source oldString newString : Bytes) (positions : List Nat) : Bytes :=
  stitch source oldString newString 0 positions

/-- Preparation refuses an empty old string. -/
structure FileEditRequest where
  oldString : Bytes
  newString : Bytes
  replaceAll : Bool := false
  maxBytes : Nat := 16 * 1024 * 1024
  expectedVersion : Option Bytes := none
  oldString_nonempty : oldString ≠ []

/-- Preparation makes a write atomic exactly if it replaces the file. -/
structure FileWriteRequest where
  content : Bytes
  options : WriteTextOptions
  expectedVersion : Option Bytes := none
  atomic_iff : options.atomic = true ↔ options.mode = .truncate

/-- The edited contents and the number of replacements. -/
def editContents (request : FileEditRequest) (path contents : Bytes) : Result (Bytes × Nat) :=
  let positions := findOccurrences contents request.oldString
  if positions = [] then
    .error ((Error.notFound "FileEdit: \x60old_string\x60 does not occur in the file").note
      "path" path)
  else if 1 < positions.length ∧ ¬request.replaceAll then
    .error (((Error.of .conflict
      "FileEdit: \x60old_string\x60 is not unique; pass \x60replace_all\x60 to apply to every match").note
      "path" path).note "match_count" (decimal positions.length))
  else
    match replacementSize contents.length request.oldString.length request.newString.length
      positions.length with
    | .error e => .error (e.note "path" path)
    | .ok outputSize =>
      if request.maxBytes < outputSize then
        .error
          ((((Error.invalidArgument "FileEdit: output exceeds max_bytes").note "path" path).note
          "output_bytes" (decimal outputSize)).note "max_bytes" (decimal request.maxBytes))
      else .ok (applyReplacements contents request.oldString request.newString positions,
        positions.length)

section Executors

variable (sha256 : Bytes → Bytes) (displayRoot : Nat → Bytes) (stops : Stops)

/-- The check of `expected_version` before anything is read. -/
def checkBeforeEdit (path : Bytes) (file : ReadOnlyFile) : Option Bytes → Sys Unit
  | none => pure ()
  | some expected => do
    match ← Fallible.attempt (computeFileFingerprint file) with
    | .error e => throw (unverifiedError "FileEdit: expected_version cannot be verified" path e)
    | .ok pre =>
      match compareToken sha256 "FileEdit: file has changed since the expected version" path
        expected pre with
      | .error e => throw e
      | .ok () => pure ()

/-- The options of the edit, which verifies the version again. -/
def editOptions (request : FileEditRequest) (path : Bytes) : WriteTextOptions where
  mode := .truncate
  atomic := true
  verifyBeforeCommit := request.expectedVersion.map (expectedVersionVerifier sha256 path)

/-- The edit of what has been read. -/
def editAndWrite (request : FileEditRequest) (path : Bytes) (mutation : FileMutation)
    (read : ReadTextResult) :
    Sys Output :=
  if read.truncated then
    throw (((Error.invalidArgument "file exceeds max_bytes").note "path" path).note
      "max_bytes" (decimal request.maxBytes))
  else
    match editContents request path read.text with
    | .error e => throw e
    | .ok (replaced, applied) => do
      runBlocking stops.write (mutation.writeText replaced (editOptions sha256 request path))
      pure
        { text := text "edited " ++ path ++ text ": " ++ decimal applied ++ text " replacement" ++
            if applied = 1 then [] else text "s"
          usage :=
            { bytesRead := some read.text.length
              bytesWritten := some replaced.length
              filesTouched := some 1
              matchCount := some applied } }

def fileEditHandler (request : FileEditRequest) (ctx : DispatchContext) : Sys Output :=
  match ctx.resolvedPath with
  | none => throw (.internal "FileEdit requires a resolved workspace authority")
  | some resolved => do
    let mutation ← beginFileMutation
      (displayRoot resolved.authority) resolved.authorityRelativePath false
    let authorizedFile ← mutation.openExisting
    checkBeforeEdit sha256 resolved.absolutePath authorizedFile request.expectedVersion
    let read ← runBlocking stops.read (readFile authorizedFile { maxBytes := request.maxBytes })
    editAndWrite sha256 stops request resolved.absolutePath mutation read

/-- The check of `expected_version` before the write; a missing target fails it too. -/
def checkBeforeWrite (path : Bytes) (mutation : FileMutation) : Option Bytes → Sys Unit
  | none => pure ()
  | some expected => do
    match ← Fallible.attempt (mutation.openExisting >>= computeFileFingerprint) with
    | .error e => throw (unverifiedError "FileWrite: expected_version cannot be verified" path e)
    | .ok pre =>
      match compareToken sha256 "FileWrite: file has changed since the expected version" path
        expected pre with
      | .error e => throw e
      | .ok () => pure ()

/-- The options of the write, which verifies the version again if it is atomic. -/
def writeOptions (request : FileWriteRequest) (path : Bytes) : WriteTextOptions :=
  match request.expectedVersion with
  | some expected =>
    if request.options.atomic then
      { request.options with
        verifyBeforeCommit := some (expectedVersionVerifier sha256 path expected) }
    else request.options
  | none => request.options

def fileWriteHandler (request : FileWriteRequest) (ctx : DispatchContext) : Sys Output :=
  match ctx.resolvedPath with
  | none => throw (.internal "FileWrite requires a resolved workspace authority")
  | some resolved => do
    let path := resolved.absolutePath
    let mutation ← beginFileMutation (displayRoot resolved.authority) resolved.authorityRelativePath
      request.options.createParentDirectories
    checkBeforeWrite sha256 path mutation request.expectedVersion
    runBlocking stops.write (mutation.writeText request.content (writeOptions sha256 request path))
    pure
      { text := text "wrote " ++ decimal request.content.length ++ text " bytes to " ++ path
        usage := { bytesWritten := some request.content.length, filesTouched := some 1 } }

end Executors

end Orangutan.Tool
