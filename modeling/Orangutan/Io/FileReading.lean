import Orangutan.Io.FileMutation

/-!
# Bounded reads

A read of an open file gives its text within a byte cap, with the fingerprint of the file before
and after. Text that was cut is trimmed to whole code points.
-/

namespace Orangutan.Io

set_option autoImplicit false

open Orangutan.Core Orangutan.Lib

structure LineSpan where
  startLine : Nat
  lineCount : Nat

structure ByteSpan where
  offsetBytes : Nat
  lengthBytes : Nat

structure FileRange where
  lines : Option LineSpan := none
  bytes : Option ByteSpan := none

structure ReadTextOptions where
  maxBytes : Nat := 16 * 1024 * 1024
  range : Option FileRange := none

structure ReadTextResult where
  text : Bytes
  fingerprint : FileFingerprint := { sizeBytes := 0, mtimeNs := 0 }
  startLine : Nat := 1
  endLine : Nat := 0
  returnedBytes : Nat
  truncated : Bool

def kMidReadRetryThresholdBytes : Nat := 64 * 1024

def kChunkSize : Nat := 8192

def descriptorError (message : String) (file : ReadOnlyFile) (failure : Failure) : Error :=
  (((Error.of .io message).note "path" file.displayPath).note "errno" (decimal failure.errno)).note
    "detail" failure.detail

def computeFileFingerprint (file : ReadOnlyFile) : Sys FileFingerprint := do
  let status ← Sys.check (fstat file.fd true)
    (descriptorError "failed to inspect file descriptor for fingerprint" file)
  if status.kind ≠ .regular then
    throw ((Error.of .io "fingerprint target is not a regular file").note "path" file.displayPath)
  pure (fingerprintFromStat status.stamp)

def readChunk (file : ReadOnlyFile) (offset requested : Nat) : Sys Bytes :=
  if 2 ^ 63 - 1 < offset then throw
    ((Error.invalidArgument "file read offset is too large").note "path" file.displayPath)
  else retrying (pread file.fd offset requested) (descriptorError "failed while reading file" file)

/-- The length that a lead byte announces; a byte that cannot lead has none. -/
def announcedLength (byte : UInt8) : Option Nat :=
  if byte < 0x80 then some 1
  else if byte < 0xC2 then none
  else if byte < 0xE0 then some 2
  else if byte < 0xF0 then some 3
  else if byte < 0xF5 then some 4
  else none

/-- The bytes up to the first code point that is cut off or does not begin. Continuation bytes are
not looked at. -/
def wholeCodePoints : Nat → Bytes → Bytes
  | 0, _ => []
  | _, [] => []
  | fuel + 1, byte :: rest =>
    match announcedLength byte with
    | none => []
    | some length =>
      if (byte :: rest).length < length then []
      else (byte :: rest).take length ++ wholeCodePoints fuel ((byte :: rest).drop length)

/-- The part of the buffer between the two boundaries of `align_to_utf8_boundaries`. -/
def alignToUtf8Boundaries (buffer : Bytes) : Bytes :=
  let rest := buffer.dropWhile fun byte => byte &&& 0xC0 = 0x80
  wholeCodePoints rest.length rest

def validateRange (range : FileRange) : Result Unit :=
  match range.lines, range.bytes with
  | some lines, none =>
    if lines.startLine = 0 ∨ lines.lineCount = 0
      then .error (.invalidArgument "line range fields must be non-zero")
    else .ok ()
  | none, some bytes =>
    if bytes.offsetBytes = 0 ∨ bytes.lengthBytes = 0
      then .error (.invalidArgument "byte range fields must be non-zero")
    else .ok ()
  | _, _ => .error (.invalidArgument "FileRange must specify exactly one of lines or bytes")

def countLineSpan (text : Bytes) : Nat :=
  if text = [] then 0 else text.count 10 + if text.getLast? = some 10 then 0 else 1

/-- The loop of `read_bytes`; every round but the last reads something. -/
def readBytesLoop (file : ReadOnlyFile) (offset length : Nat) : Nat → Bytes → Sys Bytes
  | 0, text => pure text
  | rounds + 1, text =>
    if text.length < length then do
      let piece ← readChunk file (offset + text.length) (min kChunkSize (length - text.length))
      if piece = [] then pure text else readBytesLoop file offset length rounds (text ++ piece)
    else pure text

def readBytes (file : ReadOnlyFile) (offset length : Nat) : Sys Bytes :=
    readBytesLoop file offset length length []

def readWhole (file : ReadOnlyFile) (fileSize maxBytes : Nat) : Sys ReadTextResult := do
  let text ← readBytes file 0 (min fileSize maxBytes)
  let truncated : Bool := maxBytes < fileSize
  let text := if truncated ∧ text ≠ [] then alignToUtf8Boundaries text else text
  pure
    { text, truncated, returnedBytes := text.length, startLine := 1, endLine := countLineSpan text }

/-- What the loop of `read_lines` carries. -/
structure LineScan where
  text : Bytes := []
  endLine : Nat
  currentLine : Nat := 1
  emittedLines : Nat := 0
  truncated : Bool := false

/-- The line that the scan is on is one of those asked for. -/
def LineScan.inRange (scan : LineScan) (lines : LineSpan) : Bool :=
  lines.startLine ≤ scan.currentLine ∧ scan.emittedLines < lines.lineCount

def scanByte (lines : LineSpan) (scan : LineScan) (ch : UInt8) : LineScan :=
  let text := if scan.inRange lines then scan.text ++ [ch] else scan.text
  if ch = 10 then
    if scan.inRange lines then
      { scan with
        text
        emittedLines := scan.emittedLines + 1
        endLine := lines.startLine + (scan.emittedLines + 1) - 1
        currentLine := scan.currentLine + 1 }
    else { scan with text, currentLine := scan.currentLine + 1 }
  else { scan with text }

/-- The loop over one chunk. -/
def scanChunk (lines : LineSpan) (maxBytes : Nat) (scan : LineScan) : Bytes → LineScan
  | [] => scan
  | ch :: rest =>
    if scan.inRange lines ∧ maxBytes ≤ scan.text.length then { scan with truncated := true }
    else scanChunk lines maxBytes (scanByte lines scan ch) rest

def readLinesLoop (file : ReadOnlyFile) (lines : LineSpan) (maxBytes : Nat) : Nat → Nat → LineScan →
    Sys LineScan
  | 0, _, scan => pure scan
  | rounds + 1, offset, scan =>
    if scan.emittedLines < lines.lineCount then do
      let chunk ← readChunk file offset kChunkSize
      if chunk = [] then pure scan
      else
        let scan := scanChunk lines maxBytes scan chunk
        if scan.truncated then pure scan
          else readLinesLoop file lines maxBytes rounds (offset + chunk.length) scan
    else pure scan

/-- The bytes of a version. -/
def versionBytes (version : Option Version) : Nat := (version.map (·.content.length)).getD 0

/-- No read loop takes more rounds: a round takes a turn of the script or reads a byte of the file.
-/
def World.rounds (w : World) : Nat :=
  w.script.length + (versionBytes w.target + ((w.script.flatMap (·.others)).map versionBytes).sum) +
    1

def readLines (file : ReadOnlyFile) (lines : LineSpan) (maxBytes : Nat) : Sys ReadTextResult := do
  let scan ← Fallible.of fun w =>
    Fallible.runIn (readLinesLoop file lines maxBytes w.rounds 0 { endLine :=
      lines.startLine - 1 }) w
  let open_ : Bool := scan.text ≠ [] ∧ scan.text.getLast? ≠ some 10 ∧
    scan.emittedLines < lines.lineCount
  let text := if scan.truncated ∧ scan.text ≠ [] then alignToUtf8Boundaries scan.text else scan.text
  pure
    { text
      truncated := scan.truncated
      returnedBytes := text.length
      startLine := lines.startLine
      endLine := if open_ then lines.startLine + (scan.emittedLines + 1) - 1 else scan.endLine }

def readBytesRange (file : ReadOnlyFile) (bytes : ByteSpan) (maxBytes : Nat) :
    Sys ReadTextResult := do
  let text ← readBytes file bytes.offsetBytes (min bytes.lengthBytes maxBytes)
  let truncated : Bool := maxBytes < bytes.lengthBytes ∧ maxBytes ≤ text.length
  let text := if text ≠ [] then alignToUtf8Boundaries text else text
  pure { text, truncated, returnedBytes := text.length }

def dispatchRead (file : ReadOnlyFile) (options : ReadTextOptions) (fingerprint : FileFingerprint) :
    Sys ReadTextResult :=
  match options.range with
  | none => readWhole file fingerprint.sizeBytes options.maxBytes
  | some range =>
    match range.lines with
    | some lines => readLines file lines options.maxBytes
    | none => readBytesRange file (range.bytes.getD { offsetBytes := 0, lengthBytes := 0 })
        options.maxBytes

/-- The comparison after a read. A small whole read that others have crossed is repeated once. -/
def comparePrints (file : ReadOnlyFile) (options : ReadTextOptions) (pre post : FileFingerprint)
    (result : ReadTextResult) : Sys ReadTextResult :=
  if pre = post then pure { result with fingerprint := post }
  else if options.range.isSome ∨ kMidReadRetryThresholdBytes ≤ pre.sizeBytes then
    throw ((((Error.of .conflict "file changed during read").note "path" file.displayPath).note
      "size_before" (decimal pre.sizeBytes)).note "size_after" (decimal post.sizeBytes))
  else do
    let result ← dispatchRead file options post
    let last ← computeFileFingerprint file
    if post = last then pure { result with fingerprint := last }
    else throw ((Error.of .conflict "file changed during read (after retry)").note "path"
      file.displayPath)

/-- The read between two fingerprints. -/
def readBetweenFingerprints (file : ReadOnlyFile) (options : ReadTextOptions) :
    Sys ReadTextResult := do
  let pre ← computeFileFingerprint file
  let result ← dispatchRead file options pre
  let post ← computeFileFingerprint file
  comparePrints file options pre post result

def readFile (file : ReadOnlyFile) (options : ReadTextOptions) : Sys ReadTextResult :=
  if options.maxBytes = 0 then
    throw ((Error.invalidArgument "max_bytes must be greater than zero").note "path"
      file.displayPath)
  else
    match options.range.map validateRange with
    | some (.error e) => throw (e.note "path" file.displayPath)
    | _ => readBetweenFingerprints file options

end Orangutan.Io
