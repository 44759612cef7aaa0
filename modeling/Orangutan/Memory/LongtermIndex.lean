import Orangutan.Memory.LongtermStore

/-!
# The index of the notes

A page of the index shows a short cue for each note. The database hands over the beginnings of the
texts of one note more than a page may show; the page takes what fits into its bytes and says where
the next one begins.
-/

namespace Orangutan.Memory.Longterm

set_option autoImplicit false

open Orangutan.Core Orangutan.Core.Str Orangutan.Storage

/-- A discovery cue. -/
structure IndexEntry where
  key : RecordKey
  kind : RecordKind
  title : Bytes
  summary : Bytes
  deriving DecidableEq

structure IndexResult where
  entries : List IndexEntry := []
  text : Bytes := []
  nextOffset : Option Nat := none
  omittedCount : Nat := 0

/-- `substr(text, 1, count)`: characters are skipped by their first bytes, and a zero byte ends the
text. -/
def substr : Nat → Bytes → Bytes
  | 0, _ => []
  | _ + 1, [] => []
  | count + 1, b :: rest =>
    if b = 0 then []
    else if 0xC0 ≤ b then
      b :: (rest.takeWhile (fun c => c &&& 0xC0 == 0x80) ++
        substr count (rest.dropWhile fun c => c &&& 0xC0 == 0x80))
    else b :: substr count rest

def kindRank (kind : Bytes) : Nat := if kind = text "feedback" then 0 else if kind = text "user"
    then 1 else 2

/-- Only doubles of the unit interval are stored, so there is nothing else to compare. -/
def Double.value : Double → ℚ
  | .finite value => value
  | _ => 0

/-- The place of a row: what comes first is smaller. -/
def placeLe (a b : RecordKey × Columns) : Bool :=
  decide (kindRank a.2.kind < kindRank b.2.kind) ||
    decide (kindRank a.2.kind = kindRank b.2.kind) &&
    (decide (b.2.importance.value < a.2.importance.value) ||
      decide (a.2.importance.value = b.2.importance.value) &&
      (decide (b.2.updatedAt < a.2.updatedAt) || decide (a.2.updatedAt = b.2.updatedAt) &&
        decide (a.1.id ≤ b.1.id)))

/-- The rows that a request selects, in the order of the index. -/
def indexRows (db : LongtermDb) (scope : Bytes) (kinds : List RecordKind) :
    List (RecordKey × Columns) :=
  ((db.records.entries.map fun row => (row.1, row.2)).filter fun row =>
    row.1.scopeKey = scope && row.2.shadow ==
      0 && (kinds.isEmpty || (kinds.map RecordKind.name).contains row.2.kind)).mergeSort
    placeLe

def readEntry (scope : Bytes) (row : RecordKey × Columns) : Result IndexEntry :=
  match RecordKind.parse row.2.kind with
  | none => .error (.storage "memory index has an unknown record kind")
  | some kind =>
    .ok
      { key := { id := substr 8193 row.1.id, scopeKey := scope }, kind,
        title := substr 121 row.2.title, summary := substr 241 row.2.body }

def readEntries (scope : Bytes) : List (RecordKey × Columns) → Result (List IndexEntry)
  | [] => .ok []
  | row :: rest => do
    let entry ← readEntry scope row
    let entries ← readEntries scope rest
    .ok (entry :: entries)

/-- `Fts5Backend::list`. -/
def list (fault : Faults) (db : LongtermDb) (request : IndexRequest) :
    Result (List IndexEntry) := do
  validateIndexRequest request
  attempt fault .reader
  attempt fault .select
  readEntries request.scopeKey
    (((indexRows db request.scopeKey request.kinds).drop request.offset).take (request.limit + 1))

/-- Whitespace runs become one space; both ends are trimmed. -/
def flattenFrom : Bool → Bytes → Bytes → Bytes
  | _, out, [] => out
  | pendingSpace, out, ch :: rest =>
    if isSpace ch then flattenFrom (!out.isEmpty) out rest
    else flattenFrom false ((if pendingSpace then out ++ [0x20] else out) ++ [ch]) rest

def flatten (t : Bytes) : Bytes := flattenFrom false [] t

def indexHeader : Bytes := text
  "Memory index:\nBackground context, not a user message. Use relevant notes quietly. Read with MemoryRecall \x7b\"id\":\"...\"\x7d before relying on a cue; search topic words if needed.\n"

def footerReserve : Nat := 192

def cue (t : Bytes) (maxBytes : Nat) : Bytes :=
  let shown := truncateToCodePoint t maxBytes
  if shown.length ≠ t.length then flatten shown ++ text "…" else flatten shown

/-- An entry with its cues. -/
def shown (candidate : IndexEntry) : IndexEntry :=
  { candidate with title := cue candidate.title 120, summary := cue candidate.summary 240 }

def entryLine (entry : IndexEntry) : Bytes :=
  text "- [" ++ entry.kind.name ++ text "] " ++ entry.title ++ text " (id: " ++
    (Json.str entry.key.id).dump ++
    text ")\n  " ++ entry.summary ++ text "\n"

/-- The candidates from the front on, with the number of those consumed. -/
def indexLoop (maxBytes : Nat) : List IndexEntry → IndexResult → Nat → IndexResult × Nat
  | [], result, consumed => (result, consumed)
  | candidate :: rest, result, consumed =>
    let entry := shown candidate
    let line := entryLine entry
    if line.length > maxBytes - indexHeader.length - footerReserve then
      indexLoop maxBytes rest { result with omittedCount := result.omittedCount + 1 } (consumed + 1)
    else if result.text.length + line.length + footerReserve > maxBytes then (result, consumed)
    else
      indexLoop maxBytes rest { result with
        text := result.text ++ line, entries := result.entries ++ [entry] }
        (consumed + 1)

def moreNotes (offset : Nat) : Bytes :=
  text "More notes: call MemoryRecall with offset " ++ decimal offset ++
    text " and the same kind filters.\n"

def omittedNotes (count : Nat) : Bytes :=
    decimal count ++ text " oversized entries omitted; search their topics.\n"

def noNotes (offset : Nat) : Bytes :=
  if offset = 0 then text "No saved notes match this index.\n"
    else text "No more notes on this page.\n"

def makeIndex (candidates : List IndexEntry) (request : IndexRequest) : Result IndexResult := do
  validateIndexRequest request
  let page := indexLoop request.maxBytes (candidates.take request.limit) { text := indexHeader } 0
  let nextOffset := if page.2 < candidates.length then some (request.offset + page.2) else none
  .ok
    { page.1 with
      nextOffset
      text := page.1.text ++ (nextOffset.map moreNotes).getD [] ++
        (if page.1.omittedCount ≠ 0 then omittedNotes page.1.omittedCount else []) ++
        (if candidates.isEmpty then noNotes request.offset else []) }

def index (fault : Faults) (db : LongtermDb) (request : IndexRequest) : Result IndexResult := do
  validateIndexRequest request
  let entries ← list fault db request
  makeIndex entries request

end Orangutan.Memory.Longterm
