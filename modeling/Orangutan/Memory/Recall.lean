import Orangutan.Core.TimeOrder
import Orangutan.Memory.LongtermIndex

/-!
# Recalling notes

Notes are recalled by their identity or by words. What a recall returns is marked as read, by a
second transaction: other calls may come in between.
-/

namespace Orangutan.Memory.Longterm

set_option autoImplicit false

open Orangutan.Core Orangutan.Core.Str Orangutan.Storage

def wordByte (ch : UInt8) : Bool :=
  decide (0x80 ≤ ch) || (decide (0x61 ≤ ch) && decide (ch ≤ 0x7A)) ||
    (decide (0x41 ≤ ch) && decide (ch ≤ 0x5A)) ||
    (decide (0x30 ≤ ch) && decide (ch ≤ 0x39))

def quoteFtsToken (token : Bytes) : Bytes :=
  0x22 :: (token.flatMap fun ch => if ch = 0x22 then [0x22, 0x22] else [ch]) ++ [0x22]

/-- The loop, with the number of terms there is room for. -/
def ftsQueryFrom : Nat → Bytes → Bytes → Bytes
  | 0, out, _ => out
  | terms + 1, out, rest =>
    let start := rest.dropWhile fun ch => !wordByte ch
    let token := start.takeWhile wordByte
    if token = [] then out
    else
      ftsQueryFrom terms ((if out = [] then out else out ++ text " OR ") ++ quoteFtsToken token)
        (start.dropWhile wordByte)

def makeFtsQuery (t : Bytes) : Bytes := ftsQueryFrom 32 [] t

/-- `MATCH` and the weighted `-bm25`: which rows of the words match an expression, and how well. -/
structure Ranking where
  score : Bytes → List FtsRow → FtsRow → Option ℚ

/-- A row of the join, with its score. -/
abbrev Scored := ℚ × RecordKey × Columns

def rankLe (a b : Scored) : Bool :=
  decide (b.1 < a.1) || decide (a.1 = b.1) &&
    (decide (b.2.2.updatedAt < a.2.2.updatedAt) || decide (a.2.2.updatedAt = b.2.2.updatedAt) &&
      decide (a.2.1.id ≤ b.2.1.id))

/-- The join of the words with the records under a condition on both. -/
def joinRow (ranking : Ranking) (db : LongtermDb) (query : Query) (row : FtsRow) : Option Scored :=
  match ranking.score (makeFtsQuery query.text) db.fts row, db.records.lookup row.key with
  | some score, some columns =>
    if row.key.scopeKey = query.scopeKey && columns.shadow == 0 &&
        (query.kinds.isEmpty || (query.kinds.map RecordKind.name).contains columns.kind)
          then some (score, row.key, columns)
    else none
  | _, _ => none

def searchRows (ranking : Ranking) (db : LongtermDb) (query : Query) : List Scored :=
  (db.fts.filterMap (joinRow ranking db query)).mergeSort rankLe

section Search

variable (parser : JsonParser) (ranking : Ranking) (fault : Faults)

/-- The rows of the cursor from the front on. -/
def readHits : Nat → List Scored → Result (List SearchHit)
  | index, [] => do
    attempt fault (.read index)
    .ok []
  | index, row :: rest => do
    attempt fault (.read index)
    let record ← readRecordRow parser row.2.1 row.2.2
    let hits ← readHits (index + 1) rest
    .ok ({ record, score := row.1 } :: hits)

def search (db : LongtermDb) (query : Query) (limit : Nat) : Result (List SearchHit) := do
  validateQuery query limit
  if makeFtsQuery query.text = [] then .ok []
  else do
    attempt fault .reader
    attempt fault .select
    readHits parser fault 0 ((searchRows ranking db query).take limit)

def notFound : Error := .notFound "long-term memory record not found"

/-- The first half of `recall`: what it selects. -/
def selectHits (db : LongtermDb) (request : RecallRequest) : Result (List SearchHit) := do
  validateRecallRequest request
  if request.recordId ≠ [] then do
    let record ← get parser fault db { id := request.recordId, scopeKey := request.query.scopeKey }
    if record.shadow || (!request.query.kinds.isEmpty && !request.query.kinds.contains record.kind)
      then .error notFound
    else .ok [{ record }]
  else search parser ranking fault db request.query request.limit

end Search

/-- The values with commas between them. -/
def appendStringList (label : String) (values : List Bytes) : Bytes :=
  if values.isEmpty then []
  else text "  " ++ text label ++ text ": " ++ (text ", ").intercalate values ++ text "\n"

def hitLines (record : Record) : Bytes :=
  text "- [" ++ record.kind.name ++ text "] " ++ record.title ++ text " (id: " ++ record.key.id ++
    text ")\n" ++
    text "  " ++ flatten record.body ++ text "\n" ++ appendStringList "tags" record.tags ++
    appendStringList "linked" record.linkedRecordIds

def renderRecallText (hits : List SearchHit) : Bytes :=
  if hits.isEmpty then [] else text "Long-term memory:\n" ++ hits.flatMap fun hit =>
    hitLines hit.record

structure RecallResult where
  hits : List SearchHit
  text : Bytes

/-- `std::max` of two times. -/
def latest (a b : TimePoint) : TimePoint := if a.nanoseconds < b.nanoseconds then b else a

def SearchHit.readAt (hit : SearchHit) (time : TimePoint) : SearchHit :=
  { hit with record := { hit.record with lastReadAt := latest hit.record.lastReadAt time } }

/-- `recall`: it selects in the tables as they were found, and marks in the tables as they are by
then. A read time is that of the clock, cut to milliseconds. -/
def runRecall (parser : JsonParser) (ranking : Ranking) (fault : Faults) (now : TimePoint)
    (request : RecallRequest) (found db : LongtermDb) : Result RecallResult × LongtermDb :=
  match selectHits parser ranking fault found request with
  | .error e => (.error e, db)
  | .ok hits =>
    if hits.isEmpty then (.ok { hits, text := renderRecallText hits }, db)
    else
      let touched := touch fault (hits.map fun hit => hit.record.key) now.persisted db
      let read := hits.map fun hit => hit.readAt now.persisted
      (touched.1.map fun _ => { hits := read, text := renderRecallText read }, touched.2)

end Orangutan.Memory.Longterm
