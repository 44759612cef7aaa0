import Orangutan.Lib.Table
import Orangutan.Lib.Transactions
import Orangutan.Memory.Longterm
import Orangutan.Storage.JsonText

/-!
# The tables of the long-term notes

One table has a row for each record, under scope and identity. A second one has the words of the
records for full-text search; it knows nothing of keys, so an upsert deletes and inserts there. Each
call is one transaction, and any of its statements may fail.
-/

namespace Orangutan.Memory.Longterm

set_option autoImplicit false

open Orangutan.Core Orangutan.Core.Str Orangutan.Storage

/-- The columns of a row beside its primary key. -/
structure Columns where
  kind : Bytes
  title : Bytes
  body : Bytes
  createdAt : Bytes
  updatedAt : Bytes
  lastReadAt : Bytes
  importance : Double
  tagsJson : Bytes
  linkedRecordIdsJson : Bytes
  shadow : Int
  deriving DecidableEq

structure FtsRow where
  key : RecordKey
  kind : Bytes
  shadow : Int
  title : Bytes
  body : Bytes
  tags : Bytes
  deriving DecidableEq

structure LongtermDb where
  records : Lib.Table RecordKey Columns := ∅
  fts : List FtsRow := []

/-- What may fail by itself. -/
inductive Step
  | cancelled (index : Nat)
  | openSource
  | beginSource
  | version
  | reader
  | writer
  | begin
  | existing
  | select
  | upsert
  | deleteFts
  | insertFts
  | deleteRecord
  | touch (index : Nat)
  | read (index : Nat)
  | write (index : Nat)
  | index (index : Nat)
  | commit

abbrev Faults := Step → Option Error

def attempt (fault : Faults) (step : Step) : Result Unit :=
  match fault step with
  | some e => .error e
  | none => .ok ()

def stringListToJson (values : List Bytes) : Bytes := (Json.arr (values.map Json.str)).dump

def stringsFrom (field : String) : Nat → List SqlJson → Result (List Bytes)
  | _, [] => .ok []
  | index, item :: rest =>
    match item with
    | .text value => do
      let others ← stringsFrom field (index + 1) rest
      .ok (value :: others)
    | _ =>
        .error
        (((Error.storage "long-term memory string-list JSON has a non-string value").note "field"
        (text field)).note "index" (decimal index))

def stringListFromJson (parser : JsonParser) (t : Bytes) (field : String) : Result (List Bytes) :=
  match parser.parse t with
  | .error detail => .error
      (((Error.storage "long-term memory string-list JSON is malformed").note "field"
      (text field)).note "detail" detail)
  | .ok (.array items) => stringsFrom field 0 items
  | .ok _ =>
      .error ((Error.storage "long-term memory string-list JSON is not an array").note "field"
      (text field))

def joinedTags (tags : List Bytes) : Bytes :=
  tags.foldl (fun out tag => (if out = [] then out else out ++ [0x20]) ++ tag) []

def recordKindFromText (t : Bytes) : Result RecordKind :=
  match RecordKind.parse t with
  | some kind => .ok kind
  | none => .error ((Error.storage "long-term memory row has unknown kind").note "kind" t)

def timeFrom (t : Bytes) (field : String) : Result TimePoint :=
  (parseIso8601Utc t).mapError fun e => e.note "field" (text field)

def readRecordRow (parser : JsonParser) (key : RecordKey) (columns : Columns) : Result Record := do
  let kind ← recordKindFromText columns.kind
  let createdAt ← timeFrom columns.createdAt "created_at"
  let updatedAt ← timeFrom columns.updatedAt "updated_at"
  let lastReadAt ← timeFrom columns.lastReadAt "last_read_at"
  let tags ← stringListFromJson parser columns.tagsJson "tags_json"
  let linkedRecordIds ← stringListFromJson parser columns.linkedRecordIdsJson
    "linked_record_ids_json"
  if columns.shadow ≠ 0 ∧ columns.shadow ≠ 1 then
    .error ((Error.storage "long-term memory row has invalid shadow value").note "shadow"
      (signedDecimal columns.shadow))
  else
    .ok { key, kind, title := columns.title, body := columns.body, createdAt, updatedAt, lastReadAt,
          importance := columns.importance, tags, linkedRecordIds, shadow := columns.shadow = 1 }

/-- The values that an upsert binds. -/
def columnsOf (record : Record) : Columns where
  kind := record.kind.name
  title := record.title
  body := record.body
  createdAt := formatIso8601Utc record.createdAt
  updatedAt := formatIso8601Utc record.updatedAt
  lastReadAt := formatIso8601Utc record.lastReadAt
  importance := record.importance
  tagsJson := stringListToJson record.tags
  linkedRecordIdsJson := stringListToJson record.linkedRecordIds
  shadow := if record.shadow then 1 else 0

def ftsOf (record : Record) : FtsRow where
  key := record.key
  kind := record.kind.name
  shadow := if record.shadow then 1 else 0
  title := record.title
  body := record.body
  tags := joinedTags record.tags

def stepFailed : Error := .storage "sqlite statement step failed"

/-- The constraints of the table on its columns. -/
def Columns.allowed (columns : Columns) : Bool :=
  columns.importance.inUnit && (columns.shadow == 0 || columns.shadow == 1)

/-- `ON CONFLICT DO UPDATE`: texts of times are compared as texts. -/
def Columns.onConflict (excluded : Columns) : Option Columns → Columns
  | none => excluded
  | some old =>
    { excluded with
      createdAt := old.createdAt
      updatedAt := if old.updatedAt < excluded.updatedAt then excluded.updatedAt else old.updatedAt
      lastReadAt := old.lastReadAt }

namespace LongtermDb

def deleteFtsRow (db : LongtermDb) (key : RecordKey) : LongtermDb :=
  { db with fts := db.fts.filter fun row => row.key ≠ key }

def insertFts (db : LongtermDb) (row : FtsRow) : LongtermDb := { db with fts := db.fts ++ [row] }

def touchRow (db : LongtermDb) (key : RecordKey) (readAt : Bytes) : LongtermDb :=
  match db.records.lookup key with
  | some columns =>
    if columns.lastReadAt < readAt then
      { db with records := AList.insert key { columns with lastReadAt := readAt } db.records }
    else db
  | none => db

end LongtermDb

section Calls

variable (parser : JsonParser) (fault : Faults)

def get (db : LongtermDb) (key : RecordKey) : Result Record := do
  validateKey key
  attempt fault .reader
  attempt fault .select
  match db.records.lookup key with
  | none =>
      .error (((Error.notFound "long-term memory record not found").note
        "scope_key" key.scopeKey).note "id" key.id)
  | some columns => readRecordRow parser key columns

def upsert (record : Record) : LongtermDb → Result Record × LongtermDb :=
  Lib.atomically fun db => do
    validateRecord record
    attempt fault .writer
    attempt fault .begin
    attempt fault .upsert
    let columns := (columnsOf record).onConflict (db.records.lookup record.key)
    if !columns.allowed then .error stepFailed
    else do
      let stored ← readRecordRow parser record.key columns
      attempt fault .deleteFts
      attempt fault .insertFts
      attempt fault .commit
      let written : LongtermDb := { db with records := AList.insert record.key columns db.records }
      .ok (stored, (written.deleteFtsRow stored.key).insertFts (ftsOf stored))

def validateKeys : List RecordKey → Result Unit
  | [] => .ok ()
  | key :: rest => do
    validateKey key
    validateKeys rest

def touchRows (readAt : Bytes) : Nat → List RecordKey → LongtermDb → Result LongtermDb
  | _, [], db => .ok db
  | index, key :: rest, db => do
    attempt fault (.touch index)
    touchRows readAt (index + 1) rest (db.touchRow key readAt)

def touch (keys : List RecordKey) (readAt : TimePoint) : LongtermDb → Result Unit × LongtermDb :=
  Lib.atomically fun db => do
    validateKeys keys
    if keys.isEmpty then .ok ((), db)
    else do
      attempt fault .writer
      attempt fault .begin
      let db ← touchRows fault (formatIso8601Utc readAt) 0 keys db
      attempt fault .commit
      .ok ((), db)

def remove (key : RecordKey) : LongtermDb → Result Unit × LongtermDb :=
  Lib.atomically fun db => do
    validateKey key
    attempt fault .writer
    attempt fault .begin
    attempt fault .deleteFts
    attempt fault .deleteRecord
    attempt fault .commit
    let unindexed := db.deleteFtsRow key
    .ok ((), { unindexed with records := AList.erase key unindexed.records })

end Calls

/-- `group_concat` over the elements of an array, as SQL reads and joins them. Known is what it
makes of the texts that the store writes. -/
structure TagReader where
  groupConcat : Bytes → Result Bytes
  groupConcat_list : ∀ values : List Bytes,
    (∀ value ∈ values, isValidUtf8 value = true ∧ 0 ∉ value) →
    groupConcat (stringListToJson values) = .ok ([(0x20 : UInt8)].intercalate values)

/-- Another database, read in one transaction. -/
structure Snapshot where
  version : Bytes
  db : LongtermDb

/-- The rows of a scope in the order of their identities. -/
def scopeRows (db : LongtermDb) (scope : Bytes) : List (RecordKey × Columns) :=
  ((db.records.entries.map fun row => (row.1, row.2)).filter fun row => row.1.scopeKey =
    scope).mergeSort
    fun a b => decide (a.1.id ≤ b.1.id)

section Import

variable (tags : TagReader) (fault : Faults)

/-- The insertion of a row under its new key, and of its words. -/
def importRow (destination : Bytes) (index : Nat) (row : RecordKey × Columns) (db : LongtermDb) :
    Result LongtermDb := do
  attempt fault (.cancelled (index + 1))
  attempt fault (.read index)
  attempt fault (.write index)
  let key : RecordKey := { id := row.1.id, scopeKey := destination }
  if key ∈ db.records ∨ !row.2.allowed then .error stepFailed
  else do
    attempt fault (.index index)
    let joined ← tags.groupConcat row.2.tagsJson
    let written : LongtermDb := { db with records := AList.insert key row.2 db.records }
    .ok (written.insertFts
      { key, kind := row.2.kind, shadow := row.2.shadow, title := row.2.title, body := row.2.body,
        tags := joined })

def importRows (destination : Bytes) : Nat → List (RecordKey × Columns) → LongtermDb →
    Result LongtermDb
  | _, [], db => .ok db
  | index, row :: rest, db => do
    let db ← importRow tags fault destination index row db
    importRows destination (index + 1) rest db

def importScope (sourcePath : Bytes) (source : Snapshot) (sourceScope destinationScope : Bytes) :
    LongtermDb → Result Unit × LongtermDb :=
  Lib.atomically fun db =>
    if sourcePath = [] ∨ 0 ∈ sourcePath then
      .error (.invalidArgument "memory import requires a source snapshot path")
    else do
      validateIndexRequest { scopeKey := sourceScope }
      validateIndexRequest { scopeKey := destinationScope }
      attempt fault (.cancelled 0)
      attempt fault .openSource
      attempt fault .beginSource
      attempt fault .version
      if source.version ≠ text "1" then .error (.invalidArgument "unsupported memory import schema")
      else do
        attempt fault .writer
        attempt fault .begin
        attempt fault .existing
        if (∃ row ∈ db.records.entries, row.1.scopeKey = destinationScope) ∨
            (∃ row ∈ db.fts, row.key.scopeKey = destinationScope) then
          .error (.of .conflict "memory import destination scope already exists")
        else do
          attempt fault .select
          let rows := scopeRows source.db sourceScope
          let imported ← importRows tags fault destinationScope 0 rows db
          attempt fault (.cancelled (rows.length + 1))
          attempt fault (.read rows.length)
          if rows.isEmpty then .error (.notFound "memory import source scope not found")
          else do
            attempt fault .commit
            .ok ((), imported)

end Import

end Orangutan.Memory.Longterm
