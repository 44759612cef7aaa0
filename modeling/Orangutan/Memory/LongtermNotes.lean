import Orangutan.Core.TimeOrder
import Orangutan.Memory.LongtermStore

/-!
# The notes behind the tables

A store of notes is a partial function from keys: saving keeps the birth of a note and lets its
other times only grow, reading moves its read time on, forgetting removes it, and adopting copies a
scope of another store. The two tables represent such a store, and every call does to them what it
stands for or nothing at all.
-/

namespace Orangutan.Memory.Longterm

set_option autoImplicit false

open Orangutan.Core Orangutan.Core.Str Orangutan.Storage

/-- What is known of a record beside its key. -/
@[ext] structure Note where
  kind : RecordKind
  title : Bytes
  body : Bytes
  createdAt : TimePoint
  updatedAt : TimePoint
  lastReadAt : TimePoint
  importance : Double
  tags : List Bytes
  linkedRecordIds : List Bytes
  shadow : Bool
  title_ok : validateRequired title "title" false = .ok ()
  body_ok : validateRequired body "body" true = .ok ()
  importance_ok : importance.inUnit = true
  updated_after : createdAt.milliseconds ≤ updatedAt.milliseconds
  read_after : createdAt.milliseconds ≤ lastReadAt.milliseconds
  tags_ok : validateStringList tags "tag" = .ok ()
  linked_ok : validateStringList linkedRecordIds "linked_record_id" = .ok ()

/-- The later of two times to the millisecond, the first one if they agree. -/
def later (a b : TimePoint) : TimePoint := if a.milliseconds < b.milliseconds then b else a

theorem le_later (a b : TimePoint) : a.milliseconds ≤ (later a b).milliseconds := by
  unfold later
  split_ifs with h
  · exact le_of_lt h
  · exact le_refl _

theorem later_milliseconds (a b : TimePoint) :
    (later a b).milliseconds = max a.milliseconds b.milliseconds := by
  unfold later
  split_ifs with h
  · exact (max_eq_right (le_of_lt h)).symm
  · exact (max_eq_left (not_lt.mp h)).symm

namespace Note

def ofRecord (record : Record) (h : Checked record) : Note where
  kind := record.kind
  title := record.title
  body := record.body
  createdAt := record.createdAt
  updatedAt := record.updatedAt
  lastReadAt := record.lastReadAt
  importance := record.importance
  tags := record.tags
  linkedRecordIds := record.linkedRecordIds
  shadow := record.shadow
  title_ok := h.title
  body_ok := h.body
  importance_ok := h.importance
  updated_after := milliseconds_le h.updated
  read_after := milliseconds_le h.read
  tags_ok := h.tags
  linked_ok := h.linked

/-- A note saved over another one. -/
def savedOver (note : Note) : Option Note → Note
  | none => note
  | some old =>
    { note with
      createdAt := old.createdAt
      updatedAt := later old.updatedAt note.updatedAt
      lastReadAt := old.lastReadAt
      updated_after := old.updated_after.trans (le_later _ _)
      read_after := old.read_after }

def readTime (note : Note) (readAt : TimePoint) : Note :=
  { note with
    lastReadAt := later note.lastReadAt readAt
    read_after := note.read_after.trans (le_later _ _) }

def record (note : Note) (key : RecordKey) : Record where
  key := key
  kind := note.kind
  title := note.title
  body := note.body
  createdAt := note.createdAt
  updatedAt := note.updatedAt
  lastReadAt := note.lastReadAt
  importance := note.importance
  tags := note.tags
  linkedRecordIds := note.linkedRecordIds
  shadow := note.shadow

def columns (note : Note) : Columns := columnsOf (note.record { id := [], scopeKey := [] })

def words (note : Note) (key : RecordKey) : FtsRow := ftsOf (note.record key)

/-- The record that a reader gets: times have been texts. -/
def stored (note : Note) (key : RecordKey) : Record :=
  { note.record key with
    createdAt := note.createdAt.persisted
    updatedAt := note.updatedAt.persisted
    lastReadAt := note.lastReadAt.persisted }

theorem columns_record (note : Note) (key : RecordKey) :
    columnsOf (note.record key) = note.columns := rfl

theorem words_stored (note : Note) (key : RecordKey) :
    ftsOf (note.stored key) = note.words key := rfl

theorem columns_allowed (note : Note) : note.columns.allowed = true := by
  have hshadow : ((if note.shadow then 1 else 0 : Int) ==
      0 || (if note.shadow then 1 else 0 : Int) == 1) = true := by
    cases note.shadow <;> rfl
  change (note.importance.inUnit && _) = true
  rw [note.importance_ok, Bool.true_and]
  exact hshadow

/-- The text of the later time is the greater text. -/
theorem format_later (a b : TimePoint) : formatIso8601Utc (later a b) =
    if formatIso8601Utc a < formatIso8601Utc b then formatIso8601Utc b else formatIso8601Utc a := by
  unfold later
  rw [apply_ite formatIso8601Utc]
  exact if_congr (formatIso8601Utc_lt a b).symm rfl rfl

theorem columns_savedOver (note : Note) (old : Option Note) :
    (note.savedOver old).columns = note.columns.onConflict (old.map columns) := by
  cases old with
  | none => rfl
  | some old =>
    change ({ note.columns with
      createdAt := formatIso8601Utc old.createdAt
      updatedAt := formatIso8601Utc (later old.updatedAt note.updatedAt)
      lastReadAt := formatIso8601Utc old.lastReadAt } : Columns) = _
    rw [format_later]
    rfl

theorem columns_readTime (note : Note) (readAt : TimePoint) : (note.readTime readAt).columns =
    if note.columns.lastReadAt < formatIso8601Utc readAt then
      { note.columns with lastReadAt := formatIso8601Utc readAt }
    else note.columns := by
  change ({ note.columns with lastReadAt := formatIso8601Utc (later note.lastReadAt readAt) } :
    Columns) = _
  rw [format_later]
  exact apply_ite (fun t : Bytes => ({ note.columns with lastReadAt := t } : Columns)) _ _ _

end Note

theorem stringsFrom_texts (field : String) (index : Nat) (values : List Bytes) :
    stringsFrom field index (values.map SqlJson.text) = .ok values := by
  induction values generalizing index with
  | nil => rfl
  | cons value rest ih =>
    rw [List.map_cons, stringsFrom, ih, ok_bind]

theorem stringList_strings {values : List Bytes} (h : ∀ value ∈ values, isValidUtf8 value = true) :
    (Json.arr (values.map Json.str)).Strings (isValidUtf8 · = true) := by
  change Json.ItemStrings _ (values.map Json.str)
  induction values with
  | nil => trivial
  | cons value rest ih =>
    obtain ⟨hvalue, hrest⟩ := List.forall_mem_cons.mp h
    exact ⟨hvalue, ih hrest⟩

theorem stringList_fits (values : List Bytes) : Fits (.arr (values.map Json.str)) := by
  refine .arr fun item hitem => ?_
  obtain ⟨value, -, rfl⟩ := List.mem_map.mp hitem
  exact .str value

theorem stringListFromJson_list (parser : JsonParser) (field : String) {values : List Bytes}
    (h : ∀ value ∈ values, isValidUtf8 value = true) :
    stringListFromJson parser (stringListToJson values) field = .ok values := by
  have hitems : SqlJson.ofJson (.arr (values.map Json.str)) = .array (values.map SqlJson.text) := by
    rw [SqlJson.ofJson, SqlJson.ofItems_eq_map, List.map_map]
    rfl
  rw [stringListFromJson, stringListToJson,
    parser.parse_dump _ (stringList_strings h) (stringList_fits values), hitems]
  exact stringsFrom_texts field 0 values

theorem utf8_of_list {field : String} {values : List Bytes}
    (h : validateStringList values field = .ok ()) :
    ∀ value ∈ values, isValidUtf8 value = true :=
  fun value hmem => (validateRequired_ok.mp ((validateStringList_ok.mp h).1 value hmem)).2.1

theorem timeFrom_format (t : TimePoint) (field : String) :
    timeFrom (formatIso8601Utc t) field = .ok t.persisted := by
  rw [timeFrom, parse_formatIso8601Utc]
  rfl

theorem readRecordRow_note (parser : JsonParser) (key : RecordKey) (note : Note) :
    readRecordRow parser key note.columns = .ok (note.stored key) := by
  have hkind : recordKindFromText note.columns.kind = .ok note.kind := by
    unfold recordKindFromText
    rw [show note.columns.kind = note.kind.name from rfl, RecordKind.parse_name]
  have htags := stringListFromJson_list parser "tags_json" (utf8_of_list note.tags_ok)
  have hlinked := stringListFromJson_list parser "linked_record_ids_json"
    (utf8_of_list note.linked_ok)
  have hcreated : timeFrom note.columns.createdAt "created_at" = _ :=
    timeFrom_format note.createdAt _
  have hupdated : timeFrom note.columns.updatedAt "updated_at" = _ :=
    timeFrom_format note.updatedAt _
  have hread : timeFrom note.columns.lastReadAt "last_read_at" = _ :=
    timeFrom_format note.lastReadAt _
  rw [readRecordRow, hkind, ok_bind, hcreated, ok_bind, hupdated, ok_bind, hread, ok_bind]
  change (stringListFromJson parser (stringListToJson note.tags) _ >>= _) = _
  rw [htags, ok_bind]
  change (stringListFromJson parser (stringListToJson note.linkedRecordIds) _ >>= _) = _
  rw [hlinked, ok_bind]
  have hshadow : note.columns.shadow = if note.shadow then 1 else 0 := rfl
  unfold Note.stored Note.record
  rw [hshadow]
  cases note.shadow with
  | true => rfl
  | false => rfl

abbrev Notes := RecordKey → Option Note

structure Represents (db : LongtermDb) (notes : Notes) : Prop where
  records : ∀ key, db.records.lookup key = (notes key).map Note.columns
  words : ∀ key, (db.fts.filter fun row => row.key = key) =
    ((notes key).map fun note => note.words key).toList
  ids : ∀ key note, notes key = some note → validateRequired key.id "record_id" false = .ok ()

theorem represents_empty : Represents {} fun _ => none where
  records _ := rfl
  words _ := rfl
  ids _ _ h := by cases h

namespace Notes

variable (notes : Notes)

def save (key : RecordKey) (note : Note) : Notes :=
    Function.update notes key (some (note.savedOver (notes key)))

def readTimes (keys : List RecordKey) (readAt : TimePoint) : Notes :=
  fun key => (notes key).map fun note => if key ∈ keys then note.readTime readAt else note

def forget (key : RecordKey) : Notes := Function.update notes key none

/-- A scope of another store under a new name. -/
def adopt (source : Notes) (sourceScope destinationScope : Bytes) : Notes :=
  fun key => if key.scopeKey = destinationScope then source { key with scopeKey := sourceScope }
    else notes key

end Notes

end Orangutan.Memory.Longterm
