import Orangutan.Core.Time

/-!
# Long-term notes

A record belongs to a scope and has an identity in it. What callers hand over is checked field by
field before the store is touched.
-/

namespace Orangutan.Memory.Longterm

set_option autoImplicit false

open Orangutan.Core Orangutan.Core.Str

/-- A double. Zero has no sign: nothing here tells the two zeros apart. -/
inductive Double
  | nan
  | infinity (negative : Bool)
  | finite (value : ℚ)
  deriving DecidableEq

/-- Finite and from 0 to 1. -/
def Double.inUnit : Double → Bool
  | .finite value => decide (0 ≤ value ∧ value ≤ 1)
  | _ => false

inductive RecordKind
  | user
  | feedback
  | project
  | reference
  | team
  deriving DecidableEq, Repr

/-- `enum_name`. -/
def RecordKind.name : RecordKind → Bytes
  | .user => text "user"
  | .feedback => text "feedback"
  | .project => text "project"
  | .reference => text "reference"
  | .team => text "team"

/-- `parse_enum`. -/
def RecordKind.parse (name : Bytes) : Option RecordKind :=
  [RecordKind.user, .feedback, .project, .reference, .team].find? fun kind => kind.name = name

structure RecordKey where
  id : Bytes
  scopeKey : Bytes
  deriving DecidableEq

structure Record where
  key : RecordKey
  kind : RecordKind := .project
  title : Bytes
  body : Bytes
  createdAt : TimePoint := ⟨0⟩
  updatedAt : TimePoint := ⟨0⟩
  lastReadAt : TimePoint := ⟨0⟩
  importance : Double := .finite 0
  tags : List Bytes := []
  linkedRecordIds : List Bytes := []
  shadow : Bool := false
  deriving DecidableEq

structure Query where
  scopeKey : Bytes
  text : Bytes
  kinds : List RecordKind := []

structure SearchHit where
  record : Record
  score : ℚ := 0

structure RecallRequest where
  query : Query
  limit : Nat
  recordId : Bytes := []

def maxIndexBytes : Nat := 8192

structure IndexRequest where
  scopeKey : Bytes
  kinds : List RecordKind := []
  limit : Nat := 20
  offset : Nat := 0
  maxBytes : Nat := maxIndexBytes

def isSpace (ch : UInt8) : Bool := ch == 0x20 || ch == 0x09 || ch == 0x0A || ch == 0x0D

def containsControlChar (value : Bytes) (allowMultiline : Bool) : Bool :=
  value.any fun ch => !(allowMultiline && (ch == 0x09 || ch == 0x0A || ch == 0x0D)) &&
    decide (ch < 0x20)

def invalidField (field message : String) : Error :=
    (Error.invalidArgument message).note "field" (text field)

def validateRequired (value : Bytes) (field : String) (allowMultiline : Bool) : Result Unit :=
  if value.all isSpace then .error (invalidField field "long-term memory field must not be blank")
  else if !isValidUtf8 value || containsControlChar value allowMultiline then
    .error (invalidField field "long-term memory field must be UTF-8 without control characters")
  else .ok ()

def validateKinds (kinds : List RecordKind) : Result Unit :=
  if kinds.Nodup then .ok ()
  else .error (invalidField "kinds" "long-term memory query kind filters must be unique")

/-- The values from the front on. -/
def validateEach (field : String) : List Bytes → Result Unit
  | [] => .ok ()
  | value :: rest => do
    validateRequired value field false
    validateEach field rest

def validateStringList (values : List Bytes) (field : String) : Result Unit := do
  validateEach field values
  if values.Nodup then .ok ()
  else .error (invalidField field "long-term memory string list values must be unique")

def validateLimit (limit : Nat) : Result Unit :=
  if limit = 0 ∨ 100 < limit then
    .error (invalidField "limit" "long-term memory search limit must be between 1 and 100")
  else .ok ()

def validateKey (key : RecordKey) : Result Unit := do
  validateRequired key.id "record_id" false
  validateRequired key.scopeKey "scope_key" false

def validateRecord (record : Record) : Result Unit := do
  validateKey record.key
  validateRequired record.title "title" false
  validateRequired record.body "body" true
  if !record.importance.inUnit then
    .error (invalidField "importance"
      "long-term memory importance must be a finite value in the range [0, 1]")
  else if record.updatedAt.nanoseconds < record.createdAt.nanoseconds then
    .error (invalidField "updated_at"
      "long-term memory updated_at must not be earlier than created_at")
  else if record.lastReadAt.nanoseconds < record.createdAt.nanoseconds then
    .error (invalidField "last_read_at"
      "long-term memory last_read_at must not be earlier than created_at")
  else do
    validateStringList record.tags "tag"
    validateStringList record.linkedRecordIds "linked_record_id"

def validateQuery (query : Query) (limit : Nat) : Result Unit := do
  validateRequired query.scopeKey "scope_key" false
  validateRequired query.text "query_text" true
  if 4096 < query.text.length then
    .error (invalidField "query_text" "long-term memory query must not exceed 4096 bytes")
  else do
    validateKinds query.kinds
    validateLimit limit

def validateRecallRequest (request : RecallRequest) : Result Unit :=
  if request.recordId = [] then validateQuery request.query request.limit
  else if request.query.text ≠ [] then
    .error (invalidField "record_id" "memory recall accepts an ID or search text, not both")
  else do
    validateKey { id := request.recordId, scopeKey := request.query.scopeKey }
    validateKinds request.query.kinds
    validateLimit request.limit

def validateIndexRequest (request : IndexRequest) : Result Unit := do
  validateRequired request.scopeKey "scope_key" false
  validateKinds request.kinds
  if request.limit = 0 ∨ 20 < request.limit then
    .error (invalidField "limit" "memory index limit must be between 1 and 20")
  else if 9223372036854775807 - 100 < request.offset then
    .error (invalidField "offset" "memory index offset is too large")
  else if request.maxBytes < 512 ∨ maxIndexBytes < request.maxBytes then
    .error (invalidField "max_bytes" "memory index budget must be between 512 and 8192 bytes")
  else .ok ()

theorem RecordKind.parse_name (kind : RecordKind) : RecordKind.parse kind.name = some kind := by
  cases kind <;> decide

theorem validateRequired_ok {value : Bytes} {field : String} {allowMultiline : Bool} :
    validateRequired value field allowMultiline = .ok () ↔
      value.all isSpace = false ∧ isValidUtf8 value = true ∧
        containsControlChar value allowMultiline = false := by
  unfold validateRequired
  split_ifs with hblank hcontrol
  · simp [hblank]
  · rw [Bool.or_eq_true, Bool.not_eq_true'] at hcontrol
    refine iff_of_false (by simp) ?_
    rintro ⟨_, hvalid, hfree⟩
    rcases hcontrol with h | h
    · rw [hvalid] at h
      cases h
    · rw [hfree] at h
      cases h
  · rw [Bool.or_eq_true, Bool.not_eq_true', not_or] at hcontrol
    simpa [hblank] using hcontrol

/-- A check in front of something. -/
theorem check_bind_ok {α : Type} {check : Result Unit} {f : Unit → Result α} {a : α} :
    check >>= f = .ok a ↔ check = .ok () ∧ f () = .ok a := by
  rw [bind_eq_ok]
  exact ⟨fun ⟨(), h⟩ => h, fun h => ⟨(), h⟩⟩

/-- A test that refuses. -/
theorem refuse_ok {α : Type} {p : Prop} [Decidable p] {e : Error} {x : Result α} {a : α} :
    (if p then .error e else x) = .ok a ↔ ¬ p ∧ x = .ok a := by
  by_cases h : p
  · simp [h]
  · simp [h]

theorem validateEach_ok {field : String} {values : List Bytes} :
    validateEach field values = .ok () ↔ ∀ value ∈ values,
      validateRequired value field false = .ok () := by
  induction values with
  | nil => simp [validateEach]
  | cons value rest ih =>
    rw [validateEach, check_bind_ok, List.forall_mem_cons, ih]

theorem validateStringList_ok {field : String} {values : List Bytes} :
    validateStringList values field = .ok () ↔
      (∀ value ∈ values, validateRequired value field false = .ok ()) ∧ values.Nodup := by
  rw [validateStringList, check_bind_ok, validateEach_ok]
  by_cases hnodup : values.Nodup
  · simp [hnodup]
  · simp [hnodup]

theorem validateKey_ok {key : RecordKey} : validateKey key = .ok () ↔
    validateRequired key.id "record_id" false = .ok () ∧
      validateRequired key.scopeKey "scope_key" false = .ok () := by
  rw [validateKey, check_bind_ok]

/-- What a record that passes has. -/
structure Checked (record : Record) : Prop where
  key : validateKey record.key = .ok ()
  title : validateRequired record.title "title" false = .ok ()
  body : validateRequired record.body "body" true = .ok ()
  importance : record.importance.inUnit = true
  updated : record.createdAt.nanoseconds ≤ record.updatedAt.nanoseconds
  read : record.createdAt.nanoseconds ≤ record.lastReadAt.nanoseconds
  tags : validateStringList record.tags "tag" = .ok ()
  linked : validateStringList record.linkedRecordIds "linked_record_id" = .ok ()

theorem validateRecord_ok {record : Record} : validateRecord record = .ok () ↔ Checked record := by
  constructor
  · intro h
    obtain ⟨hkey, h⟩ := check_bind_ok.mp h
    obtain ⟨htitle, h⟩ := check_bind_ok.mp h
    obtain ⟨hbody, h⟩ := check_bind_ok.mp h
    split_ifs at h with himportance hupdated hread
    obtain ⟨htags, hlinked⟩ := check_bind_ok.mp h
    exact ⟨hkey, htitle, hbody, by simpa using himportance, Int64.not_lt.mp hupdated,
      Int64.not_lt.mp hread, htags, hlinked⟩
  · intro h
    rw [validateRecord, h.key, ok_bind, h.title, ok_bind, h.body, ok_bind,
      if_neg (by simp [h.importance]), if_neg (Int64.not_lt.mpr h.updated),
      if_neg (Int64.not_lt.mpr h.read), h.tags, ok_bind, h.linked]

end Orangutan.Memory.Longterm
