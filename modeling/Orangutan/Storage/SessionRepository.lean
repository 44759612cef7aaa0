import Orangutan.Lib.Table
import Orangutan.Storage.SqlJson

/-!
# The session repository

Two tables: the messages of all sessions and one row with metadata for each session, which
a trigger adds with the first message. A call of `append_messages` is one transaction. Any
of its statements may fail, and then the transaction is rolled back. Times and titles are
left out.
-/

namespace Orangutan.Storage

set_option autoImplicit false

open Orangutan.Core Orangutan.Core.Str

structure SessionKey where
  sessionId : Bytes
  agentKey : Bytes
  deriving DecidableEq

structure SessionMessageInput where
  role : Role := .user
  contentJson : Bytes
  metadataJson : Bytes := text "\x7b\x7d"
  deriving DecidableEq

structure SessionMessageRecord extends SessionKey, SessionMessageInput where
  sequence : Nat
  deriving DecidableEq

/-- The metadata is kept as the value whose text is stored. -/
structure SessionRecord extends SessionKey where
  metadata : SqlJson
  messageCount : Nat

structure SessionCommit where
  expectedMessages : Int
  expectedRevision : Int
  checkpointJson : Bytes

/-- Both tables; the metadata of a session stands under its primary key. -/
structure SessionDb where
  sessions : Lib.Table SessionKey SqlJson := ∅
  messages : List SessionMessageRecord := []

/-- The statements of a transaction that may fail by themselves. -/
inductive SqlStep
  | writer
  | begin
  | check
  | statement
  | insert (index : Nat)
  | update
  | commit

abbrev Faults := SqlStep → Option Error

def execute (fault : Faults) (step : SqlStep) : Result Unit :=
  match fault step with
  | some e => .error e
  | none => .ok ()

namespace SessionDb

def rows (db : SessionDb) (key : SessionKey) : List SessionMessageRecord :=
  db.messages.filter fun row => row.toSessionKey = key

/-- `COALESCE(MAX(sequence), 0)`. -/
def maxSequence (db : SessionDb) (key : SessionKey) : Nat :=
  ((db.rows key).map (·.sequence)).foldl max 0

/-- What is stored under `oran_working_context`. -/
def workingContext (db : SessionDb) (key : SessionKey) : Option SqlJson :=
  (db.sessions.lookup key).bind (SqlJson.member contextKey)

/-- The revision that a commit is compared with. -/
def revision (db : SessionDb) (key : SessionKey) : Int :=
  SqlJson.integerOr0 ((db.workingContext key).bind (SqlJson.member revisionKey))

/-- The insertion of a message with the trigger behind it. -/
def insertMessage (db : SessionDb) (key : SessionKey) (message : SessionMessageInput) :
    SessionMessageRecord × SessionDb :=
  let record : SessionMessageRecord :=
    { toSessionKey := key, toSessionMessageInput := message, sequence := db.maxSequence key + 1 }
  (record,
    { sessions := if key ∈ db.sessions then db.sessions
      else AList.insert key (.object []) db.sessions
      messages := db.messages ++ [record] })

end SessionDb

def invalidField (field : String) : Error :=
  (Error.invalidArgument "session repository field must not be empty").note "field" (text field)

def validateKey (key : SessionKey) : Result Unit :=
  if key.sessionId = [] then .error (invalidField "session_id")
  else if key.agentKey = [] then .error (invalidField "agent_key")
  else .ok ()

/-- The fields of the messages from an index on. -/
def validateMessages : Nat → List SessionMessageInput → Result Unit
  | _, [] => .ok ()
  | i, message :: rest =>
    if message.contentJson = [] then .error ((invalidField "content_json").note "index" (decimal i))
    else if message.metadataJson = []
      then .error ((invalidField "metadata_json").note "index" (decimal i))
    else validateMessages (i + 1) rest

def validateCommit : Option SessionCommit → Result Unit
  | none => .ok ()
  | some commit =>
    if commit.expectedMessages < 0 ∨ commit.expectedRevision < 0 ∨
      512 * 1024 < commit.checkpointJson.length ∨
        isValidUtf8 commit.checkpointJson = false then
      .error (.invalidArgument "invalid checkpoint commit")
    else .ok ()

/-- The comparison of the expected with the stored state. -/
def checkCommit (fault : Faults) (db : SessionDb) (key : SessionKey) : Option SessionCommit →
    Result Unit
  | none => .ok ()
  | some commit => do
    execute fault .check
    if (db.maxSequence key : Int) ≠ commit.expectedMessages ∨
      db.revision key ≠ commit.expectedRevision then
      .error (.of .conflict "session changed during turn")
    else .ok ()

def insertMessages (fault : Faults) (key : SessionKey) :
    Nat → List SessionMessageInput → SessionDb → Result (List SessionMessageRecord × SessionDb)
  | _, [], db => .ok ([], db)
  | i, message :: rest, db => do
    execute fault (.insert i)
    let inserted := db.insertMessage key message
    let others ← insertMessages fault key (i + 1) rest inserted.2
    .ok (inserted.1 :: others.1, others.2)

/-- The condition of the checkpoint update on the row of the session. -/
def checkpointGuard (metadata checkpoint : SqlJson) (maxSequence : Nat)
    (expectedRevision : Int) : Bool :=
  let stored := metadata.member contextKey
  let coveredBefore := SqlJson.integerOr0 (stored.bind (SqlJson.member coveredKey))
  let summaryBefore := SqlJson.textOrEmpty (stored.bind (SqlJson.member summaryKey))
  match checkpoint.member coveredKey, checkpoint.member revisionKey,
    checkpoint.member summaryKey with
  | some (.integer covered), some (.integer revision), some (.text summary) =>
    metadata.isObject && decide (summary.length ≤ 65536) &&
      (decide (covered = 0) || decide (0 < textLength summary)) &&
      (decide (coveredBefore ≤ covered) && decide (covered ≤ maxSequence)) &&
      (decide (expectedRevision < revision) ||
        (decide (revision = expectedRevision) && decide (covered = coveredBefore) &&
          decide (summary = summaryBefore)))
  | _, _, _ => false

def updateCheckpoint (reader : JsonReader) (fault : Faults) (db : SessionDb) (key : SessionKey) :
    Option SessionCommit → Result SessionDb
  | none => .ok db
  | some commit => do
    execute fault .update
    match reader.read commit.checkpointJson with
    | none => .error (.storage "sqlite statement step failed")
    | some checkpoint =>
      match db.sessions.lookup key with
      | none => .error (.storage "invalid session checkpoint")
      | some metadata =>
        if checkpointGuard metadata checkpoint (db.maxSequence key) commit.expectedRevision then
          .ok { db with sessions :=
            AList.insert key (metadata.setMember contextKey checkpoint) db.sessions }
        else .error (.storage "invalid session checkpoint")

/-- The transaction on its own copy of the tables. -/
def transact (reader : JsonReader) (fault : Faults) (db : SessionDb) (key : SessionKey)
    (messages : List SessionMessageInput) (commit : Option SessionCommit) :
    Result (List SessionMessageRecord × SessionDb) := do
  execute fault .writer
  execute fault .begin
  checkCommit fault db key commit
  execute fault .statement
  let inserted ← insertMessages fault key 0 messages db
  let db ← updateCheckpoint reader fault inserted.2 key commit
  execute fault .commit
  .ok (inserted.1, db)

def appendMessages (reader : JsonReader) (fault : Faults) (db : SessionDb) (key : SessionKey)
    (messages : List SessionMessageInput) (commit : Option SessionCommit) :
    Result (List SessionMessageRecord) × SessionDb :=
  match (do validateKey key; validateMessages 0 messages; validateCommit commit : Result Unit) with
  | .error e => (.error e, db)
  | .ok () =>
    if messages.isEmpty && commit.isNone then (.ok [], db)
    else
      match transact reader fault db key messages commit with
      | .error e => (.error e, db)
      | .ok (records, after) => (.ok records, after)

/-- The count is over the messages that join the row of the session. -/
def getSession (db : SessionDb) (key : SessionKey) : Result (Option SessionRecord) := do
  validateKey key
  .ok ((db.sessions.lookup key).map fun metadata =>
    { toSessionKey := key, metadata, messageCount := (db.rows key).length })

end Orangutan.Storage
