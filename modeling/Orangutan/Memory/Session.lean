import Orangutan.Storage.SessionRepository

/-!
# The session store

Messages and checkpoints of a session as JSON in the repository. A string that is not
UTF-8 cannot be serialized.
-/

namespace Orangutan.Memory.Session

set_option autoImplicit false

open Orangutan.Core Orangutan.Core.Str Orangutan.Storage

structure ContextSnapshot where
  checkpoint : WorkingContext := {}
  messageCount : Int := 0
  deriving DecidableEq

def invalidField (field : String) : Error :=
  (Error.invalidArgument "memory session field must not be empty").note "field" (text field)

def validateKey (key : SessionKey) : Result Unit :=
  if key.sessionId = [] then .error (invalidField "session_id")
  else if key.agentKey = [] then .error (invalidField "agent_key")
  else .ok ()

def putIfPresent (key : String) : Option Bytes → List (Bytes × Json)
  | some value => [(text key, .str value)]
  | none => []

def contentToJson : Content → Json
  | .text t => .obj [(text "type", .str (text "text")), (text "text", .str t)]
  | .image mediaType dataBase64 =>
    .obj [(text "type", .str (text "image")), (text "media_type", .str mediaType),
      (text "data_base64", .str dataBase64)]
  | .thinking thinking signature =>
    .obj ([(text "type", .str (text "thinking")), (text "thinking", .str thinking)] ++
      putIfPresent "signature" signature)
  | .toolUse id name inputJson =>
    .obj [(text "type", .str (text "tool_use")), (text "id", .str id), (text "name", .str name),
      (text "input_json", .str inputJson)]
  | .toolResult toolUseId output dataJson isError =>
    .obj ([(text "type", .str (text "tool_result")), (text "tool_use_id", .str toolUseId),
      (text "output", .str output), (text "is_error", .bool isError)] ++
        putIfPresent "data_json" dataJson)

def messageToJson (message : Message) : Json :=
  .obj ([(text "version", .num 1), (text "blocks", .arr (message.blocks.map contentToJson))] ++
    putIfPresent "created_at" (message.createdAt.map formatIso8601Utc))

/-- The strings that the serializer is given for a block. -/
def strings : Content → List Bytes
  | .text t => [t]
  | .image mediaType dataBase64 => [mediaType, dataBase64]
  | .thinking thinking signature => thinking :: signature.toList
  | .toolUse id name inputJson => [id, name, inputJson]
  | .toolResult toolUseId output dataJson _ => toolUseId :: output :: dataJson.toList

def wellFormed (message : Message) : Bool := message.blocks.all fun block =>
    (strings block).all isValidUtf8

/-- The rows for the messages from an index on. -/
def encodeMessages : Nat → List Message → Result (List SessionMessageInput)
  | _, [] => .ok []
  | i, message :: rest =>
    if wellFormed message then do
      let others ← encodeMessages (i + 1) rest
      .ok ({ role := message.role, contentJson := (messageToJson message).dump } :: others)
    else .error ((Error.parsing "memory session message cannot be serialized").note "index"
      (decimal i))

def encodeCommit (checkpoint : WorkingContext) : Option ContextSnapshot →
    Result (Option SessionCommit)
  | none => .ok none
  | some expected =>
    if isValidUtf8 checkpoint.summary then
      .ok (some
        { expectedMessages := expected.messageCount
          expectedRevision := expected.checkpoint.revision
          checkpointJson := dumpCheckpoint checkpoint })
    else .error (.parsing "checkpoint cannot be serialized")

def appendAll (reader : JsonReader) (fault : Faults) (db : SessionDb) (key : SessionKey)
    (messages : List Message) (expected : Option ContextSnapshot) (checkpoint : WorkingContext) :
    Result Unit × SessionDb :=
  let encoded : Result (List SessionMessageInput × Option SessionCommit) := do
    validateKey key
    let encoded ← encodeMessages 0 messages
    let commit ← encodeCommit checkpoint expected
    .ok (encoded, commit)
  match encoded with
  | .error e => (.error e, db)
  | .ok (encoded, commit) =>
    let appended := appendMessages reader fault db key encoded commit
    (appended.1.map fun _ => (), appended.2)

/-- The members of a stored checkpoint, in the order they are read. -/
def readContext (context : SqlJson) : Result WorkingContext :=
  match context.lastMember coveredKey with
  | none => .error (.storage "invalid session checkpoint metadata")
  | some (.integer coveredSequence) =>
    match context.lastMember revisionKey with
    | none => .error (.storage "invalid session checkpoint metadata")
    | some (.integer revision) =>
      match context.lastMember summaryKey with
      | some (.text summary) => .ok { coveredSequence, revision, summary }
      | _ => .error (.storage "invalid session checkpoint metadata")
    | some _ => .error (.storage "invalid checkpoint sequence or revision")
  | some _ => .error (.storage "invalid checkpoint sequence or revision")

def admitContext (messageCount : Int) (checkpoint : WorkingContext) : Result ContextSnapshot :=
  if checkpoint.coveredSequence < 0 ∨ messageCount < checkpoint.coveredSequence ∨
    checkpoint.revision < 0 ∨
      65536 < checkpoint.summary.length ∨
        (0 < checkpoint.coveredSequence ∧ checkpoint.summary = []) then
    .error (.storage "invalid session checkpoint")
  else .ok { checkpoint, messageCount }

def loadContext (db : SessionDb) (key : SessionKey) : Result ContextSnapshot :=
  match getSession db key with
  | .error e => .error e
  | .ok none => .ok {}
  | .ok (some record) =>
    if record.metadata.isObject then
      match record.metadata.lastMember contextKey with
      | none => .ok { messageCount := record.messageCount }
      | some context => do
        let checkpoint ← readContext context
        admitContext record.messageCount checkpoint
    else .error (.storage "session metadata must be an object")

end Orangutan.Memory.Session
