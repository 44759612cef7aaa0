import Orangutan.Core.TurnId
import Orangutan.Telegram.Json

/-!
# The Telegram journal

`state.json` holds the cursor and the delivery under way. The reader checks the identities, the
cursor and the pending entry; an operator retires a pending entry by its update.
-/

namespace Orangutan.Telegram

set_option autoImplicit false

open Orangutan.Core Orangutan.Core.Str Orangutan.Storage

structure Pending where
  update : Value
  answer : Option Bytes := none
  confirmedParts : Nat := 0
  sendInflight : Bool := false
  taskId : Bytes := []

structure State where
  bot : Bytes
  user : Bytes
  workspace : Bytes
  session : TurnId
  nextUpdate : Int := 0
  pending : Option Pending := none

def maxInt64 : Int := 2 ^ 63 - 1

/-- What an exception of the library becomes. -/
def invalidJournal : Error := .parsing "invalid Telegram state journal"

namespace Value

/-- `at`. -/
def atKey (v : Value) (key : String) : Result Value :=
  match v.member (text key) with
  | some found => .ok found
  | none => .error invalidJournal

def getString : Value → Result Bytes
  | .text s => .ok s
  | _ => .error invalidJournal

def getBool : Value → Result Bool
  | .boolean b => .ok b
  | _ => .error invalidJournal

mutual

/-- `dump` accepts the strings of the value. -/
def dumps : Value → Bool
  | .null => true
  | .boolean _ => true
  | .integer _ => true
  | .real _ => true
  | .text s => isValidUtf8 s
  | .array items => dumpsItems items
  | .object fields => dumpsFields fields

def dumpsItems : List Value → Bool
  | [] => true
  | item :: rest => dumps item && dumpsItems rest

def dumpsFields : List (Bytes × Value) → Bool
  | [] => true
  | (key, value) :: rest => isValidUtf8 key && dumps value && dumpsFields rest

end

end Value

/-- `get<std::int64_t>` of an integer, which may be an unsigned one. -/
def int64 (n : Int) : Int := n.bmod (2 ^ 64)

/-- The identifier of a background task, if there is one. -/
def checkTask (taskId : Bytes) : Result Unit :=
  if taskId = [] then .ok ()
  else
    match parseTurnIdHex taskId with
    | .ok task =>
      if isZeroTurnId task then .error (.parsing "invalid pending background task identifier")
        else .ok ()
    | .error _ => .error (.parsing "invalid pending background task identifier")

def decodePending (nextUpdate : Int) (pending : Value) : Result Pending := do
  let update ← pending.atKey "update"
  let id ← update.atKey "update_id"
  let count ← pending.atKey "confirmed_parts"
  match id, count with
  | .integer id, .integer count =>
    if int64 id < nextUpdate ∨ int64 id = maxInt64 ∨ int64 count < 0 then
      .error (.parsing "invalid Telegram pending delivery")
    else do
      let answer ← pending.atKey "answer"
      let answer ← match answer with
        | .null => .ok none
        | answer => answer.getString.map some
      let inflight ← pending.atKey "send_inflight"
      let sendInflight ← inflight.getBool
      let taskId ← match pending.member (text "task_id") with
        | some task => Value.getString task
        | none => .ok []
      checkTask taskId
      .ok { update, answer, confirmedParts := (count % 2 ^ 64).toNat, sendInflight, taskId }
  | _, _ => .error (.parsing "invalid Telegram pending delivery")

def decodeValue (json : Value) : Result State := do
  let spelled ← json.atKey "session"
  let spelled ← spelled.getString
  match parseTurnIdHex spelled with
  | .error _ => .error (.parsing "invalid Telegram journal identity or cursor")
  | .ok session =>
    if isZeroTurnId session then .error (.parsing "invalid Telegram journal identity or cursor")
    else do
      let next ← json.atKey "next_update"
      match next with
      | .integer next => do
        let bot ← json.atKey "bot"
        let bot ← bot.getString
        let user ← json.atKey "user"
        let user ← user.getString
        let workspace ← json.atKey "workspace"
        let workspace ← workspace.getString
        if int64 next < 0 then .error (.parsing "invalid Telegram journal cursor")
        else do
          let pending ← json.atKey "pending"
          match pending with
          | .null => .ok { bot, user, workspace, session, nextUpdate := int64 next }
          | pending => do
            let entry ← decodePending (int64 next) pending
            .ok { bot, user, workspace, session, nextUpdate := int64 next, pending := some entry }
      | _ => .error (.parsing "invalid Telegram journal identity or cursor")

def decodeState (parser : JsonParser) (bytes : Bytes) : Result State :=
  match parser.parse bytes with
  | some json => decodeValue json
  | none => .error invalidJournal

def encodePending (entry : Pending) : Value :=
  .object ([(text "answer", (entry.answer.map SqlJson.text).getD .null),
    (text "confirmed_parts", .integer entry.confirmedParts),
      (text "send_inflight", .boolean entry.sendInflight)] ++
    ((if entry.taskId = [] then [] else [(text "task_id", .text entry.taskId)]) ++
      [(text "update", entry.update)]))

def encodeState (s : State) : Value :=
  .object [(text "bot", .text s.bot), (text "next_update", .integer s.nextUpdate),
    (text "pending", (s.pending.map encodePending).getD .null),
      (text "session", .text (formatTurnIdHex s.session)),
    (text "user", .text s.user), (text "workspace", .text s.workspace)]

/-- `encode_state(state).dump(2) + "\n"`; `none` where `dump` throws. -/
def journalText (s : State) : Option Bytes :=
  if (encodeState s).dumps then some ((encodeState s).pretty 0 ++ [0x0A]) else none

/-- The files of the directory. Only this program writes there, and its device does not fail. -/
abbrev Files := Bytes → Option Bytes

def validName (name : Bytes) : Bool :=
  name ≠ [] && name.length ≤ 128 && name ≠ text "." && name ≠ text ".." && !name.contains 0x2F &&
    !name.contains 0

namespace Files

def read (files : Files) (name : Bytes) (maxBytes : Nat) : Result (Option Bytes) :=
  if !validName name ∨ maxBytes = 0 then .error (.invalidArgument "invalid private file read")
  else
    match files name with
    | none => .ok none
    | some contents =>
      if maxBytes < contents.length
        then .error (.invalidArgument "application file exceeds byte limit")
      else .ok (some contents)

def write (files : Files) (name contents : Bytes) : Result Files :=
  if validName name then .ok (Function.update files name (some contents))
  else .error (.invalidArgument "invalid private file name")

end Files

def stateName : Bytes := text "state.json"

def maxJournalBytes : Nat := 2 * 1024 * 1024

/-- `fresh` is the identity that `generate_turn_id` makes. -/
def loadState (parser : JsonParser) (files : Files) (user workspace : Bytes)
    (fresh : Result TurnId) : Result State := do
  let bytes ← files.read stateName maxJournalBytes
  match bytes with
  | none => do
    let session ← fresh
    .ok { bot := [], user, workspace, session }
  | some bytes => do
    let s ← decodeState parser bytes
    if s.user ≠ user ∨ s.workspace ≠ workspace ∨ s.pending.isSome then
      .error
        (.of .conflict "state binding mismatch or unresolved pending delivery; inspect state.json")
    else .ok s

/-- The file under which a retired journal is kept. -/
def archiveName (taskId : Bytes) (update : Int) : Bytes :=
  if taskId = [] then text "handled-" ++ (signedDecimal update ++ text ".json")
  else text "handled-task-" ++ (taskId ++ text ".json")

/-- The journal without its pending entry. -/
def State.retire (s : State) (taskId : Bytes) (update : Int) : State :=
  { s with nextUpdate := if taskId = [] then update + 1 else s.nextUpdate, pending := none }

def acknowledgePending (parser : JsonParser) (files : Files) (update : Int) : Result Files := do
  let bytes ← files.read stateName maxJournalBytes
  match bytes with
  | none => .error (.notFound "no Telegram journal")
  | some bytes => do
    let s ← decodeState parser bytes
    match s.pending with
    | none => .error (.of .conflict "pending update differs from acknowledgment")
    | some entry => do
      let id ← entry.update.atKey "update_id"
      match id with
      | .integer id =>
        if int64 id ≠ update then
          .error (.of .conflict "pending update differs from acknowledgment")
        else do
          let files ← files.write (archiveName entry.taskId update) bytes
          match journalText (s.retire entry.taskId update) with
          | some journal => files.write stateName journal
          | none => .error invalidJournal
      | _ => .error (.of .conflict "pending update differs from acknowledgment")

end Orangutan.Telegram
