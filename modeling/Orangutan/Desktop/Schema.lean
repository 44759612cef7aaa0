import Orangutan.Desktop.JsText

/-!
# The desktop state and its schema

The record types are those that the schema infers. Numbers are integers: counters, and times in
milliseconds. What the types do not already say is the value of `stateSchema`.
-/

namespace Orangutan.Desktop

set_option autoImplicit false

inductive Language
  | zh
  | en
  deriving DecidableEq

inductive Status
  | queued
  | running
  | awaitingApproval
  | cancelling
  | completed
  | failed
  | cancelled
  | interrupted
  deriving DecidableEq

inductive Platform
  | telegram
  | qq
  | feishu
  deriving DecidableEq

inductive ConnectionStatus
  | disconnected
  | connecting
  | connected
  | error
  deriving DecidableEq

structure Connection where
  id : JsString
  platform : Platform
  name : JsString
  account : JsString
  status : ConnectionStatus
  attempt : Int
  simulateFailure : Bool
  deriving DecidableEq

inductive Origin
  | desktop
  | channel
  deriving DecidableEq

structure Conversation where
  id : JsString
  connectionId : JsString
  locator : JsString
  requesterId : JsString
  sessionId : JsString
  name : JsString
  customName : Option Bool := none
  origin : Origin
  unread : Int
  deriving DecidableEq

inductive Role
  | user
  | assistant
  deriving DecidableEq

inductive MessageState
  | complete
  | streaming
  | interrupted
  deriving DecidableEq

structure Message where
  id : JsString
  conversationId : JsString
  sessionId : JsString
  role : Role
  text : JsString
  createdAt : Int
  state : MessageState
  deriving DecidableEq

inductive MemberState
  | waiting
  | working
  | done
  | failed
  | stopped
  deriving DecidableEq

structure Member where
  id : JsString
  name : JsString
  role : JsString
  state : MemberState
  result : JsString
  deriving DecidableEq

inductive ArtifactKind
  | markdown
  | text
  | diff
  deriving DecidableEq

structure Artifact where
  name : JsString
  kind : ArtifactKind
  body : JsString
  deriving DecidableEq

inductive TaskKind
  | chat
  | file
  | team
  deriving DecidableEq

inductive ApprovalStatus
  | pending
  | approved
  | rejected
  | expired
  | cancelled
  deriving DecidableEq

structure TaskApproval where
  id : JsString
  status : ApprovalStatus
  target : JsString
  deriving DecidableEq

structure Task where
  id : JsString
  conversationId : JsString
  requesterId : JsString
  sessionId : JsString
  title : JsString
  kind : TaskKind
  status : Status
  attempt : Int
  step : Int
  createdAt : Int
  language : Language
  shouldFail : Bool
  history : List (Int × Status)
  members : List Member
  approval : Option TaskApproval
  artifact : Option Artifact
  deriving DecidableEq

inductive NoteScope
  | shared
  | personal
  deriving DecidableEq

structure Note where
  id : JsString
  scope : NoteScope
  ownerId : Option JsString
  title : JsString
  body : JsString
  source : JsString
  updatedAt : Int
  deriving DecidableEq

inductive NotificationKind
  | completed
  | failed
  | approval
  | connection
  deriving DecidableEq

structure Notification where
  id : JsString
  eventKey : JsString
  conversationId : Option JsString
  taskId : Option JsString
  kind : NotificationKind
  read : Bool
  title : JsString
  detail : JsString
  deriving DecidableEq

inductive Theme
  | system
  | light
  | dark
  deriving DecidableEq

inductive Model
  | claudeSonnet
  | gpt5
  deriving DecidableEq

inductive Permission
  | ask
  | allow
  | deny
  deriving DecidableEq

structure Settings where
  language : Language
  theme : Theme
  notifications : Bool
  memory : Bool
  model : Model
  permission : Permission
  deriving DecidableEq

structure AppState where
  settings : Settings
  selectedId : JsString
  connections : List Connection
  conversations : List Conversation
  messages : List Message
  tasks : List Task
  notes : List Note
  notifications : List Notification
  /-- The keys in the order of their first assignment. -/
  drafts : List (JsString × JsString)
  deriving DecidableEq

def conversationKey (connectionId locator : JsString) : JsString :=
    JsString.jsonPair connectionId locator

def requesterKey (connectionId senderId : JsString) : JsString :=
    JsString.jsonPair connectionId senderId

/-- `new Set(ids).size === ids.length`. -/
def distinct (ids : List JsString) : Bool := ids.dedup.length == ids.length

/-- `new Map(conversations.map((c) => [c.id, c])).get(id)`: a later entry replaces an earlier one.
-/
def conversationAt (s : AppState) (id : JsString) : Option Conversation :=
    s.conversations.reverse.find? (·.id == id)

/-- The bounds of the number fields. -/
def AppState.inRange (s : AppState) : Bool :=
  s.connections.all (fun c => 0 ≤ c.attempt) && s.conversations.all (fun c => 0 ≤ c.unread) &&
    s.tasks.all fun t => 0 < t.attempt && 0 ≤ t.step

def stateSchema (s : AppState) : Bool :=
  s.inRange &&
  distinct (s.connections.map (·.id)) && distinct (s.conversations.map (·.id)) &&
    distinct (s.messages.map (·.id)) &&
  distinct (s.tasks.map (·.id)) && distinct (s.notes.map (·.id)) &&
    distinct (s.notifications.map (·.id)) &&
  (conversationAt s s.selectedId).isSome &&
  s.conversations.all (fun c =>
    c.id == conversationKey c.connectionId c.locator &&
    !(c.origin == .channel && !(s.connections.map (·.id)).contains c.connectionId) &&
    !(c.origin == .desktop && c.connectionId != js "desktop")) &&
  s.messages.all (fun m => (conversationAt s m.conversationId).isSome) &&
  s.tasks.all (fun t =>
    match conversationAt s t.conversationId with
    | none => false
    | some c => c.requesterId == t.requesterId && c.sessionId == t.sessionId) &&
  s.notes.all fun n => (n.scope == .shared) == n.ownerId.isNone

end Orangutan.Desktop
