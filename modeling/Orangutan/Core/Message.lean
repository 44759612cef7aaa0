import Orangutan.Core.Time

/-!
# Messages

An author with ordered content blocks. Storage sets the time of ingestion; the messages
that a turn makes have none.
-/

namespace Orangutan.Core

set_option autoImplicit false

inductive Role
  | user
  | assistant
  | system
  | tool
  deriving DecidableEq, Repr

def Role.name : Role → Bytes
  | user => text "user"
  | assistant => text "assistant"
  | system => text "system"
  | tool => text "tool"

inductive Content
  | text (text : Bytes)
  | thinking (thinking : Bytes) (signature : Option Bytes)
  | toolUse (id name inputJson : Bytes)
  | toolResult (toolUseId output : Bytes) (dataJson : Option Bytes) (isError : Bool)
  | image (mediaType dataBase64 : Bytes)
  deriving DecidableEq

def Content.holdsToolUse : Content → Bool
  | toolUse _ _ _ => true
  | _ => false

structure Message where
  role : Role := .user
  blocks : List Content
  createdAt : Option TimePoint := none
  deriving DecidableEq

def Message.userText (t : Bytes) : Message := { role := .user, blocks := [.text t] }

inductive StopReason
  | endTurn
  | maxTokens
  | toolUse
  | stopSequence
  | cancelled
  | error
  deriving DecidableEq, Repr

def StopReason.name : StopReason → Bytes
  | endTurn => Core.text "end_turn"
  | maxTokens => Core.text "max_tokens"
  | toolUse => Core.text "tool_use"
  | stopSequence => Core.text "stop_sequence"
  | cancelled => Core.text "cancelled"
  | error => Core.text "error"

/-- A checkpoint of a session: the summary stands for the first `coveredSequence`
stored messages. -/
structure WorkingContext where
  coveredSequence : Int := 0
  revision : Int := 0
  summary : Bytes := []
  deriving DecidableEq

structure ToolDef where
  name : Bytes
  description : Bytes
  inputSchemaJson : Bytes
  deriving DecidableEq

end Orangutan.Core
