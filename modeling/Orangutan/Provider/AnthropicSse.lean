import Orangutan.Provider.Sink
import Orangutan.Provider.Types
import Orangutan.Storage.SqlJson

/-!
# The Anthropic stream decoder

The decoder takes one event after the other, calls the sink, and assembles the response. The
first error is kept and everything after it is ignored; nothing else closes the stream, so
events after `message_stop` are processed like those before it.
-/

namespace Orangutan.Provider

set_option autoImplicit false

open Orangutan.Core Orangutan.Storage

/-- What the parser of the JSON library throws: a `parse_error` with its text, or another
exception, such as `out_of_range` for a number that no double holds. -/
inductive JsonException
  | parseError (detail : Bytes)
  | other
  deriving DecidableEq

/-- The JSON library: a text is parsed, or the parser throws; a value that was parsed is printed. -/
structure JsonCodec where
  parse : Bytes → Except JsonException SqlJson
  dump : SqlJson → Bytes

def stringOrEmpty (object : SqlJson) (key : String) : Bytes :=
  match object.lastMember (text key) with
  | some (.text t) => t
  | _ => []

def objectMember (object : SqlJson) (key : String) : Option SqlJson :=
  (object.lastMember (text key)).filter SqlJson.isObject

def u64OrZero (object : SqlJson) (key : String) : UInt64 :=
  match object.lastMember (text key) with
  | some (.integer n) => if 0 ≤ n then UInt64.ofNat n.toNat else 0
  | _ => 0

def anthropicStopReason (reason : Bytes) : StopReason :=
  ([.endTurn, .maxTokens, .toolUse, .stopSequence, .cancelled, .error].find? fun r => r.name =
    reason).getD .error

inductive BlockKind
  | none
  | text
  | thinking
  | toolUse
  deriving DecidableEq

structure OpenBlock where
  kind : BlockKind := .none
  text : Bytes := []
  signature : Option Bytes := none
  toolId : Bytes := []
  toolName : Bytes := []
  toolInput : Bytes := []

/-- `sink` has the callbacks so far. -/
structure AnthropicSseDecoder where
  target : ModelTarget
  sink : List SinkEvent := []
  blocks : List Content := []
  block : OpenBlock := {}
  usage : Usage := {}
  stopReason : StopReason := .endTurn
  model : Option Bytes := none
  error : Option Error := none
  sawMessageStop : Bool := false

namespace AnthropicSseDecoder

variable (codec : JsonCodec)

def call (d : AnthropicSseDecoder) (event : SinkEvent) : AnthropicSseDecoder :=
    { d with sink := d.sink ++ [event] }

def fail (d : AnthropicSseDecoder) (e : Error) : AnthropicSseDecoder :=
  if d.error.isNone then { d with error := some e } else d

/-- A parsing error that names the protocol. -/
def parsingError (d : AnthropicSseDecoder) (message : String) : Error :=
  (Error.parsing message).note "protocol" d.target.protocol.name

def messageStart (d : AnthropicSseDecoder) (payload : SqlJson) : AnthropicSseDecoder :=
  match objectMember payload "message" with
  | none => d
  | some message =>
    let model := stringOrEmpty message "model"
    let d := if model = [] then d else { d with model := some model }
    match objectMember message "usage" with
    | none => d
    | some usage =>
      { d with usage :=
        { inputTokens := u64OrZero usage "input_tokens"
          outputTokens := u64OrZero usage "output_tokens"
          cacheCreationTokens := u64OrZero usage "cache_creation_input_tokens"
          cacheReadTokens := u64OrZero usage "cache_read_input_tokens" } }

def contentBlockStart (d : AnthropicSseDecoder) (payload : SqlJson) : AnthropicSseDecoder :=
  if d.block.kind ≠ .none then
    d.fail (d.parsingError "anthropic content block started before the previous block stopped")
  else
    match objectMember payload "content_block" with
    | none => d.fail (d.parsingError "anthropic content_block_start is missing content_block")
    | some block =>
      let type := stringOrEmpty block "type"
      if type = text "text" then { d with block := { kind := .text } }
      else if type = text "thinking" then { d with block := { kind := .thinking } }
      else if type = text "tool_use" then
        let toolId := stringOrEmpty block "id"
        let toolName := stringOrEmpty block "name"
        ({ d with block := { kind := .toolUse, toolId, toolName } } : AnthropicSseDecoder).call
          (.toolStart toolId toolName)
      else
        ({ d with block := {} } : AnthropicSseDecoder).fail
          ((d.parsingError "anthropic content block type is not supported").note "type" type)

/-- Deltas of unknown types are ignored. -/
def contentBlockDelta (d : AnthropicSseDecoder) (payload : SqlJson) : AnthropicSseDecoder :=
  if d.block.kind = .none then d.fail
    (d.parsingError "anthropic content block delta has no open block")
  else
    match objectMember payload "delta" with
    | none => d.fail (d.parsingError "anthropic content_block_delta is missing delta")
    | some delta =>
      let type := stringOrEmpty delta "type"
      if type = text "text_delta" then
        let t := stringOrEmpty delta "text"
        ({ d with block := { d.block with text := d.block.text ++ t } } : AnthropicSseDecoder).call
          (if d.block.kind = .thinking then .thinkingDelta t else .textDelta t)
      else if type = text "thinking_delta" then
        let thinking := stringOrEmpty delta "thinking"
        ({ d with block := { d.block with text := d.block.text ++ thinking } } :
          AnthropicSseDecoder).call
          (.thinkingDelta thinking)
      else if type = text "signature_delta" then
        { d with block := { d.block with
          signature := some (d.block.signature.getD [] ++ stringOrEmpty delta "signature") } }
      else if type = text "input_json_delta" then
        let partialJson := stringOrEmpty delta "partial_json"
        ({ d with block := { d.block with toolInput := d.block.toolInput ++ partialJson } } :
          AnthropicSseDecoder).call
          (.toolDelta d.block.toolId partialJson)
      else d

/-- A tool input that cannot be parsed leaves the block open. Only a `parse_error` is caught and
recorded: another exception goes out of `consume`. -/
def finalizeOpenBlock (d : AnthropicSseDecoder) : AnthropicSseDecoder :=
  match d.block.kind with
  | .text => { d with blocks := d.blocks ++ [.text d.block.text], block := {} }
  | .thinking =>
      { d with blocks := d.blocks ++ [.thinking d.block.text d.block.signature], block := {} }
  | .toolUse =>
    let tool (e : Error) : Error :=
      (e.note "tool_use_id" d.block.toolId).note "tool" d.block.toolName
    match codec.parse (if d.block.toolInput = [] then text "\x7b\x7d" else d.block.toolInput) with
    | .error (.parseError detail) =>
      d.fail ((tool (d.parsingError "anthropic tool input json is malformed")).note "detail" detail)
    | .error .other => d
    | .ok input =>
      if input.isObject then
        { d with
          blocks := d.blocks ++ [.toolUse d.block.toolId d.block.toolName (codec.dump input)],
          block := {} }
      else d.fail (tool (d.parsingError "anthropic tool input must be a JSON object"))
  | .none => { d with block := {} }

def contentBlockStop (d : AnthropicSseDecoder) : AnthropicSseDecoder :=
  if d.block.kind = .none then
    d.fail (d.parsingError "anthropic content block stop has no open block")
  else d.finalizeOpenBlock codec

/-- The stop reason that a `message_delta` brings. -/
def deltaStopReason (payload : SqlJson) : Option StopReason :=
  match objectMember payload "delta" with
  | none => none
  | some delta =>
    let reason := stringOrEmpty delta "stop_reason"
    if reason = [] then none else some (anthropicStopReason reason)

def messageDelta (d : AnthropicSseDecoder) (payload : SqlJson) : AnthropicSseDecoder :=
  let d := { d with stopReason := (deltaStopReason payload).getD d.stopReason }
  match objectMember payload "usage" with
  | none => d
  | some usage => { d with usage :=
      { d.usage with outputTokens := u64OrZero usage "output_tokens" } }

def messageStop (d : AnthropicSseDecoder) : AnthropicSseDecoder :=
  if d.block.kind ≠ .none then
    d.fail (d.parsingError "anthropic message stopped before the content block completed")
  else ({ d with sawMessageStop := true } : AnthropicSseDecoder).call (.done d.stopReason)

def errorEvent (d : AnthropicSseDecoder) (payload : SqlJson) : AnthropicSseDecoder :=
  let field (key : String) : Bytes :=
    match payload.lastMember (text "error") with
    | some error => stringOrEmpty error key
    | none => []
  d.fail
    ((((Error.upstream "anthropic stream returned an error event").note "protocol"
    d.target.protocol.name).note
    "error_type" (field "type")).note "error_message" (field "message"))

/-- An event whose payload is an object. -/
def dispatch (d : AnthropicSseDecoder) (event : Bytes) (payload : SqlJson) : AnthropicSseDecoder :=
  if event = text "message_start" then d.messageStart payload
  else if event = text "content_block_start" then d.contentBlockStart payload
  else if event = text "content_block_delta" then d.contentBlockDelta payload
  else if event = text "content_block_stop" then d.contentBlockStop codec
  else if event = text "message_delta" then d.messageDelta payload
  else if event = text "message_stop" then d.messageStop
  else if event = text "error" then d.errorEvent payload
  else d

/-- The decoder after the call, which returns or throws what the parser threw. -/
def consume (d : AnthropicSseDecoder) (event data : Bytes) : AnthropicSseDecoder :=
  if d.error.isSome then d
  else if event = text "ping" then d
  else
    match codec.parse data with
    | .error (.parseError detail) =>
      d.fail (((d.parsingError "anthropic stream event is not valid JSON").note "event" event).note
        "detail" detail)
    | .error .other => d
    | .ok payload =>
      if payload.isObject then d.dispatch codec event payload
      else d.fail ((d.parsingError "anthropic stream event must be a JSON object").note
        "event" event)

def consumeAll (d : AnthropicSseDecoder) (events : List (Bytes × Bytes)) : AnthropicSseDecoder :=
  events.foldl (fun d e => d.consume codec e.1 e.2) d

def result (d : AnthropicSseDecoder) : Result Response :=
  match d.error with
  | some e => .error e
  | none =>
    if d.sawMessageStop then
      .ok { blocks := d.blocks, stopReason := d.stopReason, usage := d.usage, modelUsed := d.model }
    else .error (d.parsingError "anthropic stream ended before message_stop")

end AnthropicSseDecoder

end Orangutan.Provider
