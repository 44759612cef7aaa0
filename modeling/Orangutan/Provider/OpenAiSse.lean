import Orangutan.Lib.Table
import Orangutan.Provider.SinkContract
import Orangutan.Storage.JsonText

/-!
# The OpenAI stream decoder

Deltas are forwarded as they come. The response is that of the last terminal event, and the
sink is told of the end when it has been decoded.
-/

namespace Orangutan.Provider

set_option autoImplicit false

open Orangutan.Core Orangutan.Storage

structure FunctionCallState where
  itemId : Bytes := []
  callId : Bytes := []
  name : Bytes := []
  arguments : Bytes := []
  started : Bool := false

structure OpenAiResponsesSseDecoder where
  target : ModelTarget
  sink : List SinkEvent := []
  error : Option Error := none
  finalResponseJson : Option Bytes := none
  functionCalls : Lib.Table Bytes FunctionCallState := ∅

namespace OpenAiResponsesSseDecoder

variable (codec : JsonCodec)

def call (d : OpenAiResponsesSseDecoder) (event : SinkEvent) : OpenAiResponsesSseDecoder :=
  { d with sink := d.sink ++ [event] }

def fail (d : OpenAiResponsesSseDecoder) (e : Error) : OpenAiResponsesSseDecoder :=
  if d.error.isNone then { d with error := some e } else d

def parsingError (d : OpenAiResponsesSseDecoder) (message : String) : Error :=
  (Error.parsing message).note "protocol" d.target.protocol.name

/-- The entry of an item, a new one when there is none. -/
def functionCall (d : OpenAiResponsesSseDecoder) (itemId : Bytes) : FunctionCallState :=
  (d.functionCalls.lookup itemId).getD {}

def setFunctionCall (d : OpenAiResponsesSseDecoder) (itemId : Bytes) (state : FunctionCallState) :
    OpenAiResponsesSseDecoder :=
  { d with functionCalls := AList.insert itemId state d.functionCalls }

/-- The identity that the sink knows a call by. -/
def FunctionCallState.id (state : FunctionCallState) : Bytes :=
  if state.callId = [] then state.itemId else state.callId

/-- The state is stored, and the sink is told when the name is known for the first time. -/
def maybeStartTool (d : OpenAiResponsesSseDecoder) (itemId : Bytes) (state : FunctionCallState) :
    OpenAiResponsesSseDecoder :=
  if state.name = [] ∨ state.started = true then d.setFunctionCall itemId state
  else (d.setFunctionCall itemId { state with started := true }).call
    (.toolStart (FunctionCallState.id state) state.name)

def outputItemAdded (d : OpenAiResponsesSseDecoder) (payload : SqlJson) :
    OpenAiResponsesSseDecoder :=
  match objectMember payload "item" with
  | none => d
  | some item =>
    if stringOrEmpty item "type" ≠ text "function_call" then d
    else
      let itemId := stringOrEmpty item "id"
      if itemId = [] then d
      else
        let state := d.functionCall itemId
        let arguments := stringOrEmpty item "arguments"
        d.maybeStartTool itemId { state with
          itemId
          callId := stringOrEmpty item "call_id"
          name := stringOrEmpty item "name"
          arguments := if arguments = [] then state.arguments else arguments }

def functionCallArgumentsDelta (d : OpenAiResponsesSseDecoder) (payload : SqlJson) :
    OpenAiResponsesSseDecoder :=
  let itemId := stringOrEmpty payload "item_id"
  let delta := stringOrEmpty payload "delta"
  if itemId = [] then d
  else
    let state := { d.functionCall itemId with
      itemId, arguments := (d.functionCall itemId).arguments ++ delta }
    (d.setFunctionCall itemId state).call (.toolDelta (FunctionCallState.id state) delta)

def functionCallArgumentsDone (d : OpenAiResponsesSseDecoder) (payload : SqlJson) :
    OpenAiResponsesSseDecoder :=
  let itemId := stringOrEmpty payload "item_id"
  if itemId = [] then d
  else
    d.maybeStartTool itemId { d.functionCall itemId with
      itemId, name := stringOrEmpty payload "name", arguments := stringOrEmpty payload "arguments" }

def failedResponseError (d : OpenAiResponsesSseDecoder) (response : SqlJson) : Error :=
  let field (key : String) : Bytes :=
    match objectMember response "error" with
    | some error => stringOrEmpty error key
    | none => []
  let kind := if field "code" = text "rate_limit_exceeded" then ErrorKind.rateLimit
    else ErrorKind.upstream
  (((Error.of kind "openai responses stream failed").note "protocol" d.target.protocol.name).note
    "error_code" (field "code")).note "error_message" (field "message")

def terminal (d : OpenAiResponsesSseDecoder) (event : Bytes) (payload : SqlJson) :
    OpenAiResponsesSseDecoder :=
  match objectMember payload "response" with
  | none =>
    d.fail ((d.parsingError "openai responses terminal stream event is missing response").note
      "event" event)
  | some response =>
    if event = text "response.failed" then d.fail (d.failedResponseError response)
    else { d with finalResponseJson := some (codec.dump response) }

def errorEvent (d : OpenAiResponsesSseDecoder) (payload : SqlJson) : OpenAiResponsesSseDecoder :=
  d.fail ((((Error.upstream "openai responses stream returned an error event").note "protocol"
    d.target.protocol.name).note "error_code" (stringOrEmpty payload "code")).note
    "error_message" (stringOrEmpty payload "message"))

/-- An event whose payload is an object. -/
def dispatch (d : OpenAiResponsesSseDecoder) (event : Bytes) (payload : SqlJson) :
    OpenAiResponsesSseDecoder :=
  if event = text "response.output_item.added" then d.outputItemAdded payload
  else if event = text "response.output_text.delta"
    then d.call (.textDelta (stringOrEmpty payload "delta"))
  else if event = text "response.reasoning_summary_text.delta" ∨
    event = text "response.reasoning_text.delta" then
    d.call (.thinkingDelta (stringOrEmpty payload "delta"))
  else if event = text "response.function_call_arguments.delta"
    then d.functionCallArgumentsDelta payload
  else if event = text "response.function_call_arguments.done"
    then d.functionCallArgumentsDone payload
  else if event = text "response.completed" ∨ event = text "response.incomplete" ∨
    event = text "response.failed" then
    d.terminal codec event payload
  else if event = text "error" then d.errorEvent payload
  else d

/-- The decoder after the call, which returns or throws what the parser threw. -/
def consume (d : OpenAiResponsesSseDecoder) (event data : Bytes) : OpenAiResponsesSseDecoder :=
  if d.error.isSome then d
  else
    match codec.parse data with
    | .error (.parseError detail) =>
      d.fail
        (((d.parsingError "openai responses stream event is not valid JSON").note "event"
        event).note
        "detail" detail)
    | .error .other => d
    | .ok payload =>
      if payload.isObject then d.dispatch codec event payload
      else d.fail ((d.parsingError "openai responses stream event must be a JSON object").note
        "event" event)

def consumeAll (d : OpenAiResponsesSseDecoder) (events : List (Bytes × Bytes)) :
    OpenAiResponsesSseDecoder :=
  events.foldl (fun d e => d.consume codec e.1 e.2) d

/-- `decode` is the decoder of whole response bodies; what it throws ends `result` before the sink
is told, as its errors do. The callbacks are those up to the return. -/
def result (decode : Bytes → ModelTarget → Result Response) (d : OpenAiResponsesSseDecoder) :
    Result Response × List SinkEvent :=
  match d.error, d.finalResponseJson with
  | some e, _ => (.error e, d.sink)
  | none, none =>
    (.error (d.parsingError "openai responses stream ended before terminal response event"), d.sink)
  | none, some json =>
    match decode json d.target with
    | .error e => (.error e, d.sink)
    | .ok response => (.ok response, d.sink ++ [.done response.stopReason])

/-- A step that tells the sink of no end. -/
def Streams (d next : OpenAiResponsesSseDecoder) : Prop :=
  ∃ more, next.sink = d.sink ++ more ∧ ∀ event ∈ more, event.isDone = false

variable {codec} {d : OpenAiResponsesSseDecoder}

theorem streams_same {next : OpenAiResponsesSseDecoder} (h : next.sink = d.sink) : Streams d next :=
  ⟨[], by rw [h, List.append_nil], fun _ hmem => by cases hmem⟩

theorem streams_call {next : OpenAiResponsesSseDecoder} {event : SinkEvent}
    (h : next.sink = d.sink ++ [event]) (hevent : event.isDone = false) : Streams d next :=
  ⟨[event], h, fun e he => by rw [List.mem_singleton.mp he]; exact hevent⟩

theorem streams_fail (e : Error) : Streams d (d.fail e) :=
    streams_same (by unfold fail; split <;> rfl)

theorem streams_maybeStartTool (itemId : Bytes) (state : FunctionCallState) :
    Streams d (d.maybeStartTool itemId state) := by
  unfold maybeStartTool
  split
  · exact streams_same rfl
  · exact streams_call rfl rfl

theorem streams_outputItemAdded (payload : SqlJson) : Streams d (d.outputItemAdded payload) := by
  unfold outputItemAdded
  split
  · exact streams_same rfl
  split
  · exact streams_same rfl
  dsimp only
  split
  · exact streams_same rfl
  · exact streams_maybeStartTool _ _

theorem streams_functionCallArgumentsDelta (payload : SqlJson) :
    Streams d (d.functionCallArgumentsDelta payload) := by
  unfold functionCallArgumentsDelta
  dsimp only
  split
  · exact streams_same rfl
  · exact streams_call rfl rfl

theorem streams_functionCallArgumentsDone (payload : SqlJson) :
    Streams d (d.functionCallArgumentsDone payload) := by
  unfold functionCallArgumentsDone
  dsimp only
  split
  · exact streams_same rfl
  · exact streams_maybeStartTool _ _

theorem streams_terminal (event : Bytes) (payload : SqlJson) :
    Streams d (d.terminal codec event payload) := by
  unfold terminal
  split
  · exact streams_fail _
  split
  · exact streams_fail _
  · exact streams_same rfl

theorem streams_consume (codec : JsonCodec) (d : OpenAiResponsesSseDecoder) (event data : Bytes) :
    Streams d (d.consume codec event data) := by
  unfold consume
  split
  · exact streams_same rfl
  split
  · exact streams_fail _
  · exact streams_same rfl
  next payload _ =>
  split
  swap
  · exact streams_fail _
  unfold dispatch
  split
  · exact streams_outputItemAdded payload
  split
  · exact streams_call rfl rfl
  split
  · exact streams_call rfl rfl
  split
  · exact streams_functionCallArgumentsDelta payload
  split
  · exact streams_functionCallArgumentsDone payload
  split
  · exact streams_terminal event payload
  split
  · exact streams_fail _
  · exact streams_same rfl

theorem consumeAll_streams (h : ∀ event ∈ d.sink, event.isDone = false)
    (events : List (Bytes × Bytes)) :
    ∀ event ∈ (d.consumeAll codec events).sink, event.isDone = false := by
  induction events generalizing d with
  | nil => exact h
  | cons e rest ih =>
    obtain ⟨more, hmore, hnone⟩ := streams_consume codec d e.1 e.2
    apply ih
    rw [hmore]
    exact fun event hevent => (List.mem_append.mp hevent).elim (h event) (hnone event)

theorem result_contract (decode : Bytes → ModelTarget → Result Response)
    (h : ∀ event ∈ d.sink, event.isDone = false) :
      SinkContract (d.result decode).2 (d.result decode).1 := by
  unfold result
  split
  · exact contract_of_failed h
  · exact contract_of_failed h
  · split
    · exact contract_of_failed h
    · next response _ => exact (contract_of_done h).mpr ⟨rfl, fun _ hok => (by cases hok; rfl)⟩

end OpenAiResponsesSseDecoder

/-- Both decoders with their sinks: the Anthropic decoder keeps the contract when its end is
quiet and only then, the OpenAI decoder always. -/
theorem stream_decoders_contract (codec : JsonCodec) (target : ModelTarget)
    (events : List (Bytes × Bytes)) :
    (SinkContract (AnthropicSseDecoder.consumeAll codec { target } events).sink
        (AnthropicSseDecoder.consumeAll codec { target } events).result ↔
      AnthropicSseDecoder.EndsQuietly codec { target } events) ∧
    ∀ decode : Bytes → ModelTarget → Result Response,
      let d := OpenAiResponsesSseDecoder.consumeAll codec { target } events
      SinkContract (d.result decode).2 (d.result decode).1 :=
  ⟨AnthropicSseDecoder.sinkContract_iff codec rfl (fun _ h => (by cases h)) events,
    fun decode => OpenAiResponsesSseDecoder.result_contract decode
      (OpenAiResponsesSseDecoder.consumeAll_streams (fun _ h => (by cases h)) events)⟩

-- A stream that stops twice.
def sampleCodec : JsonCodec where
  parse data := (serializedParser.parse data).mapError .parseError
  dump := fun _ => []

def stoppedTwice : List (Bytes × Bytes) :=
  [(text "message_stop", text "\x7b\x7d"), (text "message_stop", text "\x7b\x7d")]

/-- The sink is told of the end twice. -/
theorem contract_broken :
    ¬ SinkContract (AnthropicSseDecoder.consumeAll sampleCodec { target :=
      ⟨[], [], .anthropicMessages, none, none⟩ }
        stoppedTwice).sink
      (AnthropicSseDecoder.consumeAll sampleCodec { target :=
        ⟨[], [], .anthropicMessages, none, none⟩ }
        stoppedTwice).result := by
  intro h
  have honce := h.once
  have htwice : (AnthropicSseDecoder.consumeAll sampleCodec { target :=
    ⟨[], [], .anthropicMessages, none, none⟩ }
      stoppedTwice).sink.countP SinkEvent.isDone = 2 := by decide +kernel
  omega

end Orangutan.Provider
