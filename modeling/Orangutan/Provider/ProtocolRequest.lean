import Orangutan.Provider.ProtocolResponse

/-!
# The Anthropic request encoder

The body of a request is built member by member. System text is one string, or with prompt caching
an array whose first block carries the breakpoint.
-/

namespace Orangutan.Provider

set_option autoImplicit false

open Orangutan.Core Orangutan.Storage

abbrev Fields := List (Bytes × SqlJson)

/-- The system prompt, when it says something. -/
def promptText (request : Request) : Option Bytes := request.systemPrompt.filter fun prompt =>
    !prompt.isEmpty

def usePromptCache (request : Request) (target : ModelTarget) : Bool :=
  let options := target.cache.getD {}
  match request.cache with
  | none => false
  | some hints =>
    options.enabled && 0 < hints.prefixBytes && options.minPrefixBytes ≤ hints.prefixBytes &&
      ((promptText request).isSome || !request.tools.isEmpty)

section Encoder

variable (codec : JsonCodec) (target : ModelTarget)

def protocolError (message : String) : Error :=
  (((Error.of .config message).note "profile" target.profile).note "model" target.model).note
    "protocol"
    target.protocol.name

def parseJsonDocument (document field : Bytes) : Result SqlJson :=
  match codec.parse document with
  | .error .other => .error uncaught
  | .error (.parseError detail) =>
    .error ((parseError target "provider protocol field is not valid JSON" field).note
      "detail" detail)
  | .ok parsed => .ok parsed

def parseObjectDocument (document field : Bytes) : Result SqlJson := do
  let parsed ← parseJsonDocument codec target document field
  if parsed.isObject then .ok parsed
  else .error (parseError target "provider protocol field must be a JSON object" field)

def toolSchemaJson (tool : ToolDef) : Result SqlJson :=
  match parseObjectDocument codec target tool.inputSchemaJson (text "tool.input_schema_json") with
  | .error e => .error (e.note "tool" tool.name)
  | .ok schema => .ok schema

def toolInputJson (id name inputJson : Bytes) : Result SqlJson :=
  match parseObjectDocument codec target inputJson (text "tool.input_json") with
  | .error e => .error ((e.note "tool" name).note "tool_use_id" id)
  | .ok input => .ok input

def toolResultText (output : Bytes) (dataJson : Option Bytes) : Bytes :=
  if !output.isEmpty || dataJson.isNone then output else dataJson.getD []

def validImage (mediaType dataBase64 : Bytes) : Bool :=
  !dataBase64.isEmpty &&
    [text "image/jpeg", text "image/png", text "image/gif", text "image/webp"].contains mediaType

def entry (key : String) (value : SqlJson) : Bytes × SqlJson := (text key, value)

def literal (s : String) : SqlJson := .text (text s)

def textBlock (t : Bytes) : SqlJson :=
    .object [entry "type" (literal "text"), entry "text" (.text t)]

/-- `anthropic_content_block` of the encoder. -/
def encodeContentBlock (content : Content) (role : Role) : Result SqlJson :=
  match content with
  | .text t => .ok (textBlock t)
  | .image mediaType dataBase64 =>
    if role ≠ .user ∨ ¬validImage mediaType dataBase64 then
      .error (protocolError target "unsupported or empty image input")
    else
      .ok (.object [entry "type" (literal "image"),
        entry "source" (.object [entry "type" (literal "base64"),
        entry "media_type" (.text mediaType), entry "data" (.text dataBase64)])])
  | .thinking thinking signature =>
    .ok (.object ([entry "type" (literal "thinking"), entry "thinking" (.text thinking)] ++
      (signature.map fun signature => entry "signature" (.text signature)).toList))
  | .toolUse id name inputJson => do
    let input ← toolInputJson codec target id name inputJson
    pure (.object [entry "type" (literal "tool_use"), entry "id" (.text id),
      entry "name" (.text name), entry "input" input])
  | .toolResult toolUseId output dataJson isError =>
    .ok (.object ([entry "type" (literal "tool_result"), entry "tool_use_id" (.text toolUseId),
      entry "content" (.text (toolResultText output dataJson))] ++
        if isError then [entry "is_error" (.boolean true)] else []))

def encodeContentBlocks (role : Role) : List Content → Result (List SqlJson)
  | [] => .ok []
  | block :: rest => do
    let encoded ← encodeContentBlock codec target block role
    let others ← encodeContentBlocks role rest
    pure (encoded :: others)

/-- The texts of a system message, a blank line between them. -/
def systemParts : Bytes → List Content → Result Bytes
  | parts, [] => .ok parts
  | parts, .text t :: rest =>
      systemParts ((if parts.isEmpty then parts else parts ++ text "\n\n") ++ t) rest
  | _, _ => .error (protocolError target "anthropic system messages must contain only text blocks")

def systemKey : Bytes := text "system"

def systemMember (body : Fields) : Option SqlJson :=
    (body.find? fun field => field.1 = systemKey).map Prod.snd

def appendAnthropicSystemText (body : Fields) (message : Message) : Result Fields := do
  let parts ← systemParts target [] message.blocks
  if parts.isEmpty then pure body
  else
    match systemMember body with
    | some (.array items) =>
        pure (SqlJson.setField systemKey
        (.array (items ++ [textBlock (text "\n\n" ++ parts)])) body)
    | some (.text system) =>
        pure (SqlJson.setField systemKey (.text (system ++ text "\n\n" ++ parts)) body)
    | some _ => pure body -- the member is a string or an array
    | none => pure (SqlJson.setField systemKey (.text parts) body)

def wireRole : Role → Result Bytes
  | .user => .ok (text "user")
  | .assistant => .ok (text "assistant")
  | .tool => .ok (text "user")
  | .system =>
      .error (protocolError target "anthropic system messages must be lifted before encoding")

def anthropicMessageJson (message : Message) : Result SqlJson := do
  let content ← encodeContentBlocks codec target message.role message.blocks
  let role ← wireRole target message.role
  pure (.object [entry "role" (.text role), entry "content" (.array content)])

/-- The loop over the messages: system messages go into the body, the others are encoded. -/
def encodeMessages : Fields → List Message → Result (Fields × List SqlJson)
  | body, [] => .ok (body, [])
  | body, message :: rest =>
    if message.role = .system then do
      let appended ← appendAnthropicSystemText target body message
      encodeMessages appended rest
    else do
      let encoded ← anthropicMessageJson codec target message
      let others ← encodeMessages body rest
      pure (others.1, encoded :: others.2)

def anthropicToolsJson : List ToolDef → Result (List SqlJson)
  | [] => .ok []
  | tool :: rest => do
    let schema ← toolSchemaJson codec target tool
    let others ← anthropicToolsJson rest
    pure (.object [entry "name" (.text tool.name), entry "description" (.text tool.description),
      entry "input_schema" schema] :: others)

def anthropicToolChoice (choice : Bytes) : SqlJson :=
  if choice = text "auto" then .object [entry "type" (literal "auto")]
  else if choice = text "any" then .object [entry "type" (literal "any")]
  else .object [entry "type" (literal "tool"), entry "name" (.text choice)]

def cacheControl : Bytes × SqlJson :=
    entry "cache_control" (.object [entry "type" (literal "ephemeral")])

/-- The breakpoint on the last tool. -/
def markLast : List SqlJson → List SqlJson
  | [] => []
  | [tool] => [tool.setMember cacheControl.1 cacheControl.2]
  | tool :: rest => tool :: markLast rest

/-- The system text before the messages. -/
def systemPrefix (cache : Bool) (prompt : Bytes) : SqlJson :=
  if cache then .array [.object [entry "type" (literal "text"), entry "text" (.text prompt),
    cacheControl]]
  else .text prompt

def thinkingJson (thinkingBudget : Option UInt32) : SqlJson :=
  match thinkingBudget with
  | some budget => .object [entry "type" (literal "enabled"),
      entry "budget_tokens" (.integer budget.toNat)]
  | none => .object [entry "type" (literal "disabled")]

/-- The members before the messages. -/
def bodyHead (cache : Bool) (request : Request) (maxTokens : UInt32) : Fields :=
  [entry "model" (.text target.model), entry "max_tokens" (.integer maxTokens.toNat),
    entry "stream" (.boolean request.stream)] ++
    ((promptText request).map fun prompt => (systemKey, systemPrefix cache prompt)).toList ++
    [entry "thinking" (thinkingJson request.thinkingBudget)] ++
    (request.toolChoice.map fun choice => entry "tool_choice" (anthropicToolChoice choice)).toList

/-- The members of the body, with prompt caching on or off. -/
def anthropicBody (cache : Bool) (request : Request) : Result Fields :=
  if target.model.isEmpty then .error
    (protocolError target "provider protocol target model must be non-empty")
  else
    match request.maxTokens with
    | none => .error (protocolError target "anthropic messages requests require max_tokens")
    | some maxTokens => do
      let encoded ← encodeMessages codec target (bodyHead target cache request maxTokens)
        request.messages
      let tools ← anthropicToolsJson codec target request.tools
      pure (encoded.1 ++ [entry "messages" (.array encoded.2)] ++
        if tools.isEmpty then []
        else [entry "tools" (.array (if cache && (promptText request).isNone then markLast tools
          else tools))])

structure ProtocolRequest where
  method : Bytes := text "POST"
  path : Bytes
  bodyJson : Bytes

def anthropicRequestBody (request : Request) : Result Fields :=
  anthropicBody codec target (usePromptCache request target) request

def makeAnthropicRequest (request : Request) : Result ProtocolRequest := do
  let body ← anthropicRequestBody codec target request
  pure { path := text "/v1/messages", bodyJson := codec.dump (.object body) }

end Encoder

end Orangutan.Provider
