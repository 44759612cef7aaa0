import Orangutan.Provider.AnthropicSse

/-!
# The Anthropic response decoder

A response body is decoded field by field; the first field that is not as it should be is the
error.
-/

namespace Orangutan.Provider

set_option autoImplicit false

open Orangutan.Core Orangutan.Storage

section Fields

variable (target : ModelTarget)

def parseError (message : String) (field : Bytes) : Error :=
  ((Error.parsing message).note "field" field).note "protocol" target.protocol.name

/-- What becomes of an exception that nothing here catches: the execution of the attempt ends
with it. -/
def uncaught : Error := .internal "provider execution failed unexpectedly"

def parseJsonObject (codec : JsonCodec) (body field : Bytes) : Result SqlJson :=
  match codec.parse body with
  | .error .other => .error uncaught
  | .error (.parseError detail) =>
    .error ((parseError target "provider protocol response field is not valid JSON" field).note
      "detail" detail)
  | .ok parsed =>
    if parsed.isObject then .ok parsed
    else .error (parseError target "provider protocol response field must be a JSON object" field)

def parseBodyJson (codec : JsonCodec) (body : Bytes) : Result SqlJson :=
  match parseJsonObject target codec body (text "body") with
  | .error e => .error (e.note "scope" (text "response"))
  | .ok parsed => .ok parsed

def requiredString (object : SqlJson) (key : String) (field : Bytes) : Result Bytes :=
  match object.lastMember (text key) with
  | some (.text t) => .ok t
  | _ => .error (parseError target "provider protocol response field must be a string" field)

/-- A missing string, and `null`, is read as the empty one. -/
def optionalString (object : SqlJson) (key : String) (field : Bytes) : Result Bytes :=
  match object.lastMember (text key) with
  | none => .ok []
  | some .null => .ok []
  | some (.text t) => .ok t
  | _ => .error (parseError target "provider protocol response field must be a string" field)

def unsignedIntegerValue (value : SqlJson) (field : Bytes) : Result UInt64 :=
  match value with
  | .integer n =>
    if 0 ≤ n then .ok (UInt64.ofNat n.toNat)
    else .error (parseError target "provider protocol response field must be a non-negative integer"
      field)
  | _ =>
      .error (parseError target "provider protocol response field must be a non-negative integer"
      field)

def optionalU64 (object : SqlJson) (key : String) (field : Bytes) : Result UInt64 :=
  match object.lastMember (text key) with
  | none => .ok 0
  | some .null => .ok 0
  | some value => unsignedIntegerValue target value field

def requiredArray (object : SqlJson) (key : String) (field : Bytes) : Result (List SqlJson) :=
  match object.lastMember (text key) with
  | some (.array items) => .ok items
  | _ => .error (parseError target "provider protocol response field must be an array" field)

end Fields

section Anthropic

variable (codec : JsonCodec) (target : ModelTarget)

/-- The field of one content block, or below it. -/
def contentField (index : Nat) (below : String) : Bytes :=
    text "content[" ++ decimal index ++ text "]" ++ text below

/-- `Some` of a string that is not empty. -/
def nonEmpty (t : Bytes) : Option Bytes := if t = [] then none else some t

def anthropicContentBlock (block : SqlJson) (index : Nat) : Result Content :=
  if ¬block.isObject then .error
    (parseError target "anthropic content block must be an object" (contentField index ""))
  else do
    let type ← requiredString target block "type" (contentField index ".type")
    if type = text "text" then do
      let t ← requiredString target block "text" (contentField index ".text")
      pure (.text t)
    else if type = text "thinking" then do
      let thinking ← requiredString target block "thinking" (contentField index ".thinking")
      let signature ← optionalString target block "signature" (contentField index ".signature")
      pure (.thinking thinking (nonEmpty signature))
    else if type = text "tool_use" then do
      let id ← requiredString target block "id" (contentField index ".id")
      let name ← requiredString target block "name" (contentField index ".name")
      match objectMember block "input" with
      | none =>
        .error
          (((parseError target "anthropic tool input must be a JSON object"
          (contentField index ".input")).note
          "tool_use_id" id).note "tool" name)
      | some input => pure (.toolUse id name (codec.dump input))
    else
      .error ((parseError target "anthropic content block type is not supported"
        (contentField index ".type")).note
        "type" type)

def anthropicContentBlocks : Nat → List SqlJson → Result (List Content)
  | _, [] => .ok []
  | index, block :: rest => do
    let decoded ← anthropicContentBlock codec target block index
    let blocks ← anthropicContentBlocks (index + 1) rest
    pure (decoded :: blocks)

def anthropicUsage (body : SqlJson) : Result Usage :=
  match body.lastMember (text "usage") with
  | none => .ok {}
  | some .null => .ok {}
  | some usage =>
    if ¬usage.isObject then .error
      (parseError target "anthropic usage field must be an object" (text "usage"))
    else do
      let inputTokens ← optionalU64 target usage "input_tokens" (text "usage.input_tokens")
      let outputTokens ← optionalU64 target usage "output_tokens" (text "usage.output_tokens")
      let cacheCreationTokens ←
        optionalU64 target usage "cache_creation_input_tokens"
          (text "usage.cache_creation_input_tokens")
      let cacheReadTokens ← optionalU64 target usage "cache_read_input_tokens"
        (text "usage.cache_read_input_tokens")
      pure { inputTokens, outputTokens, cacheCreationTokens, cacheReadTokens }

/-- The response in a body that has been parsed. -/
def anthropicResponse (body : SqlJson) : Result Response := do
  let content ← requiredArray target body "content" (text "content")
  let blocks ← anthropicContentBlocks codec target 0 content
  let stopReason ← requiredString target body "stop_reason" (text "stop_reason")
  let usage ← anthropicUsage target body
  let model ← optionalString target body "model" (text "model")
  pure { blocks, stopReason := anthropicStopReason stopReason, usage, modelUsed := nonEmpty model }

def decodeAnthropicResponse (bodyJson : Bytes) : Result Response := do
  let body ← parseBodyJson target codec bodyJson
  anthropicResponse codec target body

end Anthropic

section Accepted

variable {codec : JsonCodec} {target : ModelTarget}

theorem requiredString_ok {object : SqlJson} {key : String} {field t : Bytes}
    (h : requiredString target object key field = .ok t) : object.lastMember (text key) =
      some (.text t) := by
  unfold requiredString at h
  split at h
  · rename_i hmember
    cases h
    exact hmember
  · cases h

theorem stringOrEmpty_of_required {object : SqlJson} {key : String} {field t : Bytes}
    (h : requiredString target object key field = .ok t) : stringOrEmpty object key = t := by
  rw [stringOrEmpty, requiredString_ok h]

theorem stringOrEmpty_of_optional {object : SqlJson} {key : String} {field t : Bytes}
    (h : optionalString target object key field = .ok t) : stringOrEmpty object key = t := by
  unfold optionalString at h
  unfold stringOrEmpty
  split at h
  · rename_i hmember
    cases h
    rw [hmember]
  · rename_i hmember
    cases h
    rw [hmember]
  · rename_i hmember
    cases h
    rw [hmember]
  · cases h

theorem u64OrZero_of_optional {object : SqlJson} {key : String} {field : Bytes} {n : UInt64}
    (h : optionalU64 target object key field = .ok n) : u64OrZero object key = n := by
  unfold optionalU64 at h
  unfold u64OrZero
  split at h
  · rename_i hmember
    cases h
    rw [hmember]
  · rename_i hmember
    cases h
    rw [hmember]
  · rename_i value _ hmember
    unfold unsignedIntegerValue at h
    split at h
    · split at h
      · rename_i hle
        cases h
        rw [hmember]
        exact if_pos hle
      · cases h
    · cases h

end Accepted

end Orangutan.Provider
