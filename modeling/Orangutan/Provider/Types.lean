import Orangutan.Core.Json
import Orangutan.Core.Message

/-!
# Provider requests and routes

A route names a primary target and its fallbacks. Token limits are 32-bit values.
Prices and cost estimates are floating point and left out.
-/

namespace Orangutan.Provider

set_option autoImplicit false

open Orangutan.Core

structure Usage where
  inputTokens : UInt64 := 0
  outputTokens : UInt64 := 0
  cacheCreationTokens : UInt64 := 0
  cacheReadTokens : UInt64 := 0

structure RetryPolicy where
  maxAttempts : UInt32 := 1
  /-- Milliseconds. -/
  initialBackoff : Int := 0

structure PromptCacheHints where
  prefixHash : UInt64 := 0
  prefixBytes : UInt64 := 0

structure Request where
  messages : List Message
  systemPrompt : Option Bytes
  tools : List ToolDef
  toolChoice : Option Bytes
  maxTokens : Option UInt32
  thinkingBudget : Option UInt32
  stream : Bool
  cache : Option PromptCacheHints
  retry : RetryPolicy

structure Response where
  blocks : List Content
  stopReason : StopReason := .endTurn
  usage : Usage := {}
  modelUsed : Option Bytes := none

inductive ProtocolKind
  | anthropicMessages
  | openaiChatCompletions
  | openaiResponses
  | geminiGenerateContent
  | customOpenaiCompatible
  deriving DecidableEq, Repr

def ProtocolKind.name : ProtocolKind → Bytes
  | anthropicMessages => text "anthropic_messages"
  | openaiChatCompletions => text "openai_chat_completions"
  | openaiResponses => text "openai_responses"
  | geminiGenerateContent => text "gemini_generate_content"
  | customOpenaiCompatible => text "custom_openai_compatible"

structure PromptCacheOptions where
  enabled : Bool := true
  minPrefixBytes : UInt64 := 0

structure ModelTarget where
  profile : Bytes
  model : Bytes
  protocol : ProtocolKind := .anthropicMessages
  thinkingBudget : Option UInt32 := none
  cache : Option PromptCacheOptions := none

structure Route where
  primary : ModelTarget
  fallbacks : List ModelTarget := []

/-- What one call of `System::send` does: it returns, or an exception escapes it.
`emitted` says that the sink saw an event. -/
inductive Reply
  | returns (response : Result Response)
  | throws (aborted : Bool)

structure Sending where
  reply : Reply
  emitted : Bool

/-- Attribution of an outcome to a target. -/
structure Attribution where
  profile : Bytes
  model : Bytes
  protocol : ProtocolKind := .anthropicMessages
  fallback : Bool := false

structure Outcome where
  target : Attribution
  response : Result Response

end Orangutan.Provider
