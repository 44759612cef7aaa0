import Orangutan.Config.Fields

/-!
# The configuration document

The sections of the document, each read by its own fields, and the whole document.
-/

namespace Orangutan.Config

set_option autoImplicit false
set_option linter.dupNamespace false

open Orangutan.Core Orangutan.Permission

structure ToolOutputRuntimeConfig where
  maxTextBytes : Int := 256 * 1024
  maxDataBytes : Int := 1024 * 1024

structure ToolSchedulerRuntimeConfig where
  maxParallelTools : Int := 4
  perCallTimeoutMs : Int := 60000

structure PromptActiveToolsConfig where
  useDefaults : Bool := true
  toolNames : List Bytes := []

structure PromptRuntimeConfig where
  activeTools : PromptActiveToolsConfig := {}

structure ProviderPricingConfig where
  inputPerMillionUsd : Option Float := none
  outputPerMillionUsd : Option Float := none
  cacheCreationPerMillionUsd : Option Float := none
  cacheReadPerMillionUsd : Option Float := none

structure StreamRuntimeConfig where
  maxBytes : Int := 16 * 1024 * 1024

structure RuntimeConfig where
  workers : Int := 4
  requestTimeoutMs : Int := 600000
  toolOutput : ToolOutputRuntimeConfig := {}
  toolScheduler : ToolSchedulerRuntimeConfig := {}
  prompt : PromptRuntimeConfig := {}
  stream : StreamRuntimeConfig := {}

structure PromptCacheConfig where
  enabled : Bool := true
  minPrefixBytes : Int := 0

structure ProfileConfig where
  name : Bytes
  provider : Bytes := []
  protocol : Option Bytes := none
  model : Bytes := []
  baseUrl : Bytes := []
  apiKeyEnv : Bytes := []
  pricing : ProviderPricingConfig := {}
  thinkingBudget : Option Nat := none
  cache : Option PromptCacheConfig := none

structure RouteConfig where
  name : Bytes
  primaryProfile : Bytes := []
  fallbackProfiles : List Bytes := []

structure TraceConfig where
  enabled : Bool := true

structure HooksConfig where
  timeoutMs : Int := 2000

structure LongtermMemoryRecallConfig where
  enabled : Bool := true
  limit : Int := 20
  kinds : List Bytes := []

structure LongtermMemoryConfig where
  recallConfig : LongtermMemoryRecallConfig := {}

structure MemoryConfig where
  longterm : LongtermMemoryConfig := {}

structure WorkspacePermissionsConfig where
  extraReadRoots : List Bytes := []
  extraWriteRoots : List Bytes := []

structure PermissionsConfig where
  rules : List PermissionRuleConfig := []
  workspace : WorkspacePermissionsConfig := {}

structure ConfigWarning where
  path : Bytes
  message : Bytes
  deriving DecidableEq

structure LoadOptions where
  strictUnknownFields : Bool := false

structure Config where
  strictConfig : Bool := false
  runtime : RuntimeConfig := {}
  profiles : List ProfileConfig := []
  routes : List RouteConfig := []
  trace : TraceConfig := {}
  hooks : HooksConfig := {}
  memory : MemoryConfig := {}
  permissions : PermissionsConfig := {}
  warnings : List ConfigWarning := []

def parseToolOutput (out : ToolOutputRuntimeConfig) : Read ToolOutputRuntimeConfig := do
  let maxTextBytes ← Fields.integer "max_text_bytes" out.maxTextBytes
  let maxDataBytes ← Fields.integer "max_data_bytes" out.maxDataBytes
  return { out with maxTextBytes, maxDataBytes }

def parseToolScheduler (out : ToolSchedulerRuntimeConfig) : Read ToolSchedulerRuntimeConfig := do
  let maxParallelTools ← Fields.integer "max_parallel_tools" out.maxParallelTools
  let perCallTimeoutMs ← Fields.integer "per_call_timeout_ms" out.perCallTimeoutMs
  return { out with maxParallelTools, perCallTimeoutMs }

def toolNameValue (value : Value) (path : Bytes) : Result Bytes :=
  match value with
  | .string (c :: name) => .ok (c :: name)
  | _ => .error (configError "expected non-empty string" path)

/-- The names of an array, which are not expanded. -/
def toolNameValues (path : Bytes) : Nat → List Value → Result (List Bytes)
  | _, [] => .ok []
  | index, item :: items => do
    let name ← toolNameValue item (elementPath path index)
    let names ← toolNameValues path (index + 1) items
    return name :: names

def activeToolsValue (out : PromptActiveToolsConfig) (value : Value) (path : Bytes) :
    Result PromptActiveToolsConfig :=
  match value with
  | .string s =>
    if s ≠ text "defaults" then
      .error ((configError "expected \"defaults\" or array of tool names" path).note "value" s)
    else .ok out
  | .array items => (toolNameValues path 0 items).map fun toolNames =>
      { useDefaults := false, toolNames }
  | _ => .error (configError "expected \"defaults\" or array of tool names" path)

def parsePrompt (out : PromptRuntimeConfig) : Read PromptRuntimeConfig := do
  let activeTools ← Fields.field "active_tools" fun _ => activeToolsValue out.activeTools
  return { out with activeTools := activeTools.getD out.activeTools }

def parseStream (out : StreamRuntimeConfig) : Read StreamRuntimeConfig := do
  let maxBytes ← Fields.integer "max_bytes" out.maxBytes
  return { out with maxBytes }

def parseRuntime (out : RuntimeConfig) : Read RuntimeConfig := do
  let workers ← Fields.integer "workers" out.workers
  let requestTimeoutMs ← Fields.integer "request_timeout_ms" out.requestTimeoutMs
  let toolOutput ← Fields.object "tool_output" out.toolOutput (parseToolOutput out.toolOutput)
  let toolScheduler ← Fields.object "tool_scheduler" out.toolScheduler
    (parseToolScheduler out.toolScheduler)
  let prompt ← Fields.object "prompt" out.prompt (parsePrompt out.prompt)
  let stream ← Fields.object "stream" out.stream (parseStream out.stream)
  return { out with workers, requestTimeoutMs, toolOutput, toolScheduler, prompt, stream }

def parseTrace (out : TraceConfig) : Read TraceConfig := do
  let enabled ← Fields.boolean "enabled" out.enabled
  return { out with enabled }

def parseHooks (out : HooksConfig) : Read HooksConfig := do
  let timeoutMs ← Fields.integer "timeout_ms" out.timeoutMs
  return { out with timeoutMs }

/-- The place of the first kind that stands before it too. -/
def repeatedKind (kinds : List Bytes) : Option Nat :=
  (List.range kinds.length).find? fun i => (kinds.take i).contains (kinds.getD i [])

def validKinds (kinds : List Bytes) (path : Bytes) : Result Unit :=
  if kinds.isEmpty then .error (configError "long-term memory recall kinds must not be empty" path)
  else
    match repeatedKind kinds with
    | some i => .error (configError "long-term memory recall kind must be unique"
        (elementPath path i))
    | none => .ok ()

def parseRecall (out : LongtermMemoryRecallConfig) : Read LongtermMemoryRecallConfig := do
  let enabled ← Fields.boolean "enabled" out.enabled
  let limit ← Fields.integer "limit" out.limit 1 20
  let kinds ← Fields.strings "kinds" out.kinds true
  let present ← Fields.contains "kinds"
  Fields.check fun path => if present then validKinds kinds (childPath path (text "kinds"))
    else .ok ()
  return { out with enabled, limit, kinds }

def parseLongterm (out : LongtermMemoryConfig) : Read LongtermMemoryConfig := do
  let recallConfig ← Fields.object "recall" out.recallConfig (parseRecall out.recallConfig)
  return { out with recallConfig }

def parseMemory (out : MemoryConfig) : Read MemoryConfig := do
  let longterm ← Fields.object "longterm" out.longterm (parseLongterm out.longterm)
  return { out with longterm }

def parseCache : Read (Option PromptCacheConfig) := do
  let cache : PromptCacheConfig := {}
  let enabled ← Fields.boolean "enabled" cache.enabled
  let minPrefixBytes ← Fields.integer "min_prefix_bytes" cache.minPrefixBytes 0
  return some { cache with enabled, minPrefixBytes }

def parsePricing (out : ProviderPricingConfig) : Read ProviderPricingConfig := do
  let inputPerMillionUsd ← Fields.price "input_per_million_usd" out.inputPerMillionUsd
  let outputPerMillionUsd ← Fields.price "output_per_million_usd" out.outputPerMillionUsd
  let cacheCreationPerMillionUsd ← Fields.price "cache_creation_per_million_usd"
    out.cacheCreationPerMillionUsd
  let cacheReadPerMillionUsd ← Fields.price "cache_read_per_million_usd" out.cacheReadPerMillionUsd
  return { out with
    inputPerMillionUsd, outputPerMillionUsd, cacheCreationPerMillionUsd, cacheReadPerMillionUsd }

def parseProfile (out : ProfileConfig) : Read ProfileConfig := do
  let provider ← Fields.requiredString "provider" out.provider
  let protocol ← Fields.optionalString "protocol" out.protocol true
  let model ← Fields.requiredString "model" out.model
  let baseUrl ← Fields.requiredString "base_url" out.baseUrl
  let apiKeyEnv ← Fields.requiredString "api_key_env" out.apiKeyEnv
  let pricing ← Fields.object "pricing" out.pricing (parsePricing out.pricing)
  let thinkingBudget ← Fields.optionalInteger "thinking_budget" (out.thinkingBudget.map Int.ofNat) 1
    (2 ^ 32 - 1)
  let cache ← Fields.object "cache" out.cache parseCache
  return { out with provider, protocol, model, baseUrl, apiKeyEnv, pricing,
                    thinkingBudget := thinkingBudget.map Int.toNat, cache }

def parseRoute (out : RouteConfig) : Read RouteConfig := do
  let primaryProfile ← Fields.requiredString "primary" out.primaryProfile
  let fallbackProfiles ← Fields.strings "fallbacks" out.fallbackProfiles
  return { out with primaryProfile, fallbackProfiles }

def parseWorkspace (out : WorkspacePermissionsConfig) : Read WorkspacePermissionsConfig := do
  let extraReadRoots ← Fields.strings "extra_read_roots" out.extraReadRoots
  let extraWriteRoots ← Fields.strings "extra_write_roots" out.extraWriteRoots
  return { out with extraReadRoots, extraWriteRoots }

def verdictKey : Verdict → String
  | .allow => "allow"
  | .deny => "deny"
  | .ask => "ask"

def parseVerdict (key : Bytes) : Option Verdict := [Verdict.allow, .deny, .ask].find? fun verdict =>
    text (verdictKey verdict) == key

/-- The reads of `parse_rule`. -/
def parseRuleFields (verdict : Verdict) : Read PermissionRuleConfig := do
  let toolPattern ← Fields.requiredString "tool_pattern" [] true
  let capability ← Fields.field "capability" fun _ => capabilityValue
  let inputPattern ← Fields.field "input_pattern" patternValue
  let replayMax ← Fields.field "replay_max" fun _ => integerValue 0 (2 ^ 32 - 1)
  let approvalTtlSeconds ← Fields.field "approval_ttl_seconds" fun _ => integerValue 0 kMaxInteger
  return { verdict, toolPattern, capability, inputPattern, replayMax := replayMax.map Int.toNat,
           approvalTtlSeconds }

theorem field_eq {α : Type} (key : String) (parse : Host → Value → Bytes → Result α) (strict : Bool)
    (view : View) :
    Fields.field key parse strict view =
      (field view.members view.path key (parse view.host)).map fun a =>
        { value := a, known := [key] } := by
  rw [Fields.field, Fields.take, field]
  rcases hfind : view.members.find? (·.1 == text key) with _ | member
  · rw [hfind]
    rfl
  · rw [hfind]
    dsimp only
    unfold plain
    rcases parse view.host member.2 (childPath view.path (text key)) with e | a
    · rfl
    · rfl

theorem bind_apply {α β : Type} (p : Read α) (f : α → Read β) (strict : Bool) (view : View) :
    (p >>= f) strict view = Read.bind p f strict view := rfl

theorem require_eq (key : String) (strict : Bool) (view : View) :
    Fields.require key strict view = (require view.members view.path key).map fun _ =>
      { value := () } := by
  unfold Fields.require require
  change Read.bind _ _ strict view = _
  unfold Read.bind Fields.contains Fields.check
  dsimp only
  rcases hany : view.members.any (·.1 == text key) with _ | _
  · rfl
  · rfl

/-- `parse_rule` reads its fields and finishes. -/
theorem parseRule_eq (host : Host) (strict : Bool) (verdict : Verdict) (value : Value)
    (path : Bytes) :
    parseRule host strict verdict value path =
      nested (parseRuleFields verdict) host strict value path := by
  cases value with
  | object members =>
    unfold parseRule nested parseRuleFields Fields.requiredString Fields.string
    simp only [bind_apply, Read.bind, require_eq, field_eq]
    rcases require members path "tool_pattern" with e | u
    · rfl
    rcases field members path "tool_pattern" (stringValue host true) with e | toolPattern
    · rfl
    rcases field members path "capability" capabilityValue with e | capability
    · rfl
    rcases field members path "input_pattern" (patternValue host) with e | inputPattern
    · rfl
    rcases field members path "replay_max" (integerValue 0 (2 ^ 32 - 1)) with e | replayMax
    · rfl
    rcases field members path "approval_ttl_seconds"
      (integerValue 0 kMaxInteger) with e | approvalTtlSeconds
    · rfl
    dsimp only [Except.map, List.cons_append, List.nil_append, List.append_nil, pure]
    rcases finish members path ["tool_pattern", "capability", "input_pattern", "replay_max",
      "approval_ttl_seconds"]
      strict with e | unknown
    · rfl
    · rfl
  | _ => rfl

/-- The loop over the members, in the order of the document. -/
def parseVerdicts : List Member → Read (List PermissionRuleConfig)
  | [] => return []
  | member :: rest =>
    match parseVerdict member.1 with
    | none => parseVerdicts rest
    | some verdict => do
      let rules ← Fields.take (verdictKey verdict)
        (arrayOf fun host strict value path => parseRule host strict verdict value path)
      let more ← parseVerdicts rest
      return rules.getD [] ++ more

def parseRules : Read (List PermissionRuleConfig) :=
    fun strict view => parseVerdicts view.members strict view

def parsePermissions (out : PermissionsConfig) : Read PermissionsConfig := do
  let workspace ← Fields.object "workspace" out.workspace (parseWorkspace out.workspace)
  let rules ← parseRules
  return { out with workspace, rules := out.rules ++ rules }

/-- The sections after `strict_config`. -/
def parseSections (config : Config) : Read Config := do
  let runtime ← Fields.object "runtime" config.runtime (parseRuntime config.runtime)
  let profiles ← Fields.entries "profiles" fun name => parseProfile { name }
  let routes ← Fields.entries "routes" fun name => parseRoute { name }
  let trace ← Fields.object "trace" config.trace (parseTrace config.trace)
  let hooks ← Fields.object "hooks" config.hooks (parseHooks config.hooks)
  let memory ← Fields.object "memory" config.memory (parseMemory config.memory)
  let permissions ← Fields.object "permissions" config.permissions
    (parsePermissions config.permissions)
  return { config with runtime, profiles, routes, trace, hooks, memory, permissions }

/-- No object of the value has a key twice. -/
inductive Value.Distinct : Value → Prop
  | null : Distinct .null
  | boolean (b : Bool) : Distinct (.boolean b)
  | unsigned (n : UInt64) : Distinct (.unsigned n)
  | negative (n : Nat) : Distinct (.negative n)
  | float (x : Float) : Distinct (.float x)
  | string (s : Bytes) : Distinct (.string s)
  | array {items : List Value} (hitems : ∀ item ∈ items, Distinct item) : Distinct (.array items)
  | object {members : List Member} (hkeys : (members.map Prod.fst).Nodup)
      (hmembers : ∀ member ∈ members, Distinct member.2) :
      Distinct (.object members)

/-- What the JSON parser builds: a key given again keeps its one member. -/
structure Document where
  root : Value
  distinct : root.Distinct

inductive JsonException
  | parseError (what : Bytes)
  | other (what : Bytes)

def Config.ofRoot (host : Host) (options : LoadOptions) : Value → Result Config
  | .object members => do
    let view : View := ⟨host, text "$", members⟩
    let first ← Fields.boolean "strict_config" false false view
    let strict := options.strictUnknownFields || first.value
    let sections ← parseSections { strictConfig := first.value } strict view
    let unknown ← finish members (text "$") (first.known ++ sections.known) strict
    return { sections.value with
      warnings := (sections.warnings ++ unknown).map fun path =>
        ⟨path, text "unknown config field"⟩ }
  | _ => .error (configError "expected object" (text "$"))

def Config.parse (host : Host) (parser : Bytes → Except JsonException Document) (contents : Bytes)
    (options : LoadOptions) :
    Result Config :=
  match parser contents with
  | .ok document => Config.ofRoot host options document.root
  | .error (.parseError what) =>
      .error ((Error.of .config "failed to parse config JSON").note "detail" what)
  | .error (.other what) =>
      .error ((Error.of .config "failed to read config JSON").note "detail" what)

end Orangutan.Config
