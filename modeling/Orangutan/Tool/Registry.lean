import Orangutan.Core.Json
import Orangutan.Tool.ApprovalResolution
import Orangutan.Tool.PathLocks

/-!
# Tool dispatch

`Registry::dispatch` takes a call through the hook, preparation, the path lock, path
resolution, both policies, approval and the audit record before the prepared executor
runs. What lies outside (sinks of the bus, the audit store, the file system, the lock
table, the executor) answers through parameters; each answer is a function of what it is
asked, since a dispatch asks each of them once. The steps of a dispatch are logged.
-/

namespace Orangutan.Tool

set_option autoImplicit false

open Orangutan.Core Orangutan.Core.Str Orangutan.Permission

structure ToolUsage where
  bytesRead : Option Nat := none
  bytesWritten : Option Nat := none
  filesTouched : Option Nat := none
  matchCount : Option Nat := none
  truncated : Bool := false
  dataDropped : Bool := false

structure Attachment where
  filePath : Bytes
  mimeType : Bytes
  byteSize : Option Nat := none
  fingerprint : Option Bytes := none

structure Output where
  text : Bytes
  dataJson : Option Bytes := none
  attachments : List Attachment := []
  usage : ToolUsage := {}
  isError : Bool := false

/-- A cap of zero disables its channel. -/
structure OutputCapOptions where
  maxTextBytes : Nat := 256 * 1024
  maxDataBytes : Nat := 1024 * 1024

def applyOutputCaps (output : Output) (options : OutputCapOptions) : Output :=
  let output :=
    if options.maxTextBytes ≠ 0 ∧ options.maxTextBytes < output.text.length then
      { output with
        text := truncateToCodePoint output.text options.maxTextBytes
        usage := { output.usage with truncated := true } }
    else output
  if options.maxDataBytes ≠ 0 ∧
    output.dataJson.any (fun data => decide (options.maxDataBytes < data.length)) then
    { output with dataJson := none, usage := { output.usage with dataDropped := true } }
  else output

inductive AuditOutcome
  | allow
  | deny
  | ask
  | approved
  | rejected
  | blockedByHook
  | rewritten
  deriving DecidableEq, Repr

/-- The metadata is kept as the value whose text is stored. -/
structure AuditEvent where
  eventKind : Bytes := text "permission_decision"
  scopeKey : Bytes := []
  agentKey : Bytes := []
  toolName : Bytes := []
  identity : Bytes := []
  verdict : Verdict := .deny
  outcome : AuditOutcome := .deny
  reason : Bytes := []
  inputHash : Option Bytes := none
  parentTurnId : Option TurnId := none
  metadata : Json := .obj []

def verdictToOutcome : Verdict → AuditOutcome
  | .allow => .allow
  | .deny => .deny
  | .ask => .ask

inductive PathIntent
  | none
  | read
  | write
  deriving DecidableEq, Repr

structure WriteIntent where
  createParentDirectories : Bool := false
  deriving DecidableEq

structure PathRequest where
  path : Bytes
  intent : PathIntent := .none
  writeIntent : WriteIntent := {}
  allowOutsideWorkspace : Bool := false
  deriving DecidableEq

inductive LockDirection
  | read
  | write
  deriving DecidableEq, Repr

/-- A path as the workspace resolves it; the number stands for the pinned directory. -/
structure ResolvedPath where
  authority : Nat
  authorityRelativePath : Bytes
  absolutePath : Bytes
  relativePath : Bytes
  symlinkFollowed : Bool := false
  createdParents : Bool := false
  outsideWorkspaceExplicitOverride : Bool := false
  perCallOutsideWorkspaceOverride : Bool := false
  overrideRootIndex : Option Nat := none

structure ResolvedToolPath extends ResolvedPath where
  displayPath : Bytes
  inputPathHash : Bytes
  workspaceRootHash : Bytes

/-- The workspace with the answers of the file system. -/
structure Workspace where
  root : Bytes
  lockKey : Bytes → LockDirection → Option Bytes
  resolveRead : Bytes → Result ResolvedPath
  resolveReadOutsideWorkspace : Bytes → Result ResolvedPath
  resolveWrite : Bytes → WriteIntent → Result ResolvedPath
  displayPath : Bytes → Bytes

inductive DispatchPolicy
  | permissioned
  | runtime
  deriving DecidableEq, Repr

structure DispatchContext where
  mode : Mode := .default
  rules : List Rule
  parentPolicy : Option PolicyView := none
  approvalBroker : Option ApprovalBroker := none
  approvalToken : Option ApprovalToken := none
  approvalTokenOutput : Option ApprovalToken := none
  now : Time
  bus : Option Bus := none
  activeTools : Option (List Bytes) := none
  workspace : Option Workspace := none
  /-- Whether path locks are supplied. -/
  pathLocks : Bool := false
  resolvedPath : Option ResolvedToolPath := none
  outputCaps : OutputCapOptions := {}
  parentTurnId : Option TurnId := none
  scopeKey : Bytes := []
  agentKey : Bytes := []
  identity : Bytes := []

/-- An executor may be missing. -/
structure PreparedCall where
  path : Option PathRequest := none
  execute : Option (DispatchContext → Result Output) := none

structure ToolEntry where
  requiredCapabilities : List Capability := []
  prepare : Bytes → Result PreparedCall
  policy : DispatchPolicy := .permissioned

abbrev Registry := Lib.Table Bytes ToolEntry

/-- What answers a dispatch besides its context: the digest, random bytes, the lock table
with the time a wait took, and the audit store. -/
structure DispatchEnv where
  sha256 : Bytes → Bytes
  nonce : Bytes
  acquire : Bytes → PathLockMode → Result Unit × Time
  record : AuditEvent → Result Unit

/-- The steps of a dispatch that others can see. -/
inductive DispatchStep
  | published (payload : ToolBeforePayload)
  | prepared (input : Bytes)
  | locked (key : Bytes) (mode : PathLockMode)
  | prompted
  | recorded (event : AuditEvent) (result : Result Unit)
  | executed (call : PreparedCall)
  | completed (input : Bytes) (result : Result Output)

def toHex (digest : Bytes) : Bytes := digest.flatMap fun b =>
    [hexDigit (b.toNat / 16), hexDigit (b.toNat % 16)]

/-- Write a field of an object, whose fields are in the order of their keys. -/
def setField (key : Bytes) (value : Json) : List (Bytes × Json) → List (Bytes × Json)
  | [] => [(key, value)]
  | field :: rest =>
    if field.1 = key then (key, value) :: rest
    else if key < field.1 then (key, value) :: field :: rest
    else field :: setField key value rest

def metadataFields : Json → List (Bytes × Json)
  | .obj fields => fields
  | _ => []

def hookDecisionTraceToJson (trace : List HookDecisionTrace) : Json :=
  .arr (trace.map fun decision => .obj (
    (match decision.elapsed with
      | some elapsed => [(text "elapsed_ms", Json.num elapsed)]
      | none => []) ++
    [(text "kind", Json.str decision.kind.name), (text "reason", .str decision.reason),
      (text "sink_id", .str decision.sinkId)]))

def withHookDecisionMetadata (metadata : Json) (trace : List HookDecisionTrace)
    (originalInputHash rewrittenInputHash : Option Bytes) : Json :=
  let fields := setField (text "hook_decisions") (hookDecisionTraceToJson trace)
    (metadataFields metadata)
  let fields := match originalInputHash with
    | some hash => setField (text "original_input_hash") (.str hash) fields
    | none => fields
  .obj (match rewrittenInputHash with
    | some hash => setField (text "rewritten_input_hash") (.str hash) fields
    | none => fields)

def withPermissionAskMetadata (metadata : Json) (trace : List HookDecisionTrace) : Json :=
  .obj (setField (text "permission_ask_decisions") (hookDecisionTraceToJson trace)
    (metadataFields metadata))

structure PathResolutionReport where
  path : Option ResolvedToolPath := none
  metadata : Json := .obj []
  error : Option Error := none
  requiresApproval : Bool := false

def pathLockDirection (capabilities : List Capability) : Option LockDirection :=
  if capabilities.any fun c => c = .writeFile ∨ c = .editFile ∨ c = .deletePath then some .write
  else if capabilities.any fun c => c = .readFile ∨ c = .listDirectory then some .read
  else none

def contextValue (e : Error) (key : String) : Bytes :=
  match e.context.find? fun entry => entry.1 = key with
  | some entry => entry.2
  | none => []

def resolveRequest (workspace : Workspace) (request : PathRequest) : Result ResolvedPath :=
  match request.intent with
  | .read => workspace.resolveRead request.path
  | .write => workspace.resolveWrite request.path request.writeIntent
  | .none => .error (.internal "unknown workspace path intent")

/-- `path_resolution` of the metadata, for a path that resolved and for one that did not. -/
def pathResolutionJson (fields : List (Bytes × Json)) : Json :=
    .obj [(text "path_resolution", .obj fields)]

def pathResolutionErrorMetadata (sha256 : Bytes → Bytes) (workspace : Workspace) (inputPath : Bytes)
    (e : Error) : Json :=
  pathResolutionJson
    [(text "created_parents", .null), (text "error_kind", .str e.kind.name),
      (text "error_reason", .str (contextValue e "reason")),
      (text "input_path_hash", .str (toHex (sha256 inputPath))),
      (text "outside_workspace_explicit_override", .null), (text "override_root_index", .null),
      (text "per_call_outside_workspace_override", .null), (text "resolved_display_path", .null),
      (text "resolved_relative_path", .null), (text "symlink_followed", .null),
      (text "workspace_root_hash", .str (toHex (sha256 workspace.root)))]

def pathResolutionMetadata (path : ResolvedToolPath) : Json :=
  pathResolutionJson
    [(text "created_parents", .bool path.createdParents),
      (text "input_path_hash", .str path.inputPathHash),
      (text "outside_workspace_explicit_override", .bool path.outsideWorkspaceExplicitOverride),
      (text "override_root_index", match path.overrideRootIndex with
        | some index => .num index
        | none => .null),
      (text "per_call_outside_workspace_override", .bool path.perCallOutsideWorkspaceOverride),
      (text "resolved_display_path", .str path.displayPath),
      (text "resolved_relative_path", if path.perCallOutsideWorkspaceOverride then .null
        else .str path.relativePath),
      (text "symlink_followed", .bool path.symlinkFollowed),
      (text "workspace_root_hash", .str path.workspaceRootHash)]

def toToolPath (sha256 : Bytes → Bytes) (workspace : Workspace) (inputPath : Bytes)
    (resolved : ResolvedPath) :
    ResolvedToolPath :=
  { resolved with
    displayPath := if resolved.perCallOutsideWorkspaceOverride then resolved.absolutePath
      else workspace.displayPath resolved.absolutePath
    inputPathHash := toHex (sha256 inputPath)
    workspaceRootHash := toHex (sha256 workspace.root) }

/-- A read that was refused for lying outside may be tried again, and then needs approval. -/
def outsideRead (workspace : Workspace) (request : PathRequest) (e : Error) :
    Result ResolvedPath × Bool :=
  if request.allowOutsideWorkspace ∧ request.intent = .read ∧
      (contextValue e "reason" = text "outside_workspace" ∨
        contextValue e "reason" = text "symlink_escape") then
    match workspace.resolveReadOutsideWorkspace request.path with
    | .ok resolved => (.ok resolved, true)
    | .error e => (.error e, false)
  else (.error e, false)

def resolveToolPath (sha256 : Bytes → Bytes) (workspace : Workspace) (request : PathRequest) :
    PathResolutionReport :=
  if request.intent = .none then {}
  else
    let resolved : Result ResolvedPath × Bool := match resolveRequest workspace request with
      | .ok resolved => (.ok resolved, false)
      | .error e => outsideRead workspace request e
    match resolved with
    | (.error e, _) =>
      { metadata := pathResolutionErrorMetadata sha256 workspace request.path e, error := some e }
    | (.ok resolved, requiresApproval) =>
      let path := toToolPath sha256 workspace request.path resolved
      { path := some path, metadata := pathResolutionMetadata path, requiresApproval }

def makeLookupError (name : Bytes) : Error :=
    (Error.notFound "tool is not registered").note "tool" name

def buildEvent (env : DispatchEnv) (name inputJson : Bytes) (decision : Decision)
    (ctx : DispatchContext) (metadata : Json) : AuditEvent :=
  { scopeKey := ctx.scopeKey
    agentKey := ctx.agentKey
    toolName := name
    identity := ctx.identity
    verdict := decision.verdict
    outcome := verdictToOutcome decision.verdict
    reason := decision.reason
    inputHash := some (env.sha256 inputJson)
    parentTurnId := ctx.parentTurnId
    metadata }

def hookBlockedDecision (reason : Bytes) : Decision := { verdict := .deny, reason }

def hookVetoError (name reason : Bytes) : Error :=
  (((Error.permissionDenied "tool blocked by hook").note "tool" name).note "reason"
    (text "blocked_by_hook")).note
    "hook_reason" reason

def hookRewriteError (name reason : Bytes) : Error :=
  (((Error.permissionDenied "tool rewrite rejected by hook").note "tool" name).note "reason"
    (text "blocked_by_hook")).note "hook_reason" reason

def requireApprovalDecision (decision : Decision) (hookDecision : HookDecision) : Decision :=
  if decision.verdict ≠ .allow then decision
  else { decision with
    verdict := .ask, reason := decisionReason hookDecision "hook require_approval" }

def requireWorkspaceOverrideApproval (decision : Decision) : Decision :=
  if decision.verdict ≠ .allow then decision
  else { decision with
    verdict := .ask, reason := text "outside_workspace_override", replayMax := 1 }

def makeHookIdentity (ctx : DispatchContext) : HookIdentity :=
  { scopeKey := ctx.scopeKey, agentKey := ctx.agentKey, identity := ctx.identity }

def buildBeforePayload (name inputJson : Bytes) (ctx : DispatchContext) : ToolBeforePayload :=
  { toolName := name, inputJson, who := makeHookIdentity ctx }

def buildPermissionAskPayload (name inputJson : Bytes) (ctx : DispatchContext)
    (decision : Decision) :
    PermissionAskRenderedPayload :=
  { toolName := name
    inputJson
    who := makeHookIdentity ctx
    decisionReason := decision.reason
    replayMax := decision.replayMax
    approvalTtl := decision.approvalTtl
    requestedAt := ctx.now
    turnId := ctx.parentTurnId }

/-- What the blocking `tool_before` hook has decided. -/
structure BeforeOutcome where
  hookDecision : HookDecision := {}
  hookBlocked : Bool := false
  hookReason : Bytes := []
  rewrittenInput : Option Bytes := none
  blockingPublishError : Option Error := none

def consumeBefore (policy : DispatchPolicy) : Result HookDecision → BeforeOutcome
  | .error e => { blockingPublishError := some e }
  | .ok decision =>
    match decision.kind with
    | .proceed => { hookDecision := decision }
    | .veto =>
      { hookDecision := decision, hookBlocked := true,
        hookReason := decisionReason decision "hook veto" }
    | .rewrite =>
      match decision.rewrittenInputJson with
      | none =>
        { hookDecision := decision
          hookBlocked := true
          hookReason := text "hook rewrite missing rewritten_input_json" }
      | some input =>
        { hookDecision := decision
          hookReason := decisionReason decision "hook rewrite"
          rewrittenInput := some input }
    | .requireApproval =>
      if policy = .runtime then
        { hookDecision := decision
          hookBlocked := true
          hookReason := text "runtime tools do not support approval escalation" }
      else
        { hookDecision := decision,
          hookReason := decisionReason decision "hook require_approval" }

def runBefore (entry : ToolEntry) (name inputJson : Bytes) (ctx : DispatchContext) :
    BeforeOutcome × List DispatchStep :=
  match ctx.bus with
  | none => ({}, [])
  | some bus =>
    let payload := buildBeforePayload name inputJson ctx
    (consumeBefore entry.policy (bus.toolBefore payload), [.published payload])

/-- The facts about the hook that go with the audit row. -/
def withHookFacts (env : DispatchEnv) (before : BeforeOutcome) (inputJson effectiveInput : Bytes)
    (metadata : Json) :
    Json :=
  let hookRewrote := before.rewrittenInput.isSome
  if !before.hookBlocked && !hookRewrote && before.hookDecision.trace.isEmpty then metadata
  else
    withHookDecisionMetadata metadata before.hookDecision.trace
      (if before.hookBlocked || hookRewrote then some (toHex (env.sha256 inputJson)) else none)
      (if hookRewrote then some (toHex (env.sha256 effectiveInput)) else none)

/-- Preparation, which is skipped after a failed or blocking hook. -/
def prepareCall (entry : ToolEntry) (before : BeforeOutcome) (effectiveInput : Bytes) :
    Result PreparedCall × List DispatchStep :=
  if before.blockingPublishError.isNone && !before.hookBlocked then
    (match entry.prepare effectiveInput with
      | .error e => .error e
      | .ok call =>
        if call.execute.isNone then .error (.internal "tool preparation returned no executor")
        else if call.path.isSome && entry.policy = .runtime then
          .error (.invalidArgument "runtime tools cannot request filesystem authority")
        else .ok call,
      [.prepared effectiveInput])
  else (.ok {}, [])

/-- The lock that the prepared path asks for, if any; the wait moves the clock sample. -/
def acquirePathLock (env : DispatchEnv) (entry : ToolEntry) (prepared : Result PreparedCall)
    (ctx : DispatchContext) :
    Result Unit × DispatchContext × List DispatchStep :=
  match prepared, ctx.workspace with
  | .ok call, some workspace =>
    match call.path, pathLockDirection entry.requiredCapabilities with
    | some path, some direction =>
      if ctx.pathLocks then
        match workspace.lockKey path.path direction with
        | some key =>
          let mode := if direction = .read then PathLockMode.shared else .exclusive
          let acquired := env.acquire key mode
          (acquired.1, { ctx with now := ctx.now + acquired.2 }, [.locked key mode])
        | none => (.ok (), ctx, [])
      else (.ok (), ctx, [])
    | _, _ => (.ok (), ctx, [])
  | _, _ => (.ok (), ctx, [])

/-- The decision of both policies on the final input, tightened by hook and path. -/
def dispatchDecision (entry : ToolEntry) (name effectiveInput : Bytes) (before : BeforeOutcome)
    (resolution : PathResolutionReport) (ctx : DispatchContext) : Decision :=
  let decision : Decision := { verdict := .allow, reason := text "runtime_tool" }
  let decision :=
    if entry.policy = .permissioned
      then evaluate ctx.rules name effectiveInput entry.requiredCapabilities ctx.mode
    else decision
  let decision :=
    match ctx.parentPolicy with
    | some parent =>
      if entry.policy = .permissioned then
        intersect (evaluate parent.rules name effectiveInput entry.requiredCapabilities parent.mode)
          decision
      else decision
    | none => decision
  let decision :=
    if before.hookDecision.kind = .requireApproval
      then requireApprovalDecision decision before.hookDecision
    else decision
  if resolution.requiresApproval then requireWorkspaceOverrideApproval decision else decision

/-- The approval of an ask, when there is a broker and the path has resolved. -/
def settleAsk (env : DispatchEnv) (name effectiveInput : Bytes) (decision : Decision)
    (resolution : PathResolutionReport) (ctx : DispatchContext) : AskOutcome :=
  if resolution.error.isNone && decision.verdict = .ask && ctx.approvalBroker.isSome then
    resolveAsk env.nonce
      { toolName := name
        input := effectiveInput
        identity := ctx.identity
        decision
        now := ctx.now
        broker := ctx.approvalBroker
        token := ctx.approvalToken
        tokenOutput := ctx.approvalTokenOutput
        bus := ctx.bus
        payload := buildPermissionAskPayload name effectiveInput ctx decision }
  else { broker := ctx.approvalBroker, tokenOutput := ctx.approvalTokenOutput }

/-- The row as approval leaves it. -/
def approvedEvent (event : AuditEvent) (approval : ApprovalResolution) : AuditEvent :=
  let event :=
    if approval.trace = [] then event
    else { event with metadata := withPermissionAskMetadata event.metadata approval.trace }
  match approval.state with
  | .approved => { event with outcome := .approved }
  | .rejected =>
    { event with
      outcome := .rejected
      reason := match approval.auditReason with
        | some reason => if reason = [] then event.reason else reason
        | none => event.reason }
  | .pending => event

def deniedError (name : Bytes) (decision : Decision) : Error :=
  ((Error.permissionDenied "tool denied by permission rules").note "tool" name).note "reason"
    decision.reason

def approvalRequiredError (name : Bytes) (decision : Decision) : Error :=
  (((((Error.permissionDenied "tool requires approval").note "tool" name).note "reason"
    (text "approval_required")).note "decision_reason" decision.reason).note "replay_max"
    (decimal decision.replayMax)).note "approval_ttl_seconds" (signedDecimal decision.approvalTtl)

/-- The path of the prepared call, resolved where it needs authority. -/
def resolvePrepared (env : DispatchEnv) (call : PreparedCall) (ctx : DispatchContext) :
    PathResolutionReport :=
  match call.path, ctx.workspace with
  | some path, some workspace => resolveToolPath env.sha256 workspace path
  | _, _ => {}

/-- The event of a call that got as far as a decision. -/
def decisionEvent (env : DispatchEnv) (name inputJson effectiveInput : Bytes)
    (before : BeforeOutcome) (resolution : PathResolutionReport) (decision : Decision)
    (approval : ApprovalResolution) (ctx : DispatchContext) :
    AuditEvent :=
  let event := buildEvent env name effectiveInput decision ctx
    (withHookFacts env before inputJson effectiveInput resolution.metadata)
  let event :=
    if before.rewrittenInput.isSome && decision.verdict = .allow
      then { event with outcome := .rewritten } else event
  approvedEvent event approval

/-- From path resolution to the executor. -/
def admitCall (env : DispatchEnv) (entry : ToolEntry) (name inputJson effectiveInput : Bytes)
    (before : BeforeOutcome) (call : PreparedCall) (ctx : DispatchContext) :
    Result Output × DispatchContext × List DispatchStep :=
  let resolution := resolvePrepared env call ctx
  let ctx := { ctx with resolvedPath := resolution.path }
  let decision := dispatchDecision entry name effectiveInput before resolution ctx
  let ask := settleAsk env name effectiveInput decision resolution ctx
  let approval := ask.resolution
  let ctx := { ctx with approvalBroker := ask.broker, approvalTokenOutput := ask.tokenOutput }
  let event := decisionEvent env name inputJson effectiveInput before resolution decision
    approval ctx
  let handlerAboutToRun := resolution.error.isNone &&
    (decide (decision.verdict = .allow) ||
      (decide (decision.verdict = .ask) && decide (approval.state = .approved)))
  let steps := (if ask.prompted then [DispatchStep.prompted] else []) ++
    [.recorded event (env.record event)]
  match env.record event, resolution.error with
  | .error e, _ => (.error e, ctx, steps)
  | .ok (), some e => (.error (e.note "tool" name), ctx, steps)
  | .ok (), none =>
    if handlerAboutToRun then
      (match call.execute with
        | some execute => execute ctx
        | none => .error (.internal "dispatch did not produce a result"),
        ctx, steps ++ [DispatchStep.executed call])
    else if decision.verdict = .deny then (.error (deniedError name decision), ctx, steps)
    else if approval.state = .rejected then
      (.error ((approval.rejection.getD (.internal "")).note "tool" name), ctx, steps)
    else (.error (approvalRequiredError name decision), ctx, steps)

/-- A call that ends with one denied row and an error. -/
def refuseCall (env : DispatchEnv) (event : AuditEvent) (e : Error) (ctx : DispatchContext) :
    Result Output × DispatchContext × List DispatchStep :=
  (match env.record event with
    | .error recorded => .error recorded
    | .ok () => .error e,
    ctx, [.recorded event (env.record event)])

/-- The branches after the lock. -/
def concludeCall (env : DispatchEnv) (entry : ToolEntry) (name inputJson effectiveInput : Bytes)
    (before : BeforeOutcome) (prepared : Result PreparedCall) (pathLock : Result Unit)
      (ctx : DispatchContext) :
    Result Output × DispatchContext × List DispatchStep :=
  match pathLock, before.blockingPublishError with
  | .error e, _ => (.error (e.note "tool" name), ctx, [])
  | .ok (), some e => (.error (e.note "tool" name), ctx, [])
  | .ok (), none =>
    if before.hookBlocked then
      let event := { buildEvent env name effectiveInput (hookBlockedDecision before.hookReason) ctx
        (withHookFacts env before inputJson effectiveInput (.obj [])) with outcome :=
          .blockedByHook }
      refuseCall env event
        (if before.hookDecision.kind = .rewrite then hookRewriteError name before.hookReason
          else hookVetoError name before.hookReason) ctx
    else
      match prepared with
      | .error e =>
        let decision : Decision :=
          { verdict := .deny
            reason := if e.kind = .invalidArgument then text "invalid_tool_input"
              else text "tool_preparation_failed" }
        refuseCall env
          (buildEvent env name effectiveInput decision ctx
            (withHookFacts env before inputJson effectiveInput (.obj [])))
          (e.note "tool" name) ctx
      | .ok call => admitCall env entry name inputJson effectiveInput before call ctx

/-- A dispatch with its result, the context it leaves and its steps. -/
def dispatch (env : DispatchEnv) (registry : Registry) (name inputJson : Bytes)
    (ctx : DispatchContext) :
    Result Output × DispatchContext × List DispatchStep :=
  let ctx := { ctx with resolvedPath := none }
  if ctx.activeTools.any fun tools => !tools.contains name then
    (.error ((Error.notFound "tool is not enabled for this turn").note "tool" name), ctx, [])
  else
    match registry.lookup name with
    | none => (.error (makeLookupError name), ctx, [])
    | some entry =>
      let before := runBefore entry name inputJson ctx
      let effectiveInput := before.1.rewrittenInput.getD inputJson
      let prepared := prepareCall entry before.1 effectiveInput
      let lock := acquirePathLock env entry prepared.1 ctx
      let concluded := concludeCall env entry name inputJson effectiveInput before.1 prepared.1
        lock.1 lock.2.1
      let result := concluded.1.map fun output => applyOutputCaps output ctx.outputCaps
      (result, concluded.2.1,
        before.2 ++ prepared.2 ++ lock.2.2 ++ concluded.2.2 ++
          (if ctx.bus.isSome then [DispatchStep.completed effectiveInput result] else []))

end Orangutan.Tool
