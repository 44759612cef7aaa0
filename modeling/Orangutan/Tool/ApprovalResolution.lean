import Orangutan.Core.TurnId
import Orangutan.Permission.ApprovalBroker
import Orangutan.Permission.RuleSet

/-!
# Approval of an ask

An ask is settled by a token of the caller or by an operator behind the blocking
`permission_ask_rendered` hook. Either way the broker has the last word. What the sinks
of the bus answer is a parameter.
-/

namespace Orangutan.Tool

set_option autoImplicit false

open Orangutan.Core Orangutan.Permission

inductive HookDecisionKind
  | proceed
  | veto
  | rewrite
  | requireApproval
  deriving DecidableEq, Repr

def HookDecisionKind.name : HookDecisionKind → Bytes
  | proceed => text "proceed"
  | veto => text "veto"
  | rewrite => text "rewrite"
  | requireApproval => text "require_approval"

structure HookDecisionTrace where
  sinkId : Bytes
  kind : HookDecisionKind := .proceed
  reason : Bytes := []
  /-- Milliseconds, for a sink that timed out. -/
  elapsed : Option Nat := none
  deriving DecidableEq

structure HookDecision where
  kind : HookDecisionKind := .proceed
  reason : Bytes := []
  rewrittenInputJson : Option Bytes := none
  trace : List HookDecisionTrace := []
  deriving DecidableEq

structure HookIdentity where
  scopeKey : Bytes
  agentKey : Bytes
  identity : Bytes

structure ToolBeforePayload where
  toolName : Bytes
  inputJson : Bytes
  who : HookIdentity

structure PermissionAskRenderedPayload where
  toolName : Bytes
  inputJson : Bytes
  who : HookIdentity
  decisionReason : Bytes
  replayMax : Nat
  approvalTtl : Int
  requestedAt : Time
  turnId : Option TurnId

/-- The blocking events of the bus that a dispatch publishes. -/
structure Bus where
  toolBefore : ToolBeforePayload → Result HookDecision
  permissionAskRendered : PermissionAskRenderedPayload → Result HookDecision

inductive ApprovalState
  | pending
  | approved
  | rejected
  deriving DecidableEq, Repr

structure AskRequest where
  toolName : Bytes
  input : Bytes
  identity : Bytes
  decision : Decision
  now : Time
  broker : Option ApprovalBroker
  token : Option ApprovalToken
  /-- The slot of the caller for a token that is issued here, with its content. -/
  tokenOutput : Option ApprovalToken
  bus : Option Bus
  payload : PermissionAskRenderedPayload

structure ApprovalResolution where
  state : ApprovalState := .pending
  rejection : Option Error := none
  auditReason : Option Bytes := none
  trace : List HookDecisionTrace := []

/-- A resolution with the broker and the token slot as it leaves them, and whether the
prompt was published. -/
structure AskOutcome where
  resolution : ApprovalResolution := {}
  broker : Option ApprovalBroker
  tokenOutput : Option ApprovalToken
  prompted : Bool := false

def decisionReason (decision : HookDecision) (fallback : String) : Bytes :=
  if decision.reason = [] then text fallback else decision.reason

def brokerReason (e : Error) : Bytes :=
  match e.context.find? fun entry => entry.1 = "reason" with
  | some entry => entry.2
  | none => []

def operatorReason (decision : HookDecision) : Bytes :=
  if decision.reason ≠ [] then decision.reason
  else match decision.trace.reverse.find? fun trace => trace.reason ≠ [] with
    | some trace => trace.reason
    | none => []

def operatorDeniedError (reason : Bytes) : Error :=
  ((Error.permissionDenied "operator denied approval").note "reason" (text "operator_denied")).note
    "hook_reason"
    (if reason = [] then text "permission_ask_veto" else reason)

def unsupportedDecisionError (decision : HookDecision) : Error :=
  (((Error.permissionDenied "permission approval prompt returned an unsupported decision").note
    "reason"
    (text "operator_denied")).note "decision_kind" decision.kind.name).note "hook_reason"
    (decisionReason decision "unsupported_permission_ask_decision")

def missingOperatorReasonError : Error :=
  (((Error.permissionDenied
    "permission approval prompt returned proceed without operator identity").note "reason"
    (text "operator_denied")).note "decision_kind" HookDecisionKind.proceed.name).note "hook_reason"
    (text "permission_ask_missing_operator_reason")

def rejected (e : Error) (auditReason : Bytes) : ApprovalResolution :=
  { state := .rejected, rejection := some e, auditReason := some auditReason }

/-- The broker checks a token for the exact call. -/
def checkToken (request : AskRequest) (broker : ApprovalBroker) (token : ApprovalToken) :
    ApprovalResolution × ApprovalBroker :=
  match broker.check token request.toolName request.input request.identity request.now with
  | (.ok (), broker) => ({ state := .approved }, broker)
  | (.error e, broker) => (rejected e (brokerReason e), broker)

/-- The nonce is for a token that may be issued. -/
def resolveAsk (nonce : Bytes) (request : AskRequest) : AskOutcome :=
  match request.broker with
  | none => { broker := none, tokenOutput := request.tokenOutput }
  | some broker =>
    match request.token with
    | some token =>
      let checked := checkToken request broker token
      { resolution := checked.1, broker := some checked.2, tokenOutput := request.tokenOutput }
    | none =>
      match request.bus with
      | none => { broker := some broker, tokenOutput := request.tokenOutput }
      | some bus =>
        match bus.permissionAskRendered request.payload with
        | .error e =>
          { resolution := rejected e (text "operator_denied")
            broker := some broker
            tokenOutput := request.tokenOutput
            prompted := true }
        | .ok ask =>
          if ask.trace = [] then
            { broker := some broker, tokenOutput := request.tokenOutput, prompted := true }
          else
            match ask.kind with
            | .proceed =>
              if operatorReason ask = [] then
                { resolution := { rejected missingOperatorReasonError (text "operator_denied") with
                  trace := ask.trace }
                  broker := some broker
                  tokenOutput := request.tokenOutput
                  prompted := true }
              else
                let issued := broker.approve
                  { toolName := request.toolName
                    input := request.input
                    identity := request.identity
                    ttl := request.decision.approvalTtl
                    replayMax := request.decision.replayMax } nonce request.now
                let checked := checkToken request issued.2 issued.1
                { resolution := { checked.1 with trace := ask.trace }
                  broker := some checked.2
                  tokenOutput := request.tokenOutput.map fun _ => issued.1
                  prompted := true }
            | .veto =>
              { resolution := { rejected (operatorDeniedError ask.reason) (text "operator_denied") with
                  trace := ask.trace }
                broker := some broker
                tokenOutput := request.tokenOutput
                prompted := true }
            | .rewrite | .requireApproval =>
              { resolution := { rejected (unsupportedDecisionError ask) (text "operator_denied") with
                  trace := ask.trace }
                broker := some broker
                tokenOutput := request.tokenOutput
                prompted := true }

variable {request : AskRequest} {nonce : Bytes}

/-- The broker accepts a token for the call: one of the caller, or one that an operator's
approval has just issued. -/
def Accepted (nonce : Bytes) (request : AskRequest) : Prop :=
  ∃ (broker : ApprovalBroker) (token : ApprovalToken),
    (broker.check token request.toolName request.input request.identity request.now).1 = .ok () ∧
    ((request.broker = some broker ∧ request.token = some token) ∨
      ∃ start, request.broker = some start ∧ request.token = none ∧
        (token, broker) = start.approve
          { toolName := request.toolName
            input := request.input
            identity := request.identity
            ttl := request.decision.approvalTtl
            replayMax := request.decision.replayMax } nonce request.now)

theorem checkToken_approved {broker : ApprovalBroker} {token : ApprovalToken}
    (h : (checkToken request broker token).1.state = .approved) :
    (broker.check token request.toolName request.input request.identity request.now).1 =
      .ok () := by
  unfold checkToken at h
  split at h
  · next hcheck => rw [hcheck]
  · cases h

theorem resolveAsk_approved (h : (resolveAsk nonce request).resolution.state = .approved) :
    Accepted nonce request := by
  unfold resolveAsk at h
  split at h
  · cases h
  next broker hbroker =>
  split at h
  · next token htoken => exact ⟨broker, token, checkToken_approved h, .inl ⟨hbroker, htoken⟩⟩
  next htoken =>
  split at h
  · cases h
  split at h
  · cases h
  split at h
  · cases h
  split at h
  · split at h
    · cases h
    · exact ⟨_, _, checkToken_approved h, .inr ⟨broker, hbroker, htoken, rfl⟩⟩
  · cases h
  · cases h
  · cases h

end Orangutan.Tool
