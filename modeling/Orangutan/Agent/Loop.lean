import Orangutan.Agent.Context
import Orangutan.Agent.Inbox
import Orangutan.Agent.Scheduler
import Orangutan.Core.TurnId
import Orangutan.Provider.Execution

/-!
# One turn of an agent

`run_turn` loads the stored history after the checkpoint, then alternates model
requests and tool batches until the model finishes. The view that is sent, the
transcript that is returned and the checkpoint are kept apart; every message goes to
both lists, and fitting shortens the view only. What a turn reads from outside comes
from `TurnEnv`, one reading after the other. The log records what was read and sent.
-/

namespace Orangutan.Agent

set_option autoImplicit false

open Orangutan.Core Orangutan.Core.Str Orangutan.Provider

/-- What the sink has seen of a provider call. -/
inductive ProviderPhase
  | initial
  | stream
  | complete
  deriving DecidableEq, Repr

def ProviderPhase.name : ProviderPhase → Bytes
  | initial => text "provider_initial"
  | stream => text "provider_stream"
  | complete => text "provider_complete"

/-- What a turn reads from outside, by position in the order of reading. -/
structure TurnEnv where
  backend : Backend
  generateTurnId : Nat → Result TurnId
  cancelled : Nat → Bool
  loadAfter : Nat → Int → Result (List Message)
  inbox : Nat → Result Bytes
  batchCancelled : Nat → Bool
  batchEvents : Nat → List BatchEvent
  phase : Nat → ProviderPhase
  writeTrace : Nat → Result Unit

structure RenderedPrompt where
  systemPrompt : Bytes
  prefixHash : UInt64
  prefixBytes : UInt64

/-- `nativeTools` and `rendered` are the selected tools and the rendered prompt; the
flags say which optional collaborators the caller supplied, and `scheduler` has the
options of the supplied scheduler or of the turn's own. -/
structure RunTurnInputs where
  nativeTools : Result (List ToolDef)
  rendered : RenderedPrompt
  conversationTail : List Message
  context : ContextOptions := {}
  checkpoint : WorkingContext := {}
  historyEnd : Int := 0
  historyLoader : Bool := false
  inboxReader : Bool := false
  toolChoice : Option Bytes := none
  maxTokens : Option UInt32 := none
  thinkingBudget : Option UInt32 := none
  retry : RetryPolicy := {}
  stream : Bool := true
  turnId : Option TurnId := none
  traceConfigured : Bool := false
  blockingExecutor : Bool := false
  tools : Bool := false
  scheduler : ToolSchedulerOptions := {}
  dispatchContext : Bool := false
  sink : Bool := false

structure Loop where
  route : Route
  maxIterations : UInt32 := 16

structure RunTurnResult where
  text : Bytes
  assistantBlocks : List Content
  stopReason : StopReason
  usage : Usage
  modelUsed : Bytes
  renderedPrompt : RenderedPrompt
  iterations : UInt32
  transcript : List Message
  checkpoint : WorkingContext

inductive Entry
  /-- A stored message was loaded. -/
  | loaded (message : Message)
  | summary (request : Request) (attempts : List Attempt)
  | compacted
  | inbox (inbox : Bytes)
  /-- A main request was sent while the view had this checkpoint. -/
  | main (checkpoint : WorkingContext) (request : Request) (attempts : List Attempt)
      (reply : Result Response)
  /-- A complete response was taken over. -/
  | answer (blocks : List Content)
  /-- These calls went to the scheduler. -/
  | batch (calls : List ToolBatchCall)
  | results (blocks : List Content)

/-- The readings and measurements of a turn. -/
structure Progress where
  tick : Nat := 0
  usage : Usage := {}
  target : Attribution
  log : List Entry := []

structure Turn where
  progress : Progress
  view : ContextView
  transcript : List Message
  toolUseIds : List Bytes := []

def addUsage (total next : Usage) : Usage :=
  { inputTokens := total.inputTokens + next.inputTokens
    outputTokens := total.outputTokens + next.outputTokens
    cacheCreationTokens := total.cacheCreationTokens + next.cacheCreationTokens
    cacheReadTokens := total.cacheReadTokens + next.cacheReadTokens }

def appendTextBlock (output t : Bytes) : Bytes :=
  (if !output.isEmpty && !t.isEmpty then output ++ text "\n" else output) ++ t

def assembleTerminalText (blocks : List Content) : Bytes :=
  blocks.foldl (fun output block =>
    match block with
    | .text t => appendTextBlock output t
    | _ => output) []

def unsupportedResponse (reason : String) : Error :=
  (Error.internal "agent loop: response requires a later loop slice").note "reason" (text reason)

def iterationCapError (maxIterations : UInt32) : Error :=
  ((Error.internal "agent loop: iteration cap reached").note "reason" (text "iteration_cap")).note
    "max_iterations" (decimal maxIterations.toNat)

def withCancellationPhase (error : Error) (phase : Bytes) : Error :=
  if error.kind != .cancelled then error
  else (error.note "reason" (text "parent_cancelled")).note "cancellation_phase" phase

def incompleteResponse (stopReason : StopReason) : Error :=
  (Error.upstream (if stopReason == .maxTokens
    then "model output limit reached before response completion"
    else "provider response did not complete")).note "stop_reason" stopReason.name

def toolUsesIn (blocks : List Content) : List ToolBatchCall :=
  blocks.filterMap fun block =>
    match block with
    | .toolUse id name inputJson => some ⟨id, name, inputJson⟩
    | _ => none

/-- The identities seen in the turn after those of a response, which must be new. -/
def admitToolUseIds : Nat → List ToolBatchCall → List Bytes → Result (List Bytes)
  | _, [], seen => .ok seen
  | i, use :: rest, seen =>
    if use.toolUseId.isEmpty || seen.contains use.toolUseId then
      .error (((Error.upstream "provider returned an invalid tool-call ID").note "reason"
        (if use.toolUseId.isEmpty then text "empty_tool_use_id"
          else text "duplicate_tool_use_id")).note
        "tool_index" (decimal i))
    else admitToolUseIds (i + 1) rest (seen ++ [use.toolUseId])

def renderToolError (error : Error) : Bytes :=
  text "tool error: " ++ text error.message ++
    error.context.flatMap fun (key, value) => text "\n" ++ text key ++ text ": " ++ value

def modelVisibleToolError : ErrorKind → Bool
  | .cancelled | .storage | .internal => false
  | _ => true

def toolNotice (output : ToolOutput) : Bytes :=
  (if output.truncated then
    text
      "[Tool output truncated. Request a smaller range; do not assume the displayed result is complete.]\n"
  else []) ++
  (if output.dataDropped then
    text "[Structured tool data omitted because it exceeded the output limit.]\n"
  else [])

def toolResultFrom (toolUseId : Bytes) (output : Result ToolOutput) : Result Content :=
  match output with
  | .ok output =>
    .ok (.toolResult toolUseId (toolNotice output ++ output.text) output.dataJson output.isError)
  | .error e =>
    if modelVisibleToolError e.kind then .ok (.toolResult toolUseId (renderToolError e) none true)
    else .error e

def collectToolResults : List ToolBatchResult → Result (List Content)
  | [] => .ok []
  | row :: rest =>
    match toolResultFrom row.toolUseId row.output with
    | .error e => .error e
    | .ok result =>
      match collectToolResults rest with
      | .error e => .error e
      | .ok results => .ok (result :: results)

/-- `std::max` of two 32-bit values. -/
def maxBudget (a b : UInt32) : UInt32 := if a < b then b else a

def thinkingBudget (loop : Loop) (inputs : RunTurnInputs) : Option UInt32 :=
  if inputs.thinkingBudget.isSome then inputs.thinkingBudget else loop.route.primary.thinkingBudget

/-- The largest thinking budget that any target of the route may be sent. -/
def thinkingReserve (loop : Loop) (inputs : RunTurnInputs) : UInt32 :=
  loop.route.fallbacks.foldl
    (fun reserve target => maxBudget reserve (target.thinkingBudget.getD 0))
    (maxBudget ((thinkingBudget loop inputs).getD 0) (loop.route.primary.thinkingBudget.getD 0))

def requestFrame (loop : Loop) (inputs : RunTurnInputs) (tools : List ToolDef) : Request :=
  { messages := []
    systemPrompt := some inputs.rendered.systemPrompt
    tools
    toolChoice := inputs.toolChoice
    maxTokens := inputs.maxTokens
    thinkingBudget := thinkingBudget loop inputs
    stream := inputs.stream
    cache := some ⟨inputs.rendered.prefixHash, inputs.rendered.prefixBytes⟩
    retry := inputs.retry }

def budgetFrame (loop : Loop) (inputs : RunTurnInputs) (tools : List ToolDef) : Request :=
  { requestFrame loop inputs tools with thinkingBudget := some (thinkingReserve loop inputs) }

def resetThinking (target : ModelTarget) : ModelTarget := { target with thinkingBudget := none }

def summaryRoute (route : Route) : Route :=
  ⟨resetThinking route.primary, route.fallbacks.map resetThinking⟩

section RunTurn

variable (env : TurnEnv) (loop : Loop) (inputs : RunTurnInputs)

/-- A summary uses the route without thinking budgets and never streams. -/
def summarize (request : Request) (p : Progress) : Reply × Progress :=
  let (outcome, attempts, tick) :=
    Execution.run env.backend request (summaryRoute loop.route) false p.tick
  let p := { p with tick, target := outcome.target, log := p.log ++ [.summary request attempts] }
  match outcome.response with
  | .error e => (.returns (.error e), p)
  | .ok response => (.returns (.ok response), { p with usage := addUsage p.usage response.usage })

/-- `observer.fail`: an error of the turn, with a failed trace write noted on it. -/
def failTurn {α : Type} (error : Error) (turn : Turn) : Result α × Turn :=
  if !inputs.traceConfigured then (.error error, turn)
  else
    let next := { turn with progress := { turn.progress with tick := turn.progress.tick + 1 } }
    match env.writeTrace turn.progress.tick with
    | .ok _ => (.error error, next)
    | .error e => (.error (error.note "trace_write_failed" (text e.message)), next)

/-- One call of `fit_context` on the turn's view. -/
def fitView (tools : List ToolDef) (turn : Turn) : Result Unit × Turn :=
  let (result, view, p) :=
    fitContext (summarize env loop) inputs.context (budgetFrame loop inputs tools)
    (env.cancelled turn.progress.tick) turn.view { turn.progress with tick :=
      turn.progress.tick + 1 }
  let log := if view.checkpoint = turn.view.checkpoint then p.log else p.log ++ [.compacted]
  (result, { turn with view, progress := { p with log } })

/-- The messages of a page enter the view one by one. -/
def loadPage (tools : List ToolDef) : List Message → Turn → Result Unit × Turn
  | [], turn => (.ok (), turn)
  | message :: rest, turn =>
    match fitView env loop inputs tools { turn with
        view := { turn.view with messages := turn.view.messages ++ [message] }
        progress := { turn.progress with log := turn.progress.log ++ [.loaded message] } } with
    | (.error e, turn) => (.error e, turn)
    | (.ok _, turn) => loadPage tools rest turn

/-- The loop over the pages; every page brings at least one message, so the number of
missing messages bounds the pages. -/
def loadHistory (tools : List ToolDef) : Nat → Int → Turn → Result Unit × Turn
  | 0, _, turn => (.ok (), turn)
  | fuel + 1, loaded, turn =>
    if loaded < inputs.historyEnd then
      if !inputs.historyLoader then (.error (.invalidArgument "missing history reader"), turn)
      else
        let next := { turn with progress := { turn.progress with tick := turn.progress.tick + 1 } }
        match env.loadAfter turn.progress.tick loaded with
        | .error e => (.error e, next)
        | .ok page =>
          if page.isEmpty || decide ((inputs.historyEnd - loaded).toNat < page.length) then
            (.error (.storage "incomplete context history page"), next)
          else
            match loadPage env loop inputs tools page next with
            | (.error e, turn) => (.error e, turn)
            | (.ok _, turn) => loadHistory tools fuel (loaded + page.length) turn
    else (.ok (), turn)

/-- A message enters the transcript and the view. -/
def Turn.push (turn : Turn) (message : Message) (entry : Entry) : Turn :=
  { turn with
    transcript := turn.transcript ++ [message]
    view := { turn.view with messages := turn.view.messages ++ [message] }
    progress := { turn.progress with log := turn.progress.log ++ [entry] } }

/-- The inbox step of an iteration. -/
def readTurnInbox (turn : Turn) : Result Unit × Turn :=
  if !inputs.inboxReader then (.ok (), turn)
  else
    let next := { turn with progress := { turn.progress with tick := turn.progress.tick + 1 } }
    match env.inbox turn.progress.tick with
    | .error e => (.error e, next)
    | .ok inbox =>
      match takeInbox inbox with
      | .error e => (.error e, next)
      | .ok none => (.ok (), next)
      | .ok (some message) => (.ok (), next.push message (.inbox inbox))

/-- The main request of an iteration and its outcome. -/
def sendMain (tools : List ToolDef) (turn : Turn) : Result Response × Turn :=
  let request := { requestFrame loop inputs tools with messages := contextMessages turn.view }
  let (outcome, attempts, tick) :=
    Execution.run env.backend request loop.route inputs.sink turn.progress.tick
  let p := { turn.progress with
    tick := tick + 1
    target := outcome.target
    log := turn.progress.log ++ [.main turn.view.checkpoint request attempts outcome.response] }
  match outcome.response with
  | .error e =>
    let phase := if inputs.sink then env.phase tick else .initial
    (.error (withCancellationPhase e phase.name), { turn with progress := p })
  | .ok response =>
    (.ok response, { turn with progress := { p with usage := addUsage p.usage response.usage } })

/-- The completion and identity checks before a response has any effect. -/
def admitResponse (turn : Turn) (response : Response) : Result (List Bytes) :=
  if response.stopReason == .cancelled then
    .error (withCancellationPhase .cancelled (text "provider_complete"))
  else if response.stopReason != .endTurn && response.stopReason != .stopSequence &&
      response.stopReason != .toolUse then
    .error (incompleteResponse response.stopReason)
  else admitToolUseIds 0 (toolUsesIn response.blocks) turn.toolUseIds

/-- The tool batch of a response. -/
def runTools (turn : Turn) (response : Response) : Result Unit × Turn :=
  let uses := toolUsesIn response.blocks
  if !inputs.tools || !inputs.dispatchContext
    then (.error (unsupportedResponse "tool_use response"), turn)
  else if uses.isEmpty then
    (.error (unsupportedResponse "tool_use stop reason without tool blocks"), turn)
  else
    let turn := turn.push ⟨.assistant, response.blocks, none⟩ (.answer response.blocks)
    let next := { turn with progress := { turn.progress with
      tick := turn.progress.tick + 1
      log := turn.progress.log ++ [.batch uses] } }
    match runBatch inputs.scheduler uses (env.batchCancelled turn.progress.tick)
        (env.batchEvents turn.progress.tick) with
    | .error e => (.error (withCancellationPhase e (text "tools")), next)
    | .ok batch =>
      match collectToolResults batch with
      | .error e => (.error (withCancellationPhase e (text "tools")), next)
      | .ok results => (.ok (), next.push ⟨.tool, results, none⟩ (.results results))

/-- The last response of a turn. Its message enters the transcript only. -/
def finishTurn (iteration : UInt32) (turn : Turn) (response : Response) :
    Result RunTurnResult × Turn :=
  let turn := { turn with
    transcript := turn.transcript ++ [⟨.assistant, response.blocks, none⟩]
    progress := { turn.progress with log := turn.progress.log ++ [.answer response.blocks] } }
  let result : RunTurnResult :=
    { text := assembleTerminalText response.blocks
      assistantBlocks := response.blocks
      stopReason := response.stopReason
      usage := turn.progress.usage
      modelUsed := turn.progress.target.model
      renderedPrompt := inputs.rendered
      iterations := iteration
      transcript := turn.transcript
      checkpoint := turn.view.checkpoint }
  if !inputs.traceConfigured then (.ok result, turn)
  else
    let next := { turn with progress := { turn.progress with tick := turn.progress.tick + 1 } }
    match env.writeTrace turn.progress.tick with
    | .error e => (.error e, next)
    | .ok _ => (.ok result, next)

/-- One iteration: a result, an error, or another iteration. -/
def runIteration (tools : List ToolDef) (iteration : UInt32) (turn : Turn) :
    Result (Option RunTurnResult) × Turn :=
  match readTurnInbox env inputs turn with
  | (.error e, turn) => failTurn env inputs e turn
  | (.ok _, turn) =>
    match fitView env loop inputs tools turn with
    | (.error e, turn) => failTurn env inputs e turn
    | (.ok _, turn) =>
      match sendMain env loop inputs tools turn with
      | (.error e, turn) => failTurn env inputs e turn
      | (.ok response, turn) =>
        match admitResponse turn response with
        | .error e => failTurn env inputs e turn
        | .ok ids =>
          let turn := { turn with toolUseIds := ids }
          if response.stopReason == .toolUse || !(toolUsesIn response.blocks).isEmpty then
            match runTools env inputs turn response with
            | (.error e, turn) => failTurn env inputs e turn
            | (.ok _, turn) => (.ok none, turn)
          else
            match finishTurn env inputs iteration turn response with
            | (.error e, turn) => (.error e, turn)
            | (.ok result, turn) => (.ok (some result), turn)

/-- The iterations that are left are counted down. The source counts its 32-bit iterations up, so at
a cap of `UINT32_MAX` its counter wraps and the loop goes on. -/
def iterate (tools : List ToolDef) : Nat → UInt32 → Turn → Result RunTurnResult × Turn
  | 0, _, turn =>
    if loop.maxIterations == 0 then (.error (iterationCapError loop.maxIterations), turn)
    else failTurn env inputs (iterationCapError loop.maxIterations) turn
  | left + 1, iteration, turn =>
    match runIteration env loop inputs tools iteration turn with
    | (.error e, turn) => (.error e, turn)
    | (.ok (some result), turn) => (.ok result, turn)
    | (.ok none, turn) => iterate tools left (iteration + 1) turn

/-- The checks that come before any reading, with the selected tools. -/
def validateInputs : Result (List ToolDef) :=
  if inputs.traceConfigured && !inputs.blockingExecutor then
    .error (.invalidArgument "trace blocking executor is not configured")
  else
    match (if inputs.traceConfigured && inputs.turnId.isNone
      then (env.generateTurnId 0).map fun _ => ()
      else .ok ()) with
    | .error e => .error e
    | .ok _ =>
      match validateContextOptions inputs.context with
      | .error e => .error e
      | .ok _ =>
        if inputs.checkpoint.coveredSequence < 0 ||
            inputs.historyEnd < inputs.checkpoint.coveredSequence ||
            inputs.checkpoint.revision < 0 ||
            (0 < inputs.checkpoint.coveredSequence && inputs.checkpoint.summary.isEmpty) then
          .error (.invalidArgument "invalid context coverage")
        else
          match (if inputs.checkpoint.summary.isEmpty then .ok ()
            else validateContextSummary inputs.checkpoint.summary
              inputs.context.summaryMaxBytes) with
          | .error e => .error e
          | .ok _ => inputs.nativeTools

/-- The turn before anything was loaded. -/
def startTurn : Turn :=
  { progress := { tick := 1, target := Execution.attribution loop.route.primary false }
    view := { checkpoint := inputs.checkpoint, messages := [] }
    transcript := inputs.conversationTail }

/-- The transcript so far joins the loaded history. -/
def Turn.join (turn : Turn) : Turn :=
  { turn with view := { turn.view with messages := turn.view.messages ++ turn.transcript } }

/-- `run_turn`, with the log of what it read and sent. -/
def runTurn : Result RunTurnResult × List Entry :=
  match validateInputs env inputs with
  | .error e => (.error e, [])
  | .ok tools =>
    let missing := (inputs.historyEnd - inputs.checkpoint.coveredSequence).toNat
    match loadHistory env loop inputs tools missing inputs.checkpoint.coveredSequence
        (startTurn loop inputs) with
    | (.error e, turn) =>
      let (result, turn) : Result RunTurnResult × Turn := failTurn env inputs e turn
      (result, turn.progress.log)
    | (.ok _, turn) =>
      let (result, turn) := iterate env loop inputs tools loop.maxIterations.toNat 1 turn.join
      (result, turn.progress.log)

end RunTurn

end Orangutan.Agent
