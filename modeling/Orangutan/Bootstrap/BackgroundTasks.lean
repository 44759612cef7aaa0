import Orangutan.Bootstrap.TeamMessages

/-!
# The background task service

The public operations, and the service as a transition system. Every operation
runs without interruption on the coordinating strand; timers, posted pumps and
monitor completions are transitions of their own.
-/

namespace Orangutan.Bootstrap

set_option autoImplicit false

open Orangutan.Core Orangutan.Core.Str Orangutan.Lib Orangutan.Tool

/-- The bounds `BackgroundTasks::create` accepts. Durations are milliseconds. -/
def BackgroundTaskOptions.valid (o : BackgroundTaskOptions) : Bool :=
  !(o.maxRunning == 0 || decide (32 < o.maxRunning) || decide (128 < o.maxQueued) ||
    decide (o.maxRecords < o.maxRunning) || decide (1024 < o.maxRecords) ||
    decide (o.maxResultBytes < 4) || decide (4194304 < o.maxResultBytes) ||
    decide (o.timeout ≤ 0) || decide (86400000 < o.timeout) ||
    decide (o.retention ≤ 0) || decide (86400000 < o.retention))

namespace State

def empty (svc : Service) : State :=
  { svc
    jobs := []
    jobHeap := ⟨fun _ => ⟨⟨⟨List.replicate 16 0, rfl⟩, [], [], []⟩, none, { taskId := [] }, [], [],
      false, false, 0, none, true⟩, 0⟩
    teams := []
    teamHeap :=
      ⟨fun _ => { owner := ⟨⟨List.replicate 16 0, rfl⟩, [], [], []⟩, id := [], goal := [] }, 0⟩
    active := 0
    closed := false
    joining := false
    tick := 0
    posted := 0 }

def create (svc : Service) : Result State :=
  if !svc.options.valid then .error (.invalidArgument "invalid background task bounds or executor")
  else .ok (empty svc)

def matchesSession (s : State) (parent : AgentSessionOptions) : Bool :=
  parent.config == s.svc.config && parent.assembly == s.svc.assembly &&
    parent.executor == s.svc.executor

/-- The record of a plain background run. -/
def plainJob (s : State) (parent : AgentSessionOptions) (request : AgentRunRequest)
    (context : DispatchContext) (id : TurnId) : Job :=
  { owner := taskOwner parent
    parentTurn := context.parentTurnId
    snapshot := {
      taskId := formatTurnIdHex id
      agentKey := text "child/" ++ formatTurnIdHex id
      label := if request.label.isEmpty then text "Background task" else request.label
      automaticDelivery := s.options.automaticDelivery }
    prompt := request.prompt }

def start (s : State) (parent : AgentSessionOptions) (request : AgentRunRequest)
    (context : DispatchContext) : Result TaskSnapshot × State :=
  if !s.matchesSession parent || parent.parentPolicy || parent.maxChildRuns == 0 then
    (.error (.permissionDenied "background delegation is disabled for this caller"), s)
  else if request.prompt.isEmpty || decide (16384 < request.prompt.length) ||
      !isValidUtf8 request.prompt || decide (120 < request.label.length) ||
      !isValidUtf8 request.label || request.label.any fun c => c < 0x20 || c == 0x7F then
    (.error (.invalidArgument "invalid background task prompt or label"), s)
  else
    let s := s.prune
    if s.closed || decide (s.options.maxRecords ≤ s.jobs.length) ||
        decide (s.options.maxRunning + s.options.maxQueued ≤ s.unfinished) then
      (.error (.of .mailboxOverflowed "background task capacity reached"), s)
    else
      match s.svc.env.turnId s.tick with
      | .error e => (.error e, s.read)
      | .ok id =>
        if s.jobs.any fun r => (s.job r).snapshot.taskId == formatTurnIdHex id then
          (.error (.of .conflict "background task identity collision"), s.read)
        else
          match s.svc.env.childRules (s.tick + 1), s.svc.env.childSession (s.tick + 2) with
          | .error e, _ => (.error e, s.read.read)
          | .ok _, .error e => (.error e, s.read.read.read)
          | .ok _, .ok _ =>
            let job := s.plainJob parent request context id
            match s.read.read.read.enqueue job with
            | (.error e, s) => (.error e, s)
            | (.ok _, s) => (.ok job.snapshot, s)

def get (s : State) (owner : TaskOwner) (id : Bytes) (offset maxBytes : Nat) :
    Result TaskSnapshot × State :=
  let s := s.prune
  match s.find owner id with
  | none => (.error (.notFound "task is unavailable in this session or has expired"), s)
  | some r =>
    let result := (s.job r).result
    if maxBytes == 0 || decide (16384 < maxBytes) || decide (result.length < offset) ||
        interiorOffset result offset then
      (.error (.invalidArgument "invalid task result window"), s)
    else
      let window := truncateToCodePoint (result.drop offset) maxBytes
      if window.isEmpty && decide (offset < result.length) then
        (.error (.invalidArgument "task result window cannot fit one UTF-8 character"), s)
      else
        (.ok { (s.job r).snapshot with
            resultOffset := offset
            result := window
            nextOffset :=
              if offset + window.length < result.length then some (offset + window.length)
                else none },
          s)

def cancel (s : State) (owner : TaskOwner) (id : Bytes) : Result TaskSnapshot × State :=
  let s := s.prune
  match s.find owner id with
  | none => (.error (.notFound "task is unavailable in this session or has expired"), s)
  | some r =>
    let s := s.cancelJob r false
    (.ok (s.job r).snapshot, s)

def list (s : State) (owner : TaskOwner) : List TaskSnapshot × State :=
  let s := s.prune
  ((s.jobs.filter fun r => (s.job r).owner == owner).map fun r => (s.job r).snapshot, s)

/-- A report that automatic delivery still owes its owner. -/
def deliverable (owner : TaskOwner) (job : Job) : Bool :=
  job.owner == owner && taskTerminal job.snapshot.state && job.snapshot.automaticDelivery &&
    !job.snapshot.acknowledged && !job.claimed

def nextCompletion (s : State) (owner : TaskOwner) : Option Bytes :=
  (s.jobs.find? fun r => deliverable owner (s.job r)).map fun r => (s.job r).snapshot.taskId

def claimCompletion (s : State) (owner : TaskOwner) (id : Bytes) : Result Bool × State :=
  let s := s.prune
  match s.find owner id with
  | none => (.error (.notFound "task completion is unavailable"), s)
  | some r =>
    let job := s.job r
    if job.snapshot.acknowledged then (.ok false, s)
    else if !taskTerminal job.snapshot.state || job.claimed then
      (.error (.of .conflict "task completion is not ready"), s)
    else (.ok true, s.setJob r { job with claimed := true })

def finishCompletion (s : State) (owner : TaskOwner) (id : Bytes) (committed : Bool) : State :=
  let s := s.prune
  match s.find owner id with
  | none => s
  | some r =>
    let job := s.job r
    s.setJob r { job with
      claimed := false
      snapshot := { job.snapshot with acknowledged := job.snapshot.acknowledged || committed } }

def cancelOwner (s : State) (owner : TaskOwner) (turn : Option TurnId) : State :=
  let s :=
    match s.findTeam owner, turn with
    | none, _ => s
    | some tr, none => s.stopTeam tr
    | some tr, some turn =>
      s.setTeam tr { s.team tr with work := (s.team tr).work.map (Team.Work.abandon turn) }
  cancelJobs (fun job => job.owner == owner && (turn.isNone || job.parentTurn == turn)) s.jobs s

def stopTeams : List TeamRef → State → State
  | [], s => s
  | tr :: rest, s => stopTeams rest (s.stopTeam tr)

/-- Close admission, stop every team and cancel every job. -/
def closeAll (s : State) : State :=
  let s := { s with closed := true }
  let s := stopTeams s.teams s
  cancelJobs (fun _ => true) s.jobs s

def shutdown (s : State) : Result Unit × State :=
  if s.joining then (.error (.of .conflict "background shutdown already active"), s)
  else (.ok (), { s with joining := true }.closeAll)

/-- The board commands proper, with the output window they select. -/
def teamRequest (s : State) (parent : AgentSessionOptions) (command : TeamCommand)
    (context : DispatchContext) : Result TeamGetRequest × State :=
  match command with
  | .create request =>
    match s.createTeam parent request context with
    | (.error e, s) => (.error e, s)
    | (.ok _, s) => (.ok {}, s)
  | command =>
    match s.findTeam (taskOwner parent) with
    | none => (.error (.notFound "team is unavailable in this session"), s)
    | some tr =>
      match command with
      | .memberAdd request =>
        match s.addTeamMember parent (s.team tr) request.member context with
        | (.error e, s) => (.error e, s)
        | (.ok team, s) => (.ok {}, s.setTeam tr team)
      | .taskCreate request =>
        match s.submitTeamTask tr request context.parentTurnId with
        | (.error e, s) => (.error e, s)
        | (.ok _, s) => (.ok { key := request.key }, s)
      | .taskUpdate request =>
        match s.updateTeamTask tr request context.parentTurnId with
        | (.error e, s) => (.error e, s)
        | (.ok _, s) => (.ok { key := request.key }, s)
      | .get request => (.ok request, s)
      | .stop => (.ok {}, s.stopTeam tr)
      | _ => (.ok {}, s)

def teamCommand (s : State) (parent : AgentSessionOptions) (command : TeamCommand)
    (context : DispatchContext) : Result ToolOutput × State :=
  if !s.options.enableTeams || !s.matchesSession parent || parent.parentPolicy ||
    parent.maxChildRuns == 0 ||
      isZeroTurnId parent.sessionId || context.scopeKey != parent.scopeKey ||
      context.agentKey != parent.agentKey || context.identity != parent.identity then
    (.error (.permissionDenied "agent teams are unavailable for this caller"), s)
  else
    match validateTeamCommand command with
    | .error e => (.error e, s)
    | .ok _ =>
      if s.closed && !command.reading && !command.stopping then
        (.error (.of .conflict "background task service is closed"), s)
      else
        match command with
        | .message request =>
          match s.findTeam (taskOwner parent) with
          | none => (.error (.notFound "team is unavailable in this session"), s)
          | some tr => s.sendTeamMessage tr leaderName request
        | command =>
          match s.teamRequest parent command context with
          | (.error e, s) => (.error e, s)
          | (.ok window, s) =>
            let s := if command.reading then s else s.pump
            match s.findTeam (taskOwner parent) with
            | none => (.error (.notFound "team is unavailable in this session"), s)
            | some tr => (teamOutput (s.team tr) s.options.automaticDelivery window, s)

inductive Op
  | start (parent : AgentSessionOptions) (request : AgentRunRequest) (context : DispatchContext)
  | teamCommand (parent : AgentSessionOptions) (command : TeamCommand) (context : DispatchContext)
  /-- A member session uses the send port bound to its team and name. -/
  | memberSend (tr : TeamRef) (member : Bytes) (request : TeamMessageRequest)
  | get (owner : TaskOwner) (id : Bytes) (offset maxBytes : Nat)
  | list (owner : TaskOwner)
  | cancel (owner : TaskOwner) (id : Bytes)
  | cancelOwner (owner : TaskOwner) (turn : Option TurnId)
  | claimCompletion (owner : TaskOwner) (id : Bytes)
  | finishCompletion (owner : TaskOwner) (id : Bytes) (committed : Bool)
  /-- A pump callback runs. -/
  | pump
  /-- A deadline timer fires; the job object is still held by the service. -/
  | deadline (r : JobRef)
  /-- The monitor of a launched job reaches its end. -/
  | monitor (r : JobRef) (joined : Bool) (outcome : Option (Except ErrorKind Bytes))
  | shutdown
  /-- The pending shutdown finds every job joined and returns. -/
  | joined
  /-- The destructor. -/
  | destroy

def Enabled (s : State) : Op → Prop
  | .memberSend tr member _ =>
    tr < s.teamHeap.next ∧ ∃ m ∈ (s.team tr).members, m.snapshot.name = member
  | .pump => 0 < s.posted
  | .deadline r => r ∈ s.jobs
  | .monitor r _ _ =>
    r ∈ s.jobs ∧ ((s.job r).snapshot.state = .running ∨ (s.job r).snapshot.state = .cancelling)
  | .joined => s.joining = true ∧ s.active = 0
  | _ => True

instance (s : State) (op : Op) : Decidable (s.Enabled op) := by
  cases op <;> unfold Enabled <;> infer_instance

def apply (s : State) : Op → State
  | .start parent request context => (s.start parent request context).2
  | .teamCommand parent command context => (s.teamCommand parent command context).2
  | .memberSend tr member request => (s.sendTeamMessage tr member request).2
  | .get owner id offset maxBytes => (s.get owner id offset maxBytes).2
  | .list owner => (s.list owner).2
  | .cancel owner id => (s.cancel owner id).2
  | .cancelOwner owner turn => s.cancelOwner owner turn
  | .claimCompletion owner id => (s.claimCompletion owner id).2
  | .finishCompletion owner id committed => s.finishCompletion owner id committed
  | .pump => { s with posted := s.posted - 1 }.pump
  | .deadline r => (s.cancelJob r true).pump
  | .monitor r joined outcome => s.monitor r joined outcome
  | .shutdown => s.shutdown.2
  | .joined => { s with joining := false }
  | .destroy => s.closeAll

def Step (s t : State) : Prop := ∃ op, s.Enabled op ∧ s.apply op = t

/-- The states of a created service, between uninterrupted operations. -/
def Reachable (svc : Service) (s : State) : Prop :=
  ∃ s₀, create svc = .ok s₀ ∧ Relation.ReflTransGen Step s₀ s

end State

end Orangutan.Bootstrap
