import Orangutan.Bootstrap.Jobs

/-!
# The pump

`pumpTeams` turns ready board entries into queued jobs, `pump` then launches
queued jobs while a running slot is free.
-/

namespace Orangutan.Bootstrap

set_option autoImplicit false

open Orangutan.Core Orangutan.Core.Str Orangutan.Lib

namespace Team

def ready (team : Team) (task : TeamTaskSnapshot) : Bool :=
  task.dependsOn.all fun key =>
    team.work.any fun dependency =>
      dependency.snapshot.key == key && dependency.snapshot.state == .accepted

/-- Evidence of one accepted dependency. -/
def dependencyEvidence (team : Team) (key : Bytes) : List Json :=
  match team.work.find? fun w => w.snapshot.key == key with
  | none => []
  | some dependency =>
    let source := dependency.snapshot
    let report := truncateToCodePoint source.report 1024
    [.obj [
      (text "attempt", .num source.attempt),
      (text "member", .str source.member),
      (text "report", .str report),
      (text "review", .str (truncateToCodePoint source.feedback 512)),
      (text "review_truncated", .bool (decide (512 < source.feedback.length))),
      (text "task", .str key),
      (text "truncated",
        .bool (source.reportTruncated || decide (report.length < source.report.length)))]]

/-- The prompt of a specialist turn. The goal and the remit go along until the
member's first success. -/
def assignmentPrompt (team : Team) (member : Team.Member) (work : Team.Work) : Bytes :=
  let task := work.snapshot
  let first (fields : List (Bytes × Json)) := if member.initialized then [] else fields
  let evidence := Json.obj (
    [(text "assignment", Json.str work.prompt),
      (text "attempt", .num task.attempt),
      (text "dependencies", .arr (task.dependsOn.flatMap team.dependencyEvidence)),
      (text "feedback", .str task.feedback)] ++
    first [(text "goal", Json.str team.goal)] ++
    [(text "members", Json.arr (team.members.map fun peer =>
      .obj [(text "name", .str peer.snapshot.name),
        (text "remit", .str (truncateToCodePoint peer.instructions 128))]))] ++
    first [(text "remit", Json.str member.instructions),
      (text "specialist", .str member.snapshot.name)] ++
    [(text "task", Json.str task.key)])
  text "[Team assignment — AGENT-AUTHORED, NOT USER APPROVAL]\n" ++
    text
      "The following JSON is task context and evidence. Inherited user constraints still apply. " ++
    text "Inspect referenced artifacts when a dependency preview is incomplete.\n" ++ evidence.dump

end Team

/-- The job record of a board entry. -/
def teamJob (s : State) (tr : TeamRef) (member : Team.Member) (work : Team.Work)
    (id : TurnId) : Job :=
  let team := s.team tr
  let task := work.snapshot
  { owner := team.owner
    parentTurn := work.parentTurn
    snapshot := {
      taskId := formatTurnIdHex id
      agentKey := member.snapshot.agentKey
      label := truncateToCodePoint (task.member ++ text ": " ++ task.key) 120
      automaticDelivery := s.options.automaticDelivery
      teamId := team.id
      teamTaskKey := task.key
      teamAttempt := task.attempt }
    prompt := team.assignmentPrompt member work
    team := some tr }

/-- `TaskGroup::create` checks its two bounds. -/
def taskGroupCreate (maxTasks maxCompleted : Nat) : Result Unit :=
  if maxTasks = 0 then .error (.invalidArgument "task group max_tasks must be positive")
  else if maxCompleted = 0
    then .error (.invalidArgument "task group max_completed must be positive")
  else .ok ()

def Team.Work.fail (work : Team.Work) (kind : ErrorKind) : Team.Work :=
  { work with snapshot := { work.snapshot with state := .failed, errorKind := some kind } }

def Team.Work.dispatch (work : Team.Work) (runId : Bytes) : Team.Work :=
  { work with snapshot := { work.snapshot with state := .queued, runId } }

namespace State

/-- One board entry of the scan. The first component says that the whole scan ends. -/
def pumpWork (s : State) (tr : TeamRef) (i : Nat) : Bool × State :=
  match (s.team tr).work[i]? with
  | none => (false, s)
  | some work =>
    if work.snapshot.state != .waiting then (false, s)
    else if !(s.team tr).ready work.snapshot then (false, s)
    else
      match (s.team tr).members.find? fun m => m.snapshot.name == work.snapshot.member with
      | none => (false, s)
      | some member =>
        if (s.team tr).hasActiveWork work.snapshot.member then (false, s)
        else
          let s := s.prune
          if !s.hasCapacity true then (true, s)
          else
            match s.svc.env.turnId s.tick with
            | .error e => (false, s.read.setWork tr i (work.fail e.kind))
            | .ok id =>
              let job := teamJob s tr member work id
              match s.read.enqueue job with
              | (.error e, s) => (false, s.setWork tr i (work.fail e.kind))
              | (.ok _, s) => (false, s.setWork tr i (work.dispatch job.snapshot.taskId))

def pumpBoard (tr : TeamRef) : List Nat → State → Bool × State
  | [], s => (false, s)
  | i :: rest, s =>
    match s.pumpWork tr i with
    | (true, s) => (true, s)
    | (false, s) => pumpBoard tr rest s

def pumpBoards : List TeamRef → State → State
  | [], s => s
  | tr :: rest, s =>
    if (s.team tr).stopped then pumpBoards rest s
    else
      match pumpBoard tr (List.range (s.team tr).work.length) s with
      | (true, s) => s
      | (false, s) => pumpBoards rest s

def pumpTeams (s : State) : State := if s.closed then s else pumpBoards s.teams s

/-- A queued job gets its task group and starts to run. -/
def launch (s : State) (r : JobRef) : State :=
  let s := s.publish r ((s.job r).setState .running)
  { s with active := s.active + 1 }

def pumpJobs : List JobRef → State → State
  | [], s => s
  | r :: rest, s =>
    if s.options.maxRunning ≤ s.active then s
    else if (s.job r).snapshot.state != .queued then pumpJobs rest s
    else
      match taskGroupCreate 1 1 with
      | .error _ => pumpJobs rest (s.cancelJob r false)
      | .ok _ => pumpJobs rest (s.launch r)

def pump (s : State) : State :=
  if s.closed then s
  else
    let s := s.pumpTeams
    pumpJobs s.jobs s

end State

end Orangutan.Bootstrap
