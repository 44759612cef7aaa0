import Orangutan.Bootstrap.State
import Orangutan.Lib.Entries

/-!
# Job records

Admission, retention, cancellation and completion of job records, with the
callback that carries a job's state over to the team board. A capacity test of the
source prunes before it counts; the tests below are read on the pruned state.
-/

namespace Orangutan.Bootstrap

set_option autoImplicit false

open Orangutan.Core Orangutan.Core.Str Orangutan.Lib

namespace Team

/-- An empty name asks about every member. -/
def hasActiveWork (team : Team) (member : Bytes) : Bool :=
  team.work.any fun task =>
    (member.isEmpty || task.snapshot.member == member) && teamTaskActive task.snapshot.state

def waitingWork (team : Team) : Nat := team.work.countP fun w => w.snapshot.state == .waiting

/-- The first member of that name has completed a turn. -/
def markInitialized (team : Team) (name : Bytes) (succeeded : Bool) : List Team.Member :=
  match findEntry (fun m => m.snapshot.name == name) team.members with
  | none => team.members
  | some (i, m) => team.members.set i { m with initialized := m.initialized || succeeded }

end Team

namespace Job

def acknowledge (job : Job) : Job :=
    { job with snapshot := { job.snapshot with acknowledged := true } }

def setState (job : Job) (state : TaskState) : Job :=
  { job with snapshot := { job.snapshot with state } }

/-- A terminal state with its error kind, at the given clock reading. The child session goes. -/
def settle (job : Job) (state : TaskState) (kind : Option ErrorKind) (now : Int) : Job :=
  { job with snapshot := { job.snapshot with
    state, errorKind := kind }, finished := now, child := false }

/-- A deadline is remembered, an explicit cancel acknowledges the report. -/
def mark (job : Job) (timeout : Bool) : Job :=
  if timeout then { job with timedOut := true } else job.acknowledge

/-- A job that never ran lets go of its team and its prompt. -/
def release (job : Job) : Job := { job with team := none, prompt := [] }

/-- The result length and the finishing time are filled in. -/
def stamp (job : Job) (now : Int) : Job :=
  { job with snapshot := { job.snapshot with resultBytes := job.result.length }, finished := now }

def detach (job : Job) : Job := { job with team := none, child := false }

/-- The board entry this job's state belongs to. -/
def tracks (job : Job) (work : Team.Work) : Bool :=
  work.snapshot.key == job.snapshot.teamTaskKey && work.snapshot.runId == job.snapshot.taskId &&
    work.snapshot.attempt == job.snapshot.teamAttempt

end Job

/-- The board state that shows a job state. -/
def boardState : TaskState → TeamTaskState
  | .queued => .queued
  | .running => .running
  | .cancelling => .cancelling
  | .succeeded => .inReview
  | .failed => .failed
  | .cancelled => .cancelled

/-- What a job-state callback leaves on its board entry. A finished job also
hands over its error kind and its report. -/
def reportedTask (task : TeamTaskSnapshot) (job : Job) : TeamTaskSnapshot :=
  if taskTerminal job.snapshot.state then
    { task with
      state := boardState job.snapshot.state
      errorKind := job.snapshot.errorKind
      report := truncateToCodePoint job.result 65536
      reportTruncated := job.snapshot.resultTruncated ||
        decide ((truncateToCodePoint job.result 65536).length < job.result.length) }
  else { task with state := boardState job.snapshot.state }

namespace State

def updateTeamJob (s : State) (job : Job) : State :=
  match job.team with
  | none => s
  | some tr =>
    match findEntry job.tracks (s.team tr).work with
    | none => s
    | some (i, work) =>
      let task := reportedTask work.snapshot job
      let members :=
        if taskTerminal job.snapshot.state then
          (s.team tr).markInitialized task.member (job.snapshot.state == .succeeded)
        else (s.team tr).members
      s.setTeam tr { s.team tr with
        members
        work := (s.team tr).work.set i { work with snapshot := task } }

/-- Store a job record and show its state on the board. -/
def publish (s : State) (r : JobRef) (job : Job) : State := (s.setJob r job).updateTeamJob job

/-- A record that retention may reclaim at the given clock reading. -/
def expired (s : State) (now : Int) (job : Job) : Bool :=
  taskTerminal job.snapshot.state && !job.claimed &&
    (!s.options.automaticDelivery || job.snapshot.acknowledged) &&
    decide (s.options.retention * 1000000 ≤ now - job.finished)

def prune (s : State) : State :=
  let now := s.svc.env.steadyNow s.tick
  { s.read with jobs := s.jobs.filter fun r => !s.expired now (s.job r) }

def waiting (s : State) : Nat := (s.teams.map fun tr => (s.team tr).waitingWork).sum

def unfinished (s : State) : Nat := s.jobs.countP fun r => !taskTerminal (s.job r).snapshot.state

def hasRecordCapacity (s : State) (reserved : Bool) : Bool :=
  let waiting := if reserved && decide (0 < s.waiting) then s.waiting - 1 else s.waiting
  !s.closed && decide (s.jobs.length + waiting < s.options.maxRecords)

def hasCapacity (s : State) (reserved : Bool) : Bool :=
  s.hasRecordCapacity reserved && decide (s.unfinished < s.options.maxRunning + s.options.maxQueued)

def enqueue (s : State) (job : Job) : Result Unit × State :=
  let s := s.prune
  if !s.hasCapacity job.team.isSome then
    (.error (.of .mailboxOverflowed "background task capacity reached"), s)
  else if s.jobs.any fun r => (s.job r).snapshot.taskId == job.snapshot.taskId then
    (.error (.of .conflict "background task identity collision"), s)
  else
    (.ok (), { s with
      jobs := s.jobs ++ [s.jobHeap.next]
      jobHeap := s.jobHeap.alloc job
      posted := s.posted + 1 })

/-- `find` on the pruned state. -/
def find (s : State) (owner : TaskOwner) (id : Bytes) : Option JobRef :=
  s.jobs.find? fun r => (s.job r).owner == owner && (s.job r).snapshot.taskId == id

def cancelJob (s : State) (r : JobRef) (timeout : Bool) : State :=
  let job := s.job r
  if taskTerminal job.snapshot.state || job.snapshot.state == .cancelling then
    if timeout then s else s.setJob r job.acknowledge
  else if job.snapshot.state == .queued then
    let job := (job.mark timeout).settle (if timeout then .failed else .cancelled)
      (some (if timeout then .timeout else .cancelled)) (s.svc.env.steadyNow s.tick)
    (s.read.publish r job).setJob r job.release
  else s.publish r ((job.mark timeout).setState .cancelling)

/-- How a joined child leaves its job record, before the clock is read. -/
def concludedJob (s : State) (job : Job) (joined : Bool)
    (outcome : Option (Except ErrorKind Bytes)) :
    Job :=
  if job.snapshot.state == .cancelling then
    { job with snapshot := { job.snapshot with
        state := if job.timedOut then .failed else .cancelled
        errorKind := some (if job.timedOut then .timeout else .cancelled) } }
  else
    match joined, outcome with
    | true, some (.ok text) =>
      { job with
        result := truncateToCodePoint text s.options.maxResultBytes
        snapshot := { job.snapshot with
          state := .succeeded
          resultTruncated :=
            decide ((truncateToCodePoint text s.options.maxResultBytes).length < text.length) } }
    | _, some (.error kind) =>
      { job with snapshot := { job.snapshot with
          state := if kind == .cancelled then .cancelled else .failed
          errorKind := some kind } }
    | _, _ =>
      { job with snapshot := { job.snapshot with state := .failed, errorKind := some .internal } }

/-- The last, uninterrupted part of `monitor`. `joined` says that the join
returned a report of success, `outcome` is what the child's turn left behind. The
pump of the monitor's completion handler is due afterwards. -/
def monitor (s : State) (r : JobRef) (joined : Bool) (outcome : Option (Except ErrorKind Bytes)) :
    State :=
  let job := (s.concludedJob (s.job r) joined outcome).stamp (s.svc.env.steadyNow s.tick)
  let s := (s.read.publish r job).setJob r job.detach
  { s with active := s.active - 1, posted := s.posted + 1 }

end State

end Orangutan.Bootstrap
