import Orangutan.Core.Json
import Orangutan.Lib.Heap
import Orangutan.Tool.Team

/-!
# State of the background task service

Jobs and teams are shared objects: the service, the timers, the monitors and the
jobs themselves reach them through references. `jobs` and `teams` list the
references the service still holds. Everything the process draws from outside
(identities, clock readings, construction of a child session) comes from `Env`,
one reading after the other.
-/

namespace Orangutan.Bootstrap

set_option autoImplicit false

open Orangutan.Core Orangutan.Lib

abbrev JobRef := Nat
abbrev TeamRef := Nat

inductive TaskState
  | queued
  | running
  | cancelling
  | succeeded
  | failed
  | cancelled
  deriving DecidableEq, Repr

inductive TeamTaskState
  | waiting
  | queued
  | running
  | inReview
  | accepted
  | failed
  | cancelling
  | cancelled
  deriving DecidableEq, Repr

def TeamTaskState.name : TeamTaskState → Bytes
  | waiting => text "waiting"
  | queued => text "queued"
  | running => text "running"
  | inReview => text "in_review"
  | accepted => text "accepted"
  | failed => text "failed"
  | cancelling => text "cancelling"
  | cancelled => text "cancelled"

structure TaskOwner where
  sessionId : TurnId
  scopeKey : Bytes
  agentKey : Bytes
  identity : Bytes
  deriving DecidableEq

structure TaskSnapshot where
  taskId : Bytes
  agentKey : Bytes := []
  label : Bytes := []
  state : TaskState := .queued
  automaticDelivery : Bool := false
  acknowledged : Bool := false
  result : Bytes := []
  resultOffset : Nat := 0
  resultBytes : Nat := 0
  nextOffset : Option Nat := none
  resultTruncated : Bool := false
  errorKind : Option ErrorKind := none
  teamId : Bytes := []
  teamTaskKey : Bytes := []
  teamAttempt : Nat := 0

structure BackgroundTaskOptions where
  maxRunning : Nat := 4
  maxQueued : Nat := 16
  maxRecords : Nat := 64
  maxResultBytes : Nat := 65536
  /-- Milliseconds. -/
  timeout : Int := 900000
  /-- Milliseconds. -/
  retention : Int := 3600000
  automaticDelivery : Bool := false
  enableTeams : Bool := false

structure TeamMemberSnapshot where
  name : Bytes
  agentKey : Bytes
  sessionId : Bytes
  tools : List Bytes

structure TeamTaskSnapshot where
  key : Bytes
  member : Bytes
  dependsOn : List Bytes
  attempt : Nat := 1
  state : TeamTaskState := .waiting
  runId : Bytes := []
  report : Bytes := []
  reportTruncated : Bool := false
  feedback : Bytes := []
  errorKind : Option ErrorKind := none
  deriving DecidableEq

structure InboxMessage where
  id : Bytes
  sender : Bytes
  text : Bytes
  deriving DecidableEq

namespace Team

structure Member where
  snapshot : TeamMemberSnapshot
  instructions : Bytes
  initialized : Bool := false

structure Work where
  snapshot : TeamTaskSnapshot
  prompt : Bytes
  parentTurn : Option TurnId
  deriving DecidableEq

structure Message where
  envelope : InboxMessage
  recipient : Bytes
  acknowledged : Bool := false
  deriving DecidableEq

end Team

structure Team where
  owner : TaskOwner
  id : Bytes
  goal : Bytes
  stopped : Bool := false
  members : List Team.Member := []
  work : List Team.Work := []
  messages : List Team.Message := []

structure Job where
  owner : TaskOwner
  parentTurn : Option TurnId
  snapshot : TaskSnapshot
  prompt : Bytes := []
  result : Bytes := []
  timedOut : Bool := false
  claimed : Bool := false
  /-- Steady clock, nanoseconds. -/
  finished : Int := 0
  team : Option TeamRef := none
  /-- The record still holds its child session. -/
  child : Bool := true

/-- What the process reads from outside, by position in the order of reading. -/
structure Env where
  turnId : Nat → Result TurnId
  /-- Outcome of copying the caller's permission rules. -/
  childRules : Nat → Result Unit
  /-- Outcome of constructing a child session. -/
  childSession : Nat → Result Unit
  steadyNow : Nat → Int

/-- What `BackgroundTasks::create` fixes for the lifetime of the service. The
assembly, configuration and executor are compared by identity only. -/
structure Service where
  options : BackgroundTaskOptions
  assembly : Nat
  config : Nat
  executor : Nat
  /-- Names registered in the shared tool registry. -/
  registry : List Bytes
  /-- Configured prompt tools; absent when the configuration uses the defaults. -/
  activeTools : Option (List Bytes)
  env : Env

structure State where
  svc : Service
  jobs : List JobRef
  jobHeap : Heap Job
  teams : List TeamRef
  teamHeap : Heap Team
  active : Nat
  closed : Bool
  joining : Bool
  /-- Readings taken from `Env` so far. -/
  tick : Nat
  /-- Pump callbacks on the executor: posted ones and those due after a monitor. -/
  posted : Nat

/-- The caller's session, as far as the service looks at it. -/
structure AgentSessionOptions where
  assembly : Nat
  config : Nat
  executor : Nat
  parentPolicy : Bool
  maxChildRuns : Nat
  sessionId : TurnId
  scopeKey : Bytes
  agentKey : Bytes
  identity : Bytes
  toolAllowlist : Option (List Bytes)

structure DispatchContext where
  scopeKey : Bytes
  agentKey : Bytes
  identity : Bytes
  parentTurnId : Option TurnId
  activeTools : Option (List Bytes)

structure AgentRunRequest where
  prompt : Bytes
  label : Bytes

structure ToolOutput where
  text : Bytes
  dataJson : Option Bytes

def taskTerminal (state : TaskState) : Bool :=
  state == .succeeded || state == .failed || state == .cancelled

def teamTaskActive (state : TeamTaskState) : Bool :=
  state == .queued || state == .running || state == .cancelling

def taskOwner (options : AgentSessionOptions) : TaskOwner :=
  ⟨options.sessionId, options.scopeKey, options.agentKey, options.identity⟩

namespace State

def job (s : State) (r : JobRef) : Job := s.jobHeap.get r
def team (s : State) (r : TeamRef) : Team := s.teamHeap.get r
def options (s : State) : BackgroundTaskOptions := s.svc.options

def setJob (s : State) (r : JobRef) (j : Job) : State := { s with jobHeap := s.jobHeap.set r j }
def setTeam (s : State) (r : TeamRef) (t : Team) : State :=
    { s with teamHeap := s.teamHeap.set r t }

/-- Write one entry of a team's work list. -/
def setWork (s : State) (r : TeamRef) (i : Nat) (w : Team.Work) : State :=
  s.setTeam r { s.team r with work := (s.team r).work.set i w }

/-- One reading was taken from the environment. -/
def read (s : State) : State := { s with tick := s.tick + 1 }

section Fields

variable (s : State) (r : Nat) (j : Job) (t : Team) (i : Nat) (w : Team.Work)

@[simp] theorem job_setJob_self : (s.setJob r j).job r = j := Heap.get_set_self _ _ _
@[simp] theorem team_setTeam_self : (s.setTeam r t).team r = t := Heap.get_set_self _ _ _

@[simp] theorem job_setJob_ne {k : Nat} (h : k ≠ r) : (s.setJob r j).job k = s.job k :=
  Heap.get_set_ne _ h _

@[simp] theorem team_setTeam_ne {k : Nat} (h : k ≠ r) : (s.setTeam r t).team k = s.team k :=
  Heap.get_set_ne _ h _

theorem job_setJob (k : Nat) : (s.setJob r j).job k = if k = r then j else s.job k :=
  Heap.get_set _ _ _ _

theorem team_setTeam (k : Nat) : (s.setTeam r t).team k = if k = r then t else s.team k :=
  Heap.get_set _ _ _ _

@[simp] theorem setJob_self : s.setJob r (s.job r) = s := by
  cases s; simp [setJob, job]

@[simp] theorem setJob_setJob (j' : Job) : (s.setJob r j).setJob r j' = s.setJob r j' := by
  simp [setJob]

@[simp] theorem setTeam_self : s.setTeam r (s.team r) = s := by
  cases s; simp [setTeam, team]

@[simp] theorem setTeam_setTeam (t' : Team) : (s.setTeam r t).setTeam r t' = s.setTeam r t' := by
  simp [setTeam]

@[simp] theorem job_setTeam (k : Nat) : (s.setTeam r t).job k = s.job k := rfl
@[simp] theorem team_setJob (k : Nat) : (s.setJob r j).team k = s.team k := rfl
@[simp] theorem job_setWork (k : Nat) : (s.setWork r i w).job k = s.job k := rfl
@[simp] theorem job_read (k : Nat) : s.read.job k = s.job k := rfl
@[simp] theorem team_read (k : Nat) : s.read.team k = s.team k := rfl

@[simp] theorem setJob_jobs : (s.setJob r j).jobs = s.jobs := rfl
@[simp] theorem setJob_teams : (s.setJob r j).teams = s.teams := rfl
@[simp] theorem setJob_active : (s.setJob r j).active = s.active := rfl
@[simp] theorem setJob_closed : (s.setJob r j).closed = s.closed := rfl
@[simp] theorem setJob_svc : (s.setJob r j).svc = s.svc := rfl
@[simp] theorem setJob_posted : (s.setJob r j).posted = s.posted := rfl
@[simp] theorem setTeam_jobs : (s.setTeam r t).jobs = s.jobs := rfl
@[simp] theorem setTeam_teams : (s.setTeam r t).teams = s.teams := rfl
@[simp] theorem setTeam_active : (s.setTeam r t).active = s.active := rfl
@[simp] theorem setTeam_closed : (s.setTeam r t).closed = s.closed := rfl
@[simp] theorem setTeam_svc : (s.setTeam r t).svc = s.svc := rfl
@[simp] theorem setTeam_posted : (s.setTeam r t).posted = s.posted := rfl
@[simp] theorem setWork_jobs : (s.setWork r i w).jobs = s.jobs := rfl
@[simp] theorem setWork_teams : (s.setWork r i w).teams = s.teams := rfl
@[simp] theorem setWork_active : (s.setWork r i w).active = s.active := rfl
@[simp] theorem setWork_closed : (s.setWork r i w).closed = s.closed := rfl
@[simp] theorem setWork_svc : (s.setWork r i w).svc = s.svc := rfl
@[simp] theorem setWork_posted : (s.setWork r i w).posted = s.posted := rfl
@[simp] theorem read_jobs : s.read.jobs = s.jobs := rfl
@[simp] theorem read_teams : s.read.teams = s.teams := rfl
@[simp] theorem read_active : s.read.active = s.active := rfl
@[simp] theorem read_closed : s.read.closed = s.closed := rfl
@[simp] theorem read_svc : s.read.svc = s.svc := rfl
@[simp] theorem read_posted : s.read.posted = s.posted := rfl

theorem team_setWork (k : Nat) :
    (s.setWork r i w).team k =
      if k = r then { s.team r with work := (s.team r).work.set i w } else s.team k :=
  team_setTeam _ _ _ _

@[simp] theorem team_setWork_self :
    (s.setWork r i w).team r = { s.team r with work := (s.team r).work.set i w } :=
  team_setTeam_self _ _ _

@[simp] theorem setWork_setWork (w' : Team.Work) :
    (s.setWork r i w).setWork r i w' = s.setWork r i w' := by
  simp [setWork]

end Fields

end State

end Orangutan.Bootstrap
