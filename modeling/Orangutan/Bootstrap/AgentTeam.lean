import Orangutan.Bootstrap.Scheduling

/-!
# Team boards

Creation and replacement of teams, membership, and the leader's task commands.
-/

namespace Orangutan.Bootstrap

set_option autoImplicit false

open Orangutan.Core Orangutan.Lib Orangutan.Tool

/-- The leader may hand this tool to a specialist. -/
def toolGranted (svc : Service) (parent : AgentSessionOptions) (context : DispatchContext)
    (name : Bytes) : Bool :=
  !(!svc.registry.contains name || (isTeamTool name && name != teamMessageName) ||
    name == agentRunName || name == taskGetName || name == taskCancelName ||
    (match context.activeTools with
      | some active => !active.contains name
      | none => false) ||
    (match svc.activeTools with
      | some configured => !configured.contains name
      | none => false) ||
    (match parent.toolAllowlist with
      | some allowed => !allowed.contains name
      | none => false))

namespace Team

def newMember (specification : TeamMemberSpec) (id : TurnId) : Team.Member :=
  { snapshot := {
      name := specification.name
      agentKey := text "team/" ++ formatTurnIdHex id
      sessionId := formatTurnIdHex id
      tools := specification.tools }
    instructions := specification.instructions }

def newWork (request : TeamTaskCreateRequest) (parentTurn : Option TurnId) : Team.Work :=
  { snapshot := { key := request.key, member := request.member, dependsOn := request.dependsOn }
    prompt := request.prompt
    parentTurn }

namespace Work

def cancel (work : Team.Work) : Team.Work :=
  { work with snapshot := { work.snapshot with state := .cancelled } }

def accept (work : Team.Work) (feedback : Bytes) : Team.Work :=
  { work with snapshot := { work.snapshot with state := .accepted, feedback } }

def note (work : Team.Work) (feedback : Bytes) : Team.Work :=
  { work with snapshot := { work.snapshot with feedback } }

def revise (work : Team.Work) (feedback : Bytes) (parentTurn : Option TurnId) : Team.Work :=
  { work with
    snapshot := { work.snapshot with
      attempt := work.snapshot.attempt + 1
      state := .waiting
      feedback
      runId := []
      report := []
      reportTruncated := false
      errorKind := none }
    parentTurn }

/-- An entry that neither runs nor was accepted is closed by a stop. -/
def close (work : Team.Work) : Team.Work :=
  if !teamTaskActive work.snapshot.state && work.snapshot.state != .accepted then work.cancel
  else work

/-- A waiting entry of the cancelled turn is closed. -/
def abandon (turn : TurnId) (work : Team.Work) : Team.Work :=
  if work.parentTurn == some turn && work.snapshot.state == .waiting then work.cancel else work

end Work

end Team

namespace State

def findTeam (s : State) (owner : TaskOwner) : Option TeamRef :=
  s.teams.find? fun tr => (s.team tr).owner == owner

/-- Works on a team object; the caller decides whether the service holds it yet. -/
def addTeamMember (s : State) (parent : AgentSessionOptions) (team : Team)
    (specification : TeamMemberSpec) (context : DispatchContext) : Result Team × State :=
  if team.stopped then
    (.error (.of .conflict "team admission is closed"), s)
  else if 4 ≤ team.members.length || parent.maxChildRuns ≤ team.members.length then
    (.error (.of .mailboxOverflowed "team member admission limit reached"), s)
  else if team.members.any fun m => m.snapshot.name == specification.name then
    (.error (.of .conflict "team member name already exists"), s)
  else
    match specification.tools.find? fun name => !toolGranted s.svc parent context name with
    | some name =>
      (.error
        ((Error.permissionDenied "specialist tools must be a subset of the leader's tools").note
        "tool" name), s)
    | none =>
      match s.svc.env.turnId s.tick, s.svc.env.childRules (s.tick + 1),
          s.svc.env.childSession (s.tick + 2) with
      | .error e, _, _ => (.error e, s.read)
      | .ok _, .error e, _ => (.error e, s.read.read)
      | .ok _, .ok _, .error e => (.error e, s.read.read.read)
      | .ok id, .ok _, .ok _ =>
        (.ok { team with members := team.members ++ [Team.newMember specification id] },
          s.read.read.read)

def addTeamMembers (parent : AgentSessionOptions) (context : DispatchContext) :
    List TeamMemberSpec → Team → State → Result Team × State
  | [], team, s => (.ok team, s)
  | specification :: rest, team, s =>
    match s.addTeamMember parent team specification context with
    | (.error e, s) => (.error e, s)
    | (.ok team, s) => addTeamMembers parent context rest team s

/-- A stopped board whose work has joined. -/
def retirable (s : State) (tr : TeamRef) : Bool :=
  (s.team tr).stopped && !(s.team tr).hasActiveWork []

def createTeam (s : State) (parent : AgentSessionOptions) (request : TeamCreateRequest)
    (context : DispatchContext) : Result Unit × State :=
  let owner := taskOwner parent
  let previous := s.findTeam owner
  if previous.any fun tr => !s.retirable tr then
    (.error (.of .conflict "stop and join the current team before replacing it"), s)
  else
    let retired :=
      if previous.isNone && decide (16 ≤ s.teams.length) then s.teams.find? s.retirable else none
    if (previous.isNone && retired.isNone && decide (16 ≤ s.teams.length)) ||
        decide (parent.maxChildRuns < request.members.length) then
      (.error (.of .mailboxOverflowed "team or member admission limit reached"), s)
    else
      match s.svc.env.turnId s.tick with
      | .error e => (.error e, s.read)
      | .ok id =>
        match addTeamMembers parent context request.members
            { owner, id := formatTurnIdHex id, goal := request.goal } s.read with
        | (.error e, s) => (.error e, s)
        | (.ok team, s) =>
          (.ok (), { s with
            teams := s.teams.filter (fun tr => some tr != previous && some tr != retired) ++
              [s.teamHeap.next]
            teamHeap := s.teamHeap.alloc team })

def submitTeamTask (s : State) (tr : TeamRef) (request : TeamTaskCreateRequest)
    (parentTurn : Option TurnId) : Result Unit × State :=
  let team := s.team tr
  if team.stopped then
    (.error (.of .conflict "team admission is closed"), s)
  else if 32 ≤ team.work.length then
    (.error (.of .mailboxOverflowed "team task limit reached"), s)
  else if team.work.any fun w => w.snapshot.key == request.key then
    (.error (.of .conflict "team task key already exists"), s)
  else if !team.members.any fun m => m.snapshot.name == request.member then
    (.error (.notFound "team member is unavailable"), s)
  else
    match request.dependsOn.find? fun d => !team.work.any fun w => w.snapshot.key == d with
    | some dependency =>
      (.error ((Error.invalidArgument "dependencies must refer to existing team tasks").note
        "dependency" dependency), s)
    | none =>
      let s := s.prune
      if !s.hasRecordCapacity false then
        (.error (.of .mailboxOverflowed "team task record capacity reached"), s)
      else
        (.ok (), s.setTeam tr { s.team tr with
          work := (s.team tr).work ++ [Team.newWork request parentTurn] })

/-- Cancel the owner's run of that identity, when its record is still there. -/
def cancelRun (s : State) (owner : TaskOwner) (runId : Bytes) : State :=
  let s := s.prune
  match s.find owner runId with
  | some r => s.cancelJob r false
  | none => s

/-- The cancel action: the run named by the entry stops first, and an entry that
is not waiting for its run to join is closed at once. -/
def cancelTeamTask (s : State) (tr : TeamRef) (i : Nat) (runId feedback : Bytes) : State :=
  let s := s.cancelRun (s.team tr).owner runId
  match (s.team tr).work[i]? with
  | none => s
  | some work =>
    let work := if teamTaskActive work.snapshot.state then work else work.cancel
    s.setWork tr i (work.note feedback)

def updateTeamTask (s : State) (tr : TeamRef) (request : TeamTaskUpdateRequest)
    (parentTurn : Option TurnId) : Result Unit × State :=
  let team := s.team tr
  if request.teamId != team.id then
    (.error (.of .conflict "team identity is stale"), s)
  else
    match findEntry (fun w => w.snapshot.key == request.key) team.work with
    | none => (.error (.notFound "team task is unavailable"), s)
    | some (i, work) =>
      let task := work.snapshot
      if task.attempt != request.attempt then
        (.error (.of .conflict "team task attempt is stale"), s)
      else if task.state == .accepted then
        if request.action == .accept then (.ok (), s)
        else
          (.error (.of .conflict "accepted tasks are immutable; create a corrective task"), s)
      else if request.action == .cancel then
        (.ok (), s.cancelTeamTask tr i task.runId request.feedback)
      else if team.stopped then
        (.error (.of .conflict "team admission is closed"), s)
      else if request.action == .accept then
        if task.state != .inReview then
          (.error (.of .conflict "only a successfully reported task can be accepted"), s)
        else (.ok (), s.setWork tr i (work.accept request.feedback))
      else if task.state != .inReview && task.state != .failed then
        (.error (.of .conflict "only a reported or failed task can be revised"), s)
      else if task.attempt == 3 then
        (.error (.of .mailboxOverflowed "team task correction limit reached"), s)
      else
        let s := s.prune
        if !s.hasRecordCapacity false then
          (.error (.of .mailboxOverflowed "team correction record capacity reached"), s)
        else (.ok (), s.setWork tr i (work.revise request.feedback parentTurn))

/-- Cancel, in list order, the jobs of a fixed list that satisfy a test. -/
def cancelJobs (test : Job → Bool) : List JobRef → State → State
  | [], s => s
  | r :: rest, s => cancelJobs test rest (if test (s.job r) then s.cancelJob r false else s)

def stopTeam (s : State) (tr : TeamRef) : State :=
  let s := s.setTeam tr { s.team tr with stopped := true }
  let owner := (s.team tr).owner
  let id := (s.team tr).id
  let s := cancelJobs (fun job => job.owner == owner && job.snapshot.teamId == id) s.jobs s
  s.setTeam tr { s.team tr with work := (s.team tr).work.map Team.Work.close }

end State

end Orangutan.Bootstrap
