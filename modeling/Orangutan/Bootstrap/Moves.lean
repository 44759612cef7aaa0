import Orangutan.Bootstrap.BackgroundTasks
import Orangutan.Lib.Runs

/-!
# What an operation can do to the service

Every operation is a sequence of the moves below, each with the guard the code
checks before it. A move changes a job record together with the board entry that
shows it, so properties of jobs and boards are kept from move to move. A `Grant`
says which completion flags the operation may touch, and whether it may leave work
behind that only a pump picks up.
-/

namespace Orangutan.Bootstrap

set_option autoImplicit false

open Orangutan.Core Orangutan.Lib Orangutan.Tool

/-- The two records describe one run. -/
structure Job.SameRun (a b : Job) : Prop where
  owner : a.owner = b.owner
  parentTurn : a.parentTurn = b.parentTurn
  taskId : a.snapshot.taskId = b.snapshot.taskId
  automaticDelivery : a.snapshot.automaticDelivery = b.snapshot.automaticDelivery
  teamId : a.snapshot.teamId = b.snapshot.teamId
  teamTaskKey : a.snapshot.teamTaskKey = b.snapshot.teamTaskKey
  teamAttempt : a.snapshot.teamAttempt = b.snapshot.teamAttempt
  team : a.team = b.team
  claimed : a.claimed = b.claimed

/-- The job state machine. -/
def TaskState.next : TaskState → TaskState → Bool
  | .queued, .running => true
  | .queued, .failed => true
  | .queued, .cancelled => true
  | .running, .cancelling => true
  | .running, .succeeded => true
  | .running, .failed => true
  | .running, .cancelled => true
  | .cancelling, .failed => true
  | .cancelling, .cancelled => true
  | _, _ => false

/-- The job holds a running slot. -/
def TaskState.occupies : TaskState → Bool
  | .running | .cancelling => true
  | _ => false

/-- `cancels` are the jobs an operation may acknowledge as explicitly cancelled;
`delivers` is set for the operations of completion delivery; `advances` for those
that may free a slot, make an entry ready or consume a pump event; `ends` are the
running jobs an operation may bring to their end. -/
structure Grant where
  cancels : Job → Prop
  delivers : Prop
  advances : Prop
  ends : JobRef → Prop

/-- A live job `r` enters the state of `shown`, which the board gets to see, and is
kept as `kept`: a terminal job lets go of its team. -/
structure Settles (G : Grant) (s : State) (r : JobRef) (shown kept : Job) : Prop where
  listed : r ∈ s.jobs
  run : shown.SameRun (s.job r)
  change : (s.job r).snapshot.state.next shown.snapshot.state = true
  acknowledged : shown.snapshot.acknowledged = (s.job r).snapshot.acknowledged ∨ G.cancels (s.job r)
  monotone : (s.job r).snapshot.acknowledged = true → shown.snapshot.acknowledged = true
  snapshot : kept.snapshot = shown.snapshot
  kept_owner : kept.owner = shown.owner
  kept_parentTurn : kept.parentTurn = shown.parentTurn
  kept_claimed : kept.claimed = shown.claimed
  kept_team : kept.team = if taskTerminal shown.snapshot.state then none else shown.team
  slot : shown.snapshot.state = .running → s.active < s.options.maxRunning
  frees : (s.job r).snapshot.state.occupies = true → shown.snapshot.state.occupies = false →
    G.advances ∧ G.ends r

/-- What the leader's commands and the scan may do to one board entry. -/
inductive TaskEdit (G : Grant) (s : State) (w : Team.Work) : Team.Work → Prop
  | cancel : teamTaskActive w.snapshot.state = false → w.snapshot.state ≠ .accepted →
      TaskEdit G s w w.cancel
  | accept (feedback : Bytes) : G.advances → w.snapshot.state = .inReview →
      TaskEdit G s w (w.accept feedback)
  | note (feedback : Bytes) : w.snapshot.state ≠ .accepted → TaskEdit G s w (w.note feedback)
  | fail (kind : ErrorKind) : w.snapshot.state = .waiting → TaskEdit G s w (w.fail kind)
  | revise (feedback : Bytes) (turn : Option TurnId) : G.advances →
      w.snapshot.state = .inReview ∨ w.snapshot.state = .failed → w.snapshot.attempt ≠ 3 →
      s.hasRecordCapacity false = true → TaskEdit G s w (w.revise feedback turn)

/-- No listed job has this identity. -/
def State.FreshId (s : State) (id : Bytes) : Prop := ∀ r ∈ s.jobs, (s.job r).snapshot.taskId ≠ id

/-- Append a job record; its pump is posted. -/
def State.pushJob (s : State) (job : Job) : State :=
  { s with
    jobs := s.jobs ++ [s.jobHeap.next], jobHeap := s.jobHeap.alloc job, posted := s.posted + 1 }

/-- Job `r` shows `shown` to its board and is kept as `kept`; the slot count follows. -/
def State.settled (s : State) (r : JobRef) (shown kept : Job) : State :=
  { (s.publish r shown).setJob r kept with
    active := s.active + shown.snapshot.state.occupies.toNat -
      (s.job r).snapshot.state.occupies.toNat }

/-- A newly admitted record. -/
structure Job.Fresh (s : State) (job : Job) : Prop where
  queued : job.snapshot.state = .queued
  acknowledged : job.snapshot.acknowledged = false
  claimed : job.claimed = false
  automaticDelivery : job.snapshot.automaticDelivery = s.options.automaticDelivery
  fresh : s.FreshId job.snapshot.taskId

/-- A message the send path admits to a team. -/
structure Team.Admits (team : Team) (message : Team.Message) : Prop where
  id : message.envelope.id = decimal (team.messages.length + 1)
  pending : message.acknowledged = false
  room : team.messages.length < 64
  share : team.pendingFor message.recipient < 16
  sender : message.envelope.sender = leaderName ∨
    ∃ w ∈ team.work, w.snapshot.member = message.envelope.sender
  body : ∃ w request, (TeamCommand.message request).valid = true ∧
    message.recipient = request.recipient ∧ message.envelope.text = Team.messageBody w request
  size : message.envelope.text.length ≤ 8192

inductive Move (G : Grant) (s : State) : State → Prop
  | clock (tick posted : Nat) (joining : Bool) (taken : posted < s.posted → G.advances) :
      Move G s { s with tick, posted, joining }
  | close : Move G s { s with closed := true }
  | reclaim (keep : JobRef → Bool)
      (gone : ∀ r ∈ s.jobs, keep r = false → taskTerminal (s.job r).snapshot.state = true ∧
        (s.job r).claimed = false ∧
        (s.options.automaticDelivery = true → (s.job r).snapshot.acknowledged = true)) :
      Move G s { s with jobs := s.jobs.filter keep }
  | acknowledge (r : JobRef) (listed : r ∈ s.jobs) (target : G.cancels (s.job r)) :
      Move G s (s.setJob r (s.job r).acknowledge)
  | flag (r : JobRef) (claimed acknowledged : Bool) (grant : G.delivers) (listed : r ∈ s.jobs)
      (monotone : (s.job r).snapshot.acknowledged = true → acknowledged = true) :
      Move G s (s.setJob r { s.job r with
        claimed, snapshot := { (s.job r).snapshot with acknowledged } })
  | settle (r : JobRef) (shown kept : Job) (h : Settles G s r shown kept) :
      Move G s (s.settled r shown kept)
  | enqueue (job : Job) (h : job.Fresh s) (team : job.team = none)
      (room : s.hasCapacity false = true) : Move G s (s.pushJob job)
  | dispatch (tr : TeamRef) (i : Nat) (w : Team.Work) (member : Team.Member) (id : TurnId)
      (current : tr ∈ s.teams) (entry : (s.team tr).work[i]? = some w)
      (waiting : w.snapshot.state = .waiting) (ready : (s.team tr).ready w.snapshot = true)
      (idle : (s.team tr).hasActiveWork w.snapshot.member = false)
      (room : s.hasCapacity true = true) (fresh : s.FreshId (formatTurnIdHex id)) :
      Move G s ((s.pushJob (teamJob s tr member w id)).setWork tr i
        (w.dispatch (formatTurnIdHex id)))
  | edit (tr : TeamRef) (i : Nat) (w w' : Team.Work) (current : tr ∈ s.teams)
      (entry : (s.team tr).work[i]? = some w) (h : TaskEdit G s w w') : Move G s (s.setWork tr i w')
  | submit (tr : TeamRef) (request : TeamTaskCreateRequest) (turn : Option TurnId)
      (grant : G.advances) (current : tr ∈ s.teams)
        (valid : (TeamCommand.taskCreate request).valid = true)
      (key : ∀ w ∈ (s.team tr).work, w.snapshot.key ≠ request.key)
      (member : ∃ m ∈ (s.team tr).members, m.snapshot.name = request.member)
      (known : ∀ d ∈ request.dependsOn, ∃ w ∈ (s.team tr).work, w.snapshot.key = d)
      (room : s.hasRecordCapacity false = true) :
      Move G s (s.setTeam tr { s.team tr with
        work := (s.team tr).work ++ [Team.newWork request turn] })
  | stop (tr : TeamRef) : Move G s (s.setTeam tr { s.team tr with stopped := true })
  | join (tr : TeamRef) (specification : TeamMemberSpec) (id : TurnId) (current : tr ∈ s.teams)
      (valid : memberValid specification = true)
      (name : ∀ m ∈ (s.team tr).members, m.snapshot.name ≠ specification.name) :
      Move G s (s.setTeam tr { s.team tr with
        members := (s.team tr).members ++ [Team.newMember specification id] })
  | mail (tr : TeamRef) (message : Team.Message) (h : (s.team tr).Admits message) :
      Move G s (s.setTeam tr { s.team tr with messages := (s.team tr).messages ++ [message] })
  | found (keep : TeamRef → Bool) (team : Team)
      (gone : ∀ tr ∈ s.teams, keep tr = false → s.retirable tr = true)
      (owner : ∀ tr ∈ s.teams, (s.team tr).owner = team.owner →
        ∃ k ∈ s.teams, keep k = false ∧ (s.team k).owner = team.owner)
      (names : ∀ m ∈ team.members, keyValid m.snapshot.name = true)
      (work : team.work = []) (messages : team.messages = []) :
      Move G s { s with
        teams := s.teams.filter keep ++ [s.teamHeap.next], teamHeap := s.teamHeap.alloc team }

abbrev Path (G : Grant) : State → State → Prop := Relation.ReflTransGen (Move G)

/-- Nothing is acknowledged, claimed or left to a pump. -/
def Grant.none : Grant := ⟨fun _ => False, False, False, fun _ => False⟩

/-- Explicit cancellation of the jobs that satisfy a test. -/
def Grant.cancelling (test : Job → Bool) : Grant :=
  ⟨fun job => test job = true, False, False, fun _ => False⟩

/-- Claims and their release. -/
def Grant.delivery : Grant := ⟨fun _ => False, True, False, fun _ => False⟩

/-- Everything is allowed. -/
def Grant.all : Grant := ⟨fun _ => True, True, True, fun _ => True⟩

structure Grant.Le (G H : Grant) : Prop where
  cancels : ∀ j, G.cancels j → H.cancels j
  delivers : G.delivers → H.delivers
  advances : G.advances → H.advances
  ends : ∀ r, G.ends r → H.ends r

theorem Grant.le_all (G : Grant) : G.Le .all :=
  ⟨fun _ _ => trivial, fun _ => trivial, fun _ => trivial, fun _ _ => trivial⟩

theorem Grant.none_le (G : Grant) : Grant.none.Le G :=
  ⟨fun _ h => h.elim, fun h => h.elim, fun h => h.elim, fun _ h => h.elim⟩

theorem TaskEdit.mono {G H : Grant} (hle : G.Le H) {s : State} {w w' : Team.Work}
    (h : TaskEdit G s w w') : TaskEdit H s w w' := by
  cases h with
  | cancel hinactive hopen => exact .cancel hinactive hopen
  | accept feedback grant hs => exact .accept feedback (hle.advances grant) hs
  | note feedback hopen => exact .note feedback hopen
  | fail kind hs => exact .fail kind hs
  | revise feedback turn grant hs hne room =>
      exact .revise feedback turn (hle.advances grant) hs hne room

theorem Move.mono {G H : Grant} (hle : G.Le H) {s t : State} (h : Move G s t) : Move H s t := by
  cases h with
  | clock tick posted joining taken =>
      exact .clock tick posted joining fun hlt => hle.advances (taken hlt)
  | close => exact .close
  | reclaim keep gone => exact .reclaim keep gone
  | acknowledge r listed target => exact .acknowledge r listed (hle.cancels _ target)
  | flag r claimed acknowledged grant listed monotone =>
    exact .flag r claimed acknowledged (hle.delivers grant) listed monotone
  | settle r shown kept h =>
    exact .settle r shown kept { h with
      acknowledged := h.acknowledged.imp_right (hle.cancels _)
      frees := fun ho hf => (h.frees ho hf).imp hle.advances (hle.ends r) }
  | enqueue job h team room => exact .enqueue job h team room
  | dispatch tr i w member id current entry waiting ready idle room fresh =>
    exact .dispatch tr i w member id current entry waiting ready idle room fresh
  | edit tr i w w' current entry h => exact .edit tr i w w' current entry (h.mono hle)
  | submit tr request turn grant current valid key member known room =>
    exact .submit tr request turn (hle.advances grant) current valid key member known room
  | stop tr => exact .stop tr
  | join tr specification id current valid name =>
      exact .join tr specification id current valid name
  | mail tr message h => exact .mail tr message h
  | found keep team gone owner names work messages =>
    exact .found keep team gone owner names work messages

theorem Path.mono {G H : Grant} (hle : G.Le H) {s t : State} (h : Path G s t) : Path H s t :=
  Relation.ReflTransGen.mono (fun _ _ (hm : Move G _ _) => hm.mono hle) s t h

end Orangutan.Bootstrap
