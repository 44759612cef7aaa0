import Orangutan.Async.Channel
import Orangutan.Core.Json

/-!
# Task groups

A bounded set of named children. The lists and the flags change under the mutex; a child's end
takes the mutex once and then sends a token on a channel with one slot, which wakes the joiner.
An operation here is one critical section, or one step of the joiner between two of them, so any
interleaving is a list of operations. An operation that cannot happen changes nothing.
-/

namespace Orangutan.Async

set_option autoImplicit false

open Orangutan.Core

inductive TaskOutcomeStatus
  | succeeded
  | failed
  | cancelled
  | lagging
  deriving DecidableEq

structure TaskOutcome where
  name : Bytes
  status : TaskOutcomeStatus := .succeeded
  error : Option Error := none

structure TaskGroupOptions where
  maxTasks : Nat := 64
  maxCompleted : Nat := 1024

structure TaskGroupReport where
  tasks : List TaskOutcome := []
  outcomesDropped : Nat := 0

structure ChildRecord where
  sequence : Nat
  name : Bytes

structure CompletedRecord where
  sequence : Nat
  outcome : TaskOutcome

def failedOutcome (name : Bytes) (error : Error) : TaskOutcome where
  name := name
  status := if error.kind = .cancelled then .cancelled else .failed
  error := some error

/-- How a child comes to its end, or fails to start. -/
inductive TaskEnd
  | returned (result : Result Unit)
  | aborted
  | threwAsio (reason message : Bytes)
  | threw (reason : Bytes)
  | frameTerminated
  | spawnThrew (reason : Bytes)

def TaskEnd.outcome (name : Bytes) : TaskEnd → TaskOutcome
  | returned (.ok ()) => { name }
  | returned (.error error) => failedOutcome name error
  | aborted => failedOutcome name .cancelled
  | threwAsio reason message =>
    failedOutcome name
      (((Error.internal "task group child threw asio error").note "reason" reason).note
      "asio_error" message)
  | threw reason => failedOutcome name
      ((Error.internal "task group child threw").note "reason" reason)
  | frameTerminated => failedOutcome name (.internal "task group child frame terminated")
  | spawnThrew reason =>
    failedOutcome name ((Error.internal "task group failed to spawn child").note "reason" reason)

/-- The state that the mutex guards, and the completion channel. -/
structure Impl where
  options : TaskGroupOptions
  completion : Channel Unit := { capacity := 1 }
  active : List ChildRecord := []
  completed : List CompletedRecord := []
  nextSequence : Nat := 0
  completedDropped : Nat := 0
  closed : Bool := false
  stopRequested : Bool := false
  joinStarted : Bool := false

/-- A report with the sequence numbers of its rows, and the children that were active then. -/
structure Handed where
  rows : List CompletedRecord
  dropped : Nat
  timed : Bool
  active : List ChildRecord

def Handed.report (h : Handed) : TaskGroupReport where
  tasks := h.rows.map (·.outcome)
  outcomesDropped := h.dropped

def bySequence (completed : List CompletedRecord) : List CompletedRecord :=
  completed.insertionSort fun a b => a.sequence ≤ b.sequence

def activeBySequence (active : List ChildRecord) : List ChildRecord :=
  active.insertionSort fun a b => a.sequence ≤ b.sequence

def laggingRow (child : ChildRecord) : CompletedRecord where
  sequence := child.sequence
  outcome := { name := child.name, status := .lagging }

/-- The loop of `timed_join_report`, over both lists in order. -/
def mergeRows : List CompletedRecord → List ChildRecord → List CompletedRecord
  | [], active => active.map laggingRow
  | completed, [] => completed
  | c :: completed, child :: active =>
    if c.sequence < child.sequence then c :: mergeRows completed (child :: active)
    else laggingRow child :: mergeRows (c :: completed) active

namespace Impl

def create (options : TaskGroupOptions) : Result Impl :=
  if options.maxTasks = 0 then .error (.invalidArgument "task group max_tasks must be positive")
  else if options.maxCompleted = 0
    then .error (.invalidArgument "task group max_completed must be positive")
  else .ok { options }

/-- `spawn` up to the start of the child's coroutine; `task` says that there is one. -/
def spawn (g : Impl) (name : Bytes) (task : Bool) : Result (Impl × ChildRecord) :=
  if name = [] then .error (.invalidArgument "task group child name must be non-empty")
  else if ¬task then .error (.invalidArgument "task group child task is empty")
  else if g.closed then .error (.of .conflict "task group is closed")
  else if g.options.maxTasks ≤ g.active.length then
    .error ((Error.of .mailboxOverflowed "task group capacity reached").note "max_tasks"
      (decimal g.options.maxTasks))
  else
    .ok ({ g with
      nextSequence := g.nextSequence + 1
      active := g.active ++ [{ sequence := g.nextSequence, name }] },
        { sequence := g.nextSequence, name })

def close (g : Impl) : Impl := { g with closed := true }

def beginJoin (g : Impl) : Impl × Result Unit :=
  if g.joinStarted then ({ g with closed := true },
    .error (.of .conflict "task group join already started"))
  else ({ g with closed := true, joinStarted := true }, .ok ())

def drainCompleted (g : Impl) : Impl × Handed :=
  ({ g with completed := [], completedDropped := 0 },
    { rows := bySequence g.completed, dropped := g.completedDropped, timed := false,
      active := g.active })

def timedJoinReport (g : Impl) : Impl × Handed :=
  ({ g with completed := [], completedDropped := 0 },
    { rows := mergeRows (bySequence g.completed) (activeBySequence g.active)
      dropped := g.completedDropped
      timed := true
      active := g.active })

/-- `finish` under the mutex. There is nothing to send when the child has already finished. -/
def finish (g : Impl) (sequence : Nat) (ending : TaskEnd) : Option Impl :=
  match g.active.find? fun child => child.sequence == sequence with
  | none => none
  | some child =>
    let full := g.completed.length = g.options.maxCompleted
    some { g with
      active := g.active.eraseP fun child => child.sequence == sequence
      completed := (if full then g.completed.tail else g.completed) ++
        [{ sequence, outcome := ending.outcome child.name }]
      completedDropped := if full then g.completedDropped + 1 else g.completedDropped }

end Impl

/-- Where the joiner stands. -/
inductive Place
  /-- Before the test of the loop. -/
  | testing
  /-- The test has found active children. -/
  | starting
  /-- Waiting for the receiver, and for the timer if there is one. -/
  | parked (receiver : Nat) (wake : Option Int)
  /-- The timer was first; its receiver has yet to be cancelled. -/
  | outrun (receiver : Nat) (expired : Bool)
  /-- The receiver was first, with a token or with an error. -/
  | resumed (received : Bool)
  /-- After the loop of a bounded join. -/
  | leaving
  /-- Before the report; whether it is the timed one. -/
  | reporting (timed : Bool)

/-- Times are nanoseconds. -/
structure Join where
  deadline : Option Int
  cancelled : Bool := false
  disabled : Bool := false
  place : Place := .testing

/-- A group with its joiner, the tokens and the cancellations on their way, and the history:
the accepted spawns, the reports, and the children that were active at the stop. -/
structure TaskGroup where
  impl : Impl
  join : Option Join := none
  now : Int := 0
  tokens : Nat := 0
  posting : List Nat := []
  posted : List Nat := []
  stopped : List Nat := []
  accepted : Nat := 0
  reports : List Handed := []

inductive TaskGroupOp
  /-- `launch` is the end of a child whose coroutine could not be started. -/
  | spawn (name : Bytes) (task : Bool) (launch : Option TaskEnd)
  | finish (sequence : Nat) (ending : TaskEnd)
  | sendToken
  | drainCompleted
  | close
  | requestStop
  | postCancellation
  | tick (elapsed : Nat)
  | beginJoin (timeout : Option Int)
  | cancelJoin
  | timer (expired : Bool)
  | proceed

namespace TaskGroup

def finish (s : TaskGroup) (sequence : Nat) (ending : TaskEnd) : TaskGroup :=
  match s.impl.finish sequence ending with
  | none => s
  | some impl => { s with impl, tokens := s.tokens + 1 }

def spawn (s : TaskGroup) (name : Bytes) (task : Bool) (launch : Option TaskEnd) : TaskGroup :=
  match s.impl.spawn name task with
  | .error _ => s
  | .ok (impl, child) =>
    match launch with
    | none => { s with impl, accepted := s.accepted + 1 }
    | some ending => finish { s with impl, accepted := s.accepted + 1 } child.sequence ending

/-- `request_stop` under the mutex; the signals it collects are posted one after the other. -/
def requestStop (s : TaskGroup) : TaskGroup :=
  if s.impl.stopRequested then { s with impl := { s.impl with closed := true } }
  else
    { s with
      impl := { s.impl with closed := true, stopRequested := true }
      posting := s.impl.active.map (·.sequence)
      stopped := s.impl.active.map (·.sequence) }

def postCancellation (s : TaskGroup) : TaskGroup :=
  match s.posting with
  | [] => s
  | sequence :: rest => { s with posting := rest, posted := s.posted ++ [sequence] }

/-- What a receiver has been completed with. -/
def receivedBy (receiver : Nat) (completions : List (Completion Unit)) : Option Bool :=
  completions.findSome? fun
    | .received id result => if id = receiver then some result.isOk else none
    | _ => none

/-- The channel has moved; a joiner that waits for a completed receiver goes on. -/
def moved (s : TaskGroup) (out : Channel Unit × List (Completion Unit)) : TaskGroup :=
  { s with
    impl := { s.impl with completion := out.1 }
    join := s.join.map fun join =>
      match join.place with
      | .parked receiver _ =>
        match receivedBy receiver out.2 with
        | some received => { join with place := .resumed received }
        | none => join
      | _ => join }

def sendToken (s : TaskGroup) : TaskGroup :=
  if s.tokens = 0 then s
  else moved { s with tokens := s.tokens - 1 } (s.impl.completion.trySend ())

def drainCompleted (s : TaskGroup) : TaskGroup :=
  { s with impl := s.impl.drainCompleted.1, reports := s.reports ++ [s.impl.drainCompleted.2] }

def timedJoinReport (s : TaskGroup) : TaskGroup :=
  { s with impl := s.impl.timedJoinReport.1, reports := s.reports ++ [s.impl.timedJoinReport.2] }

/-- The entry of `join` (no timeout) and of `join_with_timeout`. -/
def beginJoin (s : TaskGroup) (timeout : Option Int) : TaskGroup :=
  if timeout.any (· ≤ 0) then s
  else
    match s.impl.beginJoin with
    | (impl, .error _) => { s with impl }
    | (impl, .ok ()) => { s with impl, join := some { deadline := timeout.map (s.now + ·) } }

/-- When the sleep until the deadline ends: it is cut to whole milliseconds. -/
def wakeTime (now deadline : Int) : Int := now + max (deadline - now) 0 / 1000000 * 1000000

/-- The joiner starts to receive; a plain join that was cancelled before does not. -/
def receive (s : TaskGroup) (join : Join) : TaskGroup :=
  if join.deadline.isNone ∧
    join.cancelled then { s with join := some { join with place := .resumed false } }
  else
    moved
      { s with
        join := some { join with
          place := .parked s.impl.completion.nextId (join.deadline.map (wakeTime s.now)) } }
      s.impl.completion.asyncReceive

/-- The parent was cancelled: the group is stopped, and further cancellations are ignored. -/
def stopJoin (s : TaskGroup) (join : Join) : TaskGroup :=
  { s.requestStop with join := some { join with
    cancelled := false, disabled := true, place := .testing } }

/-- The joiner runs on. -/
def proceed (s : TaskGroup) : TaskGroup :=
  match s.join with
  | none => s
  | some join =>
    match join.place with
    | .testing =>
      if s.impl.active = [] then
        { s with join := some { join with
          place := if join.deadline.isNone then .reporting false else .leaving } }
      else if join.deadline.any (· ≤ s.now) then
        { s with join := some { join with place := .leaving } }
      else { s with join := some { join with place := .starting } }
    | .starting => s.receive join
    | .parked _ _ => s
    | .outrun receiver expired =>
      let s := s.moved (s.impl.completion.cancelReceive receiver)
      if expired then { s with join := some { join with place := .leaving } } else s.stopJoin join
    | .resumed received =>
      if received then { s with join := some { join with place := .testing } } else s.stopJoin join
    | .leaving =>
      if s.impl.active ≠ [] then
        { s.requestStop with join := some { join with place := .reporting true } }
      else { s with join := some { join with place := .reporting false } }
    | .reporting timed =>
      if timed then { s.timedJoinReport with join := none }
        else { s.drainCompleted with join := none }

/-- The timer of a bounded join ends: at its time, or with an error at any time. -/
def timer (s : TaskGroup) (expired : Bool) : TaskGroup :=
  match s.join with
  | none => s
  | some join =>
    match join.place with
    | .parked receiver (some wake) =>
      if expired ∧ s.now < wake then s
      else { s with join := some { join with place := .outrun receiver expired } }
    | _ => s

def cancelJoin (s : TaskGroup) : TaskGroup :=
  match s.join with
  | none => s
  | some join =>
    if join.disabled then s
    else
      let s := { s with join := some { join with cancelled := true } }
      match join.place with
      | .parked receiver _ => s.moved (s.impl.completion.cancelReceive receiver)
      | _ => s

def step (s : TaskGroup) : TaskGroupOp → TaskGroup
  | .spawn name task launch => s.spawn name task launch
  | .finish sequence ending => s.finish sequence ending
  | .sendToken => s.sendToken
  | .drainCompleted => s.drainCompleted
  | .close => { s with impl := s.impl.close }
  | .requestStop => s.requestStop
  | .postCancellation => s.postCancellation
  | .tick elapsed => { s with now := s.now + elapsed }
  | .beginJoin timeout => s.beginJoin timeout
  | .cancelJoin => s.cancelJoin
  | .timer expired => s.timer expired
  | .proceed => s.proceed

/-- A new group after a list of operations. -/
def run (impl : Impl) (ops : List TaskGroupOp) : TaskGroup := ops.foldl step { impl }

end TaskGroup

end Orangutan.Async
