import Orangutan.Async.TaskGroupReports

/-!
# What holds in every state of a task group

Three invariants carry the contract: the books of the children, the cancellations that a stop
posts, and that a joiner that waits has something to wait for.
-/

namespace Orangutan.Async

set_option autoImplicit false

open Orangutan.Core

namespace TaskGroup

variable {s : TaskGroup}

@[simp] theorem books_moved (s : TaskGroup) (out : Channel Unit × List (Completion Unit)) :
    (s.moved out).books = s.books := rfl

theorem outcome_final (name : Bytes) (ending : TaskEnd) :
    (ending.outcome name).status ≠ .lagging := by
  have hfailed : ∀ error, (failedOutcome name error).status ≠ .lagging := by
    intro error
    rw [failedOutcome]
    dsimp only
    split <;> simp
  cases ending with
  | returned result =>
    cases result with
    | ok value => simp [TaskEnd.outcome]
    | error error => exact hfailed error
  | aborted => exact hfailed _
  | threwAsio reason message => exact hfailed _
  | threw reason => exact hfailed _
  | frameTerminated => exact hfailed _
  | spawnThrew reason => exact hfailed _

theorem finish_balanced (h : s.books.Balanced) (sequence : Nat) (ending : TaskEnd) :
    (s.finish sequence ending).books.Balanced := by
  cases hchild : s.impl.active.find? fun child => child.sequence == sequence with
  | none =>
    have hnone : s.finish sequence ending = s := by simp [finish, Impl.finish, hchild]
    rw [hnone]
    exact h
  | some child =>
    simp only [finish, Impl.finish, hchild]
    exact h.finish hchild (outcome_final child.name ending)

/-- The cancellations that are posted or about to be are those of the children at the stop. -/
structure Stops (s : TaskGroup) : Prop where
  idle : s.impl.stopRequested = false → s.posted = [] ∧ s.posting = [] ∧ s.stopped = []
  closed : s.impl.stopRequested = true → s.impl.closed = true
  cancelled : s.posted ++ s.posting = s.stopped
  distinct : s.stopped.Nodup
  covered : s.impl.stopRequested = true → ∀ child ∈ s.impl.active, child.sequence ∈ s.stopped

/-- An operation that posts nothing. -/
theorem Stops.same {s' : TaskGroup} (h : s.Stops)
    (hstop : s'.impl.stopRequested = s.impl.stopRequested)
    (hclosed : s.impl.closed = true → s'.impl.closed = true) (hposted : s'.posted = s.posted)
    (hposting : s'.posting = s.posting) (hstopped : s'.stopped = s.stopped)
    (hactive : s.impl.stopRequested = true → ∀ child ∈ s'.impl.active, child ∈ s.impl.active) :
    s'.Stops := by
  constructor
  · rw [hstop, hposted, hposting, hstopped]
    exact h.idle
  · rw [hstop]
    exact fun hrequested => hclosed (h.closed hrequested)
  · rw [hposted, hposting, hstopped]
    exact h.cancelled
  · rw [hstopped]
    exact h.distinct
  · rw [hstop, hstopped]
    exact fun hrequested child hchild =>
      h.covered hrequested child (hactive hrequested child hchild)

theorem Stops.requestStop (h : s.Stops) (hbooks : s.books.Balanced) : s.requestStop.Stops := by
  rw [TaskGroup.requestStop]
  cases hstop : s.impl.stopRequested with
  | true =>
    rw [if_pos rfl]
    exact h.same rfl (fun _ => rfl) rfl rfl rfl fun _ _ => id
  | false =>
    obtain ⟨hposted, _, _⟩ := h.idle hstop
    rw [if_neg Bool.false_ne_true]
    constructor
    · intro hfalse
      cases hfalse
    · exact fun _ => rfl
    · simp [hposted]
    · exact (List.nodup_append.mp hbooks.distinct).1
    · exact fun _ child hchild => List.mem_map_of_mem hchild

theorem Stops.postCancellation (h : s.Stops) : s.postCancellation.Stops := by
  rw [TaskGroup.postCancellation]
  split
  · exact h
  · next sequence rest hposting =>
    have hcancelled := h.cancelled
    constructor
    · intro hstop
      rw [(h.idle hstop).2.1] at hposting
      cases hposting
    · exact h.closed
    · rw [hposting] at hcancelled
      simpa using hcancelled
    · exact h.distinct
    · exact h.covered

theorem Stops.finish (h : s.Stops) (sequence : Nat) (ending : TaskEnd) :
    (s.finish sequence ending).Stops := by
  rw [TaskGroup.finish, Impl.finish]
  cases s.impl.active.find? fun child => child.sequence == sequence with
  | none => exact h
  | some child => exact h.same rfl id rfl rfl rfl fun _ _ => List.mem_of_mem_eraseP

theorem Stops.spawn (h : s.Stops) (name : Bytes) (task : Bool) (launch : Option TaskEnd) :
    (s.spawn name task launch).Stops := by
  rw [TaskGroup.spawn]
  cases hspawn : s.impl.spawn name task with
  | error e => exact h
  | ok out =>
    obtain ⟨impl, child⟩ := out
    have hsame : TaskGroup.Stops { s with impl, accepted := s.accepted + 1 } := by
      simp only [Impl.spawn] at hspawn
      split at hspawn
      · cases hspawn
      split at hspawn
      · cases hspawn
      split at hspawn
      · cases hspawn
      next hopen =>
      split at hspawn
      · cases hspawn
      cases hspawn
      exact h.same rfl id rfl rfl rfl fun hstop => absurd (h.closed hstop) hopen
    cases launch with
    | none => exact hsame
    | some ending => exact hsame.finish child.sequence ending

theorem Stops.beginJoin (h : s.Stops) (timeout : Option Int) : (s.beginJoin timeout).Stops := by
  rw [TaskGroup.beginJoin, Impl.beginJoin]
  split
  · exact h
  · by_cases hstarted : s.impl.joinStarted = true
    · rw [if_pos hstarted]
      exact h.same rfl (fun _ => rfl) rfl rfl rfl fun _ _ => id
    · rw [if_neg hstarted]
      exact h.same rfl (fun _ => rfl) rfl rfl rfl fun _ _ => id

theorem Stops.proceed (h : s.Stops) (hbooks : s.books.Balanced) : s.proceed.Stops := by
  have hstop := h.requestStop hbooks
  rw [TaskGroup.proceed]
  split
  · exact h
  next join hjoin =>
  split
  · split
    · exact h.same rfl id rfl rfl rfl fun _ _ => id
    · split <;> exact h.same rfl id rfl rfl rfl fun _ _ => id
  · rw [receive]
    split <;> exact h.same rfl id rfl rfl rfl fun _ _ => id
  · exact h
  · next receiver expired _ =>
    have hmoved : (s.moved (s.impl.completion.cancelReceive receiver)).Stops :=
      h.same rfl id rfl rfl rfl fun _ _ => id
    dsimp only
    split
    · exact h.same rfl id rfl rfl rfl fun _ _ => id
    · exact (hmoved.requestStop hbooks).same rfl id rfl rfl rfl fun _ _ => id
  · split
    · exact h.same rfl id rfl rfl rfl fun _ _ => id
    · exact hstop.same rfl id rfl rfl rfl fun _ _ => id
  · split
    · exact hstop.same rfl id rfl rfl rfl fun _ _ => id
    · exact h.same rfl id rfl rfl rfl fun _ _ => id
  · split <;> exact h.same rfl id rfl rfl rfl fun _ _ => id

theorem Stops.step (h : s.Stops) (hbooks : s.books.Balanced) (op : TaskGroupOp) :
    (s.step op).Stops := by
  cases op with
  | spawn name task launch => exact h.spawn name task launch
  | finish sequence ending => exact h.finish sequence ending
  | sendToken =>
    rw [TaskGroup.step, sendToken]
    split
    · exact h
    · exact h.same rfl id rfl rfl rfl fun _ _ => id
  | drainCompleted => exact h.same rfl id rfl rfl rfl fun _ _ => id
  | close => exact h.same rfl (fun _ => rfl) rfl rfl rfl fun _ _ => id
  | requestStop => exact h.requestStop hbooks
  | postCancellation => exact h.postCancellation
  | tick elapsed => exact h.same rfl id rfl rfl rfl fun _ _ => id
  | beginJoin timeout => exact h.beginJoin timeout
  | cancelJoin =>
    rw [TaskGroup.step, cancelJoin]
    split
    · exact h
    · split
      · exact h
      · split <;> exact h.same rfl id rfl rfl rfl fun _ _ => id
  | timer expired =>
    rw [TaskGroup.step, timer]
    split
    · exact h
    · split
      · split
        · exact h
        · exact h.same rfl id rfl rfl rfl fun _ _ => id
      · exact h
  | proceed => exact h.proceed hbooks

/-- The completion channel with its values and its receivers. -/
def slot (next : Nat) (values : List Unit) (receivers : List Nat) : Channel Unit where
  capacity := 1
  nextId := next
  values := values
  receivers := receivers

/-- What the channel holds when the joiner stands at a place; `busy` says that a token is to come.
-/
def Waits (busy : Prop) (values : List Unit) (receivers : List Nat) : Option Place → Prop
  | some (.parked receiver _) => receivers = [receiver] ∧ values = [] ∧ busy
  | some (.outrun receiver _) => (receivers = [] ∧ values.length ≤ 1) ∨
      (receivers = [receiver] ∧ values = [])
  | some .starting => receivers = [] ∧ values.length ≤ 1 ∧ (busy ∨ values ≠ [])
  | _ => receivers = [] ∧ values.length ≤ 1

/-- Some child is active, or has yet to send its token. -/
def Busy (s : TaskGroup) : Prop := s.impl.active ≠ [] ∨ 0 < s.tokens

def Awake (s : TaskGroup) : Prop :=
  ∃ next values receivers, s.impl.completion = slot next values receivers ∧
    Waits s.Busy values receivers (s.join.map (·.place))

theorem Waits.mono {busy busy' : Prop} {values : List Unit} {receivers : List Nat}
    {place : Option Place} (h : Waits busy values receivers place) (himp : busy → busy') :
    Waits busy' values receivers place := by
  rcases place with _ | place
  · exact h
  cases place with
  | starting => exact ⟨h.1, h.2.1, h.2.2.imp himp id⟩
  | parked receiver wake => exact ⟨h.1, h.2.1, himp h.2.2⟩
  | testing => exact h
  | outrun receiver expired => exact h
  | resumed received => exact h
  | leaving => exact h
  | reporting timed => exact h

/-- Only the children change, and not so that the joiner has nothing left to wait for. -/
theorem Awake.same {s' : TaskGroup} (h : s.Awake)
    (hcompletion : s'.impl.completion = s.impl.completion) (hjoin : s'.join = s.join)
    (hbusy : s.Busy → s'.Busy) : s'.Awake := by
  obtain ⟨next, values, receivers, hslot, hwaits⟩ := h
  refine ⟨next, values, receivers, hcompletion.trans hslot, ?_⟩
  rw [hjoin]
  exact hwaits.mono hbusy

/-- No join is begun while another one is on its way. -/
def Single (s : TaskGroup) : Prop := s.impl.joinStarted = false → s.join = none

/-- A join that was begun stays begun, and only `begin_join` makes a joiner. -/
theorem Single.keep {s' : TaskGroup} (h : s.Single)
    (hstarted : s'.impl.joinStarted = s.impl.joinStarted) (hjoin : s.join = none → s'.join = none) :
    s'.Single :=
  fun hidle => hjoin (h (hstarted ▸ hidle))

/-- What holds in a state of the group. -/
structure Contract (s : TaskGroup) : Prop where
  /-- Every accepted child is active, stored, handed out, or counted as dropped. -/
  conserved : s.accepted = s.impl.active.length + s.impl.completed.length +
    (s.reports.flatMap Handed.finals).length +
      ((s.reports.map (·.dropped)).sum + s.impl.completedDropped)
  /-- No child's final outcome is handed out twice. -/
  once : ((s.reports.flatMap Handed.finals).map (·.sequence)).Nodup
  /-- The rows of a report are in spawn order, and those that lag are the active children of a timed
  report. -/
  ordered : ∀ h ∈ s.reports, h.Ordered
  activeRoom : s.impl.active.length ≤ s.impl.options.maxTasks
  completedRoom : s.impl.completed.length ≤ s.impl.options.maxCompleted
  /-- After a stop each child that was active has one cancellation, which is posted when the stop
  has returned. -/
  cancelled : s.impl.stopRequested = true → ∀ sequence ∈ s.stopped,
    (s.posted ++ s.posting).count sequence = 1 ∧ (s.posting = [] → s.posted.count sequence = 1)
  /-- Whoever is active after a stop was so at the stop. -/
  covered : s.impl.stopRequested = true → ∀ child ∈ s.impl.active, child.sequence ∈ s.stopped
  /-- Only the children at the stop are cancelled. -/
  onlyStopped : ∀ sequence ∈ s.posted, sequence ∈ s.stopped
  /-- After a stop nothing is accepted. -/
  refused : s.impl.stopRequested = true → ∀ name task launch,
    (∃ e, s.impl.spawn name task = .error e) ∧ s.spawn name task launch = s
  /-- A joiner that waits with no token in the channel has one to come. -/
  awake : ∀ join receiver wake, s.join = some join → join.place = .parked receiver wake →
    s.impl.completion.values = [] → s.impl.active ≠ [] ∨ 0 < s.tokens

end TaskGroup

end Orangutan.Async
