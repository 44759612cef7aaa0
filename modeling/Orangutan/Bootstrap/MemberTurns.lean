import Orangutan.Bootstrap.Inbox

/-!
# Turns of team members

The session of a team run is bound to its team and to the member's name. Each
iteration of its turn reads the member's inbox; a turn that was persisted
acknowledges the messages it showed, a failed turn acknowledges none. A run ends
only after its turn: the monitor joins the child first.
-/

namespace Orangutan.Bootstrap

set_option autoImplicit false

open Orangutan.Core Orangutan.Agent Orangutan.Lib Orangutan.Tool

/-- A turn of a member session. -/
structure MemberTurn where
  job : JobRef
  team : TeamRef
  member : Bytes
  iteration : Nat := 0
  inboxIds : List Bytes := []
  /-- The inbox messages of its transcript. -/
  transcript : List Message := []

/-- The service with the member turns under way. `committed` lists the persisted
turns in the order of their commits. -/
structure TeamHost where
  tasks : State
  turns : List MemberTurn
  committed : List MemberTurn

/-- Job `r` is a launched run of the team for the member. -/
structure Seat (s : State) (r : JobRef) (tr : TeamRef) (member : Bytes) : Prop where
  listed : r ∈ s.jobs
  launched : (s.job r).snapshot.state.occupies = true
  team : (s.job r).team = some tr
  entry : ∃ w ∈ (s.team tr).work,
    w.snapshot.key = (s.job r).snapshot.teamTaskKey ∧ w.snapshot.member = member

instance (s : State) (r : JobRef) (tr : TeamRef) (member : Bytes) :
    Decidable (Seat s r tr member) :=
  decidable_of_iff (r ∈ s.jobs ∧ (s.job r).snapshot.state.occupies = true ∧
    (s.job r).team = some tr ∧
      ∃ w ∈ (s.team tr).work,
        w.snapshot.key = (s.job r).snapshot.teamTaskKey ∧ w.snapshot.member = member)
    ⟨fun h => ⟨h.1, h.2.1, h.2.2.1, h.2.2.2⟩, fun h => ⟨h.1, h.2, h.3, h.4⟩⟩

namespace TeamHost

inductive Event
  | operation (op : State.Op)
  | begin (job : JobRef) (team : TeamRef) (member : Bytes)
  /-- The turn starts its next iteration. -/
  | read (turn : Nat)
  | commit (turn : Nat)
  | fail (turn : Nat)

def Enabled (h : TeamHost) : Event → Prop
  | .operation op => h.tasks.Enabled op ∧ ∀ turn ∈ h.turns, op.ends turn.job = false
  | .begin job team member => Seat h.tasks job team member ∧ ∀ turn ∈ h.turns, turn.job ≠ job
  | .read turn => turn < h.turns.length
  | .commit turn => turn < h.turns.length
  | .fail turn => turn < h.turns.length

instance (h : TeamHost) (e : Event) : Decidable (h.Enabled e) := by
  cases e <;> unfold Enabled <;> infer_instance

/-- The inbox step of one iteration; an error ends the turn. -/
def readInbox (s : State) (turn : MemberTurn) : Result MemberTurn :=
  match inboxReader ((s.team turn.team).inboxRead turn.member) turn.inboxIds with
  | .error e => .error e
  | .ok (inbox, ids) =>
    match takeInbox inbox with
    | .error e => .error e
    | .ok message => .ok { turn with
        iteration := turn.iteration + 1
        inboxIds := ids
        transcript := turn.transcript ++ message.toList }

/-- The session acknowledges what its persisted turn has shown. -/
def acknowledge (s : State) (turn : MemberTurn) : State :=
  s.setTeam turn.team ((s.team turn.team).inboxAcknowledge turn.member turn.inboxIds)

def apply (h : TeamHost) : Event → TeamHost
  | .operation op => { h with tasks := h.tasks.apply op }
  | .begin job team member => { h with turns := h.turns ++ [{ job, team, member }] }
  | .read i =>
    match h.turns[i]? with
    | none => h
    | some turn =>
      match readInbox h.tasks turn with
      | .error _ => { h with turns := h.turns.eraseIdx i }
      | .ok turn => { h with turns := h.turns.set i turn }
  | .commit i =>
    match h.turns[i]? with
    | none => h
    | some turn =>
      { tasks := acknowledge h.tasks turn
        turns := h.turns.eraseIdx i
        committed := h.committed ++ [turn] }
  | .fail i => { h with turns := h.turns.eraseIdx i }

def Step (h k : TeamHost) : Prop := ∃ e, h.Enabled e ∧ h.apply e = k

/-- The states of a host of a created service. -/
def Reachable (svc : Service) (h : TeamHost) : Prop :=
  ∃ s₀, State.create svc = .ok s₀ ∧ Relation.ReflTransGen Step ⟨s₀, [], []⟩ h

/-- The persisted turns of one member. -/
def committedTurns (h : TeamHost) (tr : TeamRef) (member : Bytes) : List MemberTurn :=
  h.committed.filter fun turn => turn.team == tr && turn.member == member

/-- The inbox messages in the transcripts a member has committed. -/
def committedMessages (h : TeamHost) (tr : TeamRef) (member : Bytes) : List Message :=
  (h.committedTurns tr member).flatMap (·.transcript)

/-- The events are enabled one after the other. -/
def AllEnabled : TeamHost → List Event → Prop
  | _, [] => True
  | h, e :: rest => h.Enabled e ∧ AllEnabled (h.apply e) rest

instance instDecidableAllEnabled (h : TeamHost) (events : List Event) :
    Decidable (AllEnabled h events) :=
  match events with
  | [] => .isTrue trivial
  | e :: rest =>
    have : Decidable (AllEnabled (h.apply e) rest) := instDecidableAllEnabled (h.apply e) rest
    inferInstanceAs (Decidable (h.Enabled e ∧ AllEnabled (h.apply e) rest))

theorem steps_foldl {h : TeamHost} (events : List Event) (he : AllEnabled h events) :
    Relation.ReflTransGen Step h (events.foldl apply h) := by
  induction events generalizing h with
  | nil => exact .refl
  | cons e rest ih => exact .head ⟨e, he.1, rfl⟩ (ih he.2)

/-- A leader and a running member; the leader has sent one message, the member's turn
has shown it. -/
def sampleEvents : List Event :=
  [.operation (State.sampleCommand State.sampleTeam),
    .operation (State.sampleCommand (.taskCreate (State.sampleTask "a" []))), .operation .pump,
    .operation (State.sampleCommand (.message ⟨text "dev", text "a", text "mind \"x\""⟩)),
    .begin 0 0 (text "dev"), .read 0]

def sample (more : List Event) : TeamHost :=
  (sampleEvents ++ more).foldl apply ⟨State.empty (State.sampleService true), [], []⟩

theorem sample_reachable {more : List Event}
    (h : AllEnabled ⟨State.empty (State.sampleService true), [], []⟩ (sampleEvents ++ more)) :
    Reachable (State.sampleService true) (sample more) :=
  ⟨State.empty (State.sampleService true), by rfl, steps_foldl (sampleEvents ++ more) h⟩

end TeamHost

end Orangutan.Bootstrap
