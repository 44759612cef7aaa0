import Orangutan.Bootstrap.Operations

/-!
# Completion turns of agent sessions

`AgentSession::run_completion` claims up to four finished reports, suspends in a
turn that hands them to the model, and resumes either to acknowledge them or to let
go of its claims. A host interleaves such turns with the operations of the service.
-/

namespace Orangutan.Bootstrap

set_option autoImplicit false

open Orangutan.Core Orangutan.Lib Orangutan.Tool

namespace State

/-- The loop that adds reports already ready in the session. The bound counts the
places left in the claim. An identity is noted before it is claimed. -/
def gatherCompletions (owner : TaskOwner) : Nat → State → List Bytes →
    Result Unit × List Bytes × State
  | 0, s, ids => (.ok (), ids, s)
  | places + 1, s, ids =>
    match s.nextCompletion owner with
    | none => (.ok (), ids, s)
    | some next =>
      match s.claimCompletion owner next with
      | (.error e, s) => (.error e, ids ++ [next], s)
      | (.ok _, s) => gatherCompletions owner places s (ids ++ [next])

def finishCompletions (owner : TaskOwner) (committed : Bool) : List Bytes → State → State
  | [], s => s
  | id :: rest, s => finishCompletions owner committed rest (s.finishCompletion owner id committed)

/-- `run_completion` up to its suspension: an error, nothing to deliver, or the
identities whose claims the suspended turn holds. -/
def beginCompletion (s : State) (owner : TaskOwner) (id : Bytes) :
    Result (Option (List Bytes)) × State :=
  match s.claimCompletion owner id with
  | (.error e, s) => (.error e, s)
  | (.ok false, s) => (.ok none, s)
  | (.ok true, s) =>
    match gatherCompletions owner 3 s [id] with
    | (.error e, ids, s) => (.error e, finishCompletions owner false ids s)
    | (.ok _, ids, s) => (.ok (some ids), s)

/-- `run_completion` after its turn: a committed turn acknowledges its reports, and
the claim is let go of in any case. -/
def endCompletion (s : State) (owner : TaskOwner) (ids : List Bytes) (committed : Bool) : State :=
  let s := if committed then finishCompletions owner true ids s else s
  finishCompletions owner false ids s

end State

/-- A suspended completion turn. -/
structure CompletionTurn where
  owner : TaskOwner
  ids : List Bytes

/-- The service with the completion turns under way. `cancelled` records the jobs an
explicit cancel has reached so far. -/
structure Host where
  tasks : State
  turns : List CompletionTurn
  cancelled : List JobRef

namespace Host

inductive Event
  | operation (op : State.Op)
  | begin (owner : TaskOwner) (id : Bytes)
  | commit (turn : Nat)
  | fail (turn : Nat)

/-- Claims are made and let go of by completion turns only. -/
def Enabled (h : Host) : Event → Prop
  | .operation op => h.tasks.Enabled op ∧ op.delivers = false
  | .begin _ _ => True
  | .commit turn => turn < h.turns.length
  | .fail turn => turn < h.turns.length

instance (h : Host) (e : Event) : Decidable (h.Enabled e) := by
  cases e <;> unfold Enabled <;> infer_instance

/-- A completion turn ends. -/
def endTurn (h : Host) (turn : Nat) (committed : Bool) : Host :=
  match h.turns[turn]? with
  | none => h
  | some frame =>
    { h with
      tasks := h.tasks.endCompletion frame.owner frame.ids committed
      turns := h.turns.eraseIdx turn }

def apply (h : Host) : Event → Host
  | .operation op =>
    { h with
      tasks := h.tasks.apply op
      cancelled := h.cancelled ++ h.tasks.jobs.filter fun r => op.cancels h.tasks (h.tasks.job r) }
  | .begin owner id =>
    match h.tasks.beginCompletion owner id with
    | (.ok (some ids), s) => { h with tasks := s, turns := h.turns ++ [⟨owner, ids⟩] }
    | (_, s) => { h with tasks := s }
  | .commit turn => h.endTurn turn true
  | .fail turn => h.endTurn turn false

def Step (h k : Host) : Prop := ∃ e, h.Enabled e ∧ h.apply e = k

/-- The states of a host of a created service. -/
def Reachable (svc : Service) (h : Host) : Prop :=
  ∃ s₀, State.create svc = .ok s₀ ∧ Relation.ReflTransGen Step ⟨s₀, [], []⟩ h

/-- The reports claimed by turns under way. -/
def holders (h : Host) : List (TaskOwner × Bytes) :=
  h.turns.flatMap fun turn => turn.ids.map fun id => (turn.owner, id)

/-- The events are enabled one after the other. -/
def AllEnabled : Host → List Event → Prop
  | _, [] => True
  | h, e :: rest => h.Enabled e ∧ AllEnabled (h.apply e) rest

instance instDecidableAllEnabled (h : Host) (events : List Event) :
    Decidable (AllEnabled h events) :=
  match events with
  | [] => .isTrue trivial
  | e :: rest =>
    have : Decidable (AllEnabled (h.apply e) rest) := instDecidableAllEnabled (h.apply e) rest
    inferInstanceAs (Decidable (h.Enabled e ∧ AllEnabled (h.apply e) rest))

theorem steps_foldl {h : Host} (events : List Event) (he : AllEnabled h events) :
    Relation.ReflTransGen Step h (events.foldl apply h) := by
  induction events generalizing h with
  | nil => exact .refl
  | cons e rest ih => exact .head ⟨e, he.1, rfl⟩ (ih he.2)

/-- One background run has finished and a completion turn holds its report. -/
def sampleEvents : List Event :=
  [.operation (.start State.sampleLeader ⟨text "look", []⟩ State.sampleContext), .operation .pump,
    .operation (.monitor 0 true (some (.ok (text "found")))),
    .begin (taskOwner State.sampleLeader) (formatTurnIdHex (State.sampleId 1))]

def sample : Host := sampleEvents.foldl apply ⟨State.empty (State.sampleService true), [], []⟩

theorem sample_reachable : Reachable (State.sampleService true) sample :=
  ⟨State.empty (State.sampleService true), by rfl, steps_foldl sampleEvents (by decide +kernel)⟩

end Host

end Orangutan.Bootstrap
