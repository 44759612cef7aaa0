import Orangutan.Channel.Adapter
import Orangutan.Lib.Table

/-!
# The channel dispatcher

`handle` and `resume` are coroutines: they hold the lease of their conversation and wait
for an authorization, for the turn or for the transport, and any other call may run in
between. An event is what one call or one coroutine does up to its next wait.
-/

namespace Orangutan.Channel

set_option autoImplicit false

open Orangutan.Core

structure Delivery where
  partsSent : Nat := 0
  duplicate : Bool := false
  activityFailures : Nat := 0
  deriving DecidableEq, Repr

structure PendingReply where
  parts : List Bytes := []
  nextPart : Nat := 0

structure DispatcherOptions where
  capacity : Nat := 128
  maxReplyBytes : Nat := 65536
  renderReply : Option (Message → Bytes → Nat → Outcome Request) := none
  splitReply : Option (Bytes → Nat → Outcome (List Bytes)) := none

structure Entry where
  message : Message
  reply : PendingReply := {}
  generated : Bool := false
  complete : Bool := false
  error : Option Error := none
  delivery : Delivery := {}

def safeError (e : Error) : Error :=
  { kind := e.kind, message := "channel operation failed", retryAfter := e.retryAfter }

/-- What an operation waits for. While it delivers, `first` is the part that it began
with. -/
inductive Wait
  | admission
  | turn
  | recovery (nextPart : Nat)
  | permission (first : Nat) (request : Request)
  | transport (first : Nat)
  | returned (result : Result Delivery)

/-- A call of `resume` if `resumes`, else of `handle`. -/
structure Operation where
  message : Message
  resumes : Bool
  wait : Wait

namespace Operation

def key (op : Operation) : Bytes := eventKey op.message

def conversation (op : Operation) : Bytes := conversationKey op.message.conversation

def Active (op : Operation) : Prop := ∀ result, op.wait ≠ .returned result

end Operation

/-- What the dispatcher has done, newest first. An operator who resumes an entry moves it from
part `old` to part `next`. -/
inductive Mark
  | turn (key : Bytes)
  | sent (key : Bytes) (part : Nat) (request : Request)
  | confirmed (key : Bytes) (part : Nat)
  | resumed (key : Bytes) (old next : Nat)
  | evicted (key : Bytes)
  deriving DecidableEq

structure Dispatcher where
  entries : Lib.Table Bytes Entry := ∅
  completed : List Bytes := []
  busy : List Bytes := []
  operations : List Operation := []
  log : List Mark := []

/-- How `run` ends, what its activity has counted, and what the join of its task says. -/
structure TurnEnd where
  answer : Outcome Bytes
  cancelled : Bool := false
  failures : Nat := 0
  joined : Result Nat := .ok 0

/-- `tasks` is what starting the activity answers, where an admitted call starts one. -/
inductive DispatcherEvent
  | handle (message : Message)
  | resume (message : Message) (nextPart : Nat)
  | pending (message : Message)
  | acknowledgeFailure (message : Message)
  | authorized (operation : Nat) (allowed : Outcome Unit) (tasks : Result Unit) (cancelled : Bool)
  | answered (operation : Nat) (ended : TurnEnd)
  | transported (operation : Nat) (response : Outcome Response) (cancelled : Bool)

/-- Where a coroutine goes from its entry: to another wait, or out of `deliver` or
`process`. -/
inductive Course
  | waits (wait : Wait)
  | ends (outcome : Outcome Delivery)

section Entries

variable (adapter : Adapter) (options : DispatcherOptions)

def render (message : Message) (part : Bytes) (index : Nat) : Outcome Request :=
  match options.renderReply with
  | some renderReply => renderReply message part index
  | none => adapter.reply message part index

/-- The first part from `nextPart` on that cannot be rendered. -/
def preflight (entry : Entry) : Option (Outcome Delivery) :=
  (List.range' entry.reply.nextPart (entry.reply.parts.length - entry.reply.nextPart)).findSome?
      fun i =>
    match render adapter options entry.message (entry.reply.parts.getD i []) i with
    | .returned (.ok _) => none
    | .returned (.error e) => some (.returned (.error e))
    | .threw => some .threw

/-- The sending loop of `deliver`, up to its next wait. -/
def sendLoop (first : Nat) (entry : Entry) : Entry × Course :=
  match entry.reply.parts[entry.reply.nextPart]? with
  | some part =>
    match render adapter options entry.message part entry.reply.nextPart with
    | .returned (.ok request) => (entry, .waits (.permission first request))
    | .returned (.error e) => (entry, .ends (.returned (.error e)))
    | .threw => (entry, .ends .threw)
  | none => ({ entry with complete := true, error := none }, .ends (.returned (.ok entry.delivery)))

def deliver (entry : Entry) : Entry × Course :=
  match preflight adapter options entry with
  | some outcome => (entry, .ends outcome)
  | none => sendLoop adapter options entry.reply.nextPart entry

/-- The checks of `process` between the answer and its delivery. -/
def replyParts (message : Message) (answer : Bytes) : Outcome (List Bytes) :=
  let limit := adapter.textBytes message.conversation.kind
  if options.maxReplyBytes < answer.length then
    .returned (.error (.invalidArgument "channel reply exceeds byte limit"))
  else
    match options.splitReply.elim (.returned (splitText answer limit)) (· answer limit) with
    | .threw => .threw
    | .returned (.error e) => .returned (.error e)
    | .returned (.ok parts) =>
      if (!answer.isEmpty && parts.isEmpty) || decide (options.maxReplyBytes < parts.length) then
        .returned (.error (.invalidArgument "invalid channel reply parts"))
      else if parts.any fun part =>
        part.isEmpty || (splitText part limit).toOption.all (·.length != 1) then
        .returned (.error (.invalidArgument "invalid channel reply part"))
      else .returned (.ok parts)

/-- The answer of the turn; an exception of the callback leaves the initial error. -/
def TurnEnd.result (ended : TurnEnd) : Result Bytes :=
  match ended.answer with
  | .returned answer => answer
  | .threw => .error (.internal "channel turn failed")

/-- `process` after the turn. -/
def process (ended : TurnEnd) (entry : Entry) : Entry × Course :=
  let entry := { entry with delivery := { entry.delivery with activityFailures := ended.failures } }
  match ended.joined with
  | .error e => (entry, .ends (.returned (.error e)))
  | .ok failed =>
    let entry := { entry with delivery :=
      { entry.delivery with activityFailures := ended.failures + failed } }
    match ended.result with
    | .error e =>
        (entry, .ends (.returned (.error (if ended.cancelled then .cancelled else safeError e))))
    | .ok answer =>
      match replyParts adapter options entry.message answer with
      | .threw => (entry, .ends .threw)
      | .returned (.error e) => (entry, .ends (.returned (.error e)))
      | .returned (.ok parts) =>
        let entry := { entry with reply := { entry.reply with parts }, generated := true }
        if ended.cancelled then (entry, .ends (.returned (.error .cancelled)))
        else deliver adapter options entry

def cancelledOr (cancelled : Bool) (message : String) : Error :=
  if cancelled then .cancelled else .internal message

/-- `send` of a part, once the transport has been awaited. -/
def partReceipt (response : Outcome Response) (cancelled : Bool) : Result Receipt :=
  match response with
  | .threw => .error (cancelledOr cancelled "channel transport failed")
  | .returned (.error e) => .error (safeError e)
  | .returned (.ok response) =>
    match adapter.accept response with
    | .error e => .error e
    | .ok receipt =>
      if receipt.id.isEmpty then .error (.parsing "channel send returned no message receipt")
        else .ok receipt

def unconfirmed (entry : Entry) (e : Error) : Entry × Course :=
  (entry, .ends (.returned (.error (e.note "confirmed_parts" (decimal entry.reply.nextPart)))))

/-- A confirmed send, and the loop from there. -/
def confirm (first : Nat) (entry : Entry) : Entry × Course :=
  sendLoop adapter options first
    { entry with
      reply := { entry.reply with nextPart := entry.reply.nextPart + 1 }
      delivery := { entry.delivery with partsSent := entry.delivery.partsSent + 1 } }

end Entries

/-- What its caller makes of how a coroutine ends: `handle_impl` keeps an error and an
exception as the entry's error, `resume_impl` an error only. -/
def settle (op : Operation) (cancelled : Bool) : Entry × Course → Entry × Wait
  | (entry, .waits wait) => (entry, wait)
  | (entry, .ends (.returned (.ok delivery))) => (entry, .returned (.ok delivery))
  | (entry, .ends (.returned (.error e))) => ({ entry with error := some e }, .returned (.error e))
  | (entry, .ends .threw) =>
    if op.resumes then (entry, .returned (.error (cancelledOr cancelled "channel recovery failed")))
    else
      ({ entry with error := some (.internal "channel dispatch failed") },
        .returned (.error (.internal "channel dispatch failed")))

namespace Dispatcher

/-- A call ends before it has a lease. -/
def refuse (message : Message) (resumes : Bool) (e : Error) (s : Dispatcher) : Dispatcher :=
  { s with operations := s.operations ++ [{ message, resumes, wait := .returned (.error e) }] }

/-- The constructor of `ConversationLease`. -/
def lease (message : Message) (resumes : Bool) (wait : Wait) (s : Dispatcher) : Dispatcher :=
  { s with
    busy := conversationKey message.conversation :: s.busy
    operations := s.operations ++ [{ message, resumes, wait }] }

/-- A call returns, and its lease ends. -/
def release (o : Nat) (op : Operation) (result : Result Delivery) (s : Dispatcher) : Dispatcher :=
  { s with
    busy := s.busy.erase op.conversation
    operations := s.operations.set o { op with wait := .returned result } }

/-- A coroutine goes on with its entry, or ends. -/
def follow (o : Nat) (op : Operation) (cancelled : Bool) (s : Dispatcher) (p : Entry × Course) :
    Dispatcher :=
  let (entry, wait) := settle op cancelled p
  let s := { s with
    entries := s.entries.insert op.key entry
    operations := s.operations.set o { op with wait } }
  match wait with
  | .returned (.ok _) =>
    { s with
      busy := s.busy.erase op.conversation, completed := s.completed ++ [eventKey entry.message] }
  | .returned (.error _) => { s with busy := s.busy.erase op.conversation }
  | _ => s

variable (adapter : Adapter) (options : DispatcherOptions)

def handle (message : Message) (s : Dispatcher) : Dispatcher :=
  match validate message adapter.platform with
  | .error e => s.refuse message false e
  | .ok () =>
    if s.busy.contains (conversationKey message.conversation) then
      s.refuse message false (.of .conflict "channel conversation is busy")
    else if options.capacity ≤ s.busy.length then
      s.refuse message false (.of .mailboxOverflowed "channel admission is full")
    else s.lease message false .admission

/-- A new entry, and the turn unless its activity could not be started. -/
def accept (o : Nat) (op : Operation) (tasks : Result Unit) (s : Dispatcher) : Dispatcher :=
  match tasks with
  | .error e => s.follow o op false ({ message := op.message }, .ends (.returned (.error e)))
  | .ok () =>
    { s with log := .turn op.key :: s.log }.follow o op false ({ message := op.message },
      .waits .turn)

/-- `handle_impl` once its message is allowed. -/
def handleAllowed (o : Nat) (op : Operation) (tasks : Result Unit) (s : Dispatcher) : Dispatcher :=
  match s.entries.lookup op.key with
  | some entry =>
    match entry.error with
    | some e => s.release o op (.error e)
    | none => s.release o op (.ok { entry.delivery with duplicate := true })
  | none =>
    if options.capacity ≤ s.entries.keys.length then
      match s.completed with
      | [] => s.release o op (.error (.of .mailboxOverflowed "channel delivery cache is full"))
      | oldest :: rest =>
        accept o op tasks
          { s with
            entries := s.entries.erase oldest, completed := rest, log := .evicted oldest :: s.log }
    else s.accept o op tasks

def pending (message : Message) (s : Dispatcher) : Result PendingReply :=
  if s.busy.contains (conversationKey message.conversation) then
    .error (.of .conflict "channel conversation is busy")
  else
    match s.entries.lookup (eventKey message) with
    | none => .error (.notFound "no pending channel reply")
    | some entry =>
      if !entry.generated || entry.complete then .error (.notFound "no pending channel reply")
      else .ok entry.reply

def resume (message : Message) (nextPart : Nat) (s : Dispatcher) : Dispatcher :=
  match s.pending message with
  | .error e => s.refuse message true e
  | .ok reply =>
    if nextPart < reply.nextPart || reply.parts.length < nextPart then
      s.refuse message true (.invalidArgument "invalid delivery recovery position")
    else s.lease message true (.recovery nextPart)

def acknowledgeFailure (message : Message) (s : Dispatcher) : Result Unit × Dispatcher :=
  if s.busy.contains (conversationKey message.conversation) then
    (.error (.of .conflict "channel conversation is busy"), s)
  else
    match s.entries.lookup (eventKey message) with
    | none => (.error (.notFound "no failed channel delivery"), s)
    | some entry =>
      if entry.error.isNone then (.error (.notFound "no failed channel delivery"), s)
      else if entry.complete then (.ok (), s)
      else
        (.ok (), { s with
          entries := s.entries.insert (eventKey message) { entry with complete := true }
          completed := s.completed ++ [eventKey message] })

/-- The continuation after an authorization. -/
def authorized (o : Nat) (op : Operation) (allowed : Outcome Unit) (tasks : Result Unit)
    (cancelled : Bool) (s : Dispatcher) : Dispatcher :=
  match op.wait, allowed with
  | .admission, .returned (.ok ()) => s.handleAllowed options o op tasks
  | .admission, .returned (.error e) => s.release o op (.error e)
  | .admission, .threw => s.release o op (.error (cancelledOr cancelled "channel dispatch failed"))
  | .recovery nextPart, .returned (.ok ()) =>
    match s.entries.lookup op.key with
    | none => s
    | some entry =>
      { s with log := .resumed op.key entry.reply.nextPart nextPart :: s.log }.follow o op cancelled
        (deliver adapter options
          { entry with
            reply := { entry.reply with nextPart }
            delivery := { entry.delivery with partsSent := nextPart } })
  | .recovery _, .returned (.error e) => s.release o op (.error e)
  | .recovery _, .threw => s.release o op (.error (cancelledOr cancelled "channel recovery failed"))
  | .permission first request, allowed =>
    match s.entries.lookup op.key with
    | none => s
    | some entry =>
      match allowed with
      | .returned (.ok ()) =>
        { s with log := .sent op.key entry.reply.nextPart request :: s.log }.follow o op cancelled
          (entry, .waits (.transport first))
      | .returned (.error e) => s.follow o op cancelled (unconfirmed entry e)
      | .threw => s.follow o op cancelled
          (unconfirmed entry (cancelledOr cancelled "channel transport failed"))
  | _, _ => s

def answered (o : Nat) (op : Operation) (ended : TurnEnd) (s : Dispatcher) : Dispatcher :=
  match op.wait, s.entries.lookup op.key with
  | .turn, some entry => s.follow o op ended.cancelled (process adapter options ended entry)
  | _, _ => s

def transported (o : Nat) (op : Operation) (response : Outcome Response) (cancelled : Bool)
    (s : Dispatcher) :
    Dispatcher :=
  match op.wait, s.entries.lookup op.key with
  | .transport first, some entry =>
    match partReceipt adapter response cancelled with
    | .ok _ =>
      { s with log := .confirmed op.key entry.reply.nextPart :: s.log }.follow o op cancelled
        (confirm adapter options first entry)
    | .error e => s.follow o op cancelled (unconfirmed entry e)
  | _, _ => s

def onOperation (o : Nat) (f : Operation → Dispatcher → Dispatcher) (s : Dispatcher) : Dispatcher :=
  match s.operations[o]? with
  | none => s
  | some op => f op s

def step (s : Dispatcher) : DispatcherEvent → Dispatcher
  | .handle message => s.handle adapter options message
  | .resume message nextPart => s.resume message nextPart
  | .pending _ => s
  | .acknowledgeFailure message => (s.acknowledgeFailure message).2
  | .authorized o allowed tasks cancelled =>
    s.onOperation o fun op => authorized adapter options o op allowed tasks cancelled
  | .answered o ended => s.onOperation o fun op => answered adapter options o op ended
  | .transported o response cancelled => s.onOperation o fun op =>
      transported adapter options o op response cancelled

def run (events : List DispatcherEvent) : Dispatcher := events.foldl (step adapter options) {}

end Dispatcher

end Orangutan.Channel
