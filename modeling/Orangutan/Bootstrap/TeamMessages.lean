import Orangutan.Bootstrap.AgentTeam

/-!
# Team messages and board output

A message is admitted to the team's list, stays there, and is acknowledged after
the recipient's transcript was persisted.
-/

namespace Orangutan.Bootstrap

set_option autoImplicit false

open Orangutan.Core Orangutan.Core.Str Orangutan.Lib Orangutan.Tool

namespace Team

def pendingMessages (team : Team) : Nat := team.messages.countP fun m => !m.acknowledged

/-- The recipient's unacknowledged messages, as the admission check counts them. -/
def pendingFor (team : Team) (recipient : Bytes) : Nat :=
  team.messages.countP fun m => m.recipient == recipient && !m.acknowledged

/-- The encoded body of a message about a task. -/
def messageBody (work : Team.Work) (request : TeamMessageRequest) : Bytes :=
  (Json.obj [
    (text "attempt", .num work.snapshot.attempt),
    (text "message", .str request.message),
    (text "task", .str request.taskKey)]).dump

def messageReceipt (id recipient : Bytes) : Bytes :=
  (Json.obj [
    (text "kind", .str (text "team_message")),
    (text "message_id", .str id),
    (text "recipient", .str recipient),
    (text "state", .str (text "queued")),
    (text "wakes_idle_member", .bool false)]).dump

/-- `SessionInbox::read` of one member. -/
def inboxRead (team : Team) (member : Bytes) : List InboxMessage :=
  (team.messages.filter fun m => m.recipient == member && !m.acknowledged).map (·.envelope)

/-- `SessionInbox::acknowledge` of one member. -/
def inboxAcknowledge (team : Team) (member : Bytes) (ids : List Bytes) : Team :=
  { team with messages := team.messages.map fun m =>
      if m.recipient == member && ids.contains m.envelope.id then { m with acknowledged := true }
      else m }

/-- The board fields of a task, in key order, split where a report window is added. -/
def taskHead (task : TeamTaskSnapshot) : List (Bytes × Json) :=
  [(text "attempt", .num task.attempt),
    (text "depends_on", .arr (task.dependsOn.map .str)),
    (text "error_kind", match task.errorKind with
      | some kind => .str kind.name
      | none => .null)]

def taskTail (task : TeamTaskSnapshot) : List (Bytes × Json) :=
  [(text "report_bytes", .num task.report.length),
    (text "report_truncated", .bool task.reportTruncated),
    (text "run_id", .str task.runId),
    (text "state", .str task.state.name)]

def taskValue (task : TeamTaskSnapshot) : Json :=
  .obj (taskHead task ++
    [(text "key", Json.str task.key), (text "member", .str task.member)] ++ taskTail task)

def windowValue (task : TeamTaskSnapshot) (offset : Nat) (report : Bytes) : Json :=
  .obj (taskHead task ++
    [(text "feedback", Json.str task.feedback),
      (text "key", .str task.key),
      (text "member", .str task.member),
      (text "next_offset",
        if offset + report.length < task.report.length then .num (offset + report.length)
          else .null),
      (text "offset", .num offset),
      (text "report", .str report)] ++
    taskTail task)

end Team

def teamOutputText (encoded : Bytes) (automaticDelivery : Bool) : ToolOutput :=
  { text := encoded ++
      text
        "\nA reported task awaits your review. Only accepting its current attempt unlocks dependents. " ++
      text "Waiting can mean unaccepted dependencies, a busy member, or shared task capacity. " ++
      text "Use TeamGet with a task key for evidence; capped reports are incomplete." ++
      (if automaticDelivery then text " Completion arrives automatically; do not poll just to wait."
        else text " This host does not send automatic completion; inspect when needed.")
    dataJson := some encoded }

/-- The byte at the offset continues a UTF-8 sequence. -/
def interiorOffset (t : Bytes) (offset : Nat) : Bool :=
  match t[offset]? with
  | some b => b &&& 0xC0 == 0x80
  | none => false

def teamOutput (team : Team) (automaticDelivery : Bool) (request : TeamGetRequest) :
    Result ToolOutput :=
  let data (members tasks : List (Bytes × Json)) := (Json.obj (
    [(text "completion_delivery",
        .str (if automaticDelivery then text "automatic" else text "query_only")),
      (text "kind", .str (text "agent_team"))] ++
    members ++
    [(text "pending_messages", .num team.pendingMessages),
      (text "sent_messages", .num team.messages.length),
      (text "stopped", .bool team.stopped),
      (text "survives_restart", .bool false)] ++
    tasks ++
    [(text "team_id", .str team.id)])).dump
  if request.key.isEmpty then
    let members := team.members.map fun m =>
      Json.obj [(text "name", .str m.snapshot.name),
        (text "tools", .arr (m.snapshot.tools.map .str))]
    let tasks := team.work.map fun w => Team.taskValue w.snapshot
    .ok (teamOutputText (data [(text "members", .arr members)] [(text "tasks", .arr tasks)])
      automaticDelivery)
  else
    match team.work.find? fun w => w.snapshot.key == request.key with
    | none => .error (.notFound "team task is unavailable")
    | some work =>
      let task := work.snapshot
      if task.report.length < request.offset || interiorOffset task.report request.offset then
        .error (.invalidArgument "invalid team report byte offset")
      else
        let report := truncateToCodePoint (task.report.drop request.offset) request.maxBytes
        if report.isEmpty && decide (request.offset < task.report.length) then
          .error (.invalidArgument "team report window cannot fit one UTF-8 character")
        else
          .ok (teamOutputText
            (data [] [(text "tasks", .arr [Team.windowValue task request.offset report])])
            automaticDelivery)

namespace State

def sendTeamMessage (s : State) (tr : TeamRef) (sender : Bytes) (request : TeamMessageRequest) :
    Result ToolOutput × State :=
  let team := s.team tr
  match validateTeamCommand (.message request) with
  | .error e => (.error e, s)
  | .ok _ =>
    if s.closed || team.stopped then (.error (.of .conflict "team messaging is closed"), s)
    else
      match team.members.find? (fun m => m.snapshot.name == request.recipient),
          team.work.find? (fun w => w.snapshot.key == request.taskKey) with
      | some _, some work =>
        if request.recipient == sender then
          (.error (.invalidArgument "send team messages to another member"), s)
        else if sender != leaderName &&
            (work.snapshot.member != sender || work.snapshot.state != .running) then
          (.error (.permissionDenied "members can message only about their active task"), s)
        else if 64 ≤ team.messages.length || 16 ≤ team.pendingFor request.recipient then
          (.error (.of .mailboxOverflowed "team message limit reached"), s)
        else
          let id := decimal (team.messages.length + 1)
          let body := Team.messageBody work request
          if 8192 < body.length then
            (.error (.invalidArgument "encoded team message exceeds the inbox byte bound"), s)
          else
            let receipt := Team.messageReceipt id request.recipient
            (.ok {
                text := receipt ++
                  text
                    "\nQueued for the recipient's next model request; this does not imply it was read."
                dataJson := some receipt },
              s.setTeam tr { team with messages := team.messages ++
                [{ envelope := { id, sender, text := body }, recipient := request.recipient }] })
      | _, _ => (.error (.notFound "team recipient or task is unavailable"), s)

end State

end Orangutan.Bootstrap
