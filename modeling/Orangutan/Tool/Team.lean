import Orangutan.Core.TurnId

/-!
# Team commands

The commands a leader may issue, with the bounds every one of them passes before
it reaches the coordination state. Host calls go through the same validation.
-/

namespace Orangutan.Tool

set_option autoImplicit false

open Orangutan.Core

structure TeamMemberSpec where
  name : Bytes
  instructions : Bytes
  tools : List Bytes
  deriving DecidableEq

structure TeamCreateRequest where
  goal : Bytes
  members : List TeamMemberSpec

structure TeamMemberAddRequest where
  member : TeamMemberSpec

structure TeamTaskCreateRequest where
  key : Bytes
  member : Bytes
  prompt : Bytes
  dependsOn : List Bytes

inductive TeamTaskAction
  | accept
  | revise
  | cancel
  deriving DecidableEq, Repr

structure TeamTaskUpdateRequest where
  key : Bytes
  attempt : Nat
  action : TeamTaskAction
  feedback : Bytes
  teamId : Bytes

structure TeamGetRequest where
  key : Bytes := []
  offset : Nat := 0
  maxBytes : Nat := 2048

structure TeamMessageRequest where
  recipient : Bytes
  taskKey : Bytes
  message : Bytes

inductive TeamCommand
  | create (request : TeamCreateRequest)
  | taskCreate (request : TeamTaskCreateRequest)
  | taskUpdate (request : TeamTaskUpdateRequest)
  | get (request : TeamGetRequest)
  | stop
  | message (request : TeamMessageRequest)
  | memberAdd (request : TeamMemberAddRequest)

def TeamCommand.reading : TeamCommand → Bool
  | .get _ => true
  | _ => false

def TeamCommand.stopping : TeamCommand → Bool
  | .stop => true
  | _ => false

def teamCreateName : Bytes := text "TeamCreate"
def teamTaskCreateName : Bytes := text "TeamTaskCreate"
def teamTaskUpdateName : Bytes := text "TeamTaskUpdate"
def teamGetName : Bytes := text "TeamGet"
def teamStopName : Bytes := text "TeamStop"
def teamMessageName : Bytes := text "TeamMessage"
def teamMemberAddName : Bytes := text "TeamMemberAdd"
def agentRunName : Bytes := text "AgentRun"
def taskGetName : Bytes := text "TaskGet"
def taskCancelName : Bytes := text "TaskCancel"

/-- The reserved sender name of the team's leader. -/
def leaderName : Bytes := text "leader"

def isTeamTool (name : Bytes) : Bool :=
  [teamCreateName, teamTaskCreateName, teamTaskUpdateName, teamGetName, teamStopName,
    teamMessageName, teamMemberAddName].contains name

def textValid (value : Bytes) (maximum : Nat) (empty : Bool) : Bool :=
  (empty || !value.isEmpty) && value.length ≤ maximum && Str.isValidUtf8 value

def keyValid (value : Bytes) : Bool :=
  textValid value 64 false && !value.any fun c => c < 0x20 || c == 0x7F

/-- The source sorts a copy and looks for equal neighbours. -/
def keysValid (keys : List Bytes) (maximum : Nat) : Bool :=
  keys.length ≤ maximum && keys.all keyValid && decide keys.Nodup

def memberValid (member : TeamMemberSpec) : Bool :=
  keyValid member.name && member.name != leaderName && textValid member.instructions 4096 false &&
    keysValid member.tools 32

def TeamCommand.valid : TeamCommand → Bool
  | create request =>
    textValid request.goal 8192 false && !request.members.isEmpty && request.members.length ≤ 4 &&
      request.members.all memberValid && keysValid (request.members.map (·.name)) 4
  | memberAdd request => memberValid request.member
  | taskCreate request =>
    keyValid request.key && keyValid request.member && textValid request.prompt 8192 false &&
      keysValid request.dependsOn 32 && !request.dependsOn.contains request.key
  | taskUpdate request =>
    (match parseTurnIdHex request.teamId with
      | .ok team => !isZeroTurnId team
      | .error _ => false) &&
      keyValid request.key && 1 ≤ request.attempt && request.attempt ≤ 3 &&
      textValid request.feedback 4096 (request.action == .cancel)
  | get request =>
    (request.key.isEmpty || keyValid request.key) && request.offset ≤ 65536 &&
      1 ≤ request.maxBytes && request.maxBytes ≤ 8192 &&
      (!request.key.isEmpty || request.offset == 0)
  | message request =>
    keyValid request.recipient && keyValid request.taskKey && textValid request.message 4096 false
  | stop => true

def validateTeamCommand (command : TeamCommand) : Result Unit :=
  if command.valid then .ok ()
  else .error (.invalidArgument "invalid team command, text, keys or bounds")

theorem keyValid_ne_nil {value : Bytes} (h : keyValid value = true) : value ≠ [] := by
  rintro rfl
  simp [keyValid, textValid] at h

theorem keyValid_length {value : Bytes} (h : keyValid value = true) : value.length ≤ 64 := by
  simp only [keyValid, textValid, Bool.and_eq_true, decide_eq_true_eq] at h
  exact h.1.1.2

theorem keyValid_utf8 {value : Bytes} (h : keyValid value = true) :
    Str.isValidUtf8 value = true := by
  simp only [keyValid, textValid, Bool.and_eq_true] at h
  exact h.1.2

/-- A key holds no control character. -/
theorem keyValid_printable {value : Bytes} (h : keyValid value = true) :
    ∀ c ∈ value, ¬ c < 0x20 := by
  intro c hc hlt
  simp only [keyValid, Bool.and_eq_true, Bool.not_eq_true', List.any_eq_false] at h
  have := h.2 c hc
  simp [hlt] at this

end Orangutan.Tool
