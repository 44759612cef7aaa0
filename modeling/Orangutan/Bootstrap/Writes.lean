import Orangutan.Bootstrap.Delivery
import Orangutan.Bootstrap.TeamBoard

/-!
# The writes of the service

Every function of the service is a run of the writes below. What no write can do, no operation
does: only the monitor writes a report, only a send appends a message, only a founding adds a team,
and none of them opens or closes the service.
-/

namespace Orangutan.Bootstrap

set_option autoImplicit false

open Orangutan.Core Orangutan.Lib Orangutan.Tool Relation

/-- What a job has to show: the result, its truncation mark and whether there is one. -/
def Job.report (job : Job) : Bytes × Bool × Bool :=
  (job.result, job.snapshot.resultTruncated, job.snapshot.state == .succeeded)

def Job.blank : Bytes × Bool × Bool := ([], false, false)

/-- A terminal job has let go of its child session. -/
def Job.Freed (job : Job) : Prop := taskTerminal job.snapshot.state = true → job.child = false

/-- Entries of `work` show a report of `before` or none. -/
def Shows (before work : List Team.Work) : Prop :=
  ∀ w ∈ work, w.snapshot.report = [] ∨ ∃ v ∈ before, v.snapshot.report = w.snapshot.report

theorem Shows.refl (work : List Team.Work) : Shows work work := fun w hw => .inr ⟨w, hw, rfl⟩

theorem Shows.set {work : List Team.Work} {i : Nat} {w w' : Team.Work} (hw : work[i]? = some w)
    (h : w'.snapshot.report = [] ∨ w'.snapshot.report = w.snapshot.report) :
      Shows work (work.set i w') := by
  intro v hv
  rcases List.mem_or_eq_of_mem_set hv with hold | rfl
  · exact .inr ⟨v, hold, rfl⟩
  · rcases h with h | h
    · exact .inl h
    · exact .inr ⟨w, List.mem_of_getElem? hw, h.symm⟩

theorem Shows.push {work : List Team.Work} {w : Team.Work} (h : w.snapshot.report = []) :
    Shows work (work ++ [w]) := by
  intro v hv
  rcases List.mem_append.mp hv with hold | hnew
  · exact .inr ⟨v, hold, rfl⟩
  · rw [List.mem_singleton.mp hnew]
    exact .inl h

theorem Shows.map {work : List Team.Work} {f : Team.Work → Team.Work}
    (h : ∀ w, (f w).snapshot.report = w.snapshot.report) : Shows work (work.map f) := by
  intro v hv
  obtain ⟨w, hw, rfl⟩ := List.mem_map.mp hv
  exact .inr ⟨w, hw, (h w).symm⟩

/-- What a function may do beyond writing its own records. `ends` are the jobs whose report it may
write. -/
structure Scope where
  mails : Prop
  founds : Prop
  ends : JobRef → Prop
  /-- The pending shutdown returns. -/
  returns : Prop

/-- No message, no team and no report. -/
def Scope.none : Scope := ⟨False, False, fun _ => False, False⟩

/-- The end of one run. -/
def Scope.ending (r : JobRef) : Scope := ⟨False, False, fun k => k = r, False⟩

inductive Write (S : Scope) (s : State) : State → Prop
  | lists (jobs : List JobRef) (active tick posted : Nat) :
      Write S s { s with jobs, active, tick, posted }
  | returned (h : S.returns) : Write S s { s with joining := false }
  | job (r : JobRef) (job : Job)
      (h : job.report = (s.job r).report ∧ ((s.job r).Freed → job.Freed) ∨ S.ends r) :
        Write S s (s.setJob r job)
  | push (job : Job) (h : job.report = Job.blank) (freed : job.Freed) : Write S s (s.pushJob job)
  | report (r : JobRef) : Write S s (s.updateTeamJob (s.job r))
  | team (tr : TeamRef) (team : Team) (messages : team.messages = (s.team tr).messages)
      (work : Shows (s.team tr).work team.work) : Write S s (s.setTeam tr team)
  | mail (tr : TeamRef) (message : Team.Message) (h : S.mails) :
      Write S s (s.setTeam tr { s.team tr with messages := (s.team tr).messages ++ [message] })
  | found (teams : List TeamRef) (tick : Nat) (team : Team) (h : S.founds) (work : team.work = []) :
      Write S s { s with tick, teams, teamHeap := s.teamHeap.alloc team }

abbrev Writes (S : Scope) : State → State → Prop := ReflTransGen (Write S)

namespace Writes

variable {S : Scope} {s t : State}

theorem of_lists
    (h : t = { s with jobs := t.jobs, active := t.active, tick := t.tick, posted := t.posted }) :
    Writes S s t := by
  rw [h]
  exact .single (.lists _ _ _ _)

theorem setTeam {tr : TeamRef} {team : Team} (hmessages : team.messages = (s.team tr).messages)
    (hwork : Shows (s.team tr).work team.work) : Writes S s (s.setTeam tr team) :=
      .single (.team tr team hmessages hwork)

theorem setWork {tr : TeamRef} {i : Nat} {w w' : Team.Work} (hw : (s.team tr).work[i]? = some w)
    (h : w'.snapshot.report = [] ∨ w'.snapshot.report = w.snapshot.report) :
      Writes S s (s.setWork tr i w') :=
  setTeam rfl (.set hw h)

theorem setJob {r : JobRef} {job : Job} (h : job.report = (s.job r).report)
    (hfreed : (s.job r).Freed → job.Freed) :
    Writes S s (s.setJob r job) := .single (.job r job (.inl ⟨h, hfreed⟩))

theorem publish {r : JobRef} {job : Job}
    (h : job.report = (s.job r).report ∧ ((s.job r).Freed → job.Freed) ∨ S.ends r) :
    Writes S s (s.publish r job) := by
  have hshow := Write.report (S := S) (s := s.setJob r job) r
  rw [State.job_setJob_self] at hshow
  exact .tail (.single (.job r job h)) hshow

end Writes

namespace State

variable {S : Scope}

theorem writes_cancelJob (s : State) (r : JobRef) (timeout : Bool) :
    Writes S s (s.cancelJob r timeout) := by
  rcases cancelJob_cases s r timeout with ⟨-, h⟩ | ⟨hqueued, shown, hshown, h⟩ | ⟨hrunning, h⟩ <;>
    rw [h]
  · split
    · exact .refl
    · exact Writes.setJob rfl fun hfreed => hfreed
  · have hreport : shown.report = (s.job r).report := by
      rw [hshown]
      cases timeout <;> simp [Job.report, Job.mark, Job.settle, Job.acknowledge, hqueued]
    have hfreed : shown.Freed := fun _ => by rw [hshown]; rfl
    have hread : Writes S s s.read := Writes.of_lists rfl
    refine (hread.trans (Writes.publish (.inl ⟨hreport, fun _ => hfreed⟩))).trans
      (Writes.setJob ?_ fun _ => hfreed)
    rw [job_publish_self]
    rfl
  · refine Writes.publish (.inl ⟨?_, fun _ => ?_⟩)
    · cases timeout <;> simp [Job.report, Job.mark, Job.setState, Job.acknowledge, hrunning]
    · intro hterminal
      cases timeout <;> cases hterminal

theorem writes_cancelJobs (test : Job → Bool) (l : List JobRef) (s : State) :
    Writes S s (cancelJobs test l s) := by
  induction l generalizing s with
  | nil => exact .refl
  | cons r rest ih =>
    unfold cancelJobs
    split
    · exact (writes_cancelJob s r false).trans (ih _)
    · exact ih s

theorem writes_prune (s : State) : Writes S s s.prune := Writes.of_lists rfl

theorem writes_pumpWork (s : State) (tr : TeamRef) (i : Nat) : Writes S s (s.pumpWork tr i).2 := by
  have h := pumpWork_scanned s tr i
  generalize s.pumpWork tr i = out at h
  cases h with
  | skipped => exact .refl
  | full => exact writes_prune s
  | failed w kind t entry waiting ht =>
    have hsame : Writes S s t := by rcases ht with rfl | rfl <;> exact Writes.of_lists rfl
    have hentry : (t.team tr).work[i]? = some w := by rcases ht with rfl | rfl <;> exact entry
    exact hsame.trans (Writes.setWork hentry (.inr rfl))
  | dispatched w member id entry =>
    have hprune : Writes S s s.prune.read.prune := Writes.of_lists rfl
    have hpush : Writes S s.prune.read.prune
        (s.prune.read.prune.pushJob (teamJob s.prune tr member w id)) :=
      .single (.push _ rfl fun hterminal => (by cases hterminal))
    exact (hprune.trans hpush).trans (Writes.setWork (w := w) entry (.inr rfl))

theorem writes_pumpBoard (tr : TeamRef) (l : List Nat) (s : State) :
    Writes S s (pumpBoard tr l s).2 := by
  induction l generalizing s with
  | nil => exact .refl
  | cons i rest ih =>
    have hi := writes_pumpWork (S := S) s tr i
    unfold pumpBoard
    split
    · next hq => rw [hq] at hi; exact hi
    · next hq => rw [hq] at hi; exact hi.trans (ih _)

theorem writes_pumpBoards (l : List TeamRef) (s : State) : Writes S s (pumpBoards l s) := by
  induction l generalizing s with
  | nil => exact .refl
  | cons tr rest ih =>
    have hboard := writes_pumpBoard (S := S) tr (List.range (s.team tr).work.length) s
    unfold pumpBoards
    split_ifs
    · exact ih s
    · split
      · next hq => rw [hq] at hboard; exact hboard
      · next hq => rw [hq] at hboard; exact hboard.trans (ih _)

theorem writes_launch {s : State} {r : JobRef} (hqueued : (s.job r).snapshot.state = .queued) :
    Writes S s (s.launch r) := by
  have hpublish : Writes S s (s.publish r ((s.job r).setState .running)) :=
    Writes.publish (.inl ⟨by simp [Job.report, Job.setState, hqueued],
      fun _ hterminal => (by cases hterminal)⟩)
  exact hpublish.trans (Writes.of_lists rfl)

theorem writes_pumpJobs (l : List JobRef) (s : State) : Writes S s (pumpJobs l s) := by
  induction l generalizing s with
  | nil => exact .refl
  | cons r rest ih =>
    rw [pumpJobs_cons]
    split_ifs with hfull hqueued
    · exact .refl
    · exact ih s
    · exact (writes_launch (by simpa using hqueued)).trans (ih _)

theorem writes_pump (s : State) : Writes S s s.pump := by
  unfold pump pumpTeams
  split_ifs
  · exact .refl
  · exact (writes_pumpBoards s.teams s).trans (writes_pumpJobs _ _)

theorem writes_cancelRun (s : State) (owner : TaskOwner) (runId : Bytes) :
    Writes S s (s.cancelRun owner runId) := by
  unfold cancelRun
  dsimp only
  split
  · exact (writes_prune s).trans (writes_cancelJob _ _ _)
  · exact writes_prune s

theorem writes_cancelTeamTask (s : State) (tr : TeamRef) (i : Nat) (runId feedback : Bytes) :
    Writes S s (s.cancelTeamTask tr i runId feedback) := by
  unfold cancelTeamTask
  dsimp only
  split
  · exact writes_cancelRun _ _ _
  · next work hwork =>
    refine (writes_cancelRun _ _ _).trans (Writes.setWork hwork (.inr ?_))
    split <;> rfl

theorem writes_updateTeamTask (s : State) (tr : TeamRef) (request : TeamTaskUpdateRequest)
    (turn : Option TurnId) :
    Writes S s (s.updateTeamTask tr request turn).2 := by
  have hreviewed := s.updateTeamTask_reviewed tr request turn
  generalize s.updateTeamTask tr request turn = result at hreviewed
  cases hreviewed with
  | refused => exact .refl
  | full => exact writes_prune s
  | settled => exact .refl
  | cancel => exact writes_cancelTeamTask _ _ _ _ _
  | accept i w review => exact Writes.setWork review.entry (.inr rfl)
  | revise i w review =>
    exact (writes_prune s).trans (Writes.setWork (w := w) review.entry (.inl rfl))

theorem writes_submitTeamTask (s : State) (tr : TeamRef) (request : TeamTaskCreateRequest)
    (turn : Option TurnId) :
    Writes S s (s.submitTeamTask tr request turn).2 := by
  unfold submitTeamTask
  dsimp only
  split
  · exact .refl
  split
  · exact .refl
  split
  · exact .refl
  split
  · exact .refl
  split
  · exact .refl
  split
  · exact writes_prune s
  · exact (writes_prune s).trans (Writes.setTeam rfl (.push rfl))

theorem writes_stopTeam (s : State) (tr : TeamRef) : Writes S s (s.stopTeam tr) := by
  have hstop : Writes S s (s.setTeam tr { s.team tr with stopped := true }) :=
    Writes.setTeam rfl (.refl _)
  unfold stopTeam
  dsimp only
  refine (hstop.trans (writes_cancelJobs _ _ _)).trans (Writes.setTeam rfl (.map fun w => ?_))
  unfold Team.Work.close
  split <;> rfl

/-- A refused team only reads the environment; a founded one has an empty board. -/
theorem createTeam_cases (s : State) (parent : AgentSessionOptions) (request : TeamCreateRequest)
    (context : DispatchContext) :
    ∃ n, (∃ e, s.createTeam parent request context = (.error e, { s with tick := n })) ∨
      ∃ kept team, team.owner = taskOwner parent ∧ team.work = [] ∧
        (∀ tr ∈ kept, tr ∈ s.teams ∧ (s.findTeam (taskOwner parent) = some tr → False)) ∧
        s.createTeam parent request context =
          (.ok (), { s with
            tick := n, teams := kept ++ [s.teamHeap.next],
            teamHeap := s.teamHeap.alloc team }) := by
  unfold createTeam
  dsimp only
  generalize hret :
    (if ((s.findTeam (taskOwner parent)).isNone && decide (16 ≤ s.teams.length)) = true
    then s.teams.find? s.retirable else none) = retired
  split
  · exact ⟨s.tick, .inl ⟨_, rfl⟩⟩
  split
  · exact ⟨s.tick, .inl ⟨_, rfl⟩⟩
  cases hid : s.svc.env.turnId s.tick with
  | error e => exact ⟨s.tick + 1, .inl ⟨e, rfl⟩⟩
  | ok id =>
    dsimp only
    obtain ⟨n, ⟨e, h⟩ | ⟨members, h, -⟩⟩ := addTeamMembers_cases parent context request.members
      { owner := taskOwner parent, id := formatTurnIdHex id, goal := request.goal } s.read
    · rw [h]
      exact ⟨n, .inl ⟨e, rfl⟩⟩
    · rw [h]
      refine ⟨n, .inr ⟨_, _, ?_, ?_, fun tr htr => ?_, rfl⟩⟩
      · rfl
      · rfl
      · obtain ⟨hmem, hne⟩ := List.mem_filter.mp htr
        simp only [Bool.and_eq_true, bne_iff_ne] at hne
        exact ⟨hmem, fun hprev => hne.1 hprev.symm⟩

theorem writes_teamRequest (s : State) (parent : AgentSessionOptions) (command : TeamCommand)
    (context : DispatchContext) (hfounds : S.founds) :
      Writes S s (s.teamRequest parent command context).2 := by
  cases command with
  | create request =>
    unfold teamRequest
    dsimp only
    obtain ⟨n, ⟨e, h⟩ | ⟨kept, team, -, hwork, -, h⟩⟩ := createTeam_cases s parent request context
    · rw [h]
      exact Writes.of_lists rfl
    · rw [h]
      exact .single (.found _ n team hfounds hwork)
  | memberAdd request =>
    unfold teamRequest
    dsimp only
    split
    · exact .refl
    next tr _ =>
    obtain ⟨n, ⟨e, h⟩ | ⟨id, h, -⟩⟩ :=
      addTeamMember_cases s parent (s.team tr) request.member context
    · rw [h]
      exact Writes.of_lists rfl
    · rw [h]
      have hread : Writes S s { s with tick := n } := Writes.of_lists rfl
      exact hread.trans (Writes.setTeam rfl (.refl _))
  | taskCreate request =>
    unfold teamRequest
    dsimp only
    split
    · exact .refl
    next tr _ =>
    have h := writes_submitTeamTask (S := S) s tr request context.parentTurnId
    split <;> next hq => rw [hq] at h; exact h
  | taskUpdate request =>
    unfold teamRequest
    dsimp only
    split
    · exact .refl
    next tr _ =>
    have h := writes_updateTeamTask (S := S) s tr request context.parentTurnId
    split <;> next hq => rw [hq] at h; exact h
  | stop =>
    unfold teamRequest
    dsimp only
    split
    · exact .refl
    · exact writes_stopTeam _ _
  | get request =>
    unfold teamRequest
    dsimp only
    split <;> exact .refl
  | message request =>
    unfold teamRequest
    dsimp only
    split <;> exact .refl

theorem writes_sendTeamMessage (s : State) (tr : TeamRef) (sender : Bytes)
    (request : TeamMessageRequest) (hmails : S.mails) :
    Writes S s (s.sendTeamMessage tr sender request).2 := by
  rcases sendTeamMessage_cases s tr sender request with ⟨e, h⟩ | ⟨receipt, message, -, h⟩ <;> rw [h]
  exact .single (.mail tr message hmails)

theorem writes_teamCommand (s : State) (parent : AgentSessionOptions) (command : TeamCommand)
    (context : DispatchContext) (hmails : S.mails) (hfounds : S.founds) :
      Writes S s (s.teamCommand parent command context).2 := by
  unfold teamCommand
  split
  · exact .refl
  split
  · exact .refl
  split
  · exact .refl
  split
  · split
    · exact .refl
    · exact writes_sendTeamMessage s _ _ _ hmails
  have h := writes_teamRequest (S := S) s parent command context hfounds
  split
  · next hq => rw [hq] at h; exact h
  next t hq =>
  rw [hq] at h
  dsimp only
  have hpump : ∀ b : Bool, Writes S s (if b = true then t else t.pump) := by
    intro b
    cases b with
    | true => exact h
    | false => exact h.trans (writes_pump t)
  split <;> exact hpump _

theorem writes_start (s : State) (parent : AgentSessionOptions) (request : AgentRunRequest)
    (context : DispatchContext) : Writes S s (s.start parent request context).2 := by
  have hread : Writes S s s.prune.read := Writes.of_lists rfl
  unfold start
  dsimp only
  split
  · exact .refl
  split
  · exact .refl
  split
  · exact writes_prune s
  split
  · exact hread
  next id _ =>
  split
  · exact hread
  split
  · exact Writes.of_lists rfl
  · exact Writes.of_lists rfl
  have hreads : Writes S s s.prune.read.read.read.prune := Writes.of_lists rfl
  rcases enqueue_cases s.prune.read.read.read (s.prune.plainJob parent request context id) with
    ⟨e, h⟩ | ⟨h, -, -⟩ <;> rw [h]
  · exact hreads
  · exact hreads.trans (.single (.push _ rfl fun hterminal => (by cases hterminal)))

theorem writes_stopTeams (l : List TeamRef) (s : State) : Writes S s (stopTeams l s) := by
  induction l generalizing s with
  | nil => exact .refl
  | cons tr rest ih => exact (writes_stopTeam s tr).trans (ih _)

/-- What `closeAll` does behind its first assignment. -/
theorem writes_closeAll (s : State) : Writes S { s with closed := true } s.closeAll :=
  (writes_stopTeams _ _).trans (writes_cancelJobs _ _ _)

theorem writes_cancelOwner (s : State) (owner : TaskOwner) (turn : Option TurnId) :
    Writes S s (s.cancelOwner owner turn) := by
  unfold cancelOwner
  dsimp only
  split
  · exact writes_cancelJobs _ _ _
  · exact (writes_stopTeam _ _).trans (writes_cancelJobs _ _ _)
  · next tr turn _ =>
    have hmap : Writes S s
        (s.setTeam tr { s.team tr with
          work := (s.team tr).work.map (Team.Work.abandon turn) }) := by
      refine Writes.setTeam rfl (.map fun w => ?_)
      unfold Team.Work.abandon
      split <;> rfl
    exact hmap.trans (writes_cancelJobs _ _ _)

theorem writes_claimCompletion (s : State) (owner : TaskOwner) (id : Bytes) :
    Writes S s (s.claimCompletion owner id).2 := by
  unfold claimCompletion
  dsimp only
  split
  · exact writes_prune s
  split
  · exact writes_prune s
  split
  · exact writes_prune s
  · exact (writes_prune s).trans (Writes.setJob rfl fun hfreed => hfreed)

theorem writes_finishCompletion (s : State) (owner : TaskOwner) (id : Bytes) (committed : Bool) :
    Writes S s (s.finishCompletion owner id committed) := by
  unfold finishCompletion
  dsimp only
  split
  · exact writes_prune s
  · exact (writes_prune s).trans (Writes.setJob rfl fun hfreed => hfreed)

/-- A monitor reads the clock and writes the record of its run. -/
theorem writes_monitor (s : State) (r : JobRef) (joined : Bool)
    (outcome : Option (Except ErrorKind Bytes)) (hends : S.ends r) :
    Writes S s (s.monitor r joined outcome) := by
  unfold monitor
  dsimp only
  have hread : Writes S s s.read := Writes.of_lists rfl
  exact ((hread.trans (Writes.publish (.inr hends))).tail (.job r _ (.inr hends))).trans
    (Writes.of_lists rfl)

/-- The two operations that close the service. -/
def Op.closes : Op → Bool
  | .shutdown => true
  | .destroy => true
  | _ => false

/-- Teams are founded and mail is sent by commands, reports are written by monitors. -/
def Op.scope : Op → Scope
  | .teamCommand _ _ _ => ⟨True, True, fun _ => False, False⟩
  | .memberSend _ _ _ => ⟨True, False, fun _ => False, False⟩
  | .monitor r _ _ => .ending r
  | .joined => ⟨False, False, fun _ => False, True⟩
  | _ => .none

theorem writes_get (s : State) (owner : TaskOwner) (id : Bytes) (offset maxBytes : Nat) :
    Writes S s (s.get owner id offset maxBytes).2 := by
  unfold get
  dsimp only
  split
  · exact writes_prune s
  split
  · exact writes_prune s
  split <;> exact writes_prune s

theorem writes_cancel (s : State) (owner : TaskOwner) (id : Bytes) :
    Writes S s (s.cancel owner id).2 := by
  unfold cancel
  dsimp only
  split
  · exact writes_prune s
  · exact (writes_prune s).trans (writes_cancelJob _ _ _)

theorem writes_apply {s : State} {op : Op} (h : op.closes = false) :
    Writes op.scope s (s.apply op) := by
  cases op with
  | start parent request context => exact writes_start s parent request context
  | teamCommand parent command context =>
      exact writes_teamCommand s parent command context trivial trivial
  | memberSend tr member request => exact writes_sendTeamMessage s tr member request trivial
  | get owner id offset maxBytes => exact writes_get s owner id offset maxBytes
  | list owner => exact writes_prune s
  | cancel owner id => exact writes_cancel s owner id
  | cancelOwner owner turn => exact writes_cancelOwner s owner turn
  | claimCompletion owner id => exact writes_claimCompletion s owner id
  | finishCompletion owner id committed => exact writes_finishCompletion s owner id committed
  | pump =>
    have hposted : Writes (Op.scope .pump) s { s with posted := s.posted - 1 } :=
      Writes.of_lists rfl
    exact hposted.trans (writes_pump _)
  | deadline r => exact (writes_cancelJob s r true).trans (writes_pump _)
  | monitor r joined outcome => exact writes_monitor s r joined outcome rfl
  | joined => exact .single (.returned trivial)
  | shutdown => cases h
  | destroy => cases h

/-- Shutdown and destruction close the service first; a second shutdown is refused. -/
theorem writes_closing {s : State} {op : Op} (h : op.closes = true) :
    s.apply op = s ∨ ∃ joining, Writes S { s with closed := true, joining } (s.apply op) := by
  cases op with
  | shutdown =>
    unfold apply shutdown
    dsimp only
    split
    · exact .inl rfl
    · exact .inr ⟨true, writes_closeAll { s with joining := true }⟩
  | destroy => exact .inr ⟨s.joining, writes_closeAll s⟩
  | _ => cases h

end State

end Orangutan.Bootstrap
