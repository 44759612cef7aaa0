import Orangutan.Bootstrap.ClosedService

/-!
# Shutdown

The shutdown coroutine closes the service and waits for its runs in the receive of a channel with
one slot. Monitors and cancellations send to it; a send to a full slot is lost.
-/

namespace Orangutan.Bootstrap

set_option autoImplicit false

open Orangutan.Core Orangutan.Lib Orangutan.Tool Relation

/-- The service with its shutdown coroutine. -/
structure Closing where
  tasks : State
  /-- The slot of the channel is taken. -/
  changed : Bool
  /-- The coroutine is suspended in the receive. -/
  parked : Bool
  /-- A shutdown has returned without error. -/
  returned : Bool

namespace Closing

inductive Event
  /-- `notified` is set when a cancellation of the operation sent to the channel. -/
  | operation (op : State.Op) (notified : Bool)
  | shutdown (notified : Bool)
  /-- The channel hands its notification to the suspended coroutine. -/
  | wake
  /-- The receive fails, and the coroutine with it. -/
  | failed

/-- Operations other than the two ends of the coroutine. -/
def concurrent : State.Op → Bool
  | .shutdown => false
  | .joined => false
  | _ => true

/-- The last statement of a monitor always sends. -/
def sends : State.Op → Bool
  | .monitor _ _ _ => true
  | _ => false

def Enabled (h : Closing) : Event → Prop
  | .operation op _ => concurrent op = true ∧ h.tasks.Enabled op
  | .shutdown _ => True
  | .wake => h.parked = true ∧ h.changed = true
  | .failed => h.parked = true

instance (h : Closing) (e : Event) : Decidable (h.Enabled e) := by
  cases e <;> unfold Enabled <;> infer_instance

/-- The test of the loop: return, or suspend in the receive. -/
def await (h : Closing) : Closing :=
  if h.tasks.active == 0 then
    { h with tasks := h.tasks.apply .joined, parked := false, returned := true }
  else { h with parked := true }

def apply (h : Closing) : Event → Closing
  | .operation op notified =>
    { h with tasks := h.tasks.apply op, changed := h.changed || sends op || notified }
  | .shutdown notified =>
    if h.tasks.joining then h
    else await { h with tasks := h.tasks.apply .shutdown, changed := h.changed || notified }
  | .wake => await { h with changed := false }
  | .failed => { h with parked := false }

def Step (h k : Closing) : Prop := ∃ e, h.Enabled e ∧ h.apply e = k

/-- The states of a created service with its coroutine. -/
def Reachable (svc : Service) (h : Closing) : Prop :=
  ∃ s₀, State.create svc = .ok s₀ ∧ ReflTransGen Step ⟨s₀, false, false, false⟩ h

end Closing

section Quiet

variable {S : Scope} {s t : State}

theorem closed_write (h : Write S s t) : t.closed = s.closed := by
  cases h with
  | report r => exact State.updateTeamJob_closed s _
  | _ => rfl

theorem closed_writes (h : Writes S s t) : t.closed = s.closed :=
  run_relates (r := Write S) (I := fun _ => True) (Q := fun a b => b.closed = a.closed)
    (fun _ _ _ _ => trivial)
    (fun _ => rfl) (fun _ _ _ hab hbc => hbc.trans hab) (fun _ _ _ hw => closed_write hw) h trivial

/-- Only the pending shutdown and its return write the mark. -/
theorem joining_write (hreturns : ¬S.returns) (h : Write S s t) : t.joining = s.joining := by
  cases h with
  | returned hr => exact absurd hr hreturns
  | report r =>
    obtain ⟨heap, he⟩ := State.updateTeamJob_heap s (s.job r)
    rw [he]
  | _ => rfl

theorem joining_writes (hreturns : ¬S.returns) (h : Writes S s t) : t.joining = s.joining :=
  run_relates (r := Write S) (I := fun _ => True) (Q := fun a b => b.joining = a.joining)
    (fun _ _ _ _ => trivial)
    (fun _ => rfl) (fun _ _ _ hab hbc => hbc.trans hab)
      (fun _ _ _ hw => joining_write hreturns hw) h trivial

/-- Team list and mail, which no write outside sends and foundings touches. -/
structure SameMail (s t : State) : Prop where
  teams : t.teams = s.teams
  messages : ∀ tr, (t.team tr).messages = (s.team tr).messages

theorem SameMail.refl (s : State) : SameMail s s := ⟨rfl, fun _ => rfl⟩

theorem SameMail.trans {u : State} (h : SameMail s t) (k : SameMail t u) : SameMail s u :=
  ⟨k.teams.trans h.teams, fun tr => (k.messages tr).trans (h.messages tr)⟩

theorem messages_setTeam {k : TeamRef} {team : Team} (h : team.messages = (s.team k).messages)
    (tr : TeamRef) :
    ((s.setTeam k team).team tr).messages = (s.team tr).messages := by
  rw [State.team_setTeam]
  split
  · next he => rw [he, h]
  · rfl

theorem sameMail_write (hmails : ¬S.mails) (hfounds : ¬S.founds) (h : Write S s t) :
    SameMail s t := by
  cases h with
  | report r =>
    refine ⟨State.updateTeamJob_teams s _, fun tr => ?_⟩
    rcases State.updateTeamJob_cases s (s.job r) with ⟨he, -⟩ | ⟨k, i, w, members, -, -, -, -,
      he⟩ <;> rw [he]
    exact messages_setTeam (by rfl) tr
  | team tr team messages => exact ⟨rfl, messages_setTeam messages⟩
  | mail tr message hmail => exact absurd hmail hmails
  | found teams tick team hfound => exact absurd hfound hfounds
  | _ => exact ⟨rfl, fun _ => rfl⟩

theorem sameMail_writes (hmails : ¬S.mails) (hfounds : ¬S.founds) (h : Writes S s t) :
    SameMail s t :=
  run_relates (r := Write S) (I := fun _ => True) (Q := SameMail)
    (fun _ _ _ _ => trivial) SameMail.refl
    (fun _ _ _ => .trans) (fun _ _ _ hw => sameMail_write hmails hfounds hw) h trivial

end Quiet

namespace State

variable {s : State}

theorem sendTeamMessage_closed (hclosed : s.closed = true) (tr : TeamRef) (sender : Bytes)
    (request : TeamMessageRequest) :
    (s.sendTeamMessage tr sender request).2 = s := by
  unfold sendTeamMessage
  dsimp only
  split
  · rfl
  · rw [if_pos (by rw [hclosed]; rfl)]

/-- A closed service still answers `get` and obeys `stop`. -/
theorem teamCommand_closed (hclosed : s.closed = true) (parent : AgentSessionOptions)
    (command : TeamCommand) (context : DispatchContext) :
    (s.teamCommand parent command context).2 = s ∨ ∃ tr,
      (s.teamCommand parent command context).2 = s.stopTeam tr := by
  unfold teamCommand
  split
  · exact .inl rfl
  split
  · exact .inl rfl
  cases command with
  | get request =>
    left
    have hgate : ¬(s.closed && !(TeamCommand.get request).reading &&
        !(TeamCommand.get request).stopping) = true := by
      simp [TeamCommand.reading]
    have hreading : (TeamCommand.get request).reading = true := rfl
    rw [if_neg hgate]
    unfold teamRequest
    dsimp only
    cases hfind : s.findTeam (taskOwner parent) with
    | none => rfl
    | some tr =>
      dsimp only
      rw [if_pos hreading, hfind]
  | stop =>
    have hgate : ¬(s.closed && !TeamCommand.stop.reading && !TeamCommand.stop.stopping) = true := by
      simp [TeamCommand.stopping]
    have hreading : ¬TeamCommand.stop.reading = true := Bool.false_ne_true
    rw [if_neg hgate]
    unfold teamRequest
    dsimp only
    cases hfind : s.findTeam (taskOwner parent) with
    | none => exact .inl rfl
    | some tr =>
      have hstopped : (s.stopTeam tr).closed = true :=
        (closed_writes (writes_stopTeam (S := .none) s tr)).trans hclosed
      have hpump : (s.stopTeam tr).pump = s.stopTeam tr := by
        unfold pump
        rw [if_pos hstopped]
      refine .inr ⟨tr, ?_⟩
      dsimp only
      rw [if_neg hreading, hpump]
      split <;> rfl
  | _ =>
    left
    rw [if_pos (by rw [hclosed]; rfl)]

/-- No operation on a closed service founds a team or admits a message. -/
theorem sameMail_apply (op : Op) (hclosed : s.closed = true) : SameMail s (s.apply op) := by
  cases hcloses : op.closes with
  | true =>
    rcases writes_closing (S := .none) (s := s) hcloses with hsame | ⟨joining, hwrites⟩
    · rw [hsame]
      exact .refl s
    · have hmail := sameMail_writes id id hwrites
      exact ⟨hmail.teams, hmail.messages⟩
  | false =>
    have hwrites := writes_apply (s := s) hcloses
    cases op with
    | teamCommand parent command context =>
      rcases teamCommand_closed hclosed parent command context with hsame | ⟨tr, hstop⟩
      · change SameMail s (s.teamCommand parent command context).2
        rw [hsame]
        exact .refl s
      · change SameMail s (s.teamCommand parent command context).2
        rw [hstop]
        exact sameMail_writes (S := .none) id id (writes_stopTeam s tr)
    | memberSend tr member request =>
      change SameMail s (s.sendTeamMessage tr member request).2
      rw [sendTeamMessage_closed hclosed]
      exact .refl s
    | _ => exact sameMail_writes id id hwrites

end State

theorem freed_write {S : Scope} {s t : State} (hends : ∀ r, ¬S.ends r) (h : Write S s t)
    (hs : ∀ r, (s.job r).Freed) (r : JobRef) :
    (t.job r).Freed := by
  cases h with
  | job k job hjob =>
    rw [State.job_setJob]
    split
    · exact (hjob.resolve_right (hends k)).2 (hs k)
    · exact hs r
  | push job _ hfreed =>
    by_cases hr : r = s.jobHeap.next
    · have hjob : (s.pushJob job).job r = job := by
        rw [hr]
        exact Heap.get_alloc_next _ job
      rw [hjob]
      exact hfreed
    · have hsame : (s.pushJob job).job r = s.job r := by
        simp [State.pushJob, State.job, Heap.alloc, Heap.get, hr]
      rw [hsame]
      exact hs r
  | report k =>
    rw [State.job_updateTeamJob]
    exact hs r
  | _ => exact hs r

theorem freed_monitor {s : State} (r : JobRef) (joined : Bool)
    (outcome : Option (Except ErrorKind Bytes)) (hs : ∀ r, (s.job r).Freed) (k : JobRef) :
    ((s.monitor r joined outcome).job k).Freed := by
  unfold State.monitor
  dsimp only
  generalize (s.concludedJob (s.job r) joined outcome).stamp (s.svc.env.steadyNow s.tick) = job
  change (((s.read.publish r job).setJob r job.detach).job k).Freed
  rw [State.job_setJob]
  split
  · exact fun _ => rfl
  · next hk =>
    rw [State.job_publish_ne _ _ _ hk]
    exact hs k

theorem freed_reachable {svc : Service} {s : State} (hs : State.Reachable svc s) (r : JobRef) :
    (s.job r).Freed := by
  obtain ⟨s₀, hcreate, hrun⟩ := hs
  refine run_invariant (I := fun s => ∀ r, (s.job r).Freed) ?_ hrun ?_ r
  · rintro s t hfreed ⟨op, -, rfl⟩
    have hwrites : ∀ {S : Scope} {u : State}, (∀ r, ¬S.ends r) → Writes S s u →
        ∀ r, (u.job r).Freed := fun hends h =>
      run_invariant (I := fun s => ∀ r, (s.job r).Freed)
        (fun _ _ ha hw => freed_write hends hw ha) h hfreed
    by_cases hmonitor : ∃ k joined outcome, op = .monitor k joined outcome
    · obtain ⟨k, joined, outcome, rfl⟩ := hmonitor
      exact freed_monitor k joined outcome hfreed
    cases hcloses : op.closes with
    | false =>
      refine hwrites (fun r => ?_) (State.writes_apply hcloses)
      cases op with
      | monitor k joined outcome => exact absurd ⟨k, joined, outcome, rfl⟩ hmonitor
      | _ => exact id
    | true =>
      rcases State.writes_closing (S := .none) (s := s) hcloses with hsame | ⟨joining, hclosing⟩
      · rw [hsame]
        exact hfreed
      · exact run_invariant (I := fun s => ∀ r, (s.job r).Freed)
          (fun _ _ ha hw => freed_write (fun _ => id) hw ha)
          hclosing hfreed
  · obtain rfl := (State.create_ok hcreate).1
    exact fun _ hterminal => (by cases hterminal)

/-- What the step into a closed state cannot do. -/
structure Frozen (s t : State) : Prop where
  closed : t.closed = true
  jobs : ∀ r ∈ t.jobs, r ∈ s.jobs
  starts : ∀ r ∈ t.jobs, (s.job r).snapshot.state = .queued → (t.job r).snapshot.state ≠ .running
  board : ∀ (tr : TeamRef) (i : Nat) (w' : Team.Work), (t.team tr).work[i]? = some w' →
    w'.snapshot.state = .queued →
    ∃ w, (s.team tr).work[i]? = some w ∧ w.snapshot.state = .queued
  mail : SameMail s t

theorem closing_cases {s : State} {op : State.Op} (h : op.closes = true) :
    s.apply op = s ∨ ∃ joining, s.apply op = { s with joining }.closeAll := by
  cases op with
  | shutdown =>
    unfold State.apply State.shutdown
    dsimp only
    split
    · exact .inl rfl
    · exact .inr ⟨true, rfl⟩
  | destroy => exact .inr ⟨s.joining, rfl⟩
  | _ => cases h

theorem shut_reachable {svc : Service} {s : State} (hs : State.Reachable svc s)
    (hclosed : s.closed = true) : Shut s := by
  obtain ⟨s₀, hcreate, hrun⟩ := hs
  induction hrun with
  | refl =>
    obtain rfl := (State.create_ok hcreate).1
    cases hclosed
  | @tail u t hrun hstep ih =>
    have hreg := (ledger_reachable ⟨s₀, hcreate, hrun⟩).1
    obtain ⟨op, hop, rfl⟩ := hstep
    by_cases hu : u.closed = true
    · obtain ⟨hon, -⟩ := winds_path ((ih hu).on hreg) (State.path_apply hop)
      have hteams := (State.sameMail_apply op hu).teams
      exact ⟨hon.closed, hon.jobs, hteams ▸ hon.teams⟩
    · cases hcloses : op.closes with
      | false =>
        rw [closed_writes (State.writes_apply hcloses)] at hclosed
        exact absurd hclosed hu
      | true =>
        rcases closing_cases (s := u) hcloses with hsame | ⟨joining, hclosing⟩
        · rw [hsame] at hclosed
          exact absurd hclosed hu
        · rw [hclosing]
          exact State.shut_closeAll
            (registry_move (G := .all) hreg (.clock u.tick u.posted joining fun _ => trivial))

theorem closeAll_board (s : State) (tr : TeamRef) (i : Nat) {w' : Team.Work}
    (hw' : (s.closeAll.team tr).work[i]? = some w') (hqueued : w'.snapshot.state = .queued) :
    ∃ w, (s.team tr).work[i]? = some w ∧ w.snapshot.state = .queued := by
  have hstop := State.path_stopTeams s.teams (s := { s with closed := true }) fun tr htr => htr
  have hcancel := State.path_cancelJobs
    (fun _ => true) (State.stopTeams s.teams { s with closed := true }).jobs
    (s := State.stopTeams s.teams { s with closed := true }) fun r hr => hr
  have hrun := run_relates (r := Move (Grant.cancelling fun _ => true)) (I :=
    fun u => u.closed = true)
    (Q := fun a b => ∀ w', (b.team tr).work[i]? = some w' → w'.snapshot.state = .queued →
      ∃ w, (a.team tr).work[i]? = some w ∧ w.snapshot.state = .queued)
    (fun _ _ ha hm => closed_move hm ha) (fun _ w hw hq => ⟨w, hw, hq⟩)
    (fun _ _ _ hab hbc w hw hq => by obtain ⟨v, hv, hvq⟩ := hbc w hw hq; exact hab v hv hvq)
    (fun _ _ ha hm w hw hq => queued_move hm ha tr i hw hq) (hstop.trans hcancel) rfl
  exact hrun w' hw' hqueued

theorem frozen_apply {svc : Service} {s : State} (hs : State.Reachable svc s) (op : State.Op)
    (hop : s.Enabled op) (hclosed : (s.apply op).closed = true) : Frozen s (s.apply op) := by
  have ht : State.Reachable svc (s.apply op) := by
    obtain ⟨s₀, hcreate, hrun⟩ := hs
    exact ⟨s₀, hcreate, hrun.tail ⟨op, hop, rfl⟩⟩
  have hshut := shut_reachable ht hclosed
  have hstarts : ∀ r ∈ (s.apply op).jobs, (s.job r).snapshot.state = .queued →
      ((s.apply op).job r).snapshot.state ≠ .running :=
    fun r hr _ => (hshut.jobs r hr).2
  by_cases hopen : s.closed = true
  · obtain ⟨-, hwinds⟩ := winds_path ((shut_reachable hs hopen).on (ledger_reachable hs).1)
      (State.path_apply hop)
    exact ⟨hclosed, hwinds.jobs, hstarts, hwinds.board, State.sameMail_apply op hopen⟩
  · cases hcloses : op.closes with
    | false =>
      rw [closed_writes (State.writes_apply hcloses)] at hclosed
      exact absurd hclosed hopen
    | true =>
      have hmail : SameMail s (s.apply op) := by
        rcases State.writes_closing (S := .none) (s := s) hcloses with hsame | ⟨joining, hwrites⟩
        · rw [hsame]
          exact .refl s
        · have hmail := sameMail_writes id id hwrites
          exact ⟨hmail.teams, hmail.messages⟩
      rcases closing_cases (s := s) hcloses with hsame | ⟨joining, hclosing⟩
      · rw [hsame] at hclosed
        exact absurd hclosed hopen
      · refine ⟨hclosed, fun r hr => ?_, hstarts, fun tr i w' hw' hqueued => ?_, hmail⟩
        · rw [hclosing, State.closeAll_jobs] at hr
          exact hr
        · rw [hclosing] at hw'
          exact closeAll_board { s with joining } tr i hw' hqueued

/-- Only the end of a run gives a slot back. -/
theorem active_move {G : Grant} (hG : ∀ r, ¬G.ends r) {s t : State} (hm : Move G s t) :
    s.active ≤ t.active := by
  cases hm with
  | settle r shown kept hset =>
    have hactive : (s.settled r shown kept).active =
        s.active + shown.snapshot.state.occupies.toNat - (s.job r).snapshot.state.occupies.toNat :=
          rfl
    rw [hactive]
    cases hold : (s.job r).snapshot.state.occupies with
    | false => simp
    | true =>
      have hshown : shown.snapshot.state.occupies = true := by
        by_contra hfree
        exact hG r (hset.frees hold (by simpa using hfree)).2
      rw [hshown]
      simp
  | _ => exact le_refl _

theorem active_apply {s : State} {op : State.Op} (hop : s.Enabled op)
    (hends : ∀ r, op.ends r = false) :
    s.active ≤ (s.apply op).active :=
  run_relates (r := Move (op.grant s)) (I := fun _ => True) (Q := fun a b => a.active ≤ b.active)
    (fun _ _ _ _ => trivial)
    (fun _ => le_refl _) (fun _ _ _ => le_trans)
    (fun _ _ _ hm => active_move (fun r hr => by
      have hr : op.ends r = true := hr
      rw [hends r] at hr
      cases hr) hm) (State.path_apply hop) trivial

theorem reachable_step {svc : Service} {s : State} (hs : State.Reachable svc s) (op : State.Op)
    (hop : s.Enabled op) :
    State.Reachable svc (s.apply op) := by
  obtain ⟨s₀, hcreate, hrun⟩ := hs
  exact ⟨s₀, hcreate, hrun.tail ⟨op, hop, rfl⟩⟩

/-- The closed service stays closed and takes no slot. -/
theorem closed_apply {svc : Service} {s : State} (hs : State.Reachable svc s)
    (hclosed : s.closed = true) (op : State.Op) (hop : s.Enabled op) : (s.apply op).closed = true ∧
    (s.apply op).active ≤ s.active := by
  obtain ⟨hon, hwinds⟩ := winds_path ((shut_reachable hs hclosed).on (ledger_reachable hs).1)
    (State.path_apply hop)
  exact ⟨hon.closed, hwinds.active⟩

/-- What a successful shutdown promises. -/
structure Finished (s : State) : Prop where
  closed : s.closed = true
  active : s.active = 0
  jobs : ∀ r ∈ s.jobs, taskTerminal (s.job r).snapshot.state = true ∧ (s.job r).child = false
  stopped : ∀ tr ∈ s.teams, (s.team tr).stopped = true
  work : ∀ tr ∈ s.teams, ∀ w ∈ (s.team tr).work,
    w.snapshot.state = .accepted ∨ w.snapshot.state = .failed ∨ w.snapshot.state = .cancelled

/-- A listed run still holds its slot. -/
theorem exists_occupied {s : State} (hres : Reservation s) (hactive : s.active ≠ 0) :
    ∃ r ∈ s.jobs, (s.job r).snapshot.state = .running ∨ (s.job r).snapshot.state = .cancelling := by
  have hpos : 0 < s.occupied := by
    have hcount := hres.active
    omega
  obtain ⟨r, hr, hstate⟩ := List.countP_pos_iff.mp hpos
  exact ⟨r, hr, by simpa using hstate⟩

theorem finished_of_closed {svc : Service} {s : State} (hs : State.Reachable svc s)
    (hclosed : s.closed = true) (hactive : s.active = 0) : Finished s := by
  have hshut := shut_reachable hs hclosed
  obtain ⟨-, hagree⟩ := ledger_reachable hs
  have hres : Reservation s := (reservation_path hs .refl).2.1
  have hfree : ∀ r ∈ s.jobs, (s.job r).snapshot.state ≠ .cancelling := by
    intro r hr hcancelling
    have hpos : 0 < s.occupied := List.countP_pos_iff.mpr ⟨r, hr, by rw [hcancelling]; rfl⟩
    have hcount := hres.active
    omega
  have hterminal : ∀ r ∈ s.jobs, taskTerminal (s.job r).snapshot.state = true := by
    intro r hr
    obtain ⟨hqueued, hrunning⟩ := hshut.jobs r hr
    have hcancelling := hfree r hr
    cases hstate : (s.job r).snapshot.state with
    | queued => exact absurd hstate hqueued
    | running => exact absurd hstate hrunning
    | cancelling => exact absurd hstate hcancelling
    | _ => rfl
  refine ⟨hclosed, hactive, fun r hr => ⟨hterminal r hr, freed_reachable hs r (hterminal r hr)⟩,
    fun tr htr => (hshut.teams tr htr).stopped, fun tr htr w hw => ?_⟩
  have hidle : ¬teamTaskActive w.snapshot.state = true := by
    intro hact
    obtain ⟨r, hr, hlink⟩ := hagree.run tr htr w hw hact
    have hlive := (live_of_sameName hlink.2.state).1
    rw [hterminal r hr] at hlive
    cases hlive
  obtain ⟨hwaiting, hreview⟩ := (hshut.teams tr htr).work w hw
  cases hstate : w.snapshot.state with
  | waiting => exact absurd hstate hwaiting
  | inReview => exact absurd hstate hreview
  | accepted => exact .inl rfl
  | failed => exact .inr (.inl rfl)
  | cancelled => exact .inr (.inr rfl)
  | _ => rw [hstate] at hidle; exact absurd rfl hidle

namespace Frozen

theorem refl {s : State} (hclosed : s.closed = true) : Frozen s s := by
  refine ⟨hclosed, fun _ hr => hr, fun r _ hqueued hrunning => ?_,
    fun _ _ w hw hq => ⟨w, hw, hq⟩, .refl s⟩
  rw [hqueued] at hrunning
  cases hrunning

theorem joined {s t : State} (h : Frozen s t) : Frozen s { t with joining := false } :=
  ⟨h.closed, h.jobs, h.starts, h.board, ⟨h.mail.teams, h.mail.messages⟩⟩

theorem trans {s t u : State} (h : Frozen s t) (k : Frozen t u) (hshut : Shut u) : Frozen s u := by
  refine ⟨k.closed, fun r hr => h.jobs r (k.jobs r hr), fun r hr _ => (hshut.jobs r hr).2,
    fun tr i w hw hq => ?_, h.mail.trans k.mail⟩
  obtain ⟨v, hv, hq'⟩ := k.board tr i w hw hq
  exact h.board tr i v hv hq'

end Frozen

namespace Closing

variable {svc : Service} {h k : Closing}

/-- The coroutine waits on a closed service and has missed no notification, and once it has returned
no run is left. -/
structure Inv (svc : Service) (h : Closing) : Prop where
  tasks : State.Reachable svc h.tasks
  parked : h.parked = true → h.tasks.closed = true ∧ h.tasks.joining = true
  pending : h.parked = true → h.tasks.active = 0 → h.changed = true
  returned : h.returned = true → h.tasks.closed = true ∧ h.tasks.active = 0

theorem apply_shutdown (notified : Bool) :
    h.apply (.shutdown notified) = if h.tasks.joining = true then h
    else await { h with tasks := h.tasks.apply .shutdown, changed := h.changed || notified } := rfl

theorem shutdown_apply {s : State} (h : ¬s.joining = true) :
    s.apply .shutdown = { s with joining := true }.closeAll := by
  unfold State.apply State.shutdown
  dsimp only
  rw [if_neg h]

theorem joining_closeAll (s : State) : s.closeAll.joining = s.joining :=
  joining_writes (S := .none) (s := { s with closed := true }) id (State.writes_closeAll s)

theorem shutdown_closes {s : State} (hs : State.Reachable svc s) (h : ¬s.joining = true) :
    (s.apply .shutdown).closed = true ∧ (s.apply .shutdown).joining = true := by
  rw [shutdown_apply h]
  refine ⟨(State.shut_closeAll ?_).closed, joining_closeAll _⟩
  exact registry_move (G := .all) (ledger_reachable hs).1
    (.clock s.tick s.posted true fun _ => trivial)

theorem joining_apply {s : State} {op : State.Op} (hop : concurrent op = true) :
    (s.apply op).joining = s.joining := by
  cases hcloses : op.closes with
  | false =>
    refine joining_writes ?_ (State.writes_apply hcloses)
    cases op <;> first | exact id | cases hop
  | true =>
    cases op with
    | shutdown => cases hop
    | destroy => exact joining_closeAll s
    | _ => cases hcloses

/-- A run that ends tells the channel. -/
theorem active_concurrent {s : State} {op : State.Op} (hop : s.Enabled op)
    (hsends : sends op = false) :
    s.active ≤ (s.apply op).active := by
  refine active_apply hop fun r => ?_
  cases op <;> first | rfl | cases hsends

/-- A closed service with a pending shutdown enters the loop. -/
theorem inv_await (tasks : State.Reachable svc h.tasks) (closed : h.tasks.closed = true)
    (joining : h.tasks.joining = true) (returned : h.returned = true → h.tasks.active = 0) :
    Inv svc (await h) := by
  unfold await
  split
  · next hactive =>
    have hactive : h.tasks.active = 0 := by simpa using hactive
    exact ⟨reachable_step tasks .joined ⟨joining, hactive⟩, fun hp => (by cases hp),
      fun hp => (by cases hp), fun _ => ⟨closed, hactive⟩⟩
  · next hactive =>
    have hactive : h.tasks.active ≠ 0 := by simpa using hactive
    exact ⟨tasks, fun _ => ⟨closed, joining⟩, fun _ hzero => absurd hzero hactive,
      fun hr => ⟨closed, returned hr⟩⟩

theorem inv_operation (hi : Inv svc h) {op : State.Op} {notified : Bool}
    (hop : concurrent op = true) (hen : h.tasks.Enabled op) :
    Inv svc (h.apply (.operation op notified)) where
  tasks := reachable_step hi.tasks op hen
  parked hp := by
    obtain ⟨hclosed, hjoining⟩ := hi.parked hp
    exact ⟨(closed_apply hi.tasks hclosed op hen).1, (joining_apply hop).trans hjoining⟩
  pending hp hzero := by
    change (h.changed || sends op || notified) = true
    have hzero : (h.tasks.apply op).active = 0 := hzero
    cases hsends : sends op with
    | true => simp
    | false =>
      have hle := active_concurrent hen hsends
      rw [hi.pending hp (by omega)]
      rfl
  returned hr := by
    obtain ⟨hclosed, hactive⟩ := hi.returned hr
    obtain ⟨hstays, hle⟩ := closed_apply hi.tasks hclosed op hen
    rw [hactive] at hle
    exact ⟨hstays, Nat.le_zero.mp hle⟩

theorem inv_step (hi : Inv svc h) {e : Event} (hen : h.Enabled e) : Inv svc (h.apply e) := by
  cases e with
  | operation op notified => exact inv_operation hi hen.1 hen.2
  | shutdown notified =>
    rw [apply_shutdown]
    split
    · exact hi
    · next hjoining =>
      obtain ⟨hcloses, hmark⟩ := shutdown_closes hi.tasks hjoining
      refine inv_await (reachable_step hi.tasks .shutdown trivial) hcloses hmark fun hr => ?_
      obtain ⟨hclosed, hactive⟩ := hi.returned hr
      have hle := (closed_apply hi.tasks hclosed .shutdown trivial).2
      rw [hactive] at hle
      exact Nat.le_zero.mp hle
  | wake =>
    obtain ⟨hclosed, hjoining⟩ := hi.parked hen.1
    exact inv_await hi.tasks hclosed hjoining fun hr => (hi.returned hr).2
  | failed => exact ⟨hi.tasks, fun hp => (by cases hp), fun hp => (by cases hp), hi.returned⟩

theorem inv_reachable (hr : Reachable svc h) : Inv svc h := by
  obtain ⟨s₀, hcreate, hrun⟩ := hr
  refine run_invariant (I := Inv svc) ?_ hrun ?_
  · rintro h k hi ⟨e, hen, rfl⟩
    exact inv_step hi hen
  · exact ⟨⟨s₀, hcreate, .refl⟩, fun hp => (by cases hp), fun hp => (by cases hp),
      fun hp => (by cases hp)⟩

theorem frozen_await {s : State} (hf : Frozen s h.tasks) : Frozen s (await h).tasks := by
  unfold await
  split
  · exact hf.joined
  · exact hf

theorem await_closed : (await h).tasks.closed = h.tasks.closed := by
  unfold await
  split <;> rfl

/-- The step that closes, and every step of a closed service. -/
theorem frozen_step (hi : Inv svc h) {e : Event} (hen : h.Enabled e)
    (hclosed : (h.apply e).tasks.closed = true) :
    Frozen h.tasks (h.apply e).tasks := by
  cases e with
  | operation op notified => exact frozen_apply hi.tasks op hen.2 hclosed
  | shutdown notified =>
    rw [apply_shutdown] at hclosed ⊢
    split at hclosed
    · next hjoining =>
      rw [if_pos hjoining]
      exact .refl hclosed
    · next hjoining =>
      rw [if_neg hjoining]
      rw [await_closed] at hclosed
      exact frozen_await (frozen_apply hi.tasks .shutdown trivial hclosed)
  | wake => exact frozen_await (h := { h with changed := false }) (.refl (hi.parked hen.1).1)
  | failed => exact .refl hclosed

theorem closed_step (hi : Inv svc h) {e : Event} (hen : h.Enabled e)
    (hclosed : h.tasks.closed = true) :
    (h.apply e).tasks.closed = true := by
  cases e with
  | operation op notified => exact (closed_apply hi.tasks hclosed op hen.2).1
  | shutdown notified =>
    rw [apply_shutdown]
    split
    · exact hclosed
    · rw [await_closed]
      exact (closed_apply hi.tasks hclosed .shutdown trivial).1
  | wake => exact await_closed.trans hclosed
  | failed => exact hclosed

theorem frozen_run (hr : Reachable svc h) (hclosed : h.tasks.closed = true)
    (hrun : ReflTransGen Step h k) :
    Frozen h.tasks k.tasks := by
  induction hrun with
  | refl => exact .refl hclosed
  | @tail u v hrun hstep ih =>
    have hu : Reachable svc u := by
      obtain ⟨s₀, hcreate, hpre⟩ := hr
      exact ⟨s₀, hcreate, hpre.trans hrun⟩
    have hi := inv_reachable hu
    obtain ⟨e, hen, rfl⟩ := hstep
    have hv := closed_step hi hen ih.closed
    exact ih.trans (frozen_step hi hen hv) (shut_reachable (inv_step hi hen).tasks hv)

/-- From the step that closes the service on, nothing is admitted and nothing starts; a shutdown
that has returned leaves no work; and one that waits is woken by the last run. -/
theorem shutdown_is_final (hr : Reachable svc h) :
    (∀ e, h.Enabled e → (h.apply e).tasks.closed = true → Frozen h.tasks (h.apply e).tasks) ∧
    (∀ notified, (h.apply (.shutdown notified)).tasks.closed = true ∨ h.tasks.joining = true) ∧
    (h.tasks.closed = true → ∀ k, ReflTransGen Step h k → Frozen h.tasks k.tasks) ∧
    (h.returned = true → Finished h.tasks) ∧
    (h.parked = true →
      (h.tasks.active ≠ 0 → ∃ r ∈ h.tasks.jobs, ∀ joined outcome notified,
        h.Enabled (.operation (.monitor r joined outcome) notified)) ∧
      (h.tasks.active = 0 → h.Enabled .wake ∧ (h.apply .wake).returned = true)) := by
  have hi := inv_reachable hr
  refine ⟨fun e hen hclosed => frozen_step hi hen hclosed, fun notified => ?_,
    fun hclosed k hrun => frozen_run hr hclosed hrun, fun hreturned => ?_, fun hparked =>
    ⟨fun hactive => ?_, fun hactive => ⟨⟨hparked, hi.pending hparked hactive⟩, ?_⟩⟩⟩
  · by_cases hjoining : h.tasks.joining = true
    · exact .inr hjoining
    · left
      rw [apply_shutdown, if_neg hjoining, await_closed]
      exact (shutdown_closes hi.tasks hjoining).1
  · obtain ⟨hclosed, hactive⟩ := hi.returned hreturned
    exact finished_of_closed hi.tasks hclosed hactive
  · obtain ⟨r, hr, hstate⟩ := exists_occupied (reservation_path hi.tasks .refl).2.1 hactive
    exact ⟨r, hr, fun joined outcome notified => ⟨rfl, hr, hstate⟩⟩
  · have hzero : (h.tasks.active == 0) = true := by simpa using hactive
    change (await { h with changed := false }).returned = true
    unfold await
    rw [if_pos hzero]

def applyAll (h : Closing) (events : List Event) : Closing := events.foldl apply h

/-- The events are enabled one after the other. -/
def AllEnabled : Closing → List Event → Prop
  | _, [] => True
  | h, e :: rest => h.Enabled e ∧ AllEnabled (h.apply e) rest

instance instDecidableAllEnabled (h : Closing) (events : List Event) :
    Decidable (AllEnabled h events) :=
  match events with
  | [] => isTrue trivial
  | e :: rest =>
    have := instDecidableAllEnabled (h.apply e) rest
    inferInstanceAs (Decidable (_ ∧ _))

theorem steps_applyAll (events : List Event) (hen : AllEnabled h events) :
    ReflTransGen Step h (h.applyAll events) := by
  induction events generalizing h with
  | nil => exact .refl
  | cons e rest ih => exact .head ⟨e, hen.1, rfl⟩ (ih hen.2)

def sampleBefore : List Event := (State.sampleReview.take 4).map fun op => .operation op false

/-- One task runs and one waits when the service is shut down. -/
def sampleShutdown : Closing :=
  applyAll ⟨State.empty (State.sampleService false), false, false,
    false⟩ (sampleBefore ++ [.shutdown false])

/-- The member's run ends after the shutdown. -/
def sampleEnd : List Event :=
    [.operation (.monitor 0 true (some (.ok [0x6c]))) false, .operation .pump false, .wake]

theorem reachable_sampleShutdown : Reachable (State.sampleService false) sampleShutdown :=
  ⟨State.empty (State.sampleService false), by rfl, steps_applyAll _ (by decide +kernel)⟩

theorem shutdown_is_final_sample :
    (sampleShutdown.parked = true ∧ ∃ r ∈ sampleShutdown.tasks.jobs, ∀ joined outcome notified,
      sampleShutdown.Enabled (.operation (.monitor r joined outcome) notified)) ∧
    Finished (sampleShutdown.applyAll sampleEnd).tasks := by
  have hparked : sampleShutdown.parked = true := by decide +kernel
  have hend : Reachable (State.sampleService false) (sampleShutdown.applyAll sampleEnd) := by
    obtain ⟨s₀, hcreate, hrun⟩ := reachable_sampleShutdown
    exact ⟨s₀, hcreate, hrun.trans (steps_applyAll sampleEnd (by decide +kernel))⟩
  refine ⟨⟨hparked, ?_⟩, (shutdown_is_final hend).2.2.2.1 (by decide +kernel)⟩
  exact ((shutdown_is_final reachable_sampleShutdown).2.2.2.2 hparked).1 (by decide +kernel)

end Closing

end Orangutan.Bootstrap
