import Orangutan.Bootstrap.Board

/-!
# Job records and board entries agree

A live team run is recorded twice, as a job and as an entry of its board.
`Registry` says that the service's lists name each object once, `Agreement` that
the two records of every live run match. Both are kept by every move.
-/

namespace Orangutan.Bootstrap

set_option autoImplicit false

open Orangutan.Core Orangutan.Lib Orangutan.Tool

/-- The live states have the same names on both sides. -/
def SameName : TaskState → TeamTaskState → Bool
  | .queued, .queued => true
  | .running, .running => true
  | .cancelling, .cancelling => true
  | _, _ => false

theorem sameName_boardState {state : TaskState} (h : taskTerminal state = false) :
    SameName state (boardState state) = true := by
  cases state <;> first | rfl | cases h

theorem live_of_sameName {a : TaskState} {b : TeamTaskState} (h : SameName a b = true) :
    taskTerminal a = false ∧ teamTaskActive b = true := by
  cases a <;> cases b <;> first | exact ⟨rfl, rfl⟩ | cases h

theorem live_of_boardState_active {state : TaskState}
    (h : teamTaskActive (boardState state) = true) :
    taskTerminal state = false := by
  cases state <;> first | rfl | cases h

theorem live_of_next {a b : TaskState} (h : a.next b = true) : taskTerminal a = false := by
  cases a <;> first | rfl | (cases b <;> cases h)

/-- A board entry and a job record that describe one live run. -/
structure Corresponds (team : Team) (work : Team.Work) (job : Job) : Prop where
  owner : job.owner = team.owner
  teamId : job.snapshot.teamId = team.id
  key : job.snapshot.teamTaskKey = work.snapshot.key
  attempt : job.snapshot.teamAttempt = work.snapshot.attempt
  run : job.snapshot.taskId = work.snapshot.runId
  state : SameName job.snapshot.state work.snapshot.state = true

structure Registry (s : State) : Prop where
  jobs_nodup : s.jobs.Nodup
  jobs_lt : ∀ r ∈ s.jobs, r < s.jobHeap.next
  teams_nodup : s.teams.Nodup
  teams_lt : ∀ tr ∈ s.teams, tr < s.teamHeap.next
  ids : ∀ r ∈ s.jobs, ∀ k ∈ s.jobs,
    (s.job r).snapshot.taskId = (s.job k).snapshot.taskId → r = k
  owners : ∀ tr ∈ s.teams, ∀ k ∈ s.teams, (s.team tr).owner = (s.team k).owner → tr = k

/-- The job also holds the reference to its team. -/
def Linked (s : State) (tr : TeamRef) (w : Team.Work) (r : JobRef) : Prop :=
  (s.job r).team = some tr ∧ Corresponds (s.team tr) w (s.job r)

structure Agreement (s : State) : Prop where
  boards : ∀ tr ∈ s.teams, Board (s.team tr).work
  run : ∀ tr ∈ s.teams, ∀ w ∈ (s.team tr).work, teamTaskActive w.snapshot.state = true →
    ∃ r ∈ s.jobs, Linked s tr w r
  task : ∀ r ∈ s.jobs, taskTerminal (s.job r).snapshot.state = false →
    ∀ tr, (s.job r).team = some tr → tr ∈ s.teams ∧ ∃ w ∈ (s.team tr).work, Linked s tr w r

/-- The parts of a record that the board agrees with. -/
structure Job.SameFace (a b : Job) : Prop where
  owner : a.owner = b.owner
  taskId : a.snapshot.taskId = b.snapshot.taskId
  teamId : a.snapshot.teamId = b.snapshot.teamId
  teamTaskKey : a.snapshot.teamTaskKey = b.snapshot.teamTaskKey
  teamAttempt : a.snapshot.teamAttempt = b.snapshot.teamAttempt
  state : a.snapshot.state = b.snapshot.state
  team : a.team = b.team

/-- The parts of a team that its jobs agree with. -/
structure Team.SameFace (a b : Team) : Prop where
  owner : a.owner = b.owner
  id : a.id = b.id

theorem Job.SameFace.refl (a : Job) : a.SameFace a := ⟨rfl, rfl, rfl, rfl, rfl, rfl, rfl⟩

theorem Team.SameFace.refl (a : Team) : a.SameFace a := ⟨rfl, rfl⟩

theorem Linked.congr {s t : State} {tr : TeamRef} {w w' : Team.Work} {r : JobRef}
    (h : Linked s tr w r) (hjob : (t.job r).SameFace (s.job r))
    (hteam : (t.team tr).SameFace (s.team tr)) (hkey : w'.snapshot.key = w.snapshot.key)
    (hattempt : w'.snapshot.attempt = w.snapshot.attempt)
    (hrun : w'.snapshot.runId = w.snapshot.runId) (hstate : w'.snapshot.state = w.snapshot.state) :
    Linked t tr w' r := by
  obtain ⟨hlink, hc⟩ := h
  refine ⟨hjob.team.trans hlink, ?_⟩
  exact
    { owner := hjob.owner.trans (hc.owner.trans hteam.owner.symm)
      teamId := hjob.teamId.trans (hc.teamId.trans hteam.id.symm)
      key := hjob.teamTaskKey.trans (hc.key.trans hkey.symm)
      attempt := hjob.teamAttempt.trans (hc.attempt.trans hattempt.symm)
      run := hjob.taskId.trans (hc.run.trans hrun.symm)
      state := by rw [hjob.state, hstate]; exact hc.state }

theorem Linked.frame {s t : State} {tr : TeamRef} {w : Team.Work} {r : JobRef}
    (h : Linked s tr w r) (hjob : (t.job r).SameFace (s.job r))
    (hteam : (t.team tr).SameFace (s.team tr)) : Linked t tr w r :=
  h.congr hjob hteam rfl rfl rfl rfl

theorem Linked.tracks {s : State} {tr : TeamRef} {w : Team.Work} {r : JobRef}
    (h : Linked s tr w r) : (s.job r).tracks w = true := by
  simp [Job.tracks, h.2.key, h.2.run, h.2.attempt]

theorem registry_empty (svc : Service) : Registry (State.empty svc) where
  jobs_nodup := List.nodup_nil
  jobs_lt := fun r hr => by cases hr
  teams_nodup := List.nodup_nil
  teams_lt := fun tr htr => by cases htr
  ids := fun r hr => by cases hr
  owners := fun tr htr => by cases htr

namespace Registry

variable {s t : State}

/-- Writes that keep the lists, the identities and the owners. -/
theorem frame (h : Registry s) (hjobs : t.jobs = s.jobs) (hteams : t.teams = s.teams)
    (hnext : t.jobHeap.next = s.jobHeap.next) (htnext : t.teamHeap.next = s.teamHeap.next)
    (hid : ∀ r ∈ s.jobs, (t.job r).snapshot.taskId = (s.job r).snapshot.taskId)
    (howner : ∀ tr ∈ s.teams, (t.team tr).owner = (s.team tr).owner) : Registry t where
  jobs_nodup := hjobs ▸ h.jobs_nodup
  jobs_lt := fun r hr => by rw [hnext]; exact h.jobs_lt r (hjobs ▸ hr)
  teams_nodup := hteams ▸ h.teams_nodup
  teams_lt := fun tr htr => by rw [htnext]; exact h.teams_lt tr (hteams ▸ htr)
  ids := by
    rw [hjobs]
    intro r hr k hk he
    rw [hid r hr, hid k hk] at he
    exact h.ids r hr k hk he
  owners := by
    rw [hteams]
    intro tr htr k hk he
    rw [howner tr htr, howner k hk] at he
    exact h.owners tr htr k hk he

theorem setJob (h : Registry s) (r : JobRef) {job : Job}
    (hid : job.snapshot.taskId = (s.job r).snapshot.taskId) : Registry (s.setJob r job) := by
  refine h.frame rfl rfl rfl rfl (fun k hk => ?_) fun _ _ => rfl
  rw [State.job_setJob]
  split
  · next he => rw [he]; exact hid
  · rfl

theorem setTeam (h : Registry s) (tr : TeamRef) {team : Team}
    (howner : team.owner = (s.team tr).owner) : Registry (s.setTeam tr team) := by
  refine h.frame rfl rfl rfl rfl (fun _ _ => rfl) fun k hk => ?_
  rw [State.team_setTeam]
  split
  · next he => rw [he]; exact howner
  · rfl

theorem pushJob (h : Registry s) {job : Job} (hfresh : s.FreshId job.snapshot.taskId) :
    Registry (s.pushJob job) := by
  have hold : ∀ r ∈ s.jobs, (s.pushJob job).job r = s.job r := fun r hr =>
    Heap.get_alloc_of_lt _ (h.jobs_lt r hr) _
  have hnew : (s.pushJob job).job s.jobHeap.next = job := Heap.get_alloc_next _ _
  refine ⟨?_, ?_, h.teams_nodup, h.teams_lt, ?_, h.owners⟩
  · refine List.nodup_append.mpr ⟨h.jobs_nodup, by simp, fun r hr k hk he => ?_⟩
    have hlt := h.jobs_lt r hr
    rw [he, List.mem_singleton.mp hk] at hlt
    exact absurd hlt (Nat.lt_irrefl _)
  · intro r hr
    have hnext : (s.pushJob job).jobHeap.next = s.jobHeap.next + 1 := rfl
    rw [hnext]
    rcases List.mem_append.mp hr with hr | hr
    · exact Nat.lt_succ_of_lt (h.jobs_lt r hr)
    · rw [List.mem_singleton.mp hr]
      exact Nat.lt_succ_self _
  · intro r hr k hk he
    rcases List.mem_append.mp hr with hr | hr <;> rcases List.mem_append.mp hk with hk | hk
    · rw [hold r hr, hold k hk] at he
      exact h.ids r hr k hk he
    · rw [List.mem_singleton.mp hk, hold r hr, hnew] at he
      exact absurd he (hfresh r hr)
    · rw [List.mem_singleton.mp hr, hold k hk, hnew] at he
      exact absurd he.symm (hfresh k hk)
    · rw [List.mem_singleton.mp hr, List.mem_singleton.mp hk]

end Registry

namespace State

section Settled

variable (s : State) (r : JobRef) (shown kept : Job)

@[simp] theorem settled_jobs : (s.settled r shown kept).jobs = s.jobs := by simp [settled]
@[simp] theorem settled_teams : (s.settled r shown kept).teams = s.teams := by simp [settled]
@[simp] theorem settled_svc : (s.settled r shown kept).svc = s.svc := by simp [settled]
@[simp] theorem settled_closed : (s.settled r shown kept).closed = s.closed := by simp [settled]

theorem settled_jobHeap :
    (s.settled r shown kept).jobHeap = (s.jobHeap.set r shown).set r kept := by
  simp [settled, setJob, publish]

theorem job_settled (k : JobRef) :
    (s.settled r shown kept).job k = if k = r then kept else s.job k := by
  unfold job
  rw [settled_jobHeap, Heap.set_set, Heap.get_set]

theorem settled_teamHeap :
    (s.settled r shown kept).teamHeap = (s.updateTeamJob shown).teamHeap := by
  unfold settled publish updateTeamJob
  simp only [team_setJob]
  cases shown.team with
  | none => rfl
  | some tr =>
    dsimp only
    cases findEntry shown.tracks (s.team tr).work <;> rfl

theorem team_settled (k : TeamRef) :
    (s.settled r shown kept).team k = (s.updateTeamJob shown).team k := by
  unfold team
  rw [settled_teamHeap]

end Settled

end State

theorem registry_move {G : Grant} {s t : State} (h : Registry s) (hm : Move G s t) :
    Registry t := by
  cases hm with
  | clock => exact h.frame rfl rfl rfl rfl (fun _ _ => rfl) fun _ _ => rfl
  | close => exact h.frame rfl rfl rfl rfl (fun _ _ => rfl) fun _ _ => rfl
  | reclaim keep gone =>
    exact ⟨h.jobs_nodup.filter _, fun r hr => h.jobs_lt r (List.mem_of_mem_filter hr),
        h.teams_nodup, h.teams_lt, fun r hr k hk =>
        h.ids r (List.mem_of_mem_filter hr) k (List.mem_of_mem_filter hk), h.owners⟩
  | acknowledge r => exact h.setJob r rfl
  | flag r => exact h.setJob r rfl
  | settle r shown kept hset =>
    have hid : kept.snapshot.taskId = (s.job r).snapshot.taskId := by
      rw [hset.snapshot]
      exact hset.run.taskId
    refine h.frame (by simp) (by simp) (by rw [State.settled_jobHeap]; rfl) ?_ (fun k _ => ?_) ?_
    · rw [State.settled_teamHeap]
      rcases State.updateTeamJob_cases s shown with ⟨he, -⟩ | ⟨tr, i, w, members, -, -, -, -, he⟩
      · rw [he]
      · rw [he]
        rfl
    · rw [State.job_settled]
      split
      · next hk => rw [hk]; exact hid
      · rfl
    · intro k _
      rw [State.team_settled]
      rcases State.updateTeamJob_cases s shown with ⟨he, -⟩ | ⟨tr, i, w, members, -, -, -, -, he⟩
      · rw [he]
      · rw [he, State.team_setTeam]
        split
        · next hk => rw [hk]
        · rfl
  | enqueue job hfresh => exact h.pushJob hfresh.fresh
  | dispatch tr i w member id current entry waiting ready idle room fresh =>
    exact (h.pushJob fresh).setTeam tr rfl
  | edit tr => exact h.setTeam tr rfl
  | submit tr => exact h.setTeam tr rfl
  | stop tr => exact h.setTeam tr rfl
  | join tr => exact h.setTeam tr rfl
  | mail tr => exact h.setTeam tr rfl
  | found keep team gone owner names work messages =>
    have hold : ∀ tr ∈ s.teams, (s.teamHeap.alloc team).get tr = s.team tr := fun tr htr =>
      Heap.get_alloc_of_lt _ (h.teams_lt tr htr) _
    refine ⟨h.jobs_nodup, h.jobs_lt, ?_, ?_, h.ids, ?_⟩
    · refine List.nodup_append.mpr ⟨h.teams_nodup.filter _, by simp, fun tr htr k hk he => ?_⟩
      have hlt := h.teams_lt tr (List.mem_of_mem_filter htr)
      rw [he, List.mem_singleton.mp hk] at hlt
      exact absurd hlt (Nat.lt_irrefl _)
    · intro tr htr
      change tr < s.teamHeap.next + 1
      rcases List.mem_append.mp htr with htr | htr
      · exact Nat.lt_succ_of_lt (h.teams_lt tr (List.mem_of_mem_filter htr))
      · rw [List.mem_singleton.mp htr]
        exact Nat.lt_succ_self _
    · -- The owner's previous team, if there was one, is among those let go.
      have hnew : ∀ tr ∈ s.teams.filter keep, (s.team tr).owner ≠ team.owner := by
        intro tr htr he
        obtain ⟨k, hk, hkeep, hko⟩ := owner tr (List.mem_of_mem_filter htr) he
        obtain rfl := h.owners tr (List.mem_of_mem_filter htr) k hk (he.trans hko.symm)
        rw [(List.mem_filter.mp htr).2] at hkeep
        cases hkeep
      intro tr htr k hk he
      change ((s.teamHeap.alloc team).get tr).owner = ((s.teamHeap.alloc team).get k).owner at he
      rcases List.mem_append.mp htr with htr | htr <;> rcases List.mem_append.mp hk with hk | hk
      · rw [hold tr (List.mem_of_mem_filter htr), hold k (List.mem_of_mem_filter hk)] at he
        exact h.owners tr (List.mem_of_mem_filter htr) k (List.mem_of_mem_filter hk) he
      · rw [List.mem_singleton.mp hk, hold tr (List.mem_of_mem_filter htr),
          Heap.get_alloc_next] at he
        exact absurd he (hnew tr htr)
      · rw [List.mem_singleton.mp htr, hold k (List.mem_of_mem_filter hk),
          Heap.get_alloc_next] at he
        exact absurd he.symm (hnew k hk)
      · rw [List.mem_singleton.mp htr, List.mem_singleton.mp hk]

/-- The settings are fixed. -/
theorem move_svc {G : Grant} {s t : State} (hm : Move G s t) : t.svc = s.svc := by
  cases hm with
  | settle => exact State.settled_svc _ _ _ _
  | _ => rfl

theorem path_svc {G : Grant} {s t : State} (hp : Path G s t) : t.svc = s.svc :=
  run_invariant (r := Move G) (I := fun u => u.svc = s.svc)
    (fun _ _ h hm => (move_svc hm).trans h) hp rfl

theorem agreement_empty (svc : Service) : Agreement (State.empty svc) where
  boards := fun tr htr => by cases htr
  run := fun tr htr => by cases htr
  task := fun r hr => by cases hr

namespace Agreement

variable {s t : State}

/-- Writes that no correspondence looks at. -/
theorem frame (h : Agreement s) (hjobs : t.jobs = s.jobs) (hteams : t.teams = s.teams)
    (hjob : ∀ r ∈ s.jobs, (t.job r).SameFace (s.job r))
    (hteam : ∀ tr ∈ s.teams, (t.team tr).SameFace (s.team tr))
    (hwork : ∀ tr ∈ s.teams, (t.team tr).work = (s.team tr).work) : Agreement t := by
  refine ⟨?_, ?_, ?_⟩
  · rw [hteams]
    intro tr htr
    rw [hwork tr htr]
    exact h.boards tr htr
  · rw [hteams, hjobs]
    intro tr htr w hw hact
    rw [hwork tr htr] at hw
    obtain ⟨r, hr, hlink⟩ := h.run tr htr w hw hact
    exact ⟨r, hr, hlink.frame (hjob r hr) (hteam tr htr)⟩
  · rw [hteams, hjobs]
    intro r hr hlive tr hlink
    rw [(hjob r hr).state] at hlive
    rw [(hjob r hr).team] at hlink
    obtain ⟨htr, w, hw, hl⟩ := h.task r hr hlive tr hlink
    rw [hwork tr htr]
    exact ⟨htr, w, hw, hl.frame (hjob r hr) (hteam tr htr)⟩

theorem setJob (h : Agreement s) (r : JobRef) {job : Job} (hface : job.SameFace (s.job r)) :
    Agreement (s.setJob r job) := by
  refine h.frame rfl rfl (fun k _ => ?_) (fun _ _ => .refl _) fun _ _ => rfl
  rw [State.job_setJob]
  split
  · next he => rw [he]; exact hface
  · exact .refl _

theorem setTeam (h : Agreement s) (tr : TeamRef) {team : Team} (hface : team.SameFace (s.team tr))
    (hwork : team.work = (s.team tr).work) : Agreement (s.setTeam tr team) := by
  refine h.frame rfl rfl (fun _ _ => .refl _) (fun k _ => ?_) fun k _ => ?_
  · rw [State.team_setTeam]
    split
    · next he => rw [he]; exact hface
    · exact .refl _
  · rw [State.team_setTeam]
    split
    · next he => rw [he]; exact hwork
    · rfl

/-- Retention drops finished records only. -/
theorem reclaim (h : Agreement s) (keep : JobRef → Bool)
    (hgone : ∀ r ∈ s.jobs, keep r = false → taskTerminal (s.job r).snapshot.state = true) :
    Agreement { s with jobs := s.jobs.filter keep } := by
  refine ⟨h.boards, fun tr htr w hw hact => ?_, fun r hr => h.task r (List.mem_of_mem_filter hr)⟩
  obtain ⟨r, hr, hlink⟩ := h.run tr htr w hw hact
  refine ⟨r, List.mem_filter.mpr ⟨hr, ?_⟩, hlink⟩
  by_contra hk
  have hterm := hgone r hr (Bool.eq_false_iff.mpr hk)
  rw [(live_of_sameName hlink.2.state).1] at hterm
  cases hterm

/-- A new record without a team. -/
theorem pushJob (h : Agreement s) (hreg : Registry s) {job : Job} (hteam : job.team = none) :
    Agreement (s.pushJob job) := by
  have hold : ∀ r ∈ s.jobs, (s.pushJob job).job r = s.job r := fun r hr =>
    Heap.get_alloc_of_lt _ (hreg.jobs_lt r hr) _
  refine ⟨h.boards, fun tr htr w hw hact => ?_, fun r hr hlive tr hlink => ?_⟩
  · obtain ⟨r, hr, hl⟩ := h.run tr htr w hw hact
    refine ⟨r, List.mem_append_left _ hr, hl.frame ?_ (.refl _)⟩
    rw [hold r hr]
    exact .refl _
  · rcases List.mem_append.mp hr with hr | hr
    · rw [hold r hr] at hlive hlink
      obtain ⟨htr, w, hw, hl⟩ := h.task r hr hlive tr hlink
      refine ⟨htr, w, hw, hl.frame ?_ (.refl _)⟩
      rw [hold r hr]
      exact .refl _
    · have hnew : (s.pushJob job).job s.jobHeap.next = job := Heap.get_alloc_next _ _
      rw [List.mem_singleton.mp hr, hnew, hteam] at hlink
      cases hlink

/-- A command or a failed dispatch rewrites one entry. -/
theorem edit {G : Grant} (h : Agreement s) {tr : TeamRef} {i : Nat} {w w' : Team.Work}
    (htr : tr ∈ s.teams) (hw : (s.team tr).work[i]? = some w) (hedit : TaskEdit G s w w') :
    Agreement (s.setWork tr i w') := by
  have hb := h.boards tr htr
  have hmem : w ∈ (s.team tr).work := List.mem_of_getElem? hw
  have hface : ∀ k, ((s.setWork tr i w').team k).SameFace (s.team k) := by
    intro k
    rw [State.team_setWork]
    split
    · next he => rw [he]; exact ⟨rfl, rfl⟩
    · exact .refl _
  refine ⟨fun k hk => ?_, fun k hk v hv hact => ?_, fun r hr hlive k hlink => ?_⟩
  · rw [State.team_setWork]
    split
    · exact hb.set hw (hedit.rewrite hb hmem)
    · exact h.boards k hk
  · have hold : ∃ u ∈ (s.team k).work, u.snapshot.key = v.snapshot.key ∧
        u.snapshot.attempt = v.snapshot.attempt ∧ u.snapshot.runId = v.snapshot.runId ∧
        u.snapshot.state = v.snapshot.state := by
      rw [State.team_setWork] at hv
      split at hv
      · next he =>
        subst he
        obtain ⟨j, hj⟩ := List.getElem?_of_mem hv
        rcases getElem?_set_cases hw hj with ⟨-, rfl⟩ | ⟨-, hvold⟩
        · rcases hedit.inactive_or_note with ⟨-, hno⟩ | ⟨feedback, rfl⟩
          · rw [hno] at hact
            cases hact
          · exact ⟨w, hmem, rfl, rfl, rfl, rfl⟩
        · exact ⟨v, List.mem_of_getElem? hvold, rfl, rfl, rfl, rfl⟩
      · exact ⟨v, hv, rfl, rfl, rfl, rfl⟩
    obtain ⟨u, hu, hkey, hattempt, hrun, hstate⟩ := hold
    obtain ⟨r, hr, hl⟩ := h.run k hk u hu (by rw [hstate]; exact hact)
    exact ⟨r, hr, hl.congr (.refl _) (hface k) hkey.symm hattempt.symm hrun.symm hstate.symm⟩
  · obtain ⟨hk, u, hu, hl⟩ := h.task r hr hlive k hlink
    refine ⟨hk, ?_⟩
    rw [State.team_setWork]
    split
    · next he =>
      subst he
      obtain ⟨j, hj⟩ := List.getElem?_of_mem hu
      by_cases hji : j = i
      · subst hji
        obtain rfl := Option.some.inj (hw.symm.trans hj)
        rcases hedit.inactive_or_note with ⟨hno, -⟩ | ⟨feedback, rfl⟩
        · rw [(live_of_sameName hl.2.state).2] at hno
          cases hno
        · exact ⟨w.note feedback, List.mem_set (List.getElem?_eq_some_iff.mp hw).1 _,
            hl.congr (.refl _) (hface k) rfl rfl rfl rfl⟩
      · exact ⟨u, List.mem_of_getElem? (getElem?_set_ne_of_some hji hj),
          hl.frame (.refl _) (hface k)⟩
    · exact ⟨u, hu, hl.frame (.refl _) (hface k)⟩

/-- A new entry waits and has no run. -/
theorem submit (h : Agreement s) {tr : TeamRef} {w : Team.Work} (htr : tr ∈ s.teams)
    (hstate : w.snapshot.state = .waiting) (hb : Board ((s.team tr).work ++ [w])) :
    Agreement (s.setTeam tr { s.team tr with work := (s.team tr).work ++ [w] }) := by
  have hface : ∀ k,
    ((s.setTeam tr { s.team tr with work := (s.team tr).work ++ [w] }).team k).SameFace
      (s.team k) := by
    intro k
    rw [State.team_setTeam]
    split
    · next he => rw [he]; exact ⟨rfl, rfl⟩
    · exact .refl _
  refine ⟨fun k hk => ?_, fun k hk v hv hact => ?_, fun r hr hlive k hlink => ?_⟩
  · rw [State.team_setTeam]
    split
    · exact hb
    · exact h.boards k hk
  · have hold : v ∈ (s.team k).work := by
      rw [State.team_setTeam] at hv
      split at hv
      · next he =>
        subst he
        rcases List.mem_append.mp hv with hv | hv
        · exact hv
        · rw [List.mem_singleton.mp hv, hstate] at hact
          cases hact
      · exact hv
    obtain ⟨r, hr, hl⟩ := h.run k hk v hold hact
    exact ⟨r, hr, hl.frame (.refl _) (hface k)⟩
  · obtain ⟨hk, u, hu, hl⟩ := h.task r hr hlive k hlink
    refine ⟨hk, u, ?_, hl.frame (.refl _) (hface k)⟩
    rw [State.team_setTeam]
    split
    · next he => subst he; exact List.mem_append_left _ hu
    · exact hu

/-- A replaced team has no live run. -/
theorem found (h : Agreement s) (hreg : Registry s) (keep : TeamRef → Bool) {team : Team}
    (hgone : ∀ tr ∈ s.teams, keep tr = false → s.retirable tr = true) (hwork : team.work = []) :
    Agreement { s with
      teams := s.teams.filter keep ++ [s.teamHeap.next], teamHeap := s.teamHeap.alloc team } := by
  have hold : ∀ tr ∈ s.teams, (s.teamHeap.alloc team).get tr = s.team tr := fun tr htr =>
    Heap.get_alloc_of_lt _ (hreg.teams_lt tr htr) _
  generalize ht : ({ s with
    teams := s.teams.filter keep ++ [s.teamHeap.next], teamHeap := s.teamHeap.alloc team } :
      State) = t
  have hteam : ∀ tr ∈ s.teams, t.team tr = s.team tr :=
    fun tr htr => by rw [← ht]; exact hold tr htr
  have hnew : (t.team s.teamHeap.next).work = [] := by
    rw [← ht, ← hwork]
    exact congrArg Team.work (Heap.get_alloc_next _ _)
  have hjob : ∀ r, t.job r = s.job r := fun r => by rw [← ht]; rfl
  have hjobs : t.jobs = s.jobs := by rw [← ht]
  have hcases : ∀ tr ∈ t.teams, (tr ∈ s.teams ∧ keep tr = true) ∨ tr = s.teamHeap.next := by
    intro tr htr
    rw [← ht] at htr
    rcases List.mem_append.mp htr with htr | htr
    · exact .inl (List.mem_filter.mp htr)
    · exact .inr (List.mem_singleton.mp htr)
  have hframe : ∀ tr ∈ s.teams, ∀ w r, Linked s tr w r → Linked t tr w r := by
    intro tr htr w r hl
    refine hl.frame ?_ ?_
    · rw [hjob]
      exact .refl _
    · rw [hteam tr htr]
      exact .refl _
  refine ⟨fun tr htr => ?_, fun tr htr w hw hact => ?_, fun r hr hlive tr hlink => ?_⟩
  · rcases hcases tr htr with ⟨htr, -⟩ | rfl
    · rw [hteam tr htr]
      exact h.boards tr htr
    · rw [hnew]
      exact Board.empty
  · rcases hcases tr htr with ⟨htr, -⟩ | rfl
    · rw [hteam tr htr] at hw
      obtain ⟨r, hr, hl⟩ := h.run tr htr w hw hact
      exact ⟨r, hjobs ▸ hr, hframe tr htr w r hl⟩
    · rw [hnew] at hw
      cases hw
  · rw [hjobs] at hr
    rw [hjob] at hlive hlink
    obtain ⟨htr, w, hw, hl⟩ := h.task r hr hlive tr hlink
    refine ⟨?_, w, by rw [hteam tr htr]; exact hw, hframe tr htr w r hl⟩
    rw [← ht]
    refine List.mem_append_left _ (List.mem_filter.mpr ⟨htr, ?_⟩)
    by_contra hk
    have hret := hgone tr htr (Bool.eq_false_iff.mpr hk)
    simp only [State.retirable, Team.hasActiveWork, Bool.and_eq_true, Bool.not_eq_true',
      List.any_eq_false] at hret
    exact hret.2 w hw (by simp [(live_of_sameName hl.2.state).2])

/-- The scan turns a waiting entry into a queued run. -/
theorem dispatch (h : Agreement s) (hreg : Registry s) {tr : TeamRef} {i : Nat} {w : Team.Work}
    {member : Team.Member} {id : TurnId} (htr : tr ∈ s.teams)
    (hw : (s.team tr).work[i]? = some w) (hwait : w.snapshot.state = .waiting)
    (hready : (s.team tr).ready w.snapshot = true)
    (hidle : (s.team tr).hasActiveWork w.snapshot.member = false) :
    Agreement ((s.pushJob (teamJob s tr member w id)).setWork tr i
      (w.dispatch (formatTurnIdHex id))) := by
  have hb := h.boards tr htr
  have hmem : w ∈ (s.team tr).work := List.mem_of_getElem? hw
  have hrewrite : Rewrite (s.team tr).work w (w.dispatch (formatTurnIdHex id)) :=
    { key := rfl
      member := rfl
      dependsOn := rfl
      accepted := fun ha => by rw [hwait] at ha; cases ha
      gate := fun _ => .inr (hb.keyAccepted_of_ready hready)
      idle := fun _ => .inr fun v hv hvm => by
        have hno := List.any_eq_false.mp hidle v hv
        simpa [hvm] using hno
      attempt := hb.attempts w hmem }
  generalize ht : (s.pushJob (teamJob s tr member w id)).setWork tr i
    (w.dispatch (formatTurnIdHex id)) = t
  have hteams : t.teams = s.teams := by rw [← ht]; rfl
  have hold : ∀ r ∈ s.jobs, t.job r = s.job r := fun r hr => by
    rw [← ht]
    exact Heap.get_alloc_of_lt _ (hreg.jobs_lt r hr) _
  have hnew : t.job s.jobHeap.next = teamJob s tr member w id := by
    rw [← ht]
    exact Heap.get_alloc_next _ _
  have hjobs : t.jobs = s.jobs ++ [s.jobHeap.next] := by rw [← ht]; rfl
  have hteam : ∀ k, t.team k = if k = tr then
      { s.team tr with work := (s.team tr).work.set i (w.dispatch (formatTurnIdHex id)) }
        else s.team k := by
    intro k
    rw [← ht, State.team_setWork]
    rfl
  have hself : t.team tr =
      { s.team tr with work := (s.team tr).work.set i (w.dispatch (formatTurnIdHex id)) } := by
    rw [hteam, if_pos rfl]
  have hface : ∀ k, (t.team k).SameFace (s.team k) := by
    intro k
    rw [hteam]
    split
    · next he => rw [he]; exact ⟨rfl, rfl⟩
    · exact .refl _
  have hlinked : Linked t tr (w.dispatch (formatTurnIdHex id)) s.jobHeap.next := by
    refine ⟨by rw [hnew]; rfl, ?_⟩
    rw [hnew, hself]
    exact ⟨rfl, rfl, rfl, rfl, rfl, rfl⟩
  have hkeep : ∀ k v r, r ∈ s.jobs → Linked s k v r → Linked t k v r := by
    intro k v r hr hl
    refine hl.frame ?_ (hface k)
    rw [hold r hr]
    exact .refl _
  refine ⟨fun k hk => ?_, fun k hk v hv hact => ?_, fun r hr hlive k hlink => ?_⟩
  · rw [hteam]
    split
    · exact hb.set hw hrewrite
    · exact h.boards k (hteams ▸ hk)
  · rw [hjobs]
    have hnewcase : (k = tr ∧ v = w.dispatch (formatTurnIdHex id)) ∨ v ∈ (s.team k).work := by
      rw [hteam] at hv
      split at hv
      · next he =>
        obtain ⟨j, hj⟩ := List.getElem?_of_mem hv
        rcases getElem?_set_cases hw hj with ⟨-, hv⟩ | ⟨-, hvold⟩
        · exact .inl ⟨he, hv⟩
        · exact .inr (he ▸ List.mem_of_getElem? hvold)
      · exact .inr hv
    rcases hnewcase with ⟨rfl, rfl⟩ | hv
    · exact ⟨_, List.mem_append_right _ (List.mem_singleton.mpr rfl), hlinked⟩
    · obtain ⟨r, hr, hl⟩ := h.run k (hteams ▸ hk) v hv hact
      exact ⟨r, List.mem_append_left _ hr, hkeep k v r hr hl⟩
  · rw [hteams]
    rw [hjobs] at hr
    rcases List.mem_append.mp hr with hr | hr
    · rw [hold r hr] at hlive hlink
      obtain ⟨hk, v, hv, hl⟩ := h.task r hr hlive k hlink
      refine ⟨hk, v, ?_, hkeep k v r hr hl⟩
      rw [hteam]
      split
      · next he =>
        -- The dispatched entry was waiting, so it is not the entry of an older run.
        subst he
        obtain ⟨j, hj⟩ := List.getElem?_of_mem hv
        refine List.mem_of_getElem? (getElem?_set_ne_of_some (j := j) (fun hji => ?_) hj)
        subst hji
        obtain rfl := Option.some.inj (hw.symm.trans hj)
        have hact := (live_of_sameName hl.2.state).2
        rw [hwait] at hact
        cases hact
      · exact hv
    · rw [List.mem_singleton.mp hr] at hlink ⊢
      rw [hnew] at hlink
      obtain rfl : tr = k := Option.some.inj hlink
      refine ⟨htr, _, ?_, hlinked⟩
      rw [hself]
      exact List.mem_set (List.getElem?_eq_some_iff.mp hw).1 _

end Agreement

theorem reportedTask_ids (task : TeamTaskSnapshot) (job : Job) :
    (reportedTask task job).key = task.key ∧ (reportedTask task job).member = task.member ∧
      (reportedTask task job).dependsOn = task.dependsOn ∧
      (reportedTask task job).attempt = task.attempt ∧
        (reportedTask task job).runId = task.runId := by
  unfold reportedTask
  split <;> exact ⟨rfl, rfl, rfl, rfl, rfl⟩

/-- A live job's callback finds the one entry of its run, or the job has no team. -/
theorem settled_entry {s : State} (h : Agreement s) {r : JobRef} {shown : Job} (hr : r ∈ s.jobs)
    (hlive : taskTerminal (s.job r).snapshot.state = false) (hrun : shown.SameRun (s.job r)) :
    ((s.job r).team = none ∧ s.updateTeamJob shown = s) ∨
    ∃ tr i w members, tr ∈ s.teams ∧ (s.team tr).work[i]? = some w ∧ Linked s tr w r ∧
      members.map (·.snapshot.name) = (s.team tr).members.map (·.snapshot.name) ∧
      s.updateTeamJob shown = s.setTeam tr { s.team tr with
        members
        work := (s.team tr).work.set i { w with snapshot := reportedTask w.snapshot shown } } := by
  have htracks : ∀ v, shown.tracks v = (s.job r).tracks v := fun v => by
    simp only [Job.tracks, hrun.teamTaskKey, hrun.taskId, hrun.teamAttempt]
  rcases State.updateTeamJob_cases s shown with ⟨he, hnone⟩ | ⟨tr, i, w, members, hteam, hw,
    ht, hm, he⟩
  · refine .inl ⟨?_, he⟩
    cases hjt : (s.job r).team with
    | none => rfl
    | some tr =>
      obtain ⟨-, w, hw, hl⟩ := h.task r hr hlive tr hjt
      have hno := hnone tr (hrun.team.trans hjt) w hw
      rw [htracks, hl.tracks] at hno
      cases hno
  · obtain ⟨htr, v, hv, hl⟩ := h.task r hr hlive tr (hrun.team.symm.trans hteam)
    have hmem : w ∈ (s.team tr).work := List.mem_of_getElem? hw
    have hkey : v.snapshot.key = w.snapshot.key := by
      simp only [Job.tracks, Bool.and_eq_true, beq_iff_eq] at ht
      rw [← hl.2.key, ht.1.1, hrun.teamTaskKey]
    obtain rfl := (h.boards tr htr).entry_unique hv hmem hkey
    exact .inr ⟨tr, i, v, members, htr, hw, hl, hm, he⟩

/-- The entry a live job's callback writes is a rewrite of an active entry. -/
theorem reported_rewrite {work : List Team.Work} {w : Team.Work} (shown : Job) (hb : Board work)
    (hw : w ∈ work) (hact : teamTaskActive w.snapshot.state = true) :
    Rewrite work w { w with snapshot := reportedTask w.snapshot shown } := by
  obtain ⟨hkey, hmember, hdeps, hattempt, -⟩ := reportedTask_ids w.snapshot shown
  exact
    { key := hkey
      member := hmember
      dependsOn := hdeps
      accepted := fun ha => by rw [ha] at hact; cases hact
      gate := fun _ => .inl (TeamTaskState.pastGate_of_active hact)
      idle := fun _ => .inl hact
      attempt := hattempt ▸ hb.attempts w hw }

theorem Agreement.settle {G : Grant} {s : State} (h : Agreement s) (hreg : Registry s) {r : JobRef}
    {shown kept : Job} (hset : Settles G s r shown kept) : Agreement (s.settled r shown kept) := by
  have hr := hset.listed
  have hlive := live_of_next hset.change
  have hjob : ∀ k, k ≠ r → (s.settled r shown kept).job k = s.job k := fun k hk => by
    rw [State.job_settled, if_neg hk]
  have hself : (s.settled r shown kept).job r = kept := by rw [State.job_settled, if_pos rfl]
  have hkstate : kept.snapshot.state = shown.snapshot.state := by rw [hset.snapshot]
  rcases settled_entry h hr hlive hset.run with ⟨hnone, he⟩ | ⟨tr, i, w, members, htr, hw,
    hl, -, he⟩
  · -- A run without a team: no board refers to it.
    have hteam : ∀ k, (s.settled r shown kept).team k = s.team k := fun k => by
      rw [State.team_settled, he]
    have hframe : ∀ k v j, j ≠ r → Linked s k v j → Linked (s.settled r shown kept) k v j := by
      intro k v j hj hlk
      refine hlk.frame ?_ ?_
      · rw [hjob j hj]
        exact .refl _
      · rw [hteam]
        exact .refl _
    refine ⟨?_, ?_, ?_⟩
    · rw [State.settled_teams]
      intro k hk
      rw [hteam]
      exact h.boards k hk
    · rw [State.settled_teams, State.settled_jobs]
      intro k hk v hv hact
      rw [hteam] at hv
      obtain ⟨j, hj, hlk⟩ := h.run k hk v hv hact
      refine ⟨j, hj, hframe k v j (fun hjr => ?_) hlk⟩
      rw [hjr] at hlk
      cases hnone.symm.trans hlk.1
    · rw [State.settled_teams, State.settled_jobs]
      intro j hj hjlive k hlink
      by_cases hjr : j = r
      · subst hjr
        rw [hself, hset.kept_team, hset.run.team, hnone] at hlink
        split at hlink <;> cases hlink
      · rw [hjob j hjr] at hjlive hlink
        obtain ⟨hk, v, hv, hlk⟩ := h.task j hj hjlive k hlink
        exact ⟨hk, v, by rw [hteam]; exact hv, hframe k v j hjr hlk⟩
  · have hb := h.boards tr htr
    have hmem : w ∈ (s.team tr).work := List.mem_of_getElem? hw
    have hact := (live_of_sameName hl.2.state).2
    obtain ⟨hkey, -, -, hattempt, hrunId⟩ := reportedTask_ids w.snapshot shown
    have hteam : ∀ k, (s.settled r shown kept).team k = if k = tr then
        { s.team tr with
          members
          work := (s.team tr).work.set i { w with snapshot := reportedTask w.snapshot shown } }
        else s.team k := fun k => by
      rw [State.team_settled, he, State.team_setTeam]
    have hface : ∀ k, ((s.settled r shown kept).team k).SameFace (s.team k) := by
      intro k
      rw [hteam]
      split
      · next hk => rw [hk]; exact ⟨rfl, rfl⟩
      · exact .refl _
    have hframe : ∀ k v j, j ≠ r → Linked s k v j → Linked (s.settled r shown kept) k v j := by
      intro k v j hj hlk
      refine hlk.frame ?_ (hface k)
      rw [hjob j hj]
      exact .refl _
    -- The written entry and the kept record, while the run is live.
    have hlinked : taskTerminal shown.snapshot.state = false →
        Linked (s.settled r shown kept) tr { w with
          snapshot := reportedTask w.snapshot shown } r := by
      intro hshown
      refine ⟨?_, ?_⟩
      · rw [hself, hset.kept_team, hshown]
        exact hset.run.team.trans hl.1
      · rw [hself]
        exact
          { owner :=
              (hset.kept_owner.trans hset.run.owner).trans (hl.2.owner.trans (hface tr).owner.symm)
            teamId := by rw [hset.snapshot, hset.run.teamId, hl.2.teamId, (hface tr).id]
            key := by rw [hset.snapshot, hset.run.teamTaskKey, hl.2.key, hkey]
            attempt := by rw [hset.snapshot, hset.run.teamAttempt, hl.2.attempt, hattempt]
            run := by rw [hset.snapshot, hset.run.taskId, hl.2.run, hrunId]
            state := by
              rw [hkstate, reportedTask_state]
              exact sameName_boardState hshown }
    refine ⟨?_, ?_, ?_⟩
    · rw [State.settled_teams]
      intro k hk
      rw [hteam]
      split
      · exact hb.set hw (reported_rewrite shown hb hmem hact)
      · exact h.boards k hk
    · rw [State.settled_teams, State.settled_jobs]
      intro k hk v hv hvact
      rw [hteam] at hv
      split at hv
      · next hktr =>
        subst hktr
        obtain ⟨j, hj⟩ := List.getElem?_of_mem hv
        rcases getElem?_set_cases hw hj with ⟨-, rfl⟩ | ⟨hji, hvold⟩
        · rw [reportedTask_state] at hvact
          exact ⟨r, hr, hlinked (live_of_boardState_active hvact)⟩
        · obtain ⟨q, hq, hlq⟩ := h.run k hk v (List.mem_of_getElem? hvold) hvact
          refine ⟨q, hq, hframe k v q (fun hqr => hji ?_) hlq⟩
          rw [hqr] at hlq
          exact hb.index_unique hvold hw (hlq.2.key.symm.trans hl.2.key)
      · next hktr =>
        obtain ⟨q, hq, hlq⟩ := h.run k hk v hv hvact
        refine ⟨q, hq, hframe k v q (fun hqr => hktr ?_) hlq⟩
        rw [hqr] at hlq
        exact Option.some.inj (hlq.1.symm.trans hl.1)
    · rw [State.settled_teams, State.settled_jobs]
      intro j hj hjlive k hlink
      by_cases hjr : j = r
      · subst hjr
        rw [hself, hkstate] at hjlive
        rw [hself, hset.kept_team, hjlive] at hlink
        obtain rfl : tr = k := Option.some.inj ((hset.run.team.trans hl.1).symm.trans hlink)
        refine ⟨htr, _, ?_, hlinked hjlive⟩
        rw [hteam, if_pos rfl]
        exact List.mem_set (List.getElem?_eq_some_iff.mp hw).1 _
      · rw [hjob j hjr] at hjlive hlink
        obtain ⟨hk, v, hv, hlk⟩ := h.task j hj hjlive k hlink
        refine ⟨hk, v, ?_, hframe k v j hjr hlk⟩
        rw [hteam]
        split
        · next hktr =>
          -- Two listed runs of one entry would share their identity.
          subst hktr
          obtain ⟨q, hq⟩ := List.getElem?_of_mem hv
          refine List.mem_of_getElem? (getElem?_set_ne_of_some (j := q) (fun hqi => hjr ?_) hq)
          subst hqi
          obtain rfl := Option.some.inj (hw.symm.trans hq)
          exact hreg.ids j hj r hr (hlk.2.run.trans hl.2.run.symm)
        · exact hv

theorem agreement_move {G : Grant} {s t : State} (h : Agreement s) (hreg : Registry s)
    (hm : Move G s t) : Agreement t := by
  cases hm with
  | clock => exact h.frame rfl rfl (fun _ _ => .refl _) (fun _ _ => .refl _) fun _ _ => rfl
  | close => exact h.frame rfl rfl (fun _ _ => .refl _) (fun _ _ => .refl _) fun _ _ => rfl
  | reclaim keep gone => exact h.reclaim keep fun r hr hk => (gone r hr hk).1
  | acknowledge r => exact h.setJob r ⟨rfl, rfl, rfl, rfl, rfl, rfl, rfl⟩
  | flag r => exact h.setJob r ⟨rfl, rfl, rfl, rfl, rfl, rfl, rfl⟩
  | settle r shown kept hset => exact h.settle hreg hset
  | enqueue job hfresh hteam => exact h.pushJob hreg hteam
  | dispatch tr i w member id current entry waiting ready idle =>
    exact h.dispatch hreg current entry waiting ready idle
  | edit tr i w w' current entry hedit => exact h.edit current entry hedit
  | submit tr request turn grant current valid key member known =>
    refine h.submit current rfl
      ((h.boards tr current).push (fun w hw he => key w hw he) known rfl ?_ ?_)
    · exact (by decide : (1 : Nat) ≤ 3)
    · simp only [TeamCommand.valid, Bool.and_eq_true] at valid
      exact keyValid_ne_nil valid.1.1.1.2
  | stop tr => exact h.setTeam tr ⟨rfl, rfl⟩ rfl
  | join tr => exact h.setTeam tr ⟨rfl, rfl⟩ rfl
  | mail tr => exact h.setTeam tr ⟨rfl, rfl⟩ rfl
  | found keep team gone owner names work => exact h.found hreg keep gone work

/-- The lists and both records of every run are in order. -/
def Ledger (s : State) : Prop := Registry s ∧ Agreement s

theorem ledger_empty (svc : Service) : Ledger (State.empty svc) :=
    ⟨registry_empty svc, agreement_empty svc⟩

theorem ledger_move {G : Grant} {s t : State} (h : Ledger s) (hm : Move G s t) : Ledger t :=
  ⟨registry_move h.1 hm, agreement_move h.2 h.1 hm⟩

theorem ledger_reachable {svc : Service} {s : State} (h : State.Reachable svc s) : Ledger s :=
  run_invariant (r := Move .all) (I := Ledger) (fun _ _ => ledger_move) h.path (ledger_empty svc)

end Orangutan.Bootstrap
