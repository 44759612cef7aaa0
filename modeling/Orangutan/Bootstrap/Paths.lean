import Orangutan.Bootstrap.Moves

/-!
# Operations are runs of moves

One lemma for each function of the service. The callers of a function use its
lemma and never look inside it again.
-/

namespace Orangutan.Bootstrap

set_option autoImplicit false

open Orangutan.Core Orangutan.Lib Orangutan.Tool Relation

theorem markInitialized_names (team : Team) (name : Bytes) (succeeded : Bool) :
    (team.markInitialized name succeeded).map (·.snapshot.name) =
      team.members.map (·.snapshot.name) := by
  unfold Team.markInitialized
  cases h : findEntry (fun m => m.snapshot.name == name) team.members with
  | none => rfl
  | some e =>
    obtain ⟨i, m⟩ := e
    exact map_set_of_eq (findEntry_some h).1 rfl

namespace State

/-- A job-state callback changes nothing, or one entry that tracks the job. -/
theorem updateTeamJob_cases (s : State) (job : Job) :
    (s.updateTeamJob job = s ∧ ∀ tr, job.team = some tr →
      ∀ w ∈ (s.team tr).work, job.tracks w = false) ∨
    ∃ tr i w members, job.team = some tr ∧ (s.team tr).work[i]? = some w ∧ job.tracks w = true ∧
      members.map (·.snapshot.name) = (s.team tr).members.map (·.snapshot.name) ∧
      s.updateTeamJob job = s.setTeam tr { s.team tr with
        members
        work := (s.team tr).work.set i { w with snapshot := reportedTask w.snapshot job } } := by
  unfold updateTeamJob
  cases ht : job.team with
  | none => exact .inl ⟨rfl, fun tr h => by cases h⟩
  | some tr =>
    cases he : findEntry job.tracks (s.team tr).work with
    | none =>
      refine .inl ⟨by simp only [he], fun tr' h => ?_⟩
      obtain rfl := Option.some.inj h
      exact findEntry_none he
    | some e =>
      obtain ⟨i, w⟩ := e
      obtain ⟨hw, htr⟩ := findEntry_some he
      refine .inr ⟨tr, i, w, _, rfl, hw, htr, ?_, by simp only [he]; rfl⟩
      split
      · exact markInitialized_names _ _ _
      · rfl

/-- A job-state callback writes the team heap only. -/
theorem updateTeamJob_heap (s : State) (job : Job) :
    ∃ heap, s.updateTeamJob job = { s with teamHeap := heap } := by
  rcases updateTeamJob_cases s job with ⟨h, -⟩ | ⟨tr, i, w, members, -, -, -, -, h⟩
  · exact ⟨s.teamHeap, h⟩
  · exact ⟨_, h⟩

section Frame

variable (s : State) (job : Job) (r : JobRef)

@[simp] theorem updateTeamJob_jobs : (s.updateTeamJob job).jobs = s.jobs := by
  obtain ⟨heap, h⟩ := updateTeamJob_heap s job; rw [h]

@[simp] theorem updateTeamJob_jobHeap : (s.updateTeamJob job).jobHeap = s.jobHeap := by
  obtain ⟨heap, h⟩ := updateTeamJob_heap s job; rw [h]

@[simp] theorem updateTeamJob_teams : (s.updateTeamJob job).teams = s.teams := by
  obtain ⟨heap, h⟩ := updateTeamJob_heap s job; rw [h]

@[simp] theorem updateTeamJob_active : (s.updateTeamJob job).active = s.active := by
  obtain ⟨heap, h⟩ := updateTeamJob_heap s job; rw [h]

@[simp] theorem updateTeamJob_closed : (s.updateTeamJob job).closed = s.closed := by
  obtain ⟨heap, h⟩ := updateTeamJob_heap s job; rw [h]

@[simp] theorem updateTeamJob_svc : (s.updateTeamJob job).svc = s.svc := by
  obtain ⟨heap, h⟩ := updateTeamJob_heap s job; rw [h]

@[simp] theorem updateTeamJob_posted : (s.updateTeamJob job).posted = s.posted := by
  obtain ⟨heap, h⟩ := updateTeamJob_heap s job; rw [h]

@[simp] theorem job_updateTeamJob (k : JobRef) : (s.updateTeamJob job).job k = s.job k := by
  unfold State.job; rw [updateTeamJob_jobHeap]

@[simp] theorem publish_jobs : (s.publish r job).jobs = s.jobs := by simp [publish]
@[simp] theorem publish_teams : (s.publish r job).teams = s.teams := by simp [publish]
@[simp] theorem publish_active : (s.publish r job).active = s.active := by simp [publish]
@[simp] theorem publish_closed : (s.publish r job).closed = s.closed := by simp [publish]
@[simp] theorem publish_svc : (s.publish r job).svc = s.svc := by simp [publish]
@[simp] theorem publish_posted : (s.publish r job).posted = s.posted := by simp [publish]
@[simp] theorem job_publish_self : (s.publish r job).job r = job := by simp [publish]

theorem job_publish_ne {k : JobRef} (h : k ≠ r) : (s.publish r job).job k = s.job k := by
  simp [publish, h]

end Frame

variable {G : Grant}

theorem path_read (s : State) : Path G s s.read :=
  .single (.clock _ _ _ fun h => absurd h (Nat.lt_irrefl _))

theorem path_prune (s : State) : Path G s s.prune := by
  refine (path_read s).tail (.reclaim _ fun r hr hk => ?_)
  simp only [Bool.not_eq_eq_eq_not, Bool.not_false, expired, Bool.and_eq_true] at hk
  refine ⟨hk.1.1.1, by simpa using hk.1.1.2, fun ha => ?_⟩
  have hack := hk.1.2
  rw [show s.options.automaticDelivery = true from ha] at hack
  simpa using hack

@[simp] theorem prune_teams (s : State) : s.prune.teams = s.teams := rfl
@[simp] theorem prune_svc (s : State) : s.prune.svc = s.svc := rfl
@[simp] theorem prune_closed (s : State) : s.prune.closed = s.closed := rfl
@[simp] theorem prune_active (s : State) : s.prune.active = s.active := rfl
@[simp] theorem prune_posted (s : State) : s.prune.posted = s.posted := rfl
@[simp] theorem team_prune (s : State) (k : TeamRef) : s.prune.team k = s.team k := rfl
@[simp] theorem job_prune (s : State) (k : JobRef) : s.prune.job k = s.job k := rfl

/-- A settled job without change of the record it shows is one move. -/
theorem path_settle {s : State} {r : JobRef} {shown : Job} (h : Settles G s r shown shown) :
    Path G s { s.publish r shown with
      active := s.active + shown.snapshot.state.occupies.toNat -
        (s.job r).snapshot.state.occupies.toNat } := by
  have hm := Move.settle r shown shown h
  unfold settled at hm
  have he : (s.publish r shown).setJob r shown = s.publish r shown := by
    have hs := setJob_self (s.publish r shown) r
    rwa [job_publish_self] at hs
  rw [he] at hm
  exact .single hm

/-- A terminal or cancelling job is at most acknowledged, a queued one is closed,
a running one is asked to stop. -/
theorem cancelJob_cases (s : State) (r : JobRef) (timeout : Bool) :
    ((taskTerminal (s.job r).snapshot.state = true ∨ (s.job r).snapshot.state = .cancelling) ∧
      s.cancelJob r timeout = if timeout then s else s.setJob r (s.job r).acknowledge) ∨
    ((s.job r).snapshot.state = .queued ∧ ∃ shown : Job,
      shown = ((s.job r).mark timeout).settle (if timeout then .failed else .cancelled)
        (some (if timeout then .timeout else .cancelled)) (s.svc.env.steadyNow s.tick) ∧
      s.cancelJob r timeout = (s.read.publish r shown).setJob r shown.release) ∨
    ((s.job r).snapshot.state = .running ∧
      s.cancelJob r timeout = s.publish r (((s.job r).mark timeout).setState .cancelling)) := by
  unfold cancelJob
  cases hs : (s.job r).snapshot.state <;> simp [taskTerminal, hs]

theorem cancelJob_jobs (s : State) (r : JobRef) (timeout : Bool) :
    (s.cancelJob r timeout).jobs = s.jobs := by
  rcases cancelJob_cases s r timeout with ⟨-, h⟩ | ⟨-, shown, -, h⟩ | ⟨-, h⟩ <;> rw [h]
  · split <;> rfl
  · simp
  · simp

theorem cancelJob_teams (s : State) (r : JobRef) (timeout : Bool) :
    (s.cancelJob r timeout).teams = s.teams := by
  rcases cancelJob_cases s r timeout with ⟨-, h⟩ | ⟨-, shown, -, h⟩ | ⟨-, h⟩ <;> rw [h]
  · split <;> rfl
  · simp
  · simp

/-- An explicit cancel acknowledges; a deadline does not. -/
theorem mark_sameRun (job : Job) (timeout : Bool) : (job.mark timeout).SameRun job := by
  cases timeout <;> constructor <;> rfl

theorem mark_acknowledged {job : Job} {timeout : Bool} (hP : timeout = false → G.cancels job) :
    (job.mark timeout).snapshot.acknowledged = job.snapshot.acknowledged ∨ G.cancels job := by
  cases timeout with
  | true => exact .inl rfl
  | false => exact .inr (hP rfl)

theorem mark_monotone {job : Job} {timeout : Bool} (h : job.snapshot.acknowledged = true) :
    (job.mark timeout).snapshot.acknowledged = true := by
  cases timeout with
  | true => exact h
  | false => rfl

theorem path_cancelJob {s : State} {r : JobRef} {timeout : Bool} (hr : r ∈ s.jobs)
    (hP : timeout = false → G.cancels (s.job r)) : Path G s (s.cancelJob r timeout) := by
  have hrun := mark_sameRun (s.job r) timeout
  rcases cancelJob_cases s r timeout with ⟨-, h⟩ | ⟨hq, shown, hshown, h⟩ | ⟨hrunning, h⟩ <;> rw [h]
  · cases timeout with
    | true => exact .refl
    | false => exact .single (.acknowledge r hr (hP rfl))
  · have hstate : shown.snapshot.state = if timeout then .failed else .cancelled := by
      rw [hshown]; rfl
    have hset : Settles G s.read r shown shown.release :=
      { listed := hr
        run := by
          rw [hshown]; exact ⟨hrun.1, hrun.2, hrun.3, hrun.4, hrun.5, hrun.6, hrun.7,
            hrun.8, hrun.9⟩
        change := by rw [hstate, job_read, hq]; cases timeout <;> rfl
        acknowledged := by rw [hshown]; exact mark_acknowledged hP
        monotone := fun ha => by rw [hshown]; exact mark_monotone ha
        snapshot := rfl
        kept_owner := rfl
        kept_parentTurn := rfl
        kept_claimed := rfl
        kept_team := by rw [hstate]; cases timeout <;> rfl
        slot := fun hr => by rw [hstate] at hr; cases timeout <;> cases hr
        frees := fun ho => by rw [job_read, hq] at ho; cases ho }
    have hm := Move.settle r shown shown.release hset
    unfold settled at hm
    have hslots : s.read.active + shown.snapshot.state.occupies.toNat -
        (s.read.job r).snapshot.state.occupies.toNat =
        ((s.read.publish r shown).setJob r shown.release).active := by
      rw [hstate, job_read, hq]
      cases timeout <;> simp [TaskState.occupies]
    rw [hslots] at hm
    exact (path_read s).tail hm
  · have hset : Settles G s r (((s.job r).mark timeout).setState .cancelling)
        (((s.job r).mark timeout).setState .cancelling) :=
      { listed := hr
        run := ⟨hrun.1, hrun.2, hrun.3, hrun.4, hrun.5, hrun.6, hrun.7, hrun.8, hrun.9⟩
        change := by rw [hrunning]; rfl
        acknowledged := mark_acknowledged hP
        monotone := mark_monotone
        snapshot := rfl
        kept_owner := rfl
        kept_parentTurn := rfl
        kept_claimed := rfl
        kept_team := rfl
        slot := fun h => by cases h
        frees := fun _ hf => by cases hf }
    have hp := path_settle hset
    have hslots : s.active +
      (((s.job r).mark timeout).setState .cancelling).snapshot.state.occupies.toNat -
        (s.job r).snapshot.state.occupies.toNat =
        (s.publish r (((s.job r).mark timeout).setState .cancelling)).active := by
      rw [hrunning]
      simp [TaskState.occupies, Job.setState]
    rwa [hslots] at hp

/-- A refused admission only prunes. -/
theorem enqueue_cases (s : State) (job : Job) :
    (∃ e, s.enqueue job = (.error e, s.prune)) ∨
    (s.enqueue job = (.ok (), s.prune.pushJob job) ∧
      s.prune.hasCapacity job.team.isSome = true ∧ s.prune.FreshId job.snapshot.taskId) := by
  unfold enqueue
  dsimp only
  split
  · exact .inl ⟨_, rfl⟩
  · next hroom =>
    split
    · exact .inl ⟨_, rfl⟩
    · next hany =>
      refine .inr ⟨rfl, by simpa using hroom, fun r hr => ?_⟩
      have hne := List.any_eq_false.mp (Bool.eq_false_iff.mpr hany) r hr
      simpa using hne

theorem enqueue_teams (s : State) (job : Job) : (s.enqueue job).2.teams = s.teams := by
  rcases enqueue_cases s job with ⟨e, h⟩ | ⟨h, -⟩ <;> rw [h] <;> rfl

/-- The four ways the scan leaves a board entry. -/
inductive Scanned (s : State) (tr : TeamRef) (i : Nat) : Bool × State → Prop
  | skipped
      (h : ∀ w, (s.team tr).work[i]? = some w → w.snapshot.state = .waiting →
        (s.team tr).ready w.snapshot = true →
        (∀ m ∈ (s.team tr).members, m.snapshot.name ≠ w.snapshot.member) ∨
          (s.team tr).hasActiveWork w.snapshot.member = true) :
      Scanned s tr i (false, s)
  | full (w : Team.Work) (entry : (s.team tr).work[i]? = some w)
      (waiting : w.snapshot.state = .waiting) (room : s.prune.hasCapacity true = false) :
        Scanned s tr i (true, s.prune)
  | failed (w : Team.Work) (kind : ErrorKind) (t : State) (entry : (s.team tr).work[i]? = some w)
      (waiting : w.snapshot.state = .waiting)
      (ht : t = s.prune.read ∨ t = s.prune.read.prune) :
      Scanned s tr i (false, t.setWork tr i (w.fail kind))
  | dispatched (w : Team.Work) (member : Team.Member) (id : TurnId)
      (entry : (s.team tr).work[i]? = some w) (waiting : w.snapshot.state = .waiting)
      (ready : (s.team tr).ready w.snapshot = true)
      (idle : (s.team tr).hasActiveWork w.snapshot.member = false)
      (room : s.prune.read.prune.hasCapacity true = true)
      (fresh : s.prune.read.prune.FreshId (formatTurnIdHex id)) :
      Scanned s tr i (false,
        (s.prune.read.prune.pushJob (teamJob s.prune tr member w id)).setWork tr i
        (w.dispatch (formatTurnIdHex id)))

theorem pumpWork_scanned (s : State) (tr : TeamRef) (i : Nat) :
    Scanned s tr i (s.pumpWork tr i) := by
  unfold pumpWork
  cases hw : (s.team tr).work[i]? with
  | none => exact .skipped fun w h => by rw [hw] at h; cases h
  | some w =>
    dsimp only
    split
    · next hwait =>
      refine .skipped fun w' h hs => ?_
      obtain rfl := Option.some.inj (hw.symm.trans h)
      simp [hs] at hwait
    next hwait =>
    split
    · next hready =>
      refine .skipped fun w' h _ hr => ?_
      obtain rfl := Option.some.inj (hw.symm.trans h)
      simp [hr] at hready
    next hready =>
    cases hm : (s.team tr).members.find? fun m => m.snapshot.name == w.snapshot.member with
    | none =>
      refine .skipped fun w' h _ _ => .inl fun m hmem => ?_
      obtain rfl := Option.some.inj (hw.symm.trans h)
      simpa using List.find?_eq_none.mp hm m hmem
    | some member =>
      dsimp only
      split
      · next hbusy =>
        refine .skipped fun w' h _ _ => .inr ?_
        obtain rfl := Option.some.inj (hw.symm.trans h)
        exact hbusy
      next hidle =>
      simp only [bne_iff_ne, ne_eq, Decidable.not_not] at hwait
      split
      · next hroom => exact .full w hw hwait (by simpa using hroom)
      cases hid : s.prune.svc.env.turnId s.prune.tick with
      | error e => exact .failed w e.kind _ hw hwait (.inl rfl)
      | ok id =>
        dsimp only
        rcases enqueue_cases s.prune.read (teamJob s.prune tr member w id) with
          ⟨e, he⟩ | ⟨he, hcap, hfresh⟩
        · rw [he]
          exact .failed w e.kind _ hw hwait (.inr rfl)
        · rw [he]
          exact .dispatched w member id hw hwait (by simpa using hready)
            (by simpa using hidle) hcap hfresh

theorem path_pumpWork {s : State} {tr : TeamRef} (i : Nat) (htr : tr ∈ s.teams) :
    Path G s (s.pumpWork tr i).2 := by
  have hread : Path G s s.prune.read := (path_prune s).trans (path_read _)
  have h := pumpWork_scanned s tr i
  generalize s.pumpWork tr i = out at h
  cases h with
  | skipped => exact .refl
  | full => exact path_prune s
  | failed w kind t entry waiting ht =>
    rcases ht with rfl | rfl
    · exact hread.tail (.edit tr i w _ htr entry (.fail kind waiting))
    · exact (hread.trans (path_prune _)).tail (.edit tr i w _ htr entry (.fail kind waiting))
  | dispatched w member id entry waiting ready idle room fresh =>
    exact (hread.trans (path_prune _)).tail
      (.dispatch tr i w member id htr entry waiting ready idle room fresh)

theorem pumpWork_teams (s : State) (tr : TeamRef) (i : Nat) :
    (s.pumpWork tr i).2.teams = s.teams := by
  have h := pumpWork_scanned s tr i
  generalize s.pumpWork tr i = out at h
  cases h with
  | skipped => rfl
  | full => rfl
  | failed w kind t entry waiting ht => rcases ht with rfl | rfl <;> rfl
  | dispatched => rfl

theorem pumpBoard_teams (tr : TeamRef) (l : List Nat) (s : State) :
    (pumpBoard tr l s).2.teams = s.teams := by
  induction l generalizing s with
  | nil => rfl
  | cons i rest ih =>
    have hi := pumpWork_teams s tr i
    unfold pumpBoard
    split
    · next hq => rw [hq] at hi; exact hi
    · next hq => rw [hq] at hi; rw [ih]; exact hi

theorem path_pumpBoard {tr : TeamRef} (l : List Nat) {s : State} (htr : tr ∈ s.teams) :
    Path G s (pumpBoard tr l s).2 := by
  induction l generalizing s with
  | nil => exact .refl
  | cons i rest ih =>
    have hp := path_pumpWork (G := G) i htr
    have ht := pumpWork_teams s tr i
    unfold pumpBoard
    split
    · next hq => rw [hq] at hp; exact hp
    · next hq =>
      rw [hq] at hp ht
      exact hp.trans (ih (ht ▸ htr))

theorem path_pumpBoards (l : List TeamRef) {s : State} (hl : ∀ tr ∈ l, tr ∈ s.teams) :
    Path G s (pumpBoards l s) := by
  induction l generalizing s with
  | nil => exact .refl
  | cons tr rest ih =>
    have hp := path_pumpBoard (G := G) (List.range (s.team tr).work.length)
      (hl tr List.mem_cons_self)
    have ht := pumpBoard_teams tr (List.range (s.team tr).work.length) s
    have hrest : ∀ k ∈ rest, k ∈ s.teams := fun k hk => hl k (List.mem_cons_of_mem tr hk)
    unfold pumpBoards
    split_ifs
    · exact ih hrest
    · split
      · next hq => rw [hq] at hp; exact hp
      · next hq =>
        rw [hq] at hp ht
        exact hp.trans (ih fun k hk => ht ▸ hrest k hk)

theorem path_pumpTeams (s : State) : Path G s s.pumpTeams := by
  unfold pumpTeams
  split_ifs
  · exact .refl
  · exact path_pumpBoards s.teams fun tr htr => htr

theorem path_launch {s : State} {r : JobRef} (hr : r ∈ s.jobs)
    (hq : (s.job r).snapshot.state = .queued) (hslot : s.active < s.options.maxRunning) :
    Path G s (s.launch r) := by
  have hset : Settles G s r ((s.job r).setState .running) ((s.job r).setState .running) :=
    { listed := hr
      run := ⟨rfl, rfl, rfl, rfl, rfl, rfl, rfl, rfl, rfl⟩
      change := by rw [hq]; rfl
      acknowledged := .inl rfl
      monotone := fun h => h
      snapshot := rfl
      kept_owner := rfl
      kept_parentTurn := rfl
      kept_claimed := rfl
      kept_team := rfl
      slot := fun _ => hslot
      frees := fun _ hf => by cases hf }
  have hp := path_settle hset
  have hslots : s.active + ((s.job r).setState .running).snapshot.state.occupies.toNat -
      (s.job r).snapshot.state.occupies.toNat =
      (s.publish r ((s.job r).setState .running)).active + 1 := by
    rw [hq]
    simp [TaskState.occupies, Job.setState]
  rwa [hslots] at hp

theorem launch_jobs (s : State) (r : JobRef) : (s.launch r).jobs = s.jobs := by simp [launch]

/-- The group bounds of the pump are positive, so its creation branch never fails. -/
theorem pumpJobs_cons (r : JobRef) (rest : List JobRef) (s : State) :
    pumpJobs (r :: rest) s =
      if s.options.maxRunning ≤ s.active then s
      else if (s.job r).snapshot.state != .queued then pumpJobs rest s
      else pumpJobs rest (s.launch r) := rfl

theorem path_pumpJobs (l : List JobRef) {s : State} (hl : ∀ r ∈ l, r ∈ s.jobs) :
    Path G s (pumpJobs l s) := by
  induction l generalizing s with
  | nil => exact .refl
  | cons r rest ih =>
    have hrest : ∀ k ∈ rest, k ∈ s.jobs := fun k hk => hl k (List.mem_cons_of_mem r hk)
    rw [pumpJobs_cons]
    split_ifs with hfull hq
    · exact .refl
    · exact ih hrest
    · simp only [bne_iff_ne, ne_eq, Decidable.not_not] at hq
      refine (path_launch (hl r List.mem_cons_self) hq (by omega)).trans (ih fun k hk => ?_)
      rw [launch_jobs]
      exact hrest k hk

theorem path_pump (s : State) : Path G s s.pump := by
  unfold pump
  split_ifs
  · exact .refl
  · exact (path_pumpTeams s).trans (path_pumpJobs _ fun r hr => hr)

/-- A joined child leaves the record of the same run in a terminal state. -/
theorem concludedJob_spec (s : State) {job : Job} (joined : Bool)
    (outcome : Option (Except ErrorKind Bytes))
    (hrun : job.snapshot.state = .running ∨ job.snapshot.state = .cancelling) :
    (s.concludedJob job joined outcome).SameRun job ∧
    job.snapshot.state.next (s.concludedJob job joined outcome).snapshot.state = true ∧
    taskTerminal (s.concludedJob job joined outcome).snapshot.state = true ∧
    (s.concludedJob job joined outcome).snapshot.acknowledged = job.snapshot.acknowledged := by
  unfold concludedJob
  rcases hrun with h | h
  · have hne : (job.snapshot.state == .cancelling) = false := by rw [h]; rfl
    rw [if_neg (by simp [hne]), h]
    split
    · exact ⟨⟨rfl, rfl, rfl, rfl, rfl, rfl, rfl, rfl, rfl⟩, rfl, rfl, rfl⟩
    · next kind =>
      refine ⟨⟨rfl, rfl, rfl, rfl, rfl, rfl, rfl, rfl, rfl⟩, ?_, ?_, rfl⟩ <;>
        · dsimp only
          split <;> rfl
    · exact ⟨⟨rfl, rfl, rfl, rfl, rfl, rfl, rfl, rfl, rfl⟩, rfl, rfl, rfl⟩
  · have heq : (job.snapshot.state == .cancelling) = true := by rw [h]; rfl
    rw [if_pos heq, h]
    cases job.timedOut <;> exact ⟨⟨rfl, rfl, rfl, rfl, rfl, rfl, rfl, rfl, rfl⟩, rfl, rfl, rfl⟩

theorem occupies_of_terminal {state : TaskState} (h : taskTerminal state = true) :
    state.occupies = false := by
  cases state <;> first | rfl | cases h

theorem path_monitor {s : State} {r : JobRef} (joined : Bool)
    (outcome : Option (Except ErrorKind Bytes)) (hG : G.advances) (hends : G.ends r)
    (hr : r ∈ s.jobs)
    (hrun : (s.job r).snapshot.state = .running ∨ (s.job r).snapshot.state = .cancelling) :
    Path G s (s.monitor r joined outcome) := by
  obtain ⟨hsame, hnext, hterm, hack⟩ := concludedJob_spec s joined outcome hrun
  unfold monitor
  dsimp only
  generalize hjob : (s.concludedJob (s.job r) joined outcome).stamp (s.svc.env.steadyNow s.tick) =
    job
  have hstate : job.snapshot.state = (s.concludedJob (s.job r) joined outcome).snapshot.state := by
    rw [← hjob]; rfl
  have hset : Settles G s.read r job job.detach :=
    { listed := hr
      run := by
        rw [← hjob]
        exact ⟨hsame.1, hsame.2, hsame.3, hsame.4, hsame.5, hsame.6, hsame.7, hsame.8, hsame.9⟩
      change := by rw [hstate]; exact hnext
      acknowledged := by rw [← hjob]; exact .inl hack
      monotone := fun h => by rw [← hjob]; exact hack.trans h
      snapshot := rfl
      kept_owner := rfl
      kept_parentTurn := rfl
      kept_claimed := rfl
      kept_team := by rw [hstate, hterm]; rfl
      slot := fun h => by rw [← hstate, h] at hterm; cases hterm
      frees := fun _ _ => ⟨hG, hends⟩ }
  have hocc : (s.read.job r).snapshot.state.occupies.toNat = 1 := by
    rcases hrun with h | h <;> rw [job_read, h] <;> rfl
  have hm := Move.settle r job job.detach hset
  unfold settled at hm
  rw [hocc, hstate, occupies_of_terminal hterm] at hm
  generalize hu : (s.read.publish r job).setJob r job.detach = u at hm
  have hact : u.active = s.read.active := by rw [← hu]; simp
  refine ((path_read s).tail hm).tail ?_
  rw [hact]
  exact .clock u.tick (u.posted + 1) u.joining fun _ => hG

end State

end Orangutan.Bootstrap
