import Orangutan.Bootstrap.Exchange
import Orangutan.Bootstrap.Reservation
import Orangutan.Bootstrap.Writes

/-!
# The closed service

Once the service is closed no move admits a job or readies a task, and the two closing operations
leave every job on its way to an end and every board settled.
-/

namespace Orangutan.Bootstrap

set_option autoImplicit false

open Orangutan.Core Orangutan.Lib Orangutan.Tool Relation

/-- Neither waiting for a slot nor running freely. -/
def TaskState.Halted (state : TaskState) : Prop := state ≠ .queued ∧ state ≠ .running

/-- A stopped board without waiting work and without a report to review. -/
structure Team.Closed (team : Team) : Prop where
  stopped : team.stopped = true
  work : ∀ w ∈ team.work, w.snapshot.state ≠ .waiting ∧ w.snapshot.state ≠ .inReview

theorem open_of_record {s : State} {reserved : Bool} (h : s.hasRecordCapacity reserved = true) :
    s.closed = false := by
  unfold State.hasRecordCapacity at h
  simp only [Bool.and_eq_true, Bool.not_eq_true'] at h
  exact h.1

theorem open_of_capacity {s : State} {reserved : Bool} (h : s.hasCapacity reserved = true) :
    s.closed = false := by
  unfold State.hasCapacity at h
  rw [Bool.and_eq_true] at h
  exact open_of_record h.1

theorem next_cancelling {state : TaskState} (h : TaskState.next .cancelling state = true) :
    state = .failed ∨ state = .cancelled := by
  cases state <;> simp [TaskState.next] at h ⊢

theorem next_queued {state : TaskState} : state.next .queued = false := by cases state <;> rfl

theorem work_setTeam {s : State} {k : TeamRef} {team : Team} (h : team.work = (s.team k).work)
    (tr : TeamRef) :
    ((s.setTeam k team).team tr).work = (s.team tr).work := by
  rw [State.team_setTeam]
  split
  · next he => rw [he, h]
  · rfl

section Moves

variable {G : Grant} {s t : State}

theorem closed_move (hm : Move G s t) (hclosed : s.closed = true) : t.closed = true := by
  cases hm with
  | settle r shown kept => simpa [State.settled] using hclosed
  | close => rfl
  | _ => exact hclosed

/-- Among halted jobs only a cancelled run is left to settle. -/
theorem end_of_settles {r : JobRef} {shown kept : Job}
    (h : ∀ r ∈ s.jobs, (s.job r).snapshot.state.Halted) (hset : Settles G s r shown kept) :
    (s.job r).snapshot.state = .cancelling ∧
      (shown.snapshot.state = .failed ∨ shown.snapshot.state = .cancelled) := by
  have hhalted := h r hset.listed
  have hlive := live_of_next hset.change
  have hold : (s.job r).snapshot.state = .cancelling := by
    cases hstate : (s.job r).snapshot.state with
    | queued => exact absurd hstate hhalted.1
    | running => exact absurd hstate hhalted.2
    | cancelling => rfl
    | _ => rw [hstate] at hlive; cases hlive
  have hchange := hset.change
  rw [hold] at hchange
  exact ⟨hold, next_cancelling hchange⟩

/-- A halted job of a closed service can only come to its end, and none is added. -/
theorem halted_move (hm : Move G s t) (hclosed : s.closed = true)
    (h : ∀ r ∈ s.jobs, (s.job r).snapshot.state.Halted) :
    (∀ r ∈ t.jobs, (t.job r).snapshot.state.Halted) ∧ (∀ r ∈ t.jobs, r ∈ s.jobs) ∧
      t.active ≤ s.active := by
  cases hm with
  | settle r shown kept hset =>
    obtain ⟨hold, hend⟩ := end_of_settles h hset
    refine ⟨fun k hk => ?_, fun k hk => State.settled_jobs s r shown kept ▸ hk, ?_⟩
    · rw [State.settled_jobs] at hk
      rw [State.job_settled]
      split
      · rw [hset.snapshot]
        rcases hend with hend | hend <;> rw [hend] <;> exact ⟨by decide, by decide⟩
      · exact h k hk
    · have hactive : (s.settled r shown kept).active =
          s.active + shown.snapshot.state.occupies.toNat -
            (s.job r).snapshot.state.occupies.toNat := rfl
      rw [hactive, hold]
      rcases hend with hend | hend <;> rw [hend] <;> simp [TaskState.occupies]
  | reclaim keep =>
    exact ⟨fun r hr => h r (List.mem_filter.mp hr).1, fun r hr => (List.mem_filter.mp hr).1,
      le_refl _⟩
  | acknowledge r =>
    refine ⟨fun k hk => ?_, fun k hk => hk, le_refl _⟩
    rw [State.job_setJob]
    split
    · next he => rw [← he]; exact h k hk
    · exact h k hk
  | flag r =>
    refine ⟨fun k hk => ?_, fun k hk => hk, le_refl _⟩
    rw [State.job_setJob]
    split
    · next he => rw [← he]; exact h k hk
    · exact h k hk
  | enqueue job _ _ room => rw [open_of_capacity room] at hclosed; cases hclosed
  | dispatch tr i w member id _ _ _ _ _ room => rw [open_of_capacity room] at hclosed; cases hclosed
  | _ => exact ⟨h, fun _ hr => hr, le_refl _⟩

/-- No entry of a closed service becomes queued. -/
theorem queued_move (hm : Move G s t) (hclosed : s.closed = true) (tr : TeamRef) (i : Nat)
    {w' : Team.Work} (hw' : (t.team tr).work[i]? = some w')
    (hqueued : w'.snapshot.state = .queued) :
    ∃ w, (s.team tr).work[i]? = some w ∧ w.snapshot.state = .queued := by
  cases hm with
  | settle r shown kept hset =>
    rw [State.team_settled] at hw'
    rcases State.updateTeamJob_cases s shown with ⟨he, -⟩ | ⟨k, j, v, members, -, hv, -, -, he⟩ <;>
      rw [he] at hw'
    · exact ⟨w', hw', hqueued⟩
    · rw [State.team_setTeam] at hw'
      split at hw'
      · next hk =>
        subst hk
        rcases getElem?_set_cases hv hw' with ⟨-, rfl⟩ | ⟨-, hold⟩
        · have hshown : shown.snapshot.state = .queued := by
            have hstate := reportedTask_state v.snapshot shown
            rw [hqueued] at hstate
            cases hs : shown.snapshot.state <;> rw [hs] at hstate <;> first | rfl | cases hstate
          have hchange := hset.change
          rw [hshown, next_queued] at hchange
          cases hchange
        · exact ⟨w', hold, hqueued⟩
      · exact ⟨w', hw', hqueued⟩
  | dispatch k j w member id _ _ _ _ _ room => rw [open_of_capacity room] at hclosed; cases hclosed
  | edit k j w v current entry hedit =>
    rw [State.team_setWork] at hw'
    split at hw'
    · next hk =>
      subst hk
      rcases getElem?_set_cases entry hw' with ⟨rfl, rfl⟩ | ⟨-, hold⟩
      · cases hedit with
        | note feedback => exact ⟨w, entry, hqueued⟩
        | _ => cases hqueued
      · exact ⟨w', hold, hqueued⟩
    · exact ⟨w', hw', hqueued⟩
  | submit k request turn _ _ _ _ _ _ room => rw [open_of_record room] at hclosed; cases hclosed
  | stop k =>
    rw [work_setTeam (by rfl)] at hw'
    exact ⟨w', hw', hqueued⟩
  | join k =>
    rw [work_setTeam (by rfl)] at hw'
    exact ⟨w', hw', hqueued⟩
  | mail k =>
    rw [work_setTeam (by rfl)] at hw'
    exact ⟨w', hw', hqueued⟩
  | found keep team _ _ _ work =>
    have hteam : ({ s with
        teams := s.teams.filter keep ++ [s.teamHeap.next], teamHeap := s.teamHeap.alloc team } :
        State).team tr = if tr = s.teamHeap.next then team else s.team tr := by
      simp only [State.team, Heap.get, Heap.alloc, Function.update_apply]
    rw [hteam] at hw'
    split at hw'
    · rw [work] at hw'
      cases hw'
    · exact ⟨w', hw', hqueued⟩
  | _ => exact ⟨w', hw', hqueued⟩

theorem teamHeap_next_path (hp : Path G s t) : s.teamHeap.next ≤ t.teamHeap.next :=
  run_relates (r := Move G) (I := fun _ => True) (Q := fun a b => a.teamHeap.next ≤ b.teamHeap.next)
    (fun _ _ _ _ => trivial) (fun _ => le_refl _) (fun _ _ _ => le_trans)
    (fun _ _ _ hm => TeamHost.teamHeap_next_move hm) hp trivial

theorem stopped_move (hm : Move G s t) {tr : TeamRef} (htr : tr < s.teamHeap.next)
    (h : (s.team tr).stopped = true) :
    (t.team tr).stopped = true := by
  have hset : ∀ (u : State) (k : TeamRef) (team : Team), (u.team tr).stopped = true →
      ((u.team k).stopped = true → team.stopped = true) →
        ((u.setTeam k team).team tr).stopped = true := by
    intro u k team hu hteam
    rw [State.team_setTeam]
    split
    · next he => exact hteam (he ▸ hu)
    · exact hu
  cases hm with
  | settle r shown kept =>
    rw [State.team_settled]
    rcases State.updateTeamJob_cases s shown with ⟨he, -⟩ | ⟨k, j, v, members, -, -, -, -, he⟩ <;>
      rw [he]
    · exact h
    · exact hset s k _ h fun hk => hk
  | dispatch k i w member id => exact hset (s.pushJob (teamJob s k member w id)) k _ h fun hk => hk
  | edit k i w w' => exact hset s k _ h fun hk => hk
  | submit k => exact hset s k _ h fun hk => hk
  | stop k => exact hset s k _ h fun _ => rfl
  | join k => exact hset s k _ h fun hk => hk
  | mail k => exact hset s k _ h fun hk => hk
  | found keep team =>
    have hget : (s.teamHeap.alloc team).get tr = s.teamHeap.get tr :=
      Heap.get_alloc_of_lt _ htr team
    exact (congrArg Team.stopped hget).trans h
  | _ => exact h

/-- A settled board of a closed service stays settled unless a run succeeds. -/
theorem closedTeam_move (hm : Move G s t) (hclosed : s.closed = true)
    (hfails : ∀ r shown kept, Settles G s r shown kept → shown.snapshot.state ≠ .succeeded)
      {tr : TeamRef}
    (htr : tr < s.teamHeap.next) (h : (s.team tr).Closed) : (t.team tr).Closed := by
  refine ⟨stopped_move hm htr h.stopped, ?_⟩
  cases hm with
  | settle r shown kept hset =>
    rw [State.team_settled]
    rcases State.updateTeamJob_cases s shown with ⟨he, -⟩ | ⟨k, j, v, members, -, -, -, -, he⟩ <;>
      rw [he]
    · exact h.work
    · rw [State.team_setTeam]
      split
      · next hk =>
        intro w hw
        rcases List.mem_or_eq_of_mem_set hw with hold | rfl
        · exact h.work w (hk ▸ hold)
        · rw [reportedTask_state]
          have hshown := hfails r shown kept hset
          cases hs : shown.snapshot.state with
          | succeeded => exact absurd hs hshown
          | _ => exact ⟨by decide, by decide⟩
      · exact h.work
  | dispatch k i w member id _ _ _ _ _ room => rw [open_of_capacity room] at hclosed; cases hclosed
  | edit k i w w' _ entry hedit =>
    rw [State.team_setWork]
    split
    · next hk =>
      subst hk
      intro v hv
      rcases List.mem_or_eq_of_mem_set hv with hold | rfl
      · exact h.work v hold
      · cases hedit with
        | note feedback => exact h.work w (List.mem_of_getElem? entry)
        | revise feedback turn _ _ _ room => rw [open_of_record room] at hclosed; cases hclosed
        | _ => exact ⟨fun hc => (by cases hc), fun hc => (by cases hc)⟩
    · exact h.work
  | submit k request turn _ _ _ _ _ _ room => rw [open_of_record room] at hclosed; cases hclosed
  | stop k => rw [work_setTeam (by rfl)]; exact h.work
  | join k => rw [work_setTeam (by rfl)]; exact h.work
  | mail k => rw [work_setTeam (by rfl)]; exact h.work
  | found keep team =>
    have hget : (s.teamHeap.alloc team).get tr = s.teamHeap.get tr :=
      Heap.get_alloc_of_lt _ htr team
    rw [show ({ s with
        teams := s.teams.filter keep ++ [s.teamHeap.next], teamHeap := s.teamHeap.alloc team } :
      State).team tr = s.team tr from hget]
    exact h.work
  | _ => exact h.work

end Moves

/-- What the closing operations leave behind, and every operation of a closed service keeps. -/
structure Shut (s : State) : Prop where
  closed : s.closed = true
  jobs : ∀ r ∈ s.jobs, (s.job r).snapshot.state.Halted
  teams : ∀ tr ∈ s.teams, (s.team tr).Closed

/-- The same for the boards of a fixed list, whatever teams are founded meanwhile. -/
structure ShutOn (boards : List TeamRef) (s : State) : Prop where
  closed : s.closed = true
  jobs : ∀ r ∈ s.jobs, (s.job r).snapshot.state.Halted
  known : ∀ tr ∈ boards, tr < s.teamHeap.next
  teams : ∀ tr ∈ boards, (s.team tr).Closed

theorem shutOn_move {G : Grant} {boards : List TeamRef} {s t : State} (h : ShutOn boards s)
    (hm : Move G s t) :
    ShutOn boards t := by
  refine ⟨closed_move hm h.closed, (halted_move hm h.closed h.jobs).1,
    fun tr htr => Nat.lt_of_lt_of_le (h.known tr htr) (TeamHost.teamHeap_next_move hm),
      fun tr htr => ?_⟩
  refine closedTeam_move hm h.closed (fun r shown kept hset => ?_) (h.known tr htr) (h.teams tr htr)
  rcases (end_of_settles h.jobs hset).2 with hend | hend <;> rw [hend] <;> decide

/-- What a run on a closed service cannot do. -/
structure Winds (s t : State) : Prop where
  jobs : ∀ r ∈ t.jobs, r ∈ s.jobs
  active : t.active ≤ s.active
  board : ∀ (tr : TeamRef) (i : Nat) (w' : Team.Work), (t.team tr).work[i]? = some w' →
    w'.snapshot.state = .queued →
    ∃ w, (s.team tr).work[i]? = some w ∧ w.snapshot.state = .queued

theorem Winds.refl (s : State) : Winds s s :=
    ⟨fun _ hr => hr, le_refl _, fun _ _ w hw hq => ⟨w, hw, hq⟩⟩

theorem Winds.trans {s t u : State} (h : Winds s t) (k : Winds t u) : Winds s u := by
  refine ⟨fun r hr => h.jobs r (k.jobs r hr), k.active.trans h.active, fun tr i w hw hq => ?_⟩
  obtain ⟨v, hv, hq'⟩ := k.board tr i w hw hq
  exact h.board tr i v hv hq'

theorem winds_path {G : Grant} {boards : List TeamRef} {s t : State} (h : ShutOn boards s)
    (hp : Path G s t) :
    ShutOn boards t ∧ Winds s t := by
  refine ⟨run_invariant (r := Move G) (fun _ _ hs hm => shutOn_move hs hm) hp h, ?_⟩
  refine run_relates (r := Move G) (I := ShutOn boards) (Q := Winds)
    (fun _ _ hs hm => shutOn_move hs hm) Winds.refl
    (fun _ _ _ => .trans) (fun a b hs hm => ?_) hp h
  obtain ⟨-, hjobs, hactive⟩ := halted_move hm hs.closed hs.jobs
  exact ⟨hjobs, hactive, fun tr i w hw hq => queued_move hm hs.closed tr i hw hq⟩

theorem Shut.on {s : State} (h : Shut s) (hreg : Registry s) : ShutOn s.teams s :=
  ⟨h.closed, h.jobs, hreg.teams_lt, h.teams⟩

namespace State

theorem cancelJob_job_ne (s : State) {r k : JobRef} (timeout : Bool) (hk : k ≠ r) :
    (s.cancelJob r timeout).job k = s.job k := by
  rcases cancelJob_cases s r timeout with ⟨-, h⟩ | ⟨-, shown, -, h⟩ | ⟨-, h⟩ <;> rw [h]
  · split
    · rfl
    · exact job_setJob_ne _ _ _ hk
  · rw [job_setJob_ne _ _ _ hk, job_publish_ne _ _ _ hk, job_read]
  · exact job_publish_ne _ _ _ hk

theorem cancelJob_halts (s : State) (r : JobRef) (timeout : Bool) :
    ((s.cancelJob r timeout).job r).snapshot.state.Halted := by
  rcases cancelJob_cases s r timeout with ⟨hdone, h⟩ | ⟨-, shown, hshown, h⟩ | ⟨-, h⟩ <;> rw [h]
  · have hhalted : (s.job r).snapshot.state.Halted := by
      rcases hdone with hdone | hdone
      · constructor <;> intro hq <;> rw [hq] at hdone <;> cases hdone
      · rw [hdone]
        exact ⟨by decide, by decide⟩
    split
    · exact hhalted
    · rw [job_setJob_self]
      exact hhalted
  · rw [job_setJob_self, hshown]
    cases timeout <;> exact ⟨fun hq => (by cases hq), fun hq => (by cases hq)⟩
  · rw [job_publish_self]
    exact ⟨fun hq => (by cases hq), fun hq => (by cases hq)⟩

theorem cancelJobs_halts (l : List JobRef) (s : State) (k : JobRef)
    (h : k ∈ l ∨ (s.job k).snapshot.state.Halted) :
    ((cancelJobs (fun _ => true) l s).job k).snapshot.state.Halted := by
  induction l generalizing s with
  | nil => exact h.resolve_left List.not_mem_nil
  | cons r rest ih =>
    refine ih _ ?_
    by_cases hk : k = r
    · rw [hk]
      exact .inr (cancelJob_halts s r false)
    · rcases h with h | h
      · exact .inl ((List.mem_cons.mp h).resolve_left hk)
      · exact .inr (by rw [if_pos rfl, cancelJob_job_ne s false hk]; exact h)

/-- A run that brings nothing to its end keeps a closed service's settled boards. -/
theorem closedTeam_path {G : Grant} (hG : ∀ r, ¬G.ends r) {s t : State} (hp : Path G s t)
    (hclosed : s.closed = true) {tr : TeamRef} (htr : tr < s.teamHeap.next)
    (h : (s.team tr).Closed) : (t.team tr).Closed := by
  have hrun : t.closed = true ∧ tr < t.teamHeap.next ∧ (t.team tr).Closed := by
    refine run_invariant (r := Move G) (I := fun s => s.closed = true ∧ tr < s.teamHeap.next ∧
      (s.team tr).Closed)
      (fun a b ha hm => ?_) hp ⟨hclosed, htr, h⟩
    refine ⟨closed_move hm ha.1, Nat.lt_of_lt_of_le ha.2.1 (TeamHost.teamHeap_next_move hm),
      closedTeam_move hm ha.1 (fun r shown kept hset hs => ?_) ha.2.1 ha.2.2⟩
    have hchange := hset.change
    rw [hs] at hchange
    have hrunning : (a.job r).snapshot.state.occupies = true := by
      cases hold : (a.job r).snapshot.state <;> rw [hold] at hchange <;> first | rfl | cases hchange
    exact hG r (hset.frees hrunning (by rw [hs]; rfl)).2
  exact hrun.2.2

theorem stopTeam_closes {s : State} {tr : TeamRef} (hlt : tr < s.teamHeap.next) :
    ((s.stopTeam tr).team tr).Closed := by
  unfold stopTeam
  dsimp only
  rw [team_setTeam_self]
  refine ⟨?_, fun w hw => ?_⟩
  · have hstop : ((s.setTeam tr { s.team tr with stopped := true }).team tr).stopped = true := by
      rw [team_setTeam_self]
    have hp := path_cancelJobs (fun job => job.owner == (s.team tr).owner && job.snapshot.teamId ==
      (s.team tr).id)
      s.jobs (s := s.setTeam tr { s.team tr with stopped := true }) fun r hr => hr
    have hrun : tr < (cancelJobs
      (fun job => job.owner == (s.team tr).owner && job.snapshot.teamId == (s.team tr).id)
        s.jobs (s.setTeam tr { s.team tr with stopped := true })).teamHeap.next ∧ _ :=
      run_invariant (I := fun u => tr < u.teamHeap.next ∧ (u.team tr).stopped = true)
        (fun a b ha hm => ⟨Nat.lt_of_lt_of_le ha.1 (TeamHost.teamHeap_next_move hm),
          stopped_move hm ha.1 ha.2⟩)
        hp ⟨hlt, hstop⟩
    rw [team_setTeam_self]
    exact hrun.2
  · obtain ⟨v, -, rfl⟩ := List.mem_map.mp hw
    unfold Team.Work.close
    split
    · exact ⟨fun hc => (by cases hc), fun hc => (by cases hc)⟩
    · next hopen =>
      constructor <;> intro hc <;> rw [hc] at hopen <;> exact hopen (by decide)

theorem stopTeams_closes (l : List TeamRef) {s : State} (hclosed : s.closed = true)
    (hlt : ∀ tr ∈ s.teams, tr < s.teamHeap.next) (hl : ∀ tr ∈ l, tr ∈ s.teams) {tr : TeamRef}
    (htr : tr ∈ s.teams) (h : tr ∈ l ∨ (s.team tr).Closed) :
    ((stopTeams l s).team tr).Closed := by
  induction l generalizing s with
  | nil => exact h.resolve_left List.not_mem_nil
  | cons k rest ih =>
    have hk := hl k List.mem_cons_self
    have hp := path_stopTeam hk
    have hnext : s.teamHeap.next ≤ (s.stopTeam k).teamHeap.next := teamHeap_next_path hp
    unfold stopTeams
    refine ih ?_ ?_ ?_ ?_ ?_
    · exact run_invariant (I := fun u => u.closed = true)
        (fun a b ha hm => closed_move hm ha) hp hclosed
    · rw [stopTeam_teams]
      exact fun tr htr => Nat.lt_of_lt_of_le (hlt tr htr) hnext
    · rw [stopTeam_teams]
      exact fun j hj => hl j (List.mem_cons_of_mem k hj)
    · rw [stopTeam_teams]
      exact htr
    · by_cases he : tr = k
      · rw [he]
        exact .inr (stopTeam_closes (hlt k hk))
      · rcases h with h | h
        · exact .inl ((List.mem_cons.mp h).resolve_left he)
        · exact .inr (closedTeam_path (fun _ => id) hp hclosed (hlt tr htr) h)

theorem closeAll_jobs (s : State) : s.closeAll.jobs = s.jobs := by
  unfold closeAll
  dsimp only
  rw [cancelJobs_jobs, stopTeams_jobs]

theorem closeAll_teams (s : State) : s.closeAll.teams = s.teams := by
  have hstop : ∀ (l : List TeamRef) (u : State), (stopTeams l u).teams = u.teams := by
    intro l
    induction l with
    | nil => exact fun _ => rfl
    | cons tr rest ih => exact fun u => (ih _).trans (stopTeam_teams u tr)
  unfold closeAll
  dsimp only
  rw [cancelJobs_teams, hstop]

theorem shut_closeAll {s : State} (hreg : Registry s) : Shut s.closeAll := by
  have hclosed : ∀ (G : Grant) (u v : State), Path G u v → u.closed = true → v.closed = true :=
      fun G u v hp hu =>
    run_invariant (I := fun u => u.closed = true) (fun a b ha hm => closed_move hm ha) hp hu
  have hstop := path_stopTeams s.teams (s := { s with closed := true }) fun tr htr => htr
  have hopen := hclosed _ _ _ hstop rfl
  have hcancel : Path _ (stopTeams s.teams { s with closed := true }) s.closeAll :=
    path_cancelJobs (fun _ => true) _ fun r hr => hr
  refine ⟨hclosed _ _ _ hcancel hopen, fun r hr => ?_, fun tr htr => ?_⟩
  · rw [closeAll_jobs] at hr
    refine cancelJobs_halts _ _ r (.inl ?_)
    rw [stopTeams_jobs]
    exact hr
  · rw [closeAll_teams] at htr
    have hboard := stopTeams_closes s.teams (s := { s with closed := true }) rfl hreg.teams_lt
      (fun _ hk => hk) htr
      (.inl htr)
    have hnext := teamHeap_next_path hstop
    exact closedTeam_path (fun _ => id) hcancel hopen
      (Nat.lt_of_lt_of_le (hreg.teams_lt tr htr) hnext) hboard

end State

end Orangutan.Bootstrap
