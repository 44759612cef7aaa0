import Orangutan.Bootstrap.Agreement

/-!
# Record reservation

Every waiting board entry reserves one job record. Admission is checked in four
places, with and without the reservation of the entry at hand; all of them keep
one sum bounded.
-/

namespace Orangutan.Bootstrap

set_option autoImplicit false

open Orangutan.Core Orangutan.Lib Orangutan.Tool

/-- The number of running or cancelling jobs. -/
def State.occupied (s : State) : Nat :=
  s.jobs.countP fun r => (s.job r).snapshot.state == .running || (s.job r).snapshot.state ==
    .cancelling

structure Reservation (s : State) : Prop where
  records : s.jobs.length + s.waiting ≤ s.options.maxRecords
  unfinished : s.unfinished ≤ s.options.maxRunning + s.options.maxQueued
  active : s.active = s.occupied
  slots : s.active ≤ s.options.maxRunning

theorem occupies_eq (state : TaskState) :
    (state == .running || state == .cancelling) = state.occupies := by
  cases state <;> rfl

/-- A job that enters a state other than running takes no new slot. -/
theorem occupies_le_of_next {a b : TaskState} (h : a.next b = true) (hb : b ≠ .running) :
    b.occupies.toNat ≤ a.occupies.toNat := by
  cases a <;> cases b <;> first | exact absurd rfl hb | exact absurd h (by decide) | decide

theorem queued_of_next_running {a : TaskState} (h : a.next .running = true) : a = .queued := by
  cases a <;> first | rfl | cases h

namespace State

theorem waiting_eq_weigh (s : State) : s.waiting = Heap.weigh Team.waitingWork s.teamHeap s.teams :=
    rfl

theorem unfinished_eq_weigh (s : State) :
    s.unfinished = Heap.weigh (fun j => (!taskTerminal j.snapshot.state).toNat) s.jobHeap s.jobs :=
  Heap.countP_eq_weigh (fun j : Job => !taskTerminal j.snapshot.state) s.jobHeap s.jobs

theorem occupied_eq_weigh (s : State) :
    s.occupied = Heap.weigh (fun j => j.snapshot.state.occupies.toNat) s.jobHeap s.jobs := by
  unfold occupied
  simp only [occupies_eq]
  exact Heap.countP_eq_weigh (fun j : Job => j.snapshot.state.occupies) s.jobHeap s.jobs

variable {s : State}

theorem waiting_setTeam (hreg : Registry s) {tr : TeamRef} (htr : tr ∈ s.teams) (team : Team) :
    (s.setTeam tr team).waiting + (s.team tr).waitingWork = s.waiting + team.waitingWork :=
  Heap.weigh_set hreg.teams_nodup htr

theorem waiting_setTeam_of_eq (hreg : Registry s) (tr : TeamRef) {team : Team}
    (hwork : team.work = (s.team tr).work) : (s.setTeam tr team).waiting = s.waiting := by
  have hcount : team.waitingWork = (s.team tr).waitingWork := by
    unfold Team.waitingWork
    rw [hwork]
  by_cases htr : tr ∈ s.teams
  · have h := waiting_setTeam hreg htr team
    omega
  · exact Heap.weigh_set_of_not_mem htr

/-- How a write to one entry moves the number of waiting entries. -/
theorem waiting_setTeam_entry (hreg : Registry s) {tr : TeamRef} (htr : tr ∈ s.teams) {i : Nat}
    {w w' : Team.Work} (hw : (s.team tr).work[i]? = some w) (team : Team)
    (hwork : team.work = (s.team tr).work.set i w') :
    (s.setTeam tr team).waiting + (w.snapshot.state == .waiting).toNat =
      s.waiting + (w'.snapshot.state == .waiting).toNat := by
  have hteam := waiting_setTeam hreg htr team
  have hset := countP_set_add (p := fun v => v.snapshot.state == .waiting) (b := w') hw
  unfold Team.waitingWork at hteam
  rw [hwork] at hteam
  omega

theorem waiting_setWork (hreg : Registry s) {tr : TeamRef} (htr : tr ∈ s.teams) {i : Nat}
    {w : Team.Work} (hw : (s.team tr).work[i]? = some w) (w' : Team.Work) :
    (s.setWork tr i w').waiting + (w.snapshot.state == .waiting).toNat =
      s.waiting + (w'.snapshot.state == .waiting).toNat :=
  waiting_setTeam_entry hreg htr hw _ rfl

theorem waiting_settled (hreg : Registry s) (hagree : Agreement s) {r : JobRef} {shown : Job}
    (kept : Job) (hr : r ∈ s.jobs) (hlive : taskTerminal (s.job r).snapshot.state = false)
    (hrun : shown.SameRun (s.job r)) : (s.settled r shown kept).waiting = s.waiting := by
  have hwaiting : (s.settled r shown kept).waiting = (s.updateTeamJob shown).waiting := by
    rw [waiting_eq_weigh, waiting_eq_weigh, settled_teamHeap, settled_teams, updateTeamJob_teams]
  rw [hwaiting]
  rcases settled_entry hagree hr hlive hrun with ⟨-, he⟩ | ⟨tr, i, w, members, htr, hw, hl, -, he⟩
  · rw [he]
  · rw [he]
    have hold : (w.snapshot.state == .waiting) = false := by
      have hact := (live_of_sameName hl.2.state).2
      cases hs : w.snapshot.state <;> first | rfl | (rw [hs] at hact; cases hact)
    have hnew : ((reportedTask w.snapshot shown).state == TeamTaskState.waiting) = false := by
      rw [reportedTask_state]
      cases shown.snapshot.state <;> rfl
    have hentry := waiting_setTeam_entry hreg htr hw { s.team tr with
      members
      work := (s.team tr).work.set i { w with snapshot := reportedTask w.snapshot shown } } rfl
    rw [hold, hnew] at hentry
    exact hentry

theorem weigh_settled (hreg : Registry s) (f : Job → Nat) {r : JobRef} (shown kept : Job)
    (hr : r ∈ s.jobs) : Heap.weigh f (s.settled r shown kept).jobHeap
      (s.settled r shown kept).jobs +
      f (s.job r) = Heap.weigh f s.jobHeap s.jobs + f kept := by
  rw [settled_jobHeap, settled_jobs, Heap.set_set]
  exact Heap.weigh_set hreg.jobs_nodup hr

theorem weigh_setJob_of_eq (hreg : Registry s) (f : Job → Nat) {r : JobRef} {job : Job}
    (hr : r ∈ s.jobs) (hf : f job = f (s.job r)) :
    Heap.weigh f (s.setJob r job).jobHeap (s.setJob r job).jobs =
      Heap.weigh f s.jobHeap s.jobs := by
  have h : Heap.weigh f (s.setJob r job).jobHeap (s.setJob r job).jobs + f (s.job r) =
      Heap.weigh f s.jobHeap s.jobs + f job := Heap.weigh_set hreg.jobs_nodup hr
  omega

theorem weigh_pushJob (hreg : Registry s) (f : Job → Nat) (job : Job) :
    Heap.weigh f (s.pushJob job).jobHeap (s.pushJob job).jobs =
      Heap.weigh f s.jobHeap s.jobs + f job := by
  change Heap.weigh f (s.jobHeap.alloc job) (s.jobs ++ [s.jobHeap.next]) = _
  rw [Heap.weigh_append, Heap.weigh_alloc job hreg.jobs_lt]
  simp

theorem unfinished_pushJob (hreg : Registry s) {job : Job}
    (hqueued : job.snapshot.state = .queued) :
    (s.pushJob job).unfinished = s.unfinished + 1 := by
  rw [unfinished_eq_weigh, weigh_pushJob hreg, hqueued, ← unfinished_eq_weigh]
  rfl

theorem occupied_pushJob (hreg : Registry s) {job : Job} (hqueued : job.snapshot.state = .queued) :
    (s.pushJob job).occupied = s.occupied := by
  rw [occupied_eq_weigh, weigh_pushJob hreg, hqueued, ← occupied_eq_weigh]
  rfl

end State

theorem reservation_empty (svc : Service) : Reservation (State.empty svc) where
  records := Nat.zero_le _
  unfinished := Nat.zero_le _
  active := rfl
  slots := Nat.zero_le _

namespace Reservation

variable {s t : State}

/-- Moves that count the same on every side. -/
theorem frame (h : Reservation s) (hsvc : t.svc = s.svc) (hlen : t.jobs.length ≤ s.jobs.length)
    (hwaiting : t.waiting ≤ s.waiting) (hunfinished : t.unfinished ≤ s.unfinished)
    (hactive : t.active = s.active) (hoccupied : t.occupied = s.occupied) : Reservation t := by
  have hopt : t.options = s.options := congrArg Service.options hsvc
  have := h.records
  have := h.unfinished
  exact
    { records := by rw [hopt]; omega
      unfinished := by rw [hopt]; omega
      active := by rw [hactive, hoccupied]; exact h.active
      slots := by rw [hactive, hopt]; exact h.slots }

theorem setJob (h : Reservation s) (hreg : Registry s) {r : JobRef} {job : Job} (hr : r ∈ s.jobs)
    (hstate : job.snapshot.state = (s.job r).snapshot.state) : Reservation (s.setJob r job) := by
  refine h.frame rfl (Nat.le_refl _) (Nat.le_refl _) (Nat.le_of_eq ?_) rfl ?_
  · rw [State.unfinished_eq_weigh, State.unfinished_eq_weigh]
    exact State.weigh_setJob_of_eq hreg _ hr (by rw [hstate])
  · rw [State.occupied_eq_weigh, State.occupied_eq_weigh]
    exact State.weigh_setJob_of_eq hreg _ hr (by rw [hstate])

theorem setTeam (h : Reservation s) (hreg : Registry s) (tr : TeamRef) {team : Team}
    (hwork : team.work = (s.team tr).work) : Reservation (s.setTeam tr team) :=
  h.frame rfl (Nat.le_refl _) (Nat.le_of_eq (State.waiting_setTeam_of_eq hreg tr hwork))
    (Nat.le_refl _)
    rfl rfl

/-- A write that brings the waiting entries within the record bound. -/
theorem setTeam_of_le (h : Reservation s) {tr : TeamRef} {team : Team}
    (hle : s.jobs.length + (s.setTeam tr team).waiting ≤ s.options.maxRecords) :
    Reservation (s.setTeam tr team) :=
  { records := hle, unfinished := h.unfinished, active := h.active, slots := h.slots }

theorem pushJob (h : Reservation s) (hreg : Registry s) {job : Job}
    (hqueued : job.snapshot.state = .queued) (hrecords : s.jobs.length + s.waiting <
      s.options.maxRecords)
    (hunfinished : s.unfinished < s.options.maxRunning + s.options.maxQueued) :
    Reservation (s.pushJob job) := by
  have hlen : (s.pushJob job).jobs.length = s.jobs.length + 1 := List.length_append
  have hun := State.unfinished_pushJob hreg hqueued
  exact
    { records := by
        change (s.pushJob job).jobs.length + s.waiting ≤ s.options.maxRecords
        omega
      unfinished := by
        change (s.pushJob job).unfinished ≤ s.options.maxRunning + s.options.maxQueued
        omega
      active := by rw [State.occupied_pushJob hreg hqueued]; exact h.active
      slots := h.slots }

/-- A dispatched entry hands its reservation to its job record. -/
theorem dispatch (h : Reservation s) (hreg : Registry s) {tr : TeamRef} {i : Nat} {w w' : Team.Work}
    {job : Job} (htr : tr ∈ s.teams) (hw : (s.team tr).work[i]? = some w)
    (hwait : w.snapshot.state = .waiting) (hw' : w'.snapshot.state = .queued)
    (hqueued : job.snapshot.state = .queued) (hfresh : s.FreshId job.snapshot.taskId)
    (hunfinished : s.unfinished < s.options.maxRunning + s.options.maxQueued) :
    Reservation ((s.pushJob job).setWork tr i w') := by
  have hlen : (s.pushJob job).jobs.length = s.jobs.length + 1 := List.length_append
  have hun := State.unfinished_pushJob hreg hqueued
  have hrecords := h.records
  have hcount := State.waiting_setWork (hreg.pushJob hfresh) htr hw w'
  have hsame : (s.pushJob job).waiting = s.waiting := rfl
  rw [hwait, hw', hsame] at hcount
  simp only [beq_self_eq_true, Bool.toNat_true,
    show (TeamTaskState.queued == .waiting) = false from rfl, Bool.toNat_false] at hcount
  exact
    { records := by
        change (s.pushJob job).jobs.length + ((s.pushJob job).setWork tr i w').waiting ≤
          s.options.maxRecords
        omega
      unfinished := by
        change (s.pushJob job).unfinished ≤ s.options.maxRunning + s.options.maxQueued
        omega
      active := by
        change s.active = (s.pushJob job).occupied
        rw [State.occupied_pushJob hreg hqueued]
        exact h.active
      slots := h.slots }

theorem settle {G : Grant} (h : Reservation s) (hledger : Ledger s) {r : JobRef} {shown kept : Job}
    (hset : Settles G s r shown kept) : Reservation (s.settled r shown kept) := by
  obtain ⟨hreg, hagree⟩ := hledger
  have hlive := live_of_next hset.change
  have hopt : (s.settled r shown kept).options = s.options := congrArg Service.options (by simp)
  have hkept : kept.snapshot.state = shown.snapshot.state := by rw [hset.snapshot]
  have hun := State.weigh_settled hreg
    (fun j => (!taskTerminal j.snapshot.state).toNat) shown kept hset.listed
  have hocc := State.weigh_settled hreg
    (fun j => j.snapshot.state.occupies.toNat) shown kept hset.listed
  rw [← State.unfinished_eq_weigh, ← State.unfinished_eq_weigh, hlive, hkept] at hun
  rw [← State.occupied_eq_weigh, ← State.occupied_eq_weigh, hkept] at hocc
  have hactive : (s.settled r shown kept).active = s.active + shown.snapshot.state.occupies.toNat -
      (s.job r).snapshot.state.occupies.toNat := rfl
  have hslots : (s.settled r shown kept).active ≤ s.options.maxRunning := by
    rw [hactive]
    have hmax := h.slots
    by_cases hrunning : shown.snapshot.state = .running
    · have hslot := hset.slot hrunning
      have hone : TaskState.running.occupies.toNat = 1 := rfl
      rw [hrunning, hone]
      omega
    · have hle := occupies_le_of_next hset.change hrunning
      omega
  refine ⟨?_, ?_, ?_, by rw [hopt]; exact hslots⟩
  · rw [hopt, State.settled_jobs, State.waiting_settled hreg hagree kept hset.listed hlive hset.run]
    exact h.records
  · rw [hopt]
    have hbound := h.unfinished
    have hle : (!taskTerminal shown.snapshot.state).toNat ≤ 1 := Bool.toNat_le _
    simp only [Bool.not_false, Bool.toNat_true] at hun
    omega
  · rw [hactive]
    have := h.active
    omega

end Reservation

theorem records_lt_of_room {s : State} (h : s.hasRecordCapacity false = true) :
    s.jobs.length + s.waiting < s.options.maxRecords := by
  simp only [State.hasRecordCapacity, Bool.and_eq_true, decide_eq_true_eq] at h
  exact h.2

theorem hasCapacity_iff {s : State} {reserved : Bool} :
    s.hasCapacity reserved = true ↔ s.hasRecordCapacity reserved = true ∧
      s.unfinished < s.options.maxRunning + s.options.maxQueued := by
  unfold State.hasCapacity
  rw [Bool.and_eq_true, decide_eq_true_eq]

/-- Only a granted revision makes an entry wait again. -/
theorem TaskEdit.waiting_le {G : Grant} {s : State} {w w' : Team.Work} (h : TaskEdit G s w w') :
    (w'.snapshot.state == .waiting).toNat ≤ (w.snapshot.state == .waiting).toNat ∨
      s.hasRecordCapacity false = true := by
  cases h with
  | cancel => exact .inl (Nat.zero_le _)
  | accept => exact .inl (Nat.zero_le _)
  | note => exact .inl (Nat.le_refl _)
  | fail => exact .inl (Nat.zero_le _)
  | revise feedback turn _ _ _ room => exact .inr room

theorem reservation_move {G : Grant} {s t : State} (h : Reservation s) (hledger : Ledger s)
    (hm : Move G s t) : Reservation t := by
  have hreg := hledger.1
  have hrecords := h.records
  cases hm with
  | clock =>
    exact h.frame rfl (Nat.le_refl _) (Nat.le_refl _) (Nat.le_refl _) rfl rfl
  | close =>
    exact h.frame rfl (Nat.le_refl _) (Nat.le_refl _) (Nat.le_refl _) rfl rfl
  | reclaim keep gone =>
    refine h.frame rfl (List.length_filter_le _ _) (Nat.le_refl _) ?_ rfl ?_
    · exact List.filter_sublist.countP_le
    · rw [State.occupied_eq_weigh, State.occupied_eq_weigh]
      refine Heap.weigh_filter fun r hr hk => ?_
      have hterm := (gone r hr hk).1
      change ((s.job r).snapshot.state.occupies).toNat = 0
      rw [State.occupies_of_terminal hterm]
      rfl
  | acknowledge r listed => exact h.setJob hreg listed rfl
  | flag r claimed acknowledged grant listed => exact h.setJob hreg listed rfl
  | settle r shown kept hset => exact h.settle hledger hset
  | enqueue job hfresh hteam room =>
    rw [hasCapacity_iff] at room
    exact h.pushJob hreg hfresh.queued (records_lt_of_room room.1) room.2
  | dispatch tr i w member id current entry waiting ready idle room fresh =>
    exact h.dispatch hreg current entry waiting rfl rfl fresh (hasCapacity_iff.mp room).2
  | edit tr i w w' current entry hedit =>
    have hcount := State.waiting_setWork hreg current entry w'
    refine h.setTeam_of_le ?_
    change s.jobs.length + (s.setWork tr i w').waiting ≤ s.options.maxRecords
    rcases hedit.waiting_le with hle | hroom
    · omega
    · have hlt := records_lt_of_room hroom
      have hone : (w'.snapshot.state == TeamTaskState.waiting).toNat ≤ 1 := Bool.toNat_le _
      omega
  | submit tr request turn grant current valid key member known room =>
    have hcount := State.waiting_setTeam hreg current
      { s.team tr with work := (s.team tr).work ++ [Team.newWork request turn] }
    have hone : Team.waitingWork
        { s.team tr with work := (s.team tr).work ++ [Team.newWork request turn] } =
        (s.team tr).waitingWork + 1 := List.countP_append
    have hlt := records_lt_of_room room
    refine h.setTeam_of_le ?_
    omega
  | stop tr => exact h.setTeam hreg tr rfl
  | join tr => exact h.setTeam hreg tr rfl
  | mail tr => exact h.setTeam hreg tr rfl
  | found keep team gone owner names work =>
    refine h.frame rfl (Nat.le_refl _) ?_ (Nat.le_refl _) rfl rfl
    have hzero : team.waitingWork = 0 := by
      unfold Team.waitingWork
      rw [work]
      rfl
    change Heap.weigh Team.waitingWork (s.teamHeap.alloc team)
      (s.teams.filter keep ++ [s.teamHeap.next]) ≤
      Heap.weigh Team.waitingWork s.teamHeap s.teams
    rw [Heap.weigh_append, Heap.weigh_cons, Heap.get_alloc_next, hzero,
        Heap.weigh_alloc team fun tr htr =>
      hreg.teams_lt tr (List.mem_of_mem_filter htr)]
    exact Heap.weigh_sublist List.filter_sublist

theorem reservation_path {svc : Service} {s t : State} (hs : State.Reachable svc s)
    (ht : Path .all s t) : Ledger t ∧ Reservation t ∧ t.svc = svc := by
  refine run_invariant (r := Move .all) (I := fun u => Ledger u ∧ Reservation u ∧ u.svc = svc)
    (fun u v h hm => ?_) (hs.path.trans ht) ⟨ledger_empty svc, reservation_empty svc, rfl⟩
  exact ⟨ledger_move h.1 hm, reservation_move h.2.1 h.1 hm, (move_svc hm).trans h.2.2⟩

theorem waiting_pos {s : State} {tr : TeamRef} {w : Team.Work} (htr : tr ∈ s.teams)
    (hw : w ∈ (s.team tr).work) (hwait : w.snapshot.state = .waiting) : 0 < s.waiting := by
  have hteam : 0 < (s.team tr).waitingWork := List.countP_pos_iff.mpr ⟨w, hw, by rw [hwait]; rfl⟩
  have hle : (s.team tr).waitingWork ≤ s.waiting :=
    List.single_le_sum (fun _ _ => Nat.zero_le _) _ (List.mem_map.mpr ⟨tr, htr, rfl⟩)
  omega

/-- An open service has a record for every entry that waits. -/
theorem Reservation.hasRecordCapacity {s : State} (h : Reservation s) (hopen : s.closed = false)
    (hwaiting : 0 < s.waiting) : s.hasRecordCapacity true = true := by
  have hrecords := h.records
  simp only [State.hasRecordCapacity, hopen, hwaiting, decide_true, Bool.and_self, if_true,
    Bool.not_false, Bool.true_and, decide_eq_true_eq]
  omega

theorem prune_unfinished_le (s : State) : s.prune.unfinished ≤ s.unfinished :=
  List.filter_sublist.countP_le

/-- The record bounds, in every state an operation passes through, and what they
mean for the scan: an entry that is ready while its member is idle always finds a
job record. -/
theorem record_reservation {svc : Service} {s t : State} (hs : State.Reachable svc s)
    (ht : Path .all s t) :
    t.jobs.length + t.waiting ≤ svc.options.maxRecords ∧
    t.unfinished ≤ svc.options.maxRunning + svc.options.maxQueued ∧
    t.active = t.occupied ∧
    t.active ≤ svc.options.maxRunning ∧
    ∀ tr ∈ t.teams, ∀ w ∈ (t.team tr).work, w.snapshot.state = .waiting →
      (t.team tr).ready w.snapshot = true → (t.team tr).hasActiveWork w.snapshot.member = false →
      t.closed = false →
      t.prune.hasRecordCapacity true = true ∧
      ∀ (job : Job) (e : Error), job.team = some tr → (t.prune.read.enqueue job).1 = .error e →
        (∃ r ∈ t.prune.read.prune.jobs, (t.job r).snapshot.taskId = job.snapshot.taskId) ∨
          svc.options.maxRunning + svc.options.maxQueued ≤ t.prune.unfinished := by
  obtain ⟨-, h, rfl⟩ := reservation_path hs ht
  refine ⟨h.records, h.unfinished, h.active, h.slots, fun tr htr w hw hwait _ _ hopen => ?_⟩
  obtain ⟨-, hprune, -⟩ := reservation_path hs (ht.trans (State.path_prune t))
  obtain ⟨-, hagain, -⟩ := reservation_path hs
    (((ht.trans (State.path_prune t)).trans (State.path_read _)).trans (State.path_prune _))
  refine ⟨hprune.hasRecordCapacity hopen (waiting_pos htr hw hwait), fun job e hjob herr => ?_⟩
  have hroom := hagain.hasRecordCapacity hopen (waiting_pos htr hw hwait)
  unfold State.enqueue at herr
  dsimp only at herr
  rw [hjob] at herr
  split at herr
  · next hcap =>
    refine .inr ?_
    by_contra hlt
    have hle := prune_unfinished_le t.prune.read
    have hread : t.prune.read.unfinished = t.prune.unfinished := rfl
    have hboth := hasCapacity_iff.mpr ⟨hroom, show t.prune.read.prune.unfinished <
      t.svc.options.maxRunning + t.svc.options.maxQueued by omega⟩
    rw [Option.isSome_some, hboth] at hcap
    cases hcap
  · split at herr
    · next hany =>
      obtain ⟨r, hr, hid⟩ := List.any_eq_true.mp hany
      exact .inl ⟨r, hr, by simpa using hid⟩
    · cases herr

/-- A task just submitted to the small service, before the pump of its command, finds
its record. -/
theorem record_reservation_submitted :
    ((State.sample false (State.sampleReview.take 1)).submitTeamTask 0 (State.sampleTask "a" [])
      none).2.prune.hasRecordCapacity true = true := by
  have hs : State.Reachable (State.sampleService false)
      (State.sample false (State.sampleReview.take 1)) :=
    State.reachable_applyAll (by decide) (by decide +kernel)
  have hp : Path .all (State.sample false (State.sampleReview.take 1))
      ((State.sample false (State.sampleReview.take 1)).submitTeamTask 0
        (State.sampleTask "a" []) none).2 :=
    State.path_submitTeamTask none trivial (by decide +kernel) (by decide +kernel)
  have h := (record_reservation hs hp).2.2.2.2 0 (by decide +kernel)
    (Team.newWork (State.sampleTask "a" []) none) (by decide +kernel) rfl (by decide +kernel)
    (by decide +kernel) (by decide +kernel)
  exact h.1

end Orangutan.Bootstrap
