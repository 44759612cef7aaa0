import Orangutan.Bootstrap.Reservation

/-!
# No work is left behind

Operations that free a member or a slot do not all pump themselves. What keeps
work from being stranded: an operation that leaves something to a pump either
pumps or posts one, and every other operation only ever shrinks what is pending.
-/

namespace Orangutan.Bootstrap

set_option autoImplicit false

open Orangutan.Core Orangutan.Lib Orangutan.Tool Relation

/-- Every entry names a member of its team. -/
def Staffed (s : State) : Prop :=
  ∀ tr ∈ s.teams, ∀ w ∈ (s.team tr).work, ∃ m ∈ (s.team tr).members,
    m.snapshot.name = w.snapshot.member

namespace Staffed

variable {s t : State}

/-- Members are only added, and entries keep their member. -/
theorem frame (h : Staffed s) (hteams : ∀ tr ∈ t.teams, tr ∈ s.teams ∨ (t.team tr).work = [])
    (hnames : ∀ tr ∈ s.teams, ∀ m ∈ (s.team tr).members, ∃ m' ∈ (t.team tr).members,
      m'.snapshot.name = m.snapshot.name)
    (hwork : ∀ tr ∈ s.teams, ∀ w ∈ (t.team tr).work,
      (∃ v ∈ (s.team tr).work, v.snapshot.member = w.snapshot.member) ∨
        ∃ m ∈ (s.team tr).members, m.snapshot.name = w.snapshot.member) : Staffed t := by
  intro tr htr w hw
  rcases hteams tr htr with htr | hempty
  · have hm : ∃ m ∈ (s.team tr).members, m.snapshot.name = w.snapshot.member := by
      rcases hwork tr htr w hw with ⟨v, hv, hmember⟩ | hm
      · obtain ⟨m, hm, hname⟩ := h tr htr v hv
        exact ⟨m, hm, hname.trans hmember⟩
      · exact hm
    obtain ⟨m, hm, hname⟩ := hm
    obtain ⟨m', hm', hname'⟩ := hnames tr htr m hm
    exact ⟨m', hm', hname'.trans hname⟩
  · rw [hempty] at hw
    cases hw

theorem of_team (h : Staffed s) (hteams : t.teams = s.teams) (hteam : ∀ tr, t.team tr = s.team tr) :
    Staffed t := by
  intro tr htr w hw
  rw [hteam] at hw ⊢
  exact h tr (hteams ▸ htr) w hw

theorem setTeam (h : Staffed s) (k : TeamRef) {team : Team}
    (hnames : ∀ m ∈ (s.team k).members, ∃ m' ∈ team.members, m'.snapshot.name = m.snapshot.name)
    (hwork : ∀ w ∈ team.work, (∃ v ∈ (s.team k).work, v.snapshot.member = w.snapshot.member) ∨
      ∃ m ∈ (s.team k).members, m.snapshot.name = w.snapshot.member) :
        Staffed (s.setTeam k team) := by
  refine h.frame (fun tr htr => .inl htr) (fun tr _ m hm => ?_) fun tr _ w hw => ?_
  · rw [State.team_setTeam]
    split
    · next he => subst he; exact hnames m hm
    · exact ⟨m, hm, rfl⟩
  · rw [State.team_setTeam] at hw
    split at hw
    · next he => subst he; exact hwork w hw
    · exact .inl ⟨w, hw, rfl⟩

theorem setWork (h : Staffed s) {tr : TeamRef} {i : Nat} {w w' : Team.Work}
    (hw : (s.team tr).work[i]? = some w) (hmember : w'.snapshot.member = w.snapshot.member) :
    Staffed (s.setWork tr i w') := by
  refine h.setTeam tr (fun m hm => ⟨m, hm, rfl⟩) fun v hv => .inl ?_
  obtain ⟨j, hj⟩ := List.getElem?_of_mem hv
  rcases getElem?_set_cases hw hj with ⟨-, rfl⟩ | ⟨-, hold⟩
  · exact ⟨w, List.mem_of_getElem? hw, hmember.symm⟩
  · exact ⟨v, List.mem_of_getElem? hold, rfl⟩

end Staffed

theorem staffed_move {G : Grant} {s t : State} (h : Staffed s) (hledger : Ledger s)
    (hm : Move G s t) : Staffed t := by
  cases hm with
  | settle r shown kept hset =>
    have hteams : (s.settled r shown kept).teams = (s.updateTeamJob shown).teams := by simp
    refine Staffed.of_team (s := s.updateTeamJob shown) ?_ hteams
      (State.team_settled s r shown kept)
    rcases State.updateTeamJob_cases s shown with ⟨he, -⟩ | ⟨tr, i, w, members, -, hw, -,
      hnames, he⟩
    · rw [he]
      exact h
    · rw [he]
      refine h.setTeam tr (fun m hm => ?_) fun v hv => .inl ?_
      · have hmem : m.snapshot.name ∈ members.map (·.snapshot.name) := by
          rw [hnames]
          exact List.mem_map.mpr ⟨m, hm, rfl⟩
        obtain ⟨m', hm', hname⟩ := List.mem_map.mp hmem
        exact ⟨m', hm', hname⟩
      · obtain ⟨j, hj⟩ := List.getElem?_of_mem hv
        rcases getElem?_set_cases hw hj with ⟨-, rfl⟩ | ⟨-, hold⟩
        · exact ⟨w, List.mem_of_getElem? hw, (reportedTask_ids w.snapshot shown).2.1.symm⟩
        · exact ⟨v, List.mem_of_getElem? hold, rfl⟩
  | dispatch tr i w member id current entry =>
    exact Staffed.setWork (s := s.pushJob _) (h.of_team rfl fun _ => rfl) entry rfl
  | edit tr i w w' current entry hedit =>
    have hb := hledger.2.boards tr current
    exact h.setWork entry (hedit.rewrite hb (List.mem_of_getElem? entry)).member
  | submit tr request turn grant current valid key member =>
    refine h.setTeam tr (fun m hm => ⟨m, hm, rfl⟩) fun w hw => ?_
    rcases List.mem_append.mp hw with hw | hw
    · exact .inl ⟨w, hw, rfl⟩
    · rw [List.mem_singleton.mp hw]
      exact .inr member
  | stop tr => exact h.setTeam tr (fun m hm => ⟨m, hm, rfl⟩) fun w hw => .inl ⟨w, hw, rfl⟩
  | join tr =>
    exact h.setTeam tr (fun m hm => ⟨m, List.mem_append_left _ hm, rfl⟩) fun w hw =>
      .inl ⟨w, hw, rfl⟩
  | mail tr => exact h.setTeam tr (fun m hm => ⟨m, hm, rfl⟩) fun w hw => .inl ⟨w, hw, rfl⟩
  | found keep team gone owner names work =>
    have hold : ∀ tr ∈ s.teams, (s.teamHeap.alloc team).get tr = s.team tr := fun tr htr =>
      Heap.get_alloc_of_lt _ (hledger.1.teams_lt tr htr) _
    refine h.frame (fun tr htr => ?_) (fun tr htr m hm => ⟨m, ?_, rfl⟩) fun tr htr w hw =>
      .inl ⟨w, ?_, rfl⟩
    · rcases List.mem_append.mp htr with htr | htr
      · exact .inl (List.mem_of_mem_filter htr)
      · refine .inr ?_
        rw [List.mem_singleton.mp htr, ← work]
        exact congrArg Team.work (Heap.get_alloc_next _ _)
    · change m ∈ ((s.teamHeap.alloc team).get tr).members
      rw [hold tr htr]
      exact hm
    · change w ∈ ((s.teamHeap.alloc team).get tr).work at hw
      rw [hold tr htr] at hw
      exact hw
  | _ => exact h.of_team rfl fun _ => rfl

/-- What the pump relies on. -/
structure Sound (s : State) : Prop where
  ledger : Ledger s
  reservation : Reservation s
  staffed : Staffed s

theorem sound_empty (svc : Service) : Sound (State.empty svc) :=
  ⟨ledger_empty svc, reservation_empty svc, fun tr htr => by cases htr⟩

theorem sound_move {G : Grant} {s t : State} (h : Sound s) (hm : Move G s t) : Sound t :=
  ⟨ledger_move h.ledger hm, reservation_move h.reservation h.ledger hm,
    staffed_move h.staffed h.ledger hm⟩

theorem sound_path {G : Grant} {s t : State} (h : Sound s) (hp : Path G s t) : Sound t :=
  run_invariant (r := Move G) (I := Sound) (fun _ _ => sound_move) hp h

namespace State

/-- The open service has nothing under way. -/
structure Quiet (s : State) : Prop where
  opened : s.closed = false
  posted : s.posted = 0
  occupied : s.occupied = 0

/-- A waiting entry of a running team whose dependencies are accepted. -/
def Ripe (s : State) (tr : TeamRef) (i : Nat) : Prop :=
  ∃ w, (s.team tr).work[i]? = some w ∧ w.snapshot.state = .waiting ∧
    (s.team tr).ready w.snapshot = true

/-- Nothing is left for a pump. -/
structure Drained (s : State) : Prop where
  queued : ∀ r ∈ s.jobs, (s.job r).snapshot.state ≠ .queued
  ripe : ∀ tr ∈ s.teams, (s.team tr).stopped = false → ∀ i, ¬ s.Ripe tr i

/-- From `s` to `t` nothing new is left to a pump. -/
def Calm (s t : State) : Prop := t.Quiet → s.Quiet ∧ (s.Drained → t.Drained)

theorem Calm.refl (s : State) : Calm s s := fun h => ⟨h, fun hd => hd⟩

theorem Calm.trans {s t u : State} (h₁ : Calm s t) (h₂ : Calm t u) : Calm s u := fun hu =>
  have ⟨ht, htu⟩ := h₂ hu
  have ⟨hs, hst⟩ := h₁ ht
  ⟨hs, fun hd => htu (hst hd)⟩

/-- A step to a state that still has something under way. -/
theorem Calm.of_not_quiet {s t : State} (h : ¬ t.Quiet) : Calm s t := fun ht => absurd ht h

theorem not_occupying {s : State} (h : s.occupied = 0) {r : JobRef} (hr : r ∈ s.jobs) :
    (s.job r).snapshot.state.occupies = false := by
  unfold occupied at h
  simp only [occupies_eq] at h
  rw [List.countP_eq_zero] at h
  simpa using h r hr

/-- In a quiet, drained state every job has finished. -/
theorem terminal_of_drained {s : State} (hocc : s.occupied = 0)
    (hq : ∀ r ∈ s.jobs, (s.job r).snapshot.state ≠ .queued) {r : JobRef} (hr : r ∈ s.jobs) :
    taskTerminal (s.job r).snapshot.state = true := by
  have hno := not_occupying hocc hr
  have hne := hq r hr
  cases hs : (s.job r).snapshot.state <;>
    first | rfl | exact absurd hs hne | (rw [hs] at hno; cases hno)

theorem calm_of_frame {s t : State} (hclosed : t.closed = s.closed) (hposted : s.posted ≤ t.posted)
    (hocc : s.occupied ≤ t.occupied)
    (hqueued : ∀ r ∈ t.jobs, r ∈ s.jobs ∧ (t.job r).snapshot.state = (s.job r).snapshot.state)
    (hripe : ∀ tr ∈ t.teams, (t.team tr).stopped = false → ∀ i, t.Ripe tr i →
      tr ∈ s.teams ∧ (s.team tr).stopped = false ∧ s.Ripe tr i) : Calm s t := by
  intro ht
  have hp := ht.posted
  have ho := ht.occupied
  refine ⟨⟨hclosed.symm.trans ht.opened, by omega, by omega⟩, fun hd => ⟨fun r hr => ?_, ?_⟩⟩
  · rw [(hqueued r hr).2]
    exact hd.queued r (hqueued r hr).1
  · intro tr htr hstop i hi
    obtain ⟨hs, hstop, hi⟩ := hripe tr htr hstop i hi
    exact hd.ripe tr hs hstop i hi

theorem calm_setJob {s : State} (hreg : Registry s) {r : JobRef} {job : Job} (hr : r ∈ s.jobs)
    (hstate : job.snapshot.state = (s.job r).snapshot.state) : Calm s (s.setJob r job) := by
  refine calm_of_frame rfl (Nat.le_refl _) (Nat.le_of_eq ?_) (fun k hk => ⟨hk, ?_⟩)
    fun tr htr hstop i hi => ⟨htr, hstop, hi⟩
  · rw [occupied_eq_weigh, occupied_eq_weigh]
    exact (weigh_setJob_of_eq hreg _ hr (by rw [hstate])).symm
  · rw [job_setJob]
    split
    · next he => rw [he, hstate]
    · rfl

/-- Readiness only looks at the accepted entries. -/
theorem ready_mono {a b : Team} {task : TeamTaskSnapshot}
    (h : ∀ v ∈ b.work, v.snapshot.state = .accepted →
      ∃ u ∈ a.work, u.snapshot.key = v.snapshot.key ∧ u.snapshot.state = .accepted)
    (hready : b.ready task = true) : a.ready task = true := by
  simp only [Team.ready, List.all_eq_true] at hready ⊢
  intro d hd
  obtain ⟨v, hv, hvd⟩ := List.any_eq_true.mp (hready d hd)
  simp only [Bool.and_eq_true, beq_iff_eq] at hvd
  obtain ⟨u, hu, hkey, hacc⟩ := h v hv hvd.2
  exact List.any_eq_true.mpr ⟨u, hu, by simp [hkey, hvd.1, hacc]⟩

/-- A rewritten entry that neither waits anew nor becomes accepted. -/
theorem ripe_setWork {s : State} {tr : TeamRef} {i : Nat} {w w' : Team.Work}
    (hw : (s.team tr).work[i]? = some w) (hkey : w'.snapshot.key = w.snapshot.key)
    (hdeps : w'.snapshot.dependsOn = w.snapshot.dependsOn)
    (hwait : w'.snapshot.state = .waiting → w.snapshot.state = .waiting)
    (hacc : w'.snapshot.state = .accepted → w.snapshot.state = .accepted) {k : TeamRef} {j : Nat}
    (h : (s.setWork tr i w').Ripe k j) : s.Ripe k j := by
  obtain ⟨v, hv, hvwait, hvready⟩ := h
  rw [team_setWork] at hv hvready
  split at hv
  · next he =>
    subst he
    have hmono : ∀ task, Team.ready { s.team k with work := (s.team k).work.set i w' } task = true →
        (s.team k).ready task = true := by
      intro task
      refine ready_mono fun u hu hua => ?_
      obtain ⟨q, hq⟩ := List.getElem?_of_mem hu
      rcases getElem?_set_cases hw hq with ⟨-, rfl⟩ | ⟨-, hold⟩
      · exact ⟨w, List.mem_of_getElem? hw, hkey.symm, hacc hua⟩
      · exact ⟨u, List.mem_of_getElem? hold, rfl, hua⟩
    rw [if_pos rfl] at hvready
    rcases getElem?_set_cases hw hv with ⟨rfl, rfl⟩ | ⟨-, hold⟩
    · refine ⟨w, hw, hwait hvwait, ?_⟩
      have hr := hmono _ hvready
      unfold Team.ready at hr ⊢
      rwa [hdeps] at hr
    · exact ⟨v, hold, hvwait, hmono _ hvready⟩
  · next he =>
    rw [if_neg he] at hvready
    exact ⟨v, hv, hvwait, hvready⟩

theorem setWork_stopped (s : State) (tr : TeamRef) (i : Nat) (w : Team.Work) (k : TeamRef) :
    ((s.setWork tr i w).team k).stopped = (s.team k).stopped := by
  rw [team_setWork]
  split
  · next he => rw [he]
  · rfl

theorem calm_setTeam {s : State} (tr : TeamRef) {team : Team} (hwork : team.work = (s.team tr).work)
    (hstop : team.stopped = false → (s.team tr).stopped = false) : Calm s (s.setTeam tr team) := by
  refine calm_of_frame rfl (Nat.le_refl _) (Nat.le_refl _) (fun k hk => ⟨hk, rfl⟩)
    fun k hk hkstop i hi => ⟨hk, ?_⟩
  obtain ⟨w, hw, hwait, hready⟩ := hi
  rw [team_setTeam] at hkstop hw hready
  split at hkstop
  · next he =>
    subst he
    rw [if_pos rfl] at hw hready
    rw [hwork] at hw
    refine ⟨hstop hkstop, w, hw, hwait, ?_⟩
    unfold Team.ready at hready ⊢
    rwa [hwork] at hready
  · next he =>
    rw [if_neg he] at hw hready
    exact ⟨hkstop, w, hw, hwait, hready⟩

/-- Without the grant to advance, a move leaves nothing new to a pump. -/
theorem calm_move {G : Grant} {s t : State} (hG : ¬ G.advances) (hledger : Ledger s)
    (hm : Move G s t) : Calm s t := by
  obtain ⟨hreg, hagree⟩ := hledger
  cases hm with
  | clock tick posted joining taken =>
    refine calm_of_frame rfl ?_ (Nat.le_refl _) (fun k hk => ⟨hk, rfl⟩)
      fun k hk hstop i hi => ⟨hk, hstop, hi⟩
    by_contra hlt
    exact hG (taken (Nat.lt_of_not_le hlt))
  | close => exact .of_not_quiet fun h => by cases h.opened
  | reclaim keep gone =>
    refine calm_of_frame rfl (Nat.le_refl _) (Nat.le_of_eq ?_)
      (fun k hk => ⟨List.mem_of_mem_filter hk, rfl⟩) fun k hk hstop i hi => ⟨hk, hstop, hi⟩
    rw [occupied_eq_weigh, occupied_eq_weigh]
    refine (Heap.weigh_filter fun r hr hk => ?_).symm
    change ((s.job r).snapshot.state.occupies).toNat = 0
    rw [occupies_of_terminal (gone r hr hk).1]
    rfl
  | acknowledge r listed => exact calm_setJob hreg listed rfl
  | flag r claimed acknowledged grant listed => exact calm_setJob hreg listed rfl
  | settle r shown kept hset =>
    -- Had nothing been under way before, no job would have been live.
    have hocc := weigh_settled hreg
      (fun j => j.snapshot.state.occupies.toNat) shown kept hset.listed
    rw [← occupied_eq_weigh, ← occupied_eq_weigh, hset.snapshot] at hocc
    have hle : (s.job r).snapshot.state.occupies.toNat ≤ shown.snapshot.state.occupies.toNat := by
      cases ho : (s.job r).snapshot.state.occupies with
      | false => exact Nat.zero_le _
      | true =>
        cases hf : shown.snapshot.state.occupies with
        | true => exact Nat.le_refl _
        | false => exact absurd (hset.frees ho hf).1 hG
    intro ht
    have hzero : s.occupied = 0 := by
      have := ht.occupied
      omega
    have hposted : (s.settled r shown kept).posted = s.posted := by simp [settled]
    refine ⟨⟨by rw [← ht.opened, settled_closed], hposted ▸ ht.posted, hzero⟩, fun hd => ?_⟩
    have hterm := terminal_of_drained hzero hd.queued hset.listed
    rw [live_of_next hset.change] at hterm
    cases hterm
  | enqueue job => exact .of_not_quiet fun h => Nat.succ_ne_zero _ h.posted
  | dispatch => exact .of_not_quiet fun h => Nat.succ_ne_zero _ h.posted
  | edit tr i w w' current entry hedit =>
    have hr := hedit.rewrite (hagree.boards tr current) (List.mem_of_getElem? entry)
    refine calm_of_frame rfl (Nat.le_refl _) (Nat.le_refl _) (fun k hk => ⟨hk, rfl⟩)
      fun k hk hstop j hj => ⟨hk, (setWork_stopped s tr i w' k).symm.trans hstop, ?_⟩
    refine ripe_setWork entry hr.key hr.dependsOn (fun hwait => ?_) (fun hacc => ?_) hj
    · cases hedit with
      | cancel => cases hwait
      | accept => cases hwait
      | note => exact hwait
      | fail => cases hwait
      | revise feedback turn grant => exact absurd grant hG
    · cases hedit with
      | cancel => cases hacc
      | accept feedback grant => exact absurd grant hG
      | note => exact hacc
      | fail => cases hacc
      | revise => cases hacc
  | submit tr request turn grant => exact absurd grant hG
  | stop tr => exact calm_setTeam tr rfl fun h => by cases h
  | join tr => exact calm_setTeam tr rfl fun h => h
  | mail tr => exact calm_setTeam tr rfl fun h => h
  | found keep team gone owner names work =>
    have hold : ∀ tr ∈ s.teams, (s.teamHeap.alloc team).get tr = s.team tr := fun tr htr =>
      Heap.get_alloc_of_lt _ (hreg.teams_lt tr htr) _
    refine calm_of_frame rfl (Nat.le_refl _) (Nat.le_refl _) (fun k hk => ⟨hk, rfl⟩) ?_
    intro k hk hstop i hi
    obtain ⟨w, hw, hwait, hready⟩ := hi
    change ((s.teamHeap.alloc team).get k).stopped = false at hstop
    change ((s.teamHeap.alloc team).get k).work[i]? = some w at hw
    change ((s.teamHeap.alloc team).get k).ready w.snapshot = true at hready
    rcases List.mem_append.mp hk with hk | hk
    · have hk := List.mem_of_mem_filter hk
      rw [hold k hk] at hstop hw hready
      exact ⟨hk, hstop, w, hw, hwait, hready⟩
    · rw [List.mem_singleton.mp hk, Heap.get_alloc_next, work] at hw
      simp at hw

theorem calm_path {G : Grant} {s t : State} (hG : ¬ G.advances) (hledger : Ledger s)
    (hp : Path G s t) : Calm s t :=
  run_relates (r := Move G) (I := Ledger) (Q := Calm) (fun _ _ => ledger_move) Calm.refl
    (fun _ _ _ => Calm.trans) (fun _ _ => calm_move hG) hp hledger

theorem prune_unfinished (s : State) : s.prune.unfinished = s.unfinished := by
  rw [unfinished_eq_weigh, unfinished_eq_weigh]
  refine Heap.weigh_filter fun r _ hk => ?_
  change (!taskTerminal (s.job r).snapshot.state).toNat = 0
  simp only [Bool.not_eq_eq_eq_not, Bool.not_false, expired, Bool.and_eq_true] at hk
  rw [hk.1.1.1]
  rfl

theorem live_of_unfinished_zero {s : State} (h : s.unfinished = 0) {r : JobRef} (hr : r ∈ s.jobs) :
    taskTerminal (s.job r).snapshot.state = true := by
  unfold unfinished at h
  rw [List.countP_eq_zero] at h
  simpa using h r hr

/-- A scan that dispatches nothing while no job is live. -/
structure Scan (s t : State) : Prop where
  path : Path Grant.none s t
  teams : t.teams = s.teams
  closed : t.closed = s.closed
  posted : t.posted = s.posted
  unfinished : t.unfinished = s.unfinished
  stopped : ∀ k, (t.team k).stopped = (s.team k).stopped
  ripe : ∀ k i, t.Ripe k i → s.Ripe k i

theorem Scan.refl (s : State) : Scan s s :=
  ⟨.refl, rfl, rfl, rfl, rfl, fun _ => rfl, fun _ _ h => h⟩

theorem Scan.trans {s t u : State} (h₁ : Scan s t) (h₂ : Scan t u) : Scan s u :=
  ⟨h₁.path.trans h₂.path, h₂.teams.trans h₁.teams, h₂.closed.trans h₁.closed,
    h₂.posted.trans h₁.posted, h₂.unfinished.trans h₁.unfinished,
    fun k => (h₂.stopped k).trans (h₁.stopped k), fun k i h => h₁.ripe k i (h₂.ripe k i h)⟩

/-- Nothing is lost from the two counters during the scan. -/
structure Grows (s t : State) : Prop where
  posted : s.posted ≤ t.posted
  unfinished : s.unfinished ≤ t.unfinished

theorem Grows.refl (s : State) : Grows s s := ⟨Nat.le_refl _, Nat.le_refl _⟩

theorem Grows.trans {s t u : State} (h₁ : Grows s t) (h₂ : Grows t u) : Grows s u :=
  ⟨Nat.le_trans h₁.posted h₂.posted, Nat.le_trans h₁.unfinished h₂.unfinished⟩

theorem unfinished_prune_pushJob {s : State} (hreg : Registry s) {job : Job}
    (hqueued : job.snapshot.state = .queued) :
    (s.prune.read.prune.pushJob job).unfinished = s.unfinished + 1 := by
  have hreg' : Registry s.prune.read.prune := by
    have hp : Path Grant.none s s.prune.read.prune :=
      ((path_prune s).trans (path_read _)).trans (path_prune _)
    exact run_invariant (r := Move Grant.none) (I := Registry) (fun _ _ => registry_move) hp hreg
  rw [unfinished_pushJob hreg' hqueued, prune_unfinished]
  change s.prune.unfinished + 1 = _
  rw [prune_unfinished]

theorem pumpWork_grows {s : State} (hreg : Registry s) (tr : TeamRef) (i : Nat) :
    Grows s (s.pumpWork tr i).2 := by
  have h := pumpWork_scanned s tr i
  generalize s.pumpWork tr i = out at h
  have hread : (s.prune.read).unfinished = s.unfinished := prune_unfinished s
  cases h with
  | skipped => exact .refl s
  | full => exact ⟨Nat.le_refl _, Nat.le_of_eq (prune_unfinished s).symm⟩
  | failed w kind t entry waiting ht =>
    rcases ht with rfl | rfl
    · exact ⟨Nat.le_refl _, Nat.le_of_eq hread.symm⟩
    · refine ⟨Nat.le_refl _, Nat.le_of_eq ?_⟩
      change _ = s.prune.read.prune.unfinished
      rw [prune_unfinished, hread]
  | dispatched w member id =>
    refine ⟨Nat.le_succ _, ?_⟩
    change _ ≤ (s.prune.read.prune.pushJob (teamJob s.prune tr member w id)).unfinished
    rw [unfinished_prune_pushJob hreg rfl]
    exact Nat.le_succ _

/-- With no live job, the scan of an entry dispatches it or leaves it not ripe. -/
theorem pumpWork_scan {s : State} (h : Sound s) (hopen : s.closed = false)
    (hmax : 0 < s.options.maxRunning) (hnone : s.unfinished = 0) {tr : TeamRef} (htr : tr ∈ s.teams)
    (i : Nat) : s.posted < (s.pumpWork tr i).2.posted ∨
      ((s.pumpWork tr i).1 = false ∧ Scan s (s.pumpWork tr i).2 ∧
        ¬ (s.pumpWork tr i).2.Ripe tr i) := by
  have hpath := path_pumpWork (G := Grant.none) i htr
  have hgrows := pumpWork_grows h.ledger.1 tr i
  have hs := pumpWork_scanned s tr i
  generalize s.pumpWork tr i = out at hs hpath hgrows
  cases hs with
  | skipped hskip =>
    refine .inr ⟨rfl, .refl s, fun ⟨w, hw, hwait, hready⟩ => ?_⟩
    have hmem : w ∈ (s.team tr).work := List.mem_of_getElem? hw
    rcases hskip w hw hwait hready with hmember | hbusy
    · obtain ⟨m, hm, hname⟩ := h.staffed tr htr w hmem
      exact hmember m hm hname
    · -- An active entry of the member would have a live job.
      obtain ⟨v, hv, hact⟩ := List.any_eq_true.mp hbusy
      simp only [Bool.and_eq_true] at hact
      obtain ⟨r, hr, hl⟩ := h.ledger.2.run tr htr v hv hact.2
      have hterm := live_of_unfinished_zero hnone hr
      rw [(live_of_sameName hl.2.state).1] at hterm
      cases hterm
  | full w entry waiting room =>
    -- The record is reserved and the unfinished bound is positive.
    have hsound := sound_path h (path_prune (G := Grant.none) s)
    have hrecord := hsound.reservation.hasRecordCapacity hopen
      (waiting_pos htr (List.mem_of_getElem? entry) waiting)
    have hroom := hasCapacity_iff.mpr ⟨hrecord, show s.prune.unfinished <
      s.options.maxRunning + s.options.maxQueued by rw [prune_unfinished]; omega⟩
    rw [room] at hroom
    cases hroom
  | failed w kind t entry waiting ht =>
    have hteam : ∀ k, t.team k = s.team k := fun k => by rcases ht with rfl | rfl <;> rfl
    have hentry : (t.team tr).work[i]? = some w := by rw [hteam]; exact entry
    refine .inr ⟨rfl, ⟨hpath, ?_, ?_, ?_, ?_, ?_, ?_⟩, ?_⟩
    · rcases ht with rfl | rfl <;> rfl
    · rcases ht with rfl | rfl <;> rfl
    · rcases ht with rfl | rfl <;> rfl
    · have hle : (t.setWork tr i (w.fail kind)).unfinished = t.unfinished := rfl
      rw [hle]
      have hread : (s.prune.read).unfinished = s.unfinished := prune_unfinished s
      rcases ht with rfl | rfl
      · exact hread
      · rw [prune_unfinished, hread]
    · intro k
      rw [setWork_stopped, hteam]
    · intro k j hj
      have hold : t.Ripe k j :=
        ripe_setWork (s := t) hentry (by rfl) (by rfl) (fun hw => by cases hw)
        (fun hw => by cases hw) hj
      unfold Ripe at hold ⊢
      rwa [hteam] at hold
    · rintro ⟨v, hv, hwait, -⟩
      rw [team_setWork_self, getElem?_set_of_some hentry, if_pos rfl] at hv
      rw [← Option.some.inj hv] at hwait
      cases hwait
  | dispatched => exact .inl (Nat.lt_succ_self _)

theorem pumpBoard_grows {tr : TeamRef} (l : List Nat) {s : State} (hreg : Registry s)
    (htr : tr ∈ s.teams) : Grows s (pumpBoard tr l s).2 := by
  induction l generalizing s with
  | nil => exact .refl s
  | cons i rest ih =>
    have hg := pumpWork_grows hreg tr i
    have hp := path_pumpWork (G := Grant.none) i htr
    have ht := pumpWork_teams s tr i
    unfold pumpBoard
    split
    · next hq => rw [hq] at hg; exact hg
    · next hq =>
      rw [hq] at hg hp ht
      have hreg' := run_invariant (r := Move Grant.none) (I := Registry)
        (fun _ _ => registry_move) hp hreg
      exact hg.trans (ih hreg' (ht ▸ htr))

/-- The scan of one board. -/
theorem pumpBoard_scan {tr : TeamRef} (l : List Nat) {s : State} (h : Sound s)
    (hopen : s.closed = false) (hmax : 0 < s.options.maxRunning) (hnone : s.unfinished = 0)
    (htr : tr ∈ s.teams) : s.posted < (pumpBoard tr l s).2.posted ∨
      ((pumpBoard tr l s).1 = false ∧ Scan s (pumpBoard tr l s).2 ∧
        ∀ i ∈ l, ¬ (pumpBoard tr l s).2.Ripe tr i) := by
  induction l generalizing s with
  | nil => exact .inr ⟨rfl, .refl s, fun i hi => by cases hi⟩
  | cons i rest ih =>
    have hpath := path_pumpWork (G := Grant.none) i htr
    have hteams := pumpWork_teams s tr i
    have hstep := pumpWork_scan h hopen hmax hnone htr i
    unfold pumpBoard
    generalize s.pumpWork tr i = out at hpath hteams hstep
    obtain ⟨b, u⟩ := out
    have hsound := sound_path h hpath
    have hgrows := pumpBoard_grows rest hsound.ledger.1 (hteams ▸ htr)
    rcases hstep with hlt | ⟨hb, hscan, hripe⟩
    · cases b with
      | true => exact .inl hlt
      | false => exact .inl (Nat.lt_of_lt_of_le hlt hgrows.posted)
    · dsimp only at hb
      subst hb
      have hsvc := path_svc hpath
      have hrest := ih hsound (hscan.closed.trans hopen)
        (by rw [show u.options = s.options from congrArg Service.options hsvc]; exact hmax)
        (hscan.unfinished.trans hnone) (hteams ▸ htr)
      rcases hrest with hlt | ⟨hb, hscan', hripe'⟩
      · exact .inl (Nat.lt_of_le_of_lt (Nat.le_of_eq hscan.posted.symm) hlt)
      · refine .inr ⟨hb, hscan.trans hscan', fun j hj hr => ?_⟩
        rcases List.mem_cons.mp hj with rfl | hj
        · exact hripe (hscan'.ripe tr j hr)
        · exact hripe' j hj hr

theorem pumpBoards_grows (l : List TeamRef) {s : State} (hreg : Registry s)
    (hl : ∀ tr ∈ l, tr ∈ s.teams) : Grows s (pumpBoards l s) := by
  induction l generalizing s with
  | nil => exact .refl s
  | cons tr rest ih =>
    have htr := hl tr List.mem_cons_self
    have hrest : ∀ k ∈ rest, k ∈ s.teams := fun k hk => hl k (List.mem_cons_of_mem tr hk)
    have hg := pumpBoard_grows (List.range (s.team tr).work.length) hreg htr
    have hp := path_pumpBoard (G := Grant.none) (List.range (s.team tr).work.length) htr
    have ht := pumpBoard_teams tr (List.range (s.team tr).work.length) s
    unfold pumpBoards
    split_ifs
    · exact ih hreg hrest
    · generalize pumpBoard tr (List.range (s.team tr).work.length) s = out at hg hp ht
      obtain ⟨b, u⟩ := out
      have hreg' := run_invariant (r := Move Grant.none) (I := Registry)
        (fun _ _ => registry_move) hp hreg
      cases b with
      | true => exact hg
      | false => exact hg.trans (ih hreg' fun k hk => ht ▸ hrest k hk)

/-- The scan of all boards: a dispatch, or nothing ripe is left on the given ones. -/
theorem pumpBoards_scan (l : List TeamRef) {s : State} (h : Sound s) (hopen : s.closed = false)
    (hmax : 0 < s.options.maxRunning) (hnone : s.unfinished = 0) (hl : ∀ tr ∈ l, tr ∈ s.teams) :
    s.posted < (pumpBoards l s).posted ∨
      (Scan s (pumpBoards l s) ∧ ∀ tr ∈ l, (s.team tr).stopped = false → ∀ i,
        ¬ (pumpBoards l s).Ripe tr i) := by
  induction l generalizing s with
  | nil => exact .inr ⟨.refl s, fun tr htr => by cases htr⟩
  | cons tr rest ih =>
    have htr := hl tr List.mem_cons_self
    have hrest : ∀ k ∈ rest, k ∈ s.teams := fun k hk => hl k (List.mem_cons_of_mem tr hk)
    have hpath := path_pumpBoard (G := Grant.none) (List.range (s.team tr).work.length) htr
    have hteams := pumpBoard_teams tr (List.range (s.team tr).work.length) s
    have hstep := pumpBoard_scan (List.range (s.team tr).work.length) h hopen hmax hnone htr
    unfold pumpBoards
    split_ifs with hstop
    · rcases ih h hopen hmax hnone hrest with hlt | ⟨hscan, hripe⟩
      · exact .inl hlt
      · refine .inr ⟨hscan, fun k hk hks => ?_⟩
        rcases List.mem_cons.mp hk with rfl | hk
        · rw [hstop] at hks
          cases hks
        · exact hripe k hk hks
    · generalize pumpBoard tr (List.range (s.team tr).work.length) s = out at hpath hteams hstep
      obtain ⟨b, u⟩ := out
      have hsound := sound_path h hpath
      have hrest' : ∀ k ∈ rest, k ∈ u.teams := fun k hk => hteams ▸ hrest k hk
      have hgrows := pumpBoards_grows rest hsound.ledger.1 hrest'
      rcases hstep with hlt | ⟨hb, hscan, hripe⟩
      · cases b with
        | true => exact .inl hlt
        | false => exact .inl (Nat.lt_of_lt_of_le hlt hgrows.posted)
      · dsimp only at hb
        subst hb
        have hsvc := path_svc hpath
        have hnext := ih hsound (hscan.closed.trans hopen)
          (by rw [show u.options = s.options from congrArg Service.options hsvc]; exact hmax)
          (hscan.unfinished.trans hnone) hrest'
        rcases hnext with hlt | ⟨hscan', hripe'⟩
        · exact .inl (Nat.lt_of_le_of_lt (Nat.le_of_eq hscan.posted.symm) hlt)
        · refine .inr ⟨hscan.trans hscan', fun k hk hks i hi => ?_⟩
          rcases List.mem_cons.mp hk with rfl | hk
          · have hu := hscan'.ripe k i hi
            have hs := hscan.ripe k i hu
            obtain ⟨w, hw, -⟩ := hs
            exact hripe i (List.mem_range.mpr (List.getElem?_eq_some_iff.mp hw).1) hu
          · exact hripe' k hk ((hscan.stopped k).trans hks) i hi

/-- An idle service that launches nothing has no queued job. -/
theorem pumpJobs_idle (l : List JobRef) {s : State} (hmax : 0 < s.options.maxRunning) :
    s.active ≤ (pumpJobs l s).active ∧
      ((pumpJobs l s).active = 0 → pumpJobs l s = s ∧ ∀ r ∈ l,
        (s.job r).snapshot.state ≠ .queued) := by
  induction l generalizing s with
  | nil => exact ⟨Nat.le_refl _, fun _ => ⟨rfl, fun r hr => by cases hr⟩⟩
  | cons r rest ih =>
    rw [pumpJobs_cons]
    split_ifs with hfull hq
    · exact ⟨Nat.le_refl _, fun hzero => by omega⟩
    · obtain ⟨hle, hidle⟩ := ih hmax
      refine ⟨hle, fun hzero => ⟨(hidle hzero).1, fun k hk => ?_⟩⟩
      rcases List.mem_cons.mp hk with rfl | hk
      · simpa using hq
      · exact (hidle hzero).2 k hk
    · have hsvc : (s.launch r).svc = s.svc := by simp [launch]
      have hact : (s.launch r).active = s.active + 1 := by simp [launch]
      obtain ⟨hle, -⟩ := ih (s := s.launch r) (by unfold options; rw [hsvc]; exact hmax)
      exact ⟨by omega, fun hzero => by omega⟩

/-- After a pump, a quiet service has nothing left to do. -/
theorem pump_drained {s : State} (h : Sound s) (hmax : 0 < s.options.maxRunning)
    (hquiet : s.pump.Quiet) : s.pump.Drained := by
  have hsound := sound_path h (path_pump (G := Grant.none) s)
  by_cases hclosed : s.closed = true
  · have hpump : s.pump = s := by unfold pump; rw [if_pos hclosed]
    rw [hpump] at hquiet
    rw [hquiet.opened] at hclosed
    cases hclosed
  have hopen : s.closed = false := by simpa using hclosed
  have hpump : s.pump = pumpJobs s.pumpTeams.jobs s.pumpTeams := by
    unfold pump
    rw [if_neg hclosed]
  have hteams : s.pumpTeams = pumpBoards s.teams s := by
    unfold pumpTeams
    rw [if_neg hclosed]
  have hgrows := pumpBoards_grows s.teams h.ledger.1 fun tr htr => htr
  have hscan := pumpBoards_scan s.teams h hopen hmax
  rw [← hteams] at hgrows
  simp only [← hteams] at hscan
  have hmax' : 0 < s.pumpTeams.options.maxRunning := by
    have hsvc := path_svc (path_pumpTeams (G := Grant.none) s)
    rw [show s.pumpTeams.options = s.options from congrArg Service.options hsvc]
    exact hmax
  have hzero : s.pump.active = 0 := by rw [hsound.reservation.active]; exact hquiet.occupied
  obtain ⟨-, hidle⟩ := pumpJobs_idle s.pumpTeams.jobs hmax'
  rw [← hpump] at hidle
  obtain ⟨hsame, hqueued⟩ := hidle hzero
  rw [hsame] at hquiet ⊢
  -- No job is live after the scan, so none was before it.
  have hnone' : s.pumpTeams.unfinished = 0 := by
    unfold unfinished
    rw [List.countP_eq_zero]
    intro r hr
    rw [terminal_of_drained hquiet.occupied hqueued hr]
    decide
  have hnone : s.unfinished = 0 := Nat.le_zero.mp (hnone' ▸ hgrows.unfinished)
  rcases hscan hnone fun tr htr => htr with hlt | ⟨hscan, hripe⟩
  · rw [hquiet.posted] at hlt
    exact absurd hlt (Nat.not_lt_zero _)
  · refine ⟨hqueued, fun tr htr hstop => ?_⟩
    exact hripe tr (hscan.teams ▸ htr) ((hscan.stopped tr).symm.trans hstop)

/-- A refused task only prunes. -/
theorem submitTeamTask_error {s t : State} {tr : TeamRef} {request : TeamTaskCreateRequest}
    {turn : Option TurnId} {e : Error} (h : s.submitTeamTask tr request turn = (.error e, t)) :
    t = s ∨ t = s.prune := by
  unfold submitTeamTask at h
  dsimp only at h
  split at h
  · cases h; exact .inl rfl
  split at h
  · cases h; exact .inl rfl
  split at h
  · cases h; exact .inl rfl
  split at h
  · cases h; exact .inl rfl
  split at h
  · cases h; exact .inl rfl
  split at h
  · cases h; exact .inr rfl
  · cases h

/-- A refused review only prunes. -/
theorem updateTeamTask_error {s t : State} {tr : TeamRef} {request : TeamTaskUpdateRequest}
    {turn : Option TurnId} {e : Error} (h : s.updateTeamTask tr request turn = (.error e, t)) :
    t = s ∨ t = s.prune := by
  have hreviewed := s.updateTeamTask_reviewed tr request turn
  rw [h] at hreviewed
  cases hreviewed with
  | refused => exact .inl rfl
  | full => exact .inr rfl

/-- A task command ends in a pump, or only pruned. -/
theorem teamCommand_pumped {s : State} {parent : AgentSessionOptions} {command : TeamCommand}
    {context : DispatchContext} (h : (Op.teamCommand parent command context).advances = true) :
    (s.teamCommand parent command context).2 = s ∨
    (s.teamCommand parent command context).2 = s.prune ∨
    ∃ t, Path .all s t ∧ (s.teamCommand parent command context).2 = t.pump := by
  have herror : ∀ e t, s.teamRequest parent command context = (.error e, t) → t = s ∨
      t = s.prune := by
    intro e t ht
    cases command with
    | taskCreate request =>
      unfold teamRequest at ht
      dsimp only at ht
      split at ht
      · cases ht; exact .inl rfl
      split at ht
      · next hq => cases ht; exact submitTeamTask_error hq
      · cases ht
    | taskUpdate request =>
      unfold teamRequest at ht
      dsimp only at ht
      split at ht
      · cases ht; exact .inl rfl
      split at ht
      · next hq => cases ht; exact updateTeamTask_error hq
      · cases ht
    | _ => cases h
  have hreading : command.reading = false := by cases command <;> first | rfl | cases h
  unfold teamCommand
  split
  · exact .inl rfl
  split
  · exact .inl rfl
  next hvalid =>
  have hvalid := valid_of_validateTeamCommand hvalid
  split
  · exact .inl rfl
  split
  · cases h
  split
  · next e t hq =>
    rcases herror e t hq with ht | ht
    · exact .inl ht
    · exact .inr (.inl ht)
  next window t hq =>
  have hp := path_teamRequest s parent context hvalid
  rw [hq] at hp
  refine .inr (.inr ⟨t, hp.mono (Grant.le_all _), ?_⟩)
  dsimp only
  rw [hreading]
  split <;> rfl

/-- The service is never quiet with work left. -/
def Awake (s : State) : Prop := s.Quiet → s.Drained

theorem Calm.awake {s t : State} (h : Calm s t) (hs : s.Awake) : t.Awake := fun ht =>
  have ⟨hq, hd⟩ := h ht
  hd (hs hq)

theorem awake_apply {s : State} (h : Sound s) (hmax : 0 < s.options.maxRunning) (hawake : s.Awake)
    {op : Op} (hop : s.Enabled op) : (s.apply op).Awake := by
  cases hadv : op.advances with
  | false =>
    have hG : ¬ (op.grant s).advances := fun hG => by
      have hG : op.advances = true := hG
      rw [hadv] at hG
      cases hG
    exact (calm_path hG h.ledger (path_apply hop)).awake hawake
  | true =>
    cases op with
    | pump =>
      have hp : Path .all s { s with posted := s.posted - 1 } :=
        .single (.clock s.tick (s.posted - 1) s.joining fun _ => trivial)
      exact pump_drained (sound_path h hp) hmax
    | monitor r joined outcome =>
      intro hquiet
      have hposted : (s.monitor r joined outcome).posted = s.posted + 1 := by simp [monitor]
      exact absurd (hposted.symm.trans hquiet.posted) (Nat.succ_ne_zero _)
    | teamCommand parent command context =>
      rcases teamCommand_pumped (s := s) hadv with he | he | ⟨t, hp, he⟩
      · change (s.teamCommand parent command context).2.Awake
        rw [he]
        exact hawake
      · change (s.teamCommand parent command context).2.Awake
        rw [he]
        exact (calm_path (G := Grant.none) (fun h => h) h.ledger (path_prune s)).awake hawake
      · change (s.teamCommand parent command context).2.Awake
        rw [he]
        refine pump_drained (sound_path h hp) ?_
        rw [show t.options = s.options from congrArg Service.options (path_svc hp)]
        exact hmax
    | _ => cases hadv

end State

theorem maxRunning_pos {options : BackgroundTaskOptions} (h : options.valid = true) :
    0 < options.maxRunning := by
  by_contra hzero
  have hzero : options.maxRunning = 0 := by omega
  simp [BackgroundTaskOptions.valid, hzero] at h

theorem awake_reachable {svc : Service} {s : State} (hs : State.Reachable svc s) :
    Sound s ∧ s.svc = svc ∧ s.Awake := by
  obtain ⟨s₀, hcreate, hrun⟩ := hs
  obtain ⟨rfl, hvalid⟩ := State.create_ok hcreate
  refine run_invariant (r := State.Step) (I := fun u => Sound u ∧ u.svc = svc ∧ u.Awake) ?_ hrun ?_
  · rintro u v ⟨hsound, hsvc, hawake⟩ ⟨op, hop, rfl⟩
    have hp := State.path_apply hop
    refine ⟨sound_path hsound hp, (path_svc hp).trans hsvc, State.awake_apply hsound ?_ hawake hop⟩
    rw [show u.options = svc.options from congrArg Service.options hsvc]
    exact maxRunning_pos hvalid
  · refine ⟨sound_empty svc, rfl, fun _ => ⟨fun r hr => ?_, fun tr htr => ?_⟩⟩
    · cases hr
    · cases htr

/-- With no pump event pending and no job running or cancelling, an open service
has neither a queued job nor a board entry that could be dispatched. -/
theorem no_stuck_work {svc : Service} {s : State} (hs : State.Reachable svc s)
    (hopen : s.closed = false) (hposted : s.posted = 0)
    (hidle : ∀ r ∈ s.jobs, (s.job r).snapshot.state ≠ .running ∧
      (s.job r).snapshot.state ≠ .cancelling) :
    (∀ r ∈ s.jobs, (s.job r).snapshot.state ≠ .queued) ∧
    ∀ tr ∈ s.teams, (s.team tr).stopped = false → ∀ w ∈ (s.team tr).work,
      w.snapshot.state = .waiting → (s.team tr).ready w.snapshot = false := by
  obtain ⟨-, -, hawake⟩ := awake_reachable hs
  have hocc : s.occupied = 0 := by
    unfold State.occupied
    rw [List.countP_eq_zero]
    intro r hr
    simp [(hidle r hr).1, (hidle r hr).2]
  have hd := hawake ⟨hopen, hposted, hocc⟩
  refine ⟨hd.queued, fun tr htr hstop w hw hwait => ?_⟩
  by_contra hready
  obtain ⟨i, hi⟩ := List.getElem?_of_mem hw
  exact hd.ripe tr htr hstop i ⟨w, hi, hwait, by simpa using hready⟩

/-- The small service at rest: one report in review, its dependent not ready. -/
theorem no_stuck_work_review :
    (State.sample false State.sampleReview).waiting = 1 ∧
    ∀ tr ∈ (State.sample false State.sampleReview).teams,
      ((State.sample false State.sampleReview).team tr).stopped = false →
      ∀ w ∈ ((State.sample false State.sampleReview).team tr).work, w.snapshot.state = .waiting →
        ((State.sample false State.sampleReview).team tr).ready w.snapshot = false := by
  have hs : State.Reachable (State.sampleService false) (State.sample false State.sampleReview) :=
    State.reachable_applyAll (by decide) (by decide +kernel)
  refine ⟨by decide +kernel, (no_stuck_work hs ?_ ?_ ?_).2⟩
  · decide +kernel
  · decide +kernel
  · decide +kernel

end Orangutan.Bootstrap
