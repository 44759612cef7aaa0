import Orangutan.Bootstrap.Paths

/-!
# Every operation of the service is a run of moves

The board commands, the public operations and the timers, each with the
completion flags it may touch.
-/

namespace Orangutan.Bootstrap

set_option autoImplicit false

open Orangutan.Core Orangutan.Lib Orangutan.Tool Relation

theorem boardState_ne_accepted (state : TaskState) : boardState state ≠ .accepted := by
  cases state <;> simp [boardState]

theorem reportedTask_state (task : TeamTaskSnapshot) (job : Job) :
    (reportedTask task job).state = boardState job.snapshot.state := by
  unfold reportedTask
  split <;> rfl

namespace State

variable {G : Grant}

theorem path_tick (s : State) (n : Nat) : Path G s { s with tick := n } :=
  .single (.clock n s.posted s.joining fun h => absurd h (Nat.lt_irrefl _))

/-- Admission of a member reads the environment and extends the given team. -/
theorem addTeamMember_cases (s : State) (parent : AgentSessionOptions) (team : Team)
    (specification : TeamMemberSpec) (context : DispatchContext) :
    ∃ n, (∃ e, s.addTeamMember parent team specification context =
      (.error e, { s with tick := n })) ∨
      ∃ id, s.addTeamMember parent team specification context =
        (.ok { team with members := team.members ++ [Team.newMember specification id] },
          { s with tick := n }) ∧
        ∀ m ∈ team.members, m.snapshot.name ≠ specification.name := by
  unfold addTeamMember
  split_ifs with hstop hfull hname
  · exact ⟨s.tick, .inl ⟨_, rfl⟩⟩
  · exact ⟨s.tick, .inl ⟨_, rfl⟩⟩
  · exact ⟨s.tick, .inl ⟨_, rfl⟩⟩
  split
  · exact ⟨s.tick, .inl ⟨_, rfl⟩⟩
  split
  · exact ⟨s.tick + 1, .inl ⟨_, rfl⟩⟩
  · exact ⟨s.tick + 2, .inl ⟨_, rfl⟩⟩
  · exact ⟨s.tick + 3, .inl ⟨_, rfl⟩⟩
  · next id _ _ _ _ _ =>
    refine ⟨s.tick + 3, .inr ⟨id, rfl, fun m hm he => hname ?_⟩⟩
    exact List.any_eq_true.mpr ⟨m, hm, by simp [he]⟩

theorem addTeamMembers_cases (parent : AgentSessionOptions) (context : DispatchContext)
    (specifications : List TeamMemberSpec) (team : Team) (s : State) :
    ∃ n, (∃ e, addTeamMembers parent context specifications team s =
      (.error e, { s with tick := n })) ∨
      ∃ members, addTeamMembers parent context specifications team s =
        (.ok { team with members }, { s with tick := n }) ∧
        ∀ m ∈ members, m ∈ team.members ∨ ∃ c ∈ specifications, m.snapshot.name = c.name := by
  induction specifications generalizing team s with
  | nil => exact ⟨s.tick, .inr ⟨team.members, rfl, fun m hm => .inl hm⟩⟩
  | cons c rest ih =>
    unfold addTeamMembers
    obtain ⟨n, ⟨e, h⟩ | ⟨id, h, -⟩⟩ := addTeamMember_cases s parent team c context
    · rw [h]
      exact ⟨n, .inl ⟨e, rfl⟩⟩
    · rw [h]
      obtain ⟨k, ⟨e, hrest⟩ | ⟨members, hrest, hmem⟩⟩ := ih
        { team with members := team.members ++ [Team.newMember c id] } { s with tick := n }
      · exact ⟨k, .inl ⟨e, hrest⟩⟩
      · refine ⟨k, .inr ⟨members, hrest, fun m hm => ?_⟩⟩
        rcases hmem m hm with hold | ⟨c', hc', hname⟩
        · rcases List.mem_append.mp hold with hm' | hm'
          · exact .inl hm'
          · obtain rfl := List.mem_singleton.mp hm'
            exact .inr ⟨c, List.mem_cons_self, rfl⟩
        · exact .inr ⟨c', List.mem_cons_of_mem c hc', hname⟩

theorem findTeam_spec {s : State} {owner : TaskOwner} {tr : TeamRef}
    (h : s.findTeam owner = some tr) : tr ∈ s.teams ∧ (s.team tr).owner = owner :=
  ⟨List.mem_of_find?_eq_some h, by simpa using List.find?_some h⟩

theorem find_spec {s : State} {owner : TaskOwner} {id : Bytes} {r : JobRef}
    (h : s.find owner id = some r) :
    r ∈ s.jobs ∧ (s.job r).owner = owner ∧ (s.job r).snapshot.taskId = id :=
  ⟨List.mem_of_find?_eq_some h, by simpa using List.find?_some h⟩

theorem path_createTeam (s : State) (parent : AgentSessionOptions) {request : TeamCreateRequest}
    (context : DispatchContext) (hvalid : (TeamCommand.create request).valid = true) :
    Path G s (s.createTeam parent request context).2 := by
  have hnames : ∀ c ∈ request.members, keyValid c.name = true := by
    simp only [TeamCommand.valid, Bool.and_eq_true, List.all_eq_true] at hvalid
    intro c hc
    have hc := hvalid.1.2 c hc
    simp only [memberValid, Bool.and_eq_true] at hc
    exact hc.1.1.1
  unfold createTeam
  dsimp only
  generalize hret : (if ((s.findTeam (taskOwner parent)).isNone && decide (16 ≤ s.teams.length)) =
    true
    then s.teams.find? s.retirable else none) = retired
  have hretired : ∀ tr, some tr = retired → s.retirable tr = true := by
    rintro tr rfl
    split_ifs at hret
    exact List.find?_some hret
  split
  · exact .refl
  next hprev =>
  split
  · exact .refl
  cases hid : s.svc.env.turnId s.tick with
  | error e => exact path_read s
  | ok id =>
    dsimp only
    obtain ⟨n, ⟨e, h⟩ | ⟨members, h, hmem⟩⟩ := addTeamMembers_cases parent context request.members
      { owner := taskOwner parent, id := formatTurnIdHex id, goal := request.goal } s.read
    · rw [h]
      exact path_tick s n
    · rw [h]
      refine (path_tick s n).tail (.found _ _ ?_ ?_ ?_ rfl rfl)
      · intro tr htr hk
        simp only [Bool.and_eq_false_iff, bne_eq_false_iff_eq] at hk
        rcases hk with hk | hk
        · rw [← hk] at hprev
          have hdone : s.retirable tr = true := by simpa using hprev
          exact hdone
        · exact hretired tr hk
      · intro tr htr howner
        cases hfind : s.findTeam (taskOwner parent) with
        | none =>
          have := List.find?_eq_none.mp hfind tr htr
          simp only [beq_iff_eq] at this
          exact absurd howner this
        | some k =>
          obtain ⟨hk, hko⟩ := findTeam_spec hfind
          exact ⟨k, hk, by simp, hko⟩
      · intro m hm
        rcases hmem m hm with hm | ⟨c, hc, hname⟩
        · cases hm
        · rw [hname]
          exact hnames c hc

theorem path_submitTeamTask {s : State} {tr : TeamRef} {request : TeamTaskCreateRequest}
    (turn : Option TurnId) (hG : G.advances) (htr : tr ∈ s.teams)
    (hvalid : (TeamCommand.taskCreate request).valid = true) :
    Path G s (s.submitTeamTask tr request turn).2 := by
  unfold submitTeamTask
  dsimp only
  split
  · exact .refl
  split
  · exact .refl
  split
  · exact .refl
  next hkey =>
  split
  · exact .refl
  next hmember =>
  split
  · exact .refl
  next hdeps =>
  split
  · exact path_prune s
  next hroom =>
  refine (path_prune s).tail (.submit tr request turn hG htr hvalid ?_ ?_ ?_ (by simpa using hroom))
  · intro w hw he
    exact hkey (List.any_eq_true.mpr ⟨w, hw, by simp [he]⟩)
  · simpa using hmember
  · intro d hd
    simpa using List.find?_eq_none.mp hdeps d hd

/-- A job-state callback leaves an entry alone or gives it a state other than accepted. -/
theorem updateTeamJob_entry {s : State} {job : Job} {tr : TeamRef} {i : Nat} {w : Team.Work}
    (h : ((s.updateTeamJob job).team tr).work[i]? = some w) :
    (s.team tr).work[i]? = some w ∨ w.snapshot.state ≠ .accepted := by
  rcases updateTeamJob_cases s job with ⟨hs, -⟩ | ⟨k, j, v, members, -, hv, -, -, hs⟩
  · rw [hs] at h
    exact .inl h
  · rw [hs, team_setTeam] at h
    split_ifs at h with hk
    · subst hk
      rcases getElem?_set_cases hv h with ⟨-, rfl⟩ | ⟨-, hold⟩
      · refine .inr ?_
        rw [reportedTask_state]
        exact boardState_ne_accepted _
      · exact .inl hold
    · exact .inl h

theorem cancelJob_entry {s : State} {r : JobRef} {timeout : Bool} {tr : TeamRef} {i : Nat}
    {w : Team.Work} (h : ((s.cancelJob r timeout).team tr).work[i]? = some w) :
    (s.team tr).work[i]? = some w ∨ w.snapshot.state ≠ .accepted := by
  rcases cancelJob_cases s r timeout with ⟨-, hs⟩ | ⟨-, shown, -, hs⟩ | ⟨-, hs⟩ <;> rw [hs] at h
  · split at h <;> exact .inl h
  · exact updateTeamJob_entry (s := s.read.setJob r shown) h
  · exact updateTeamJob_entry (s := s.setJob r _) h

/-- The jobs an owner's run identity names. -/
def namesRun (owner : TaskOwner) (runId : Bytes) (job : Job) : Bool :=
  job.owner == owner && job.snapshot.taskId == runId

theorem cancelRun_teams (s : State) (owner : TaskOwner) (runId : Bytes) :
    (s.cancelRun owner runId).teams = s.teams := by
  unfold cancelRun
  dsimp only
  split
  · rw [cancelJob_teams, prune_teams]
  · rfl

theorem path_cancelRun (s : State) (owner : TaskOwner) (runId : Bytes) :
    Path (Grant.cancelling (namesRun owner runId)) s (s.cancelRun owner runId) := by
  unfold cancelRun
  dsimp only
  split
  · next r hfind =>
    obtain ⟨hr, howner, hid⟩ := find_spec hfind
    refine (path_prune s).trans (path_cancelJob hr fun _ => ?_)
    simp only [Grant.cancelling, namesRun, Bool.and_eq_true, beq_iff_eq]
    exact ⟨howner, hid⟩
  · exact path_prune s

theorem cancelRun_entry {s : State} {owner : TaskOwner} {runId : Bytes} {tr : TeamRef} {i : Nat}
    {w : Team.Work} (h : ((s.cancelRun owner runId).team tr).work[i]? = some w) :
    (s.team tr).work[i]? = some w ∨ w.snapshot.state ≠ .accepted := by
  unfold cancelRun at h
  dsimp only at h
  split at h
  · exact cancelJob_entry (s := s.prune) h
  · exact .inl h

theorem path_cancelTeamTask {s : State} {tr : TeamRef} {i : Nat} {w : Team.Work}
    (feedback : Bytes) (htr : tr ∈ s.teams) (hw : (s.team tr).work[i]? = some w)
    (hopen : w.snapshot.state ≠ .accepted) :
    Path (Grant.cancelling (namesRun (s.team tr).owner w.snapshot.runId)) s
      (s.cancelTeamTask tr i w.snapshot.runId feedback) := by
  have hpath := path_cancelRun s (s.team tr).owner w.snapshot.runId
  have hteams := cancelRun_teams s (s.team tr).owner w.snapshot.runId
  have hne : ∀ v, ((s.cancelRun (s.team tr).owner w.snapshot.runId).team tr).work[i]? = some v →
      v.snapshot.state ≠ .accepted := by
    intro v hv
    rcases cancelRun_entry hv with hold | hne
    · obtain rfl := Option.some.inj (hw.symm.trans hold)
      exact hopen
    · exact hne
  unfold cancelTeamTask
  dsimp only
  generalize Grant.cancelling (namesRun (s.team tr).owner w.snapshot.runId) = G at hpath
  generalize s.cancelRun (s.team tr).owner w.snapshot.runId = t at hpath hteams hne
  have htr' : tr ∈ t.teams := hteams ▸ htr
  cases hv : (t.team tr).work[i]? with
  | none => exact hpath
  | some v =>
    dsimp only
    split_ifs with hact
    · exact hpath.tail (.edit tr i v _ htr' hv (.note feedback (hne v hv)))
    · have hcancel : Move G t (t.setWork tr i v.cancel) :=
        .edit tr i v _ htr' hv (.cancel (by simpa using hact) (hne v hv))
      have hentry : ((t.setWork tr i v.cancel).team tr).work[i]? = some v.cancel := by
        rw [team_setWork_self, getElem?_set_of_some hv, if_pos rfl]
      have hnote := Move.edit (G := G) tr i v.cancel (v.cancel.note feedback)
        (s := t.setWork tr i v.cancel) htr' hentry (.note feedback (by simp [Team.Work.cancel]))
      rw [setWork_setWork] at hnote
      exact (hpath.tail hcancel).tail hnote

/-- Review may stop runs and may make entries ready. -/
def Grant.reviewing (test : Job → Bool) : Grant :=
  ⟨fun job => test job = true, False, True, fun _ => False⟩

/-- The runs a review command stops. -/
def reviewTarget (s : State) (tr : TeamRef) (request : TeamTaskUpdateRequest) (job : Job) : Bool :=
  request.action == .cancel && (s.team tr).work.any fun w =>
    w.snapshot.key == request.key && namesRun (s.team tr).owner w.snapshot.runId job

/-- The entry a review command is about, under the team and the attempt its sender saw. -/
structure Reviews (s : State) (tr : TeamRef) (request : TeamTaskUpdateRequest) (i : Nat)
    (w : Team.Work) : Prop where
  team : request.teamId = (s.team tr).id
  entry : (s.team tr).work[i]? = some w
  key : w.snapshot.key = request.key
  attempt : w.snapshot.attempt = request.attempt

/-- What a review command does: nothing, the reclaiming that precedes a full pool, or one action on
the entry it names. -/
inductive Reviewed (s : State) (tr : TeamRef) (request : TeamTaskUpdateRequest)
    (turn : Option TurnId) : Result Unit × State → Prop
  | refused (e : Error) : Reviewed s tr request turn (.error e, s)
  | full (e : Error) : Reviewed s tr request turn (.error e, s.prune)
  | settled (i : Nat) (w : Team.Work) (review : s.Reviews tr request i w)
      (accepted : w.snapshot.state = .accepted) (action : request.action = .accept) :
      Reviewed s tr request turn (.ok (), s)
  | cancel (i : Nat) (w : Team.Work) (review : s.Reviews tr request i w)
      (unsettled : w.snapshot.state ≠ .accepted) (action : request.action = .cancel) :
      Reviewed s tr request turn
        (.ok (), s.cancelTeamTask tr i w.snapshot.runId request.feedback)
  | accept (i : Nat) (w : Team.Work) (review : s.Reviews tr request i w)
      (reported : w.snapshot.state = .inReview) :
      Reviewed s tr request turn (.ok (), s.setWork tr i (w.accept request.feedback))
  | revise (i : Nat) (w : Team.Work) (review : s.Reviews tr request i w)
      (reported : w.snapshot.state = .inReview ∨ w.snapshot.state = .failed)
      (attempts : w.snapshot.attempt ≠ 3) (room : s.prune.hasRecordCapacity false = true) :
      Reviewed s tr request turn
        (.ok (), s.prune.setWork tr i (w.revise request.feedback turn))

theorem Reviewed.entry_of_ok {s t : State} {tr : TeamRef} {request : TeamTaskUpdateRequest}
    {turn : Option TurnId} (h : Reviewed s tr request turn (.ok (), t)) :
    ∃ i w, s.Reviews tr request i w := by
  cases h with
  | settled i w review => exact ⟨i, w, review⟩
  | cancel i w review => exact ⟨i, w, review⟩
  | accept i w review => exact ⟨i, w, review⟩
  | revise i w review => exact ⟨i, w, review⟩

theorem updateTeamTask_reviewed (s : State) (tr : TeamRef) (request : TeamTaskUpdateRequest)
    (turn : Option TurnId) : Reviewed s tr request turn (s.updateTeamTask tr request turn) := by
  unfold updateTeamTask
  dsimp only
  by_cases hteam : (request.teamId != (s.team tr).id) = true
  · rw [if_pos hteam]
    exact .refused _
  rw [if_neg hteam]
  cases hfind : findEntry (fun w => w.snapshot.key == request.key) (s.team tr).work with
  | none => exact .refused _
  | some entry =>
  obtain ⟨i, w⟩ := entry
  obtain ⟨hw, hkey⟩ := findEntry_some hfind
  dsimp only
  by_cases hattempt : (w.snapshot.attempt != request.attempt) = true
  · rw [if_pos hattempt]
    exact .refused _
  rw [if_neg hattempt]
  have hreviews : s.Reviews tr request i w :=
    ⟨by simpa using hteam, hw, by simpa using hkey, by simpa using hattempt⟩
  by_cases hsettled : (w.snapshot.state == .accepted) = true
  · rw [if_pos hsettled]
    by_cases haccept : (request.action == .accept) = true
    · rw [if_pos haccept]
      exact .settled i w hreviews (by simpa using hsettled) (by simpa using haccept)
    · rw [if_neg haccept]
      exact .refused _
  rw [if_neg hsettled]
  have hopen : w.snapshot.state ≠ .accepted := by simpa using hsettled
  by_cases hcancel : (request.action == .cancel) = true
  · rw [if_pos hcancel]
    exact .cancel i w hreviews hopen (by simpa using hcancel)
  rw [if_neg hcancel]
  by_cases hstopped : (s.team tr).stopped = true
  · rw [if_pos hstopped]
    exact .refused _
  rw [if_neg hstopped]
  by_cases haccept : (request.action == .accept) = true
  · rw [if_pos haccept]
    by_cases hreview : (w.snapshot.state != .inReview) = true
    · rw [if_pos hreview]
      exact .refused _
    · rw [if_neg hreview]
      exact .accept i w hreviews (by simpa using hreview)
  rw [if_neg haccept]
  by_cases hreview : (w.snapshot.state != .inReview && w.snapshot.state != .failed) = true
  · rw [if_pos hreview]
    exact .refused _
  rw [if_neg hreview]
  by_cases hthree : (w.snapshot.attempt == 3) = true
  · rw [if_pos hthree]
    exact .refused _
  rw [if_neg hthree]
  by_cases hroom : (!s.prune.hasRecordCapacity false) = true
  · rw [if_pos hroom]
    exact .full _
  rw [if_neg hroom]
  have hreported : w.snapshot.state = .inReview ∨ w.snapshot.state = .failed := by
    by_contra hne
    push Not at hne
    exact hreview (by simp [hne.1, hne.2])
  exact .revise i w hreviews hreported (by simpa using hthree) (by simpa using hroom)

theorem path_updateTeamTask {s : State} {tr : TeamRef} (request : TeamTaskUpdateRequest)
    (turn : Option TurnId) (htr : tr ∈ s.teams) :
    Path (Grant.reviewing fun job =>
        (s.updateTeamTask tr request turn).1.isOk && s.reviewTarget tr request job) s
      (s.updateTeamTask tr request turn).2 := by
  have hreviewed := s.updateTeamTask_reviewed tr request turn
  generalize s.updateTeamTask tr request turn = result at hreviewed
  cases hreviewed with
  | refused => exact .refl
  | full => exact path_prune s
  | settled => exact .refl
  | cancel i w review unsettled action =>
    have hmem : w ∈ (s.team tr).work := List.mem_of_getElem? review.entry
    have hle : (Grant.cancelling (namesRun (s.team tr).owner w.snapshot.runId)).Le
        (Grant.reviewing fun job => (Except.ok () : Result Unit).isOk &&
          s.reviewTarget tr request job) := by
      refine ⟨fun job hjob => ?_, fun h => h, fun h => h.elim, fun _ h => h⟩
      simp only [Grant.reviewing, reviewTarget, Bool.and_eq_true, List.any_eq_true, beq_iff_eq]
      exact ⟨rfl, action, w, hmem, review.key, hjob⟩
    exact (path_cancelTeamTask request.feedback htr review.entry unsettled).mono hle
  | accept i w review reported =>
    exact .single (.edit tr i w _ htr review.entry (.accept _ trivial reported))
  | revise i w review reported attempts room =>
    exact (path_prune s).tail (.edit tr i w _ htr review.entry
      (.revise _ _ trivial reported attempts room))

/-- Rewriting every entry of a board is a run of edits. -/
theorem path_mapWork {s : State} {tr : TeamRef} {f : Team.Work → Team.Work} (htr : tr ∈ s.teams)
    (hf : ∀ w, f w = w ∨ ∀ t, TaskEdit G t w (f w)) :
    Path G s (s.setTeam tr { s.team tr with work := (s.team tr).work.map f }) := by
  have hrun := map_rewrites (f := f) (p := fun w => ∀ t, TaskEdit G t w (f w)) (s.team tr).work
    fun w _ => hf w
  have hstep : ∀ l l', Rewrites f (fun w => ∀ t, TaskEdit G t w (f w)) l l' →
      Move G (s.setTeam tr { s.team tr with work := l })
        (s.setTeam tr { s.team tr with work := l' }) := by
    rintro l l' ⟨i, w, hw, hedit, rfl⟩
    have hm := Move.edit (G := G) tr i w (f w) (s := s.setTeam tr { s.team tr with work := l }) htr
      (by simpa using hw) (hedit _)
    simpa [setWork] using hm
  have hself : s.setTeam tr { s.team tr with work := (s.team tr).work } = s := setTeam_self s tr
  have hlift : Path G (s.setTeam tr { s.team tr with work := (s.team tr).work })
      (s.setTeam tr { s.team tr with work := (s.team tr).work.map f }) :=
    ReflTransGen.lift (fun work => s.setTeam tr { s.team tr with work }) hstep _ _ hrun
  rwa [hself] at hlift

theorem cancelJobs_jobs (test : Job → Bool) (l : List JobRef) (s : State) :
    (cancelJobs test l s).jobs = s.jobs := by
  induction l generalizing s with
  | nil => rfl
  | cons r rest ih =>
    unfold cancelJobs
    rw [ih]
    split
    · exact cancelJob_jobs _ _ _
    · rfl

theorem cancelJobs_teams (test : Job → Bool) (l : List JobRef) (s : State) :
    (cancelJobs test l s).teams = s.teams := by
  induction l generalizing s with
  | nil => rfl
  | cons r rest ih =>
    unfold cancelJobs
    rw [ih]
    split
    · exact cancelJob_teams _ _ _
    · rfl

theorem path_cancelJobs (test : Job → Bool) (l : List JobRef) {s : State}
    (hl : ∀ r ∈ l, r ∈ s.jobs) : Path (Grant.cancelling test) s (cancelJobs test l s) := by
  induction l generalizing s with
  | nil => exact .refl
  | cons r rest ih =>
    have hrest : ∀ k ∈ rest, k ∈ s.jobs := fun k hk => hl k (List.mem_cons_of_mem r hk)
    unfold cancelJobs
    split
    · next htest =>
      refine (path_cancelJob (hl r List.mem_cons_self) fun _ => htest).trans (ih fun k hk => ?_)
      rw [cancelJob_jobs]
      exact hrest k hk
    · exact ih hrest

/-- The jobs of one team. -/
def ofTeam (owner : TaskOwner) (id : Bytes) (job : Job) : Bool :=
  job.owner == owner && job.snapshot.teamId == id

theorem close_edit (w : Team.Work) : w.close = w ∨ ∀ t, TaskEdit G t w w.close := by
  unfold Team.Work.close
  split
  · next h =>
    simp only [Bool.and_eq_true, Bool.not_eq_true', bne_iff_ne] at h
    exact .inr fun _ => .cancel h.1 h.2
  · exact .inl rfl

theorem abandon_edit (turn : TurnId) (w : Team.Work) :
    w.abandon turn = w ∨ ∀ t, TaskEdit G t w (w.abandon turn) := by
  unfold Team.Work.abandon
  split
  · next h =>
    simp only [Bool.and_eq_true, beq_iff_eq] at h
    exact .inr fun _ => .cancel (by rw [h.2]; rfl) (by rw [h.2]; decide)
  · exact .inl rfl

theorem stopTeam_teams (s : State) (tr : TeamRef) : (s.stopTeam tr).teams = s.teams := by
  unfold stopTeam
  dsimp only
  rw [setTeam_teams, cancelJobs_teams, setTeam_teams]

theorem stopTeam_jobs (s : State) (tr : TeamRef) : (s.stopTeam tr).jobs = s.jobs := by
  unfold stopTeam
  dsimp only
  rw [setTeam_jobs, cancelJobs_jobs, setTeam_jobs]

theorem path_stopTeam {s : State} {tr : TeamRef} (htr : tr ∈ s.teams) :
    Path (Grant.cancelling (ofTeam (s.team tr).owner (s.team tr).id)) s (s.stopTeam tr) := by
  unfold stopTeam
  dsimp only
  have hstop : Move (Grant.cancelling (ofTeam (s.team tr).owner (s.team tr).id)) s
      (s.setTeam tr { s.team tr with stopped := true }) := .stop tr
  have hcancel := path_cancelJobs (ofTeam (s.team tr).owner (s.team tr).id)
    s.jobs (s := s.setTeam tr { s.team tr with stopped := true }) fun r hr => hr
  rw [team_setTeam_self]
  refine (ReflTransGen.head hstop hcancel).trans (path_mapWork ?_ close_edit)
  rw [cancelJobs_teams]
  exact htr

theorem path_start (s : State) (parent : AgentSessionOptions) (request : AgentRunRequest)
    (context : DispatchContext) : Path G s (s.start parent request context).2 := by
  have hread : Path G s s.prune.read := (path_prune s).trans (path_read _)
  have hreads : Path G s s.prune.read.read.read := (hread.trans (path_read _)).trans (path_read _)
  unfold start
  dsimp only
  split
  · exact .refl
  split
  · exact .refl
  split
  · exact path_prune s
  split
  · exact hread
  next id hid =>
  split
  · exact hread
  split
  · exact hread.trans (path_read _)
  · exact hreads
  rcases enqueue_cases s.prune.read.read.read (s.prune.plainJob parent request context id) with
    ⟨e, h⟩ | ⟨h, hroom, hfresh⟩
  · rw [h]
    exact hreads.trans (path_prune _)
  · rw [h]
    exact (hreads.trans (path_prune _)).tail (.enqueue _ ⟨rfl, rfl, rfl, rfl, hfresh⟩ rfl hroom)

theorem path_get (s : State) (owner : TaskOwner) (id : Bytes) (offset maxBytes : Nat) :
    Path G s (s.get owner id offset maxBytes).2 := by
  unfold get
  dsimp only
  split
  · exact path_prune s
  split
  · exact path_prune s
  split <;> exact path_prune s

theorem path_cancel (s : State) (owner : TaskOwner) (id : Bytes) :
    Path (Grant.cancelling (namesRun owner id)) s (s.cancel owner id).2 := by
  have h := path_cancelRun s owner id
  have he : (s.cancel owner id).2 = s.cancelRun owner id := by
    unfold cancel cancelRun
    dsimp only
    cases s.prune.find owner id <;> rfl
  rwa [he]

theorem path_claimCompletion (s : State) (owner : TaskOwner) (id : Bytes) :
    Path Grant.delivery s (s.claimCompletion owner id).2 := by
  unfold claimCompletion
  dsimp only
  split
  · exact path_prune s
  next r hfind =>
  split
  · exact path_prune s
  split
  · exact path_prune s
  exact (path_prune s).tail
    (.flag r true (s.prune.job r).snapshot.acknowledged trivial (find_spec hfind).1 fun h => h)

theorem path_finishCompletion (s : State) (owner : TaskOwner) (id : Bytes) (committed : Bool) :
    Path Grant.delivery s (s.finishCompletion owner id committed) := by
  unfold finishCompletion
  dsimp only
  split
  · exact path_prune s
  next r hfind =>
  refine (path_prune s).tail (.flag r false _ trivial (find_spec hfind).1 fun h => ?_)
  rw [h, Bool.true_or]

/-- The jobs an owner's cancellation reaches. -/
def ownedBy (owner : TaskOwner) (turn : Option TurnId) (job : Job) : Bool :=
  job.owner == owner && (turn.isNone || job.parentTurn == turn)

theorem path_cancelOwner (s : State) (owner : TaskOwner) (turn : Option TurnId) :
    Path (Grant.cancelling (ownedBy owner turn)) s (s.cancelOwner owner turn) := by
  unfold cancelOwner
  dsimp only
  split
  · exact path_cancelJobs (ownedBy owner _) s.jobs fun r hr => hr
  · next tr hfind =>
    obtain ⟨htr, howner⟩ := findTeam_spec hfind
    have hle : (Grant.cancelling (ofTeam (s.team tr).owner (s.team tr).id)).Le
        (Grant.cancelling (ownedBy owner none)) := by
      refine ⟨fun job hjob => ?_, fun h => h, fun h => h, fun _ h => h⟩
      simp only [Grant.cancelling, ofTeam, Bool.and_eq_true, beq_iff_eq] at hjob
      simp [Grant.cancelling, ownedBy, hjob.1, howner]
    exact ((path_stopTeam htr).mono hle).trans (path_cancelJobs (ownedBy owner none) _
      fun r hr => hr)
  · next hfind =>
    exact (path_mapWork (findTeam_spec hfind).1 (abandon_edit _)).trans
      (path_cancelJobs (ownedBy owner (some _)) _ fun r hr => hr)

theorem stopTeams_jobs (l : List TeamRef) (s : State) : (stopTeams l s).jobs = s.jobs := by
  induction l generalizing s with
  | nil => rfl
  | cons tr rest ih =>
    unfold stopTeams
    rw [ih, stopTeam_jobs]

theorem path_stopTeams (l : List TeamRef) {s : State} (hl : ∀ tr ∈ l, tr ∈ s.teams) :
    Path (Grant.cancelling fun _ => true) s (stopTeams l s) := by
  induction l generalizing s with
  | nil => exact .refl
  | cons tr rest ih =>
    have hle : (Grant.cancelling (ofTeam (s.team tr).owner (s.team tr).id)).Le
        (Grant.cancelling fun _ => true) :=
      ⟨fun _ _ => rfl, fun h => h, fun h => h, fun _ h => h⟩
    unfold stopTeams
    refine ((path_stopTeam (hl tr List.mem_cons_self)).mono hle).trans (ih fun k hk => ?_)
    rw [stopTeam_teams]
    exact hl k (List.mem_cons_of_mem tr hk)

theorem path_closeAll (s : State) : Path (Grant.cancelling fun _ => true) s s.closeAll := by
  unfold closeAll
  dsimp only
  have hstop := path_stopTeams s.teams (s := { s with closed := true }) fun tr htr => htr
  exact ((ReflTransGen.single .close).trans hstop).trans
    (path_cancelJobs (fun _ => true) _ fun r hr => hr)

theorem path_shutdown (s : State) : Path (Grant.cancelling fun _ => !s.joining) s s.shutdown.2 := by
  unfold shutdown
  split
  · exact .refl
  · next hjoining =>
    rw [show (!s.joining) = true by simpa using hjoining]
    exact (ReflTransGen.single
      (.clock s.tick s.posted true fun h => absurd h (Nat.lt_irrefl _))).trans
      (path_closeAll _)

theorem valid_of_validateTeamCommand {command : TeamCommand} {u : Unit}
    (h : validateTeamCommand command = .ok u) : command.valid = true := by
  unfold validateTeamCommand at h
  split at h
  · next hv => exact hv
  · cases h

/-- A send is refused with the state as it was, or one admitted message is appended. -/
theorem sendTeamMessage_cases (s : State) (tr : TeamRef) (sender : Bytes)
    (request : TeamMessageRequest) :
    (∃ e, s.sendTeamMessage tr sender request = (.error e, s)) ∨
    ∃ receipt message, (s.team tr).Admits message ∧
      s.sendTeamMessage tr sender request = (.ok receipt, s.setTeam tr { s.team tr with
        messages := (s.team tr).messages ++ [message] }) := by
  unfold sendTeamMessage
  dsimp only
  split
  · exact .inl ⟨_, rfl⟩
  next hvalid =>
  split
  · exact .inl ⟨_, rfl⟩
  split
  · next work _ hwork =>
    split
    · exact .inl ⟨_, rfl⟩
    split
    · exact .inl ⟨_, rfl⟩
    next hsender =>
    split
    · exact .inl ⟨_, rfl⟩
    next hroom =>
    split
    · exact .inl ⟨_, rfl⟩
    next hsize =>
    simp only [Bool.or_eq_true, decide_eq_true_eq, not_or, Nat.not_le] at hroom
    refine .inr ⟨_, _, ⟨rfl, rfl, hroom.1, hroom.2, ?_, ?_, Nat.not_lt.mp hsize⟩, rfl⟩
    · by_cases hleader : sender = leaderName
      · exact .inl hleader
      · have hmember : work.snapshot.member = sender := by
          by_contra hne
          simp [hleader, hne] at hsender
        exact .inr ⟨work, List.mem_of_find?_eq_some hwork, hmember⟩
    · exact ⟨work, request, valid_of_validateTeamCommand hvalid, rfl, rfl⟩
  · exact .inl ⟨_, rfl⟩

theorem path_sendTeamMessage (s : State) (tr : TeamRef) (sender : Bytes)
    (request : TeamMessageRequest) : Path G s (s.sendTeamMessage tr sender request).2 := by
  rcases sendTeamMessage_cases s tr sender request with ⟨e, h⟩ | ⟨receipt, message, hadmits, h⟩
  · rw [h]
  · rw [h]
    exact .single (.mail tr message hadmits)

/-- This caller may lead teams. -/
def leads (s : State) (parent : AgentSessionOptions) (context : DispatchContext) : Bool :=
  !(!s.options.enableTeams || !s.matchesSession parent || parent.parentPolicy ||
    parent.maxChildRuns == 0 ||
    isZeroTurnId parent.sessionId || context.scopeKey != parent.scopeKey ||
    context.agentKey != parent.agentKey || context.identity != parent.identity)

/-- The command passed every check, so it did its work. -/
def accepts (s : State) (parent : AgentSessionOptions) (command : TeamCommand)
    (context : DispatchContext) : Bool :=
  s.leads parent context && command.valid && !(s.closed && !command.reading && !command.stopping) &&
    (s.teamRequest parent command context).1.isOk

/-- The jobs that a leader's command asks to cancel. -/
def commandTarget (s : State) (parent : AgentSessionOptions) (command : TeamCommand)
    (job : Job) : Bool :=
  match s.findTeam (taskOwner parent), command with
  | some tr, .stop => ofTeam (s.team tr).owner (s.team tr).id job
  | some tr, .taskUpdate request => s.reviewTarget tr request job
  | _, _ => false

end State

namespace State.Op

/-- The jobs an operation cancels explicitly. A refused operation cancels none. -/
def cancels (s : State) : Op → Job → Bool
  | .cancel owner id, job => namesRun owner id job
  | .cancelOwner owner turn, job => ownedBy owner turn job
  | .teamCommand parent command context, job =>
    s.accepts parent command context && s.commandTarget parent command job
  | .shutdown, _ => !s.joining
  | .destroy, _ => true
  | _, _ => false

/-- The operations of completion delivery. -/
def delivers : Op → Bool
  | .claimCompletion _ _ => true
  | .finishCompletion _ _ _ => true
  | _ => false

/-- The operations that may leave work to a pump. -/
def advances : Op → Bool
  | .teamCommand _ (.taskCreate _) _ => true
  | .teamCommand _ (.taskUpdate _) _ => true
  | .pump => true
  | .monitor _ _ _ => true
  | _ => false

/-- The run an operation brings to its end. -/
def ends : Op → JobRef → Bool
  | .monitor k _ _, r => k == r
  | _, _ => false

/-- What an operation may do beyond its own records. -/
def grant (s : State) (op : Op) : Grant :=
  ⟨fun job => op.cancels s job = true, op.delivers = true, op.advances = true,
    fun r => op.ends r = true⟩

end State.Op

namespace State

/-- What a request may do once it is reached. -/
def requesting (s : State) (parent : AgentSessionOptions) (command : TeamCommand)
    (context : DispatchContext) : Grant :=
  ⟨fun job => ((s.teamRequest parent command context).1.isOk &&
    s.commandTarget parent command job) = true, False,
    (Op.teamCommand parent command context).advances = true, fun _ => False⟩

theorem path_teamRequest (s : State) (parent : AgentSessionOptions) {command : TeamCommand}
    (context : DispatchContext) (hvalid : command.valid = true) :
    Path (s.requesting parent command context) s (s.teamRequest parent command context).2 := by
  cases command with
  | create request =>
    have h := path_createTeam (G := s.requesting parent (.create request) context) s parent
      context hvalid
    unfold teamRequest
    dsimp only
    split <;> next hq => rw [hq] at h; exact h
  | taskCreate request =>
    cases hfind : s.findTeam (taskOwner parent) with
    | none =>
      unfold teamRequest
      rw [hfind]
    | some tr =>
      have h := path_submitTeamTask (G := s.requesting parent (.taskCreate request) context)
        context.parentTurnId rfl (findTeam_spec hfind).1 hvalid
      unfold teamRequest
      simp only [hfind]
      split <;> next hq => rw [hq] at h; exact h
  | taskUpdate request =>
    cases hfind : s.findTeam (taskOwner parent) with
    | none =>
      unfold teamRequest
      rw [hfind]
    | some tr =>
      have h := path_updateTeamTask request context.parentTurnId (findTeam_spec hfind).1
      have hle : (Grant.reviewing fun job =>
        (s.updateTeamTask tr request context.parentTurnId).1.isOk &&
          s.reviewTarget tr request job).Le
            (s.requesting parent (.taskUpdate request) context) := by
        refine ⟨fun job hjob => ?_, fun h => h.elim, fun _ => rfl, fun _ h => h.elim⟩
        simp only [requesting, commandTarget, teamRequest, hfind]
        simp only [Grant.reviewing] at hjob
        rcases hq : s.updateTeamTask tr request context.parentTurnId with ⟨result, t⟩
        rw [hq] at hjob
        cases result with
        | error e => cases hjob
        | ok u => exact hjob
      have h := h.mono hle
      unfold teamRequest
      simp only [hfind]
      split <;> next hq => rw [hq] at h; exact h
  | get request =>
    unfold teamRequest
    dsimp only
    split <;> exact .refl
  | stop =>
    cases hfind : s.findTeam (taskOwner parent) with
    | none =>
      unfold teamRequest
      rw [hfind]
    | some tr =>
      have hle : (Grant.cancelling (ofTeam (s.team tr).owner (s.team tr).id)).Le
          (s.requesting parent .stop context) := by
        refine ⟨fun job hjob => ?_, fun h => h.elim, fun h => h.elim, fun _ h => h.elim⟩
        simp only [requesting, commandTarget, teamRequest, hfind]
        exact hjob
      unfold teamRequest
      simp only [hfind]
      exact (path_stopTeam (findTeam_spec hfind).1).mono hle
  | message request =>
    unfold teamRequest
    dsimp only
    split <;> exact .refl
  | memberAdd request =>
    unfold teamRequest
    dsimp only
    split
    · exact .refl
    next tr hfind =>
    obtain ⟨n, ⟨e, h⟩ | ⟨id, h, hname⟩⟩ :=
      addTeamMember_cases s parent (s.team tr) request.member context
    · rw [h]
      exact path_tick s n
    · rw [h]
      exact (path_tick s n).tail (.join tr request.member id (findTeam_spec hfind).1 hvalid hname)

theorem path_teamCommand (s : State) (parent : AgentSessionOptions) (command : TeamCommand)
    (context : DispatchContext) :
    Path ((Op.teamCommand parent command context).grant s) s
      (s.teamCommand parent command context).2 := by
  unfold teamCommand
  split
  · exact .refl
  next hleads =>
  split
  · exact .refl
  next hvalid =>
  have hvalid := valid_of_validateTeamCommand hvalid
  split
  · exact .refl
  next hopen =>
  split
  · split
    · exact .refl
    · exact path_sendTeamMessage s _ _ _
  have hle : (s.requesting parent command context).Le
      ((Op.teamCommand parent command context).grant s) := by
    refine ⟨fun job hjob => ?_, fun h => h.elim, fun h => h, fun _ h => h.elim⟩
    have hleads : s.leads parent context = true := by
      rw [leads, Bool.eq_false_iff.mpr hleads]
      rfl
    simp only [Op.grant, Op.cancels, accepts, hleads, hvalid, Bool.eq_false_iff.mpr hopen,
      Bool.not_false, Bool.true_and]
    exact hjob
  have h := (path_teamRequest s parent context hvalid).mono hle
  split
  · next hq => rw [hq] at h; exact h
  next t hq =>
  rw [hq] at h
  dsimp only
  have hpump : ∀ b : Bool, Path ((Op.teamCommand parent command context).grant s) s
      (if b = true then t else t.pump) := by
    intro b
    cases b with
    | true => exact h
    | false => exact h.trans (path_pump t)
  split <;> exact hpump _

/-- What one operation may do. -/
theorem path_apply {s : State} {op : Op} (h : s.Enabled op) : Path (op.grant s) s (s.apply op) := by
  have hcancels : ∀ test : Job → Bool, (∀ job, test job = true → op.cancels s job = true) →
      (Grant.cancelling test).Le (op.grant s) := fun test ht =>
      ⟨ht, fun h => h.elim, fun h => h.elim, fun _ h => h.elim⟩
  cases op with
  | start parent request context => exact path_start s parent request context
  | teamCommand parent command context => exact path_teamCommand s parent command context
  | memberSend tr member request => exact path_sendTeamMessage s tr member request
  | get owner id offset maxBytes => exact path_get s owner id offset maxBytes
  | list owner => exact path_prune s
  | cancel owner id => exact (path_cancel s owner id).mono (hcancels _ fun _ hj => hj)
  | cancelOwner owner turn => exact (path_cancelOwner s owner turn).mono (hcancels _ fun _ hj => hj)
  | claimCompletion owner id =>
    have hdelivers : Grant.delivery.Le ((Op.claimCompletion owner id).grant s) :=
      ⟨fun _ hj => hj.elim, fun _ => rfl, fun h => h.elim, fun _ h => h.elim⟩
    exact (path_claimCompletion s owner id).mono hdelivers
  | finishCompletion owner id committed =>
    have hdelivers : Grant.delivery.Le ((Op.finishCompletion owner id committed).grant s) :=
      ⟨fun _ hj => hj.elim, fun _ => rfl, fun h => h.elim, fun _ h => h.elim⟩
    exact (path_finishCompletion s owner id committed).mono hdelivers
  | pump =>
    exact (ReflTransGen.single (.clock s.tick (s.posted - 1) s.joining fun _ => rfl)).trans
      (path_pump _)
  | deadline r => exact (path_cancelJob h fun ht => by cases ht).trans (path_pump _)
  | monitor r joined outcome => exact path_monitor joined outcome rfl (beq_self_eq_true r) h.1 h.2
  | shutdown => exact (path_shutdown s).mono (hcancels _ fun _ hj => hj)
  | joined => exact .single (.clock s.tick s.posted false fun h => absurd h (Nat.lt_irrefl _))
  | destroy => exact (path_closeAll s).mono (hcancels _ fun _ hj => hj)

theorem Step.path {s t : State} (h : Step s t) : Path .all s t := by
  obtain ⟨op, hop, rfl⟩ := h
  exact (path_apply hop).mono (Grant.le_all _)

theorem path_of_steps {s t : State} (h : ReflTransGen Step s t) : Path .all s t := by
  induction h with
  | refl => exact .refl
  | tail _ hstep ih => exact ih.trans hstep.path

theorem create_ok {svc : Service} {s : State} (h : create svc = .ok s) :
    s = empty svc ∧ svc.options.valid = true := by
  unfold create at h
  split at h
  · cases h
  · next hv =>
    cases h
    exact ⟨rfl, by simpa using hv⟩

/-- Every reachable state is reached by moves from the empty service. -/
theorem Reachable.path {svc : Service} {s : State} (h : Reachable svc s) :
    Path .all (empty svc) s := by
  obtain ⟨s₀, hs, hrun⟩ := h
  obtain rfl := (create_ok hs).1
  exact path_of_steps hrun

/-- Identities count up from one and every reading succeeds. -/
def sampleId (n : Nat) : TurnId := ⟨List.replicate 15 0 ++ [UInt8.ofNat (n + 1)], rfl⟩

def sampleService (automaticDelivery : Bool) : Service :=
  { options := { automaticDelivery, enableTeams := true }
    assembly := 0
    config := 0
    executor := 0
    registry := []
    activeTools := none
    env := ⟨fun n => .ok (sampleId n), fun _ => .ok (), fun _ => .ok (), fun _ => 0⟩ }

def sampleLeader : AgentSessionOptions :=
  { assembly := 0, config := 0, executor := 0, parentPolicy := false, maxChildRuns := 4
    sessionId := sampleId 7, scopeKey := [], agentKey := [], identity := [], toolAllowlist := none }

def sampleContext : DispatchContext := ⟨[], [], [], none, none⟩

def sampleCommand (command : TeamCommand) : Op := .teamCommand sampleLeader command sampleContext

def sampleTeam : TeamCommand :=
  .create ⟨text "goal", [⟨text "dev", text "build", []⟩]⟩

def sampleTask (key : String) (dependsOn : List Bytes) : TeamTaskCreateRequest :=
  ⟨text key, text "dev", text "do", dependsOn⟩

/-- A dependent pair of tasks; the first one reports and every pump has run. -/
def sampleReview : List Op :=
  [sampleCommand sampleTeam, sampleCommand (.taskCreate (sampleTask "a" [])),
    sampleCommand (.taskCreate (sampleTask "b" [text "a"])), .pump,
    .monitor 0 true (some (.ok (text "done"))), .pump]

/-- The leader accepts the report. -/
def sampleAccept : Op :=
  sampleCommand (.taskUpdate ⟨text "a", 1, .accept, text "fine", formatTurnIdHex (sampleId 0)⟩)

def applyAll (s : State) (ops : List Op) : State := ops.foldl apply s

/-- The operations are enabled one after the other. -/
def AllEnabled : State → List Op → Prop
  | _, [] => True
  | s, op :: rest => s.Enabled op ∧ AllEnabled (s.apply op) rest

instance instDecidableAllEnabled (s : State) (ops : List Op) : Decidable (AllEnabled s ops) :=
  match ops with
  | [] => .isTrue trivial
  | op :: rest =>
    have : Decidable (AllEnabled (s.apply op) rest) := instDecidableAllEnabled (s.apply op) rest
    inferInstanceAs (Decidable (s.Enabled op ∧ AllEnabled (s.apply op) rest))

theorem steps_applyAll {s : State} (ops : List Op) (h : AllEnabled s ops) :
    ReflTransGen Step s (s.applyAll ops) := by
  induction ops generalizing s with
  | nil => exact .refl
  | cons op rest ih => exact .head ⟨op, h.1, rfl⟩ (ih h.2)

theorem reachable_applyAll {svc : Service} {ops : List Op} (hvalid : svc.options.valid = true)
    (h : AllEnabled (empty svc) ops) : Reachable svc ((empty svc).applyAll ops) := by
  refine ⟨empty svc, ?_, steps_applyAll ops h⟩
  unfold create
  rw [hvalid]
  rfl

/-- The state after the given operations of the small service. -/
def sample (automaticDelivery : Bool) (ops : List Op) : State :=
  (empty (sampleService automaticDelivery)).applyAll ops

end State

end Orangutan.Bootstrap
