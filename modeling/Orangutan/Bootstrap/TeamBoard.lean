import Orangutan.Bootstrap.Agreement

/-!
# Team boards along every run

Dependencies gate dispatch, an accepted entry is final, and every live run is
recorded exactly once on each side.
-/

namespace Orangutan.Bootstrap

set_option autoImplicit false

open Orangutan.Core Orangutan.Lib Orangutan.Tool Relation

/-- Every accepted entry of `s` is still there, unchanged. Teams keep their reference. -/
structure KeepsAccepted (s t : State) : Prop where
  next : s.teamHeap.next ≤ t.teamHeap.next
  entry : ∀ tr < s.teamHeap.next, ∀ (i : Nat) (w : Team.Work), (s.team tr).work[i]? = some w →
    w.snapshot.state = .accepted → (t.team tr).work[i]? = some w

namespace KeepsAccepted

variable {s t : State}

theorem refl (s : State) : KeepsAccepted s s := ⟨Nat.le_refl _, fun _ _ _ _ hw _ => hw⟩

theorem trans {u : State} (h₁ : KeepsAccepted s t) (h₂ : KeepsAccepted t u) : KeepsAccepted s u :=
  ⟨Nat.le_trans h₁.next h₂.next, fun tr htr i w hw ha =>
    h₂.entry tr (Nat.lt_of_lt_of_le htr h₁.next) i w (h₁.entry tr htr i w hw ha) ha⟩

theorem of_work (hnext : t.teamHeap.next = s.teamHeap.next)
    (hwork : ∀ tr, (t.team tr).work = (s.team tr).work) : KeepsAccepted s t :=
  ⟨hnext ▸ Nat.le_refl _, fun tr _ i w hw _ => by rw [hwork]; exact hw⟩

/-- A write to an entry that is not accepted. -/
theorem of_set {k : TeamRef} {j : Nat} {v : Team.Work} (v' : Team.Work)
    (hnext : t.teamHeap.next = s.teamHeap.next) (hv : (s.team k).work[j]? = some v)
    (hopen : v.snapshot.state ≠ .accepted)
    (hwork : ∀ tr, (t.team tr).work = if tr = k then (s.team k).work.set j v'
    else (s.team tr).work) :
    KeepsAccepted s t := by
  refine ⟨hnext ▸ Nat.le_refl _, fun tr _ i w hw ha => ?_⟩
  rw [hwork]
  split
  · next he =>
    subst he
    refine getElem?_set_ne_of_some (fun hij => hopen ?_) hw
    subst hij
    rw [Option.some.inj (hv.symm.trans hw)]
    exact ha
  · exact hw

theorem setTeam {k : TeamRef} {team : Team} (hwork : team.work = (s.team k).work) :
    KeepsAccepted s (s.setTeam k team) := by
  refine of_work rfl fun tr => ?_
  rw [State.team_setTeam]
  split
  · next he => rw [he, hwork]
  · rfl

end KeepsAccepted

theorem keepsAccepted_move {G : Grant} {s t : State} (h : Ledger s) (hm : Move G s t) :
    KeepsAccepted s t := by
  cases hm with
  | clock => exact .of_work rfl fun _ => rfl
  | close => exact .of_work rfl fun _ => rfl
  | reclaim => exact .of_work rfl fun _ => rfl
  | acknowledge => exact .of_work rfl fun _ => rfl
  | flag => exact .of_work rfl fun _ => rfl
  | settle r shown kept hset =>
    rcases settled_entry h.2 hset.listed (live_of_next hset.change) hset.run with
      ⟨-, he⟩ | ⟨tr, i, w, members, -, hw, hl, -, he⟩
    · refine .of_work ?_ fun tr => ?_
      · rw [State.settled_teamHeap, he]
      · rw [State.team_settled, he]
    · have hopen : w.snapshot.state ≠ .accepted := fun ha => by
        have hact := (live_of_sameName hl.2.state).2
        rw [ha] at hact
        cases hact
      refine .of_set { w with snapshot := reportedTask w.snapshot shown } ?_ hw hopen fun k => ?_
      · rw [State.settled_teamHeap, he]
        rfl
      · rw [State.team_settled, he, State.team_setTeam]
        split <;> rfl
  | enqueue => exact .of_work rfl fun _ => rfl
  | dispatch tr i w member id current entry waiting =>
    refine .of_set (w.dispatch (formatTurnIdHex id)) rfl entry (by rw [waiting]; decide) fun k => ?_
    rw [State.team_setWork]
    split <;> rfl
  | edit tr i w w' current entry hedit =>
    refine .of_set w' rfl entry hedit.not_accepted fun k => ?_
    rw [State.team_setWork]
    split <;> rfl
  | submit tr request turn =>
    refine ⟨Nat.le_refl _, fun k _ i w hw _ => ?_⟩
    rw [State.team_setTeam]
    split
    · next he =>
      subst he
      change ((s.team k).work ++ [Team.newWork request turn])[i]? = some w
      rw [List.getElem?_append_left (List.getElem?_eq_some_iff.mp hw).1, hw]
    · exact hw
  | stop => exact .setTeam rfl
  | join => exact .setTeam rfl
  | mail => exact .setTeam rfl
  | found keep team =>
    refine ⟨Nat.le_succ _, fun k hk i w hw _ => ?_⟩
    change ((s.teamHeap.alloc team).get k).work[i]? = some w
    rw [Heap.get_alloc_of_lt _ hk]
    exact hw

/-- Accepted entries of a reachable state survive whatever happens afterwards. -/
theorem keepsAccepted_run {svc : Service} {s t : State} (hs : State.Reachable svc s)
    (ht : ReflTransGen State.Step s t) : KeepsAccepted s t := by
  exact run_relates (r := Move .all) (I := Ledger) (Q := KeepsAccepted)
    (fun _ _ => ledger_move) .refl
    (fun _ _ _ => .trans) (fun _ _ => keepsAccepted_move) (State.path_of_steps ht)
      (ledger_reachable hs)

/-- What the board promises about dependencies, keys and attempts. -/
structure Gated (work : List Team.Work) : Prop where
  keys : (work.map (·.snapshot.key)).Nodup
  precede : ∀ (i : Nat) (w : Team.Work), work[i]? = some w → ∀ d ∈ w.snapshot.dependsOn,
    ∃ (j : Nat) (v : Team.Work), j < i ∧ work[j]? = some v ∧ v.snapshot.key = d
  gated : ∀ w ∈ work, w.snapshot.state ∈ [.queued, .running, .cancelling, .inReview, .accepted] →
    ∀ v ∈ work, v.snapshot.key ∈ w.snapshot.dependsOn → v.snapshot.state = .accepted
  attempts : ∀ w ∈ work, w.snapshot.attempt ≤ 3

theorem Board.gatedWork {work : List Team.Work} (h : Board work) : Gated work where
  keys := h.keys
  precede := h.precede
  gated := fun w hw hstate v hv hd => by
    refine h.gated w hw ?_ v.snapshot.key hd v hv rfl
    simp only [List.mem_cons, List.not_mem_nil, or_false] at hstate
    rcases hstate with hs | hs | hs | hs | hs <;> rw [hs] <;> rfl
  attempts := h.attempts

/-- Dependency gating and finality of acceptance, from any reachable state on. -/
theorem dependency_gating {svc : Service} {s t : State} (hs : State.Reachable svc s)
    (ht : ReflTransGen State.Step s t) :
    (∀ tr ∈ s.teams, Gated (s.team tr).work) ∧
    ∀ tr ∈ s.teams, ∀ (i : Nat) (w : Team.Work), (s.team tr).work[i]? = some w →
      w.snapshot.state = .accepted → (t.team tr).work[i]? = some w := by
  have hledger := ledger_reachable hs
  refine ⟨fun tr htr => (hledger.2.boards tr htr).gatedWork, fun tr htr i w hw ha => ?_⟩
  exact (keepsAccepted_run hs ht).entry tr (hledger.1.teams_lt tr htr) i w hw ha

/-- An accepted report outlives the stop of its team. -/
theorem dependency_gating_stop :
    Gated ((State.sample false (State.sampleReview ++ [State.sampleAccept])).team 0).work ∧
    ∃ w, ((State.sample false (State.sampleReview ++ [State.sampleAccept])).team 0).work[0]? =
      some w ∧
      w.snapshot.state = .accepted ∧
      (((State.sample false (State.sampleReview ++ [State.sampleAccept])).applyAll
        [State.sampleCommand .stop]).team 0).work[0]? = some w := by
  have hs : State.Reachable (State.sampleService false)
      (State.sample false (State.sampleReview ++ [State.sampleAccept])) :=
    State.reachable_applyAll (by decide) (by decide +kernel)
  have hrun : ReflTransGen State.Step
      (State.sample false (State.sampleReview ++ [State.sampleAccept])) _ :=
    State.steps_applyAll [State.sampleCommand .stop] ⟨trivial, trivial⟩
  have htr : 0 ∈ (State.sample false (State.sampleReview ++ [State.sampleAccept])).teams := by
    decide +kernel
  have hentry :
    (((State.sample false (State.sampleReview ++ [State.sampleAccept])).team 0).work[0]?).any
      (fun w => w.snapshot.state == .accepted) = true := by
    decide +kernel
  obtain ⟨w, hw, ha⟩ := (Option.any_eq_true _ _).mp hentry
  have ha : w.snapshot.state = .accepted := by simpa using ha
  have h := dependency_gating hs hrun
  exact ⟨h.1 0 htr, w, hw, ha, h.2 0 htr 0 w hw ha⟩

/-- A job record whose attempt, run or team is no longer the current one. -/
def Superseded (s : State) (job : Job) : Prop :=
  ∀ tr ∈ s.teams, job.team = some tr → ∀ w ∈ (s.team tr).work,
    w.snapshot.key = job.snapshot.teamTaskKey →
    w.snapshot.attempt ≠ job.snapshot.teamAttempt ∨ w.snapshot.runId ≠ job.snapshot.taskId

/-- A callback for a superseded run writes no current board. -/
theorem updateTeamJob_superseded {s : State} {job : Job} (h : Superseded s job) {tr : TeamRef}
    (htr : tr ∈ s.teams) : (s.updateTeamJob job).team tr = s.team tr := by
  rcases State.updateTeamJob_cases s job with ⟨he, -⟩ | ⟨k, i, w, members, hk, hw, ht, -, he⟩
  · rw [he]
  · rw [he, State.team_setTeam]
    split
    · next heq =>
      subst heq
      simp only [Job.tracks, Bool.and_eq_true, beq_iff_eq] at ht
      rcases h tr htr hk w (List.mem_of_getElem? hw) ht.1.1 with hne | hne
      · exact absurd ht.2 hne
      · exact absurd ht.1.2 hne
    · rfl

/-- Both records of every live run, and one run at a time for each member. -/
theorem board_job_agreement {svc : Service} {s : State} (hs : State.Reachable svc s) :
    (∀ tr ∈ s.teams, ∀ (i j : Nat) (w v : Team.Work), (s.team tr).work[i]? = some w →
      (s.team tr).work[j]? = some v → teamTaskActive w.snapshot.state = true →
      teamTaskActive v.snapshot.state = true → w.snapshot.member = v.snapshot.member → i = j) ∧
    (∀ tr ∈ s.teams, ∀ w ∈ (s.team tr).work, teamTaskActive w.snapshot.state = true →
      ∃! r, r ∈ s.jobs ∧ taskTerminal (s.job r).snapshot.state = false ∧
        Corresponds (s.team tr) w (s.job r)) ∧
    (∀ r ∈ s.jobs, taskTerminal (s.job r).snapshot.state = false → (s.job r).team ≠ none →
      ∃! p : TeamRef × Nat, p.1 ∈ s.teams ∧ ∃ w, (s.team p.1).work[p.2]? = some w ∧
        teamTaskActive w.snapshot.state = true ∧ Corresponds (s.team p.1) w (s.job r)) ∧
    (∀ job, Superseded s job → ∀ tr ∈ s.teams,
      ((s.updateTeamJob job).team tr).work = (s.team tr).work) := by
  obtain ⟨hreg, hagree⟩ := ledger_reachable hs
  refine ⟨fun tr htr => (hagree.boards tr htr).exclusive, fun tr htr w hw hact => ?_,
    fun r hr hlive hteam => ?_, fun job hjob tr htr => by rw [updateTeamJob_superseded hjob htr]⟩
  · obtain ⟨r, hr, hl⟩ := hagree.run tr htr w hw hact
    refine ⟨r, ⟨hr, (live_of_sameName hl.2.state).1, hl.2⟩, fun k hk => ?_⟩
    exact hreg.ids k hk.1 r hr (hk.2.2.run.trans hl.2.run.symm)
  · obtain ⟨tr, hlink⟩ := Option.ne_none_iff_exists'.mp hteam
    obtain ⟨htr, w, hw, hl⟩ := hagree.task r hr hlive tr hlink
    obtain ⟨i, hi⟩ := List.getElem?_of_mem hw
    refine ⟨(tr, i), ⟨htr, w, hi, (live_of_sameName hl.2.state).2, hl.2⟩, ?_⟩
    rintro ⟨k, j⟩ ⟨hk, v, hv, -, hc⟩
    obtain rfl : k = tr := hreg.owners k hk tr htr (hc.owner.symm.trans hl.2.owner)
    have hij : j = i := (hagree.boards k hk).index_unique hv hi (hc.key.symm.trans hl.2.key)
    rw [hij]

/-- The first task of the small service runs as one job. -/
theorem board_job_agreement_running :
    ∃ w, ((State.sample false (State.sampleReview.take 2)).team 0).work[0]? = some w ∧
      w.snapshot.state = .running ∧
      ∃! r, r ∈ (State.sample false (State.sampleReview.take 2)).jobs ∧
        taskTerminal ((State.sample false (State.sampleReview.take 2)).job r).snapshot.state =
          false ∧
        Corresponds ((State.sample false (State.sampleReview.take 2)).team 0) w
          ((State.sample false (State.sampleReview.take 2)).job r) := by
  have hs : State.Reachable (State.sampleService false)
      (State.sample false (State.sampleReview.take 2)) :=
    State.reachable_applyAll (by decide) (by decide +kernel)
  have htr : 0 ∈ (State.sample false (State.sampleReview.take 2)).teams := by decide +kernel
  have hentry : (((State.sample false (State.sampleReview.take 2)).team 0).work[0]?).any
      (fun w => w.snapshot.state == .running) = true := by
    decide +kernel
  obtain ⟨w, hw, hrunning⟩ := (Option.any_eq_true _ _).mp hentry
  have hrunning : w.snapshot.state = .running := by simpa using hrunning
  exact ⟨w, hw, hrunning, (board_job_agreement hs).2.1 0 htr w (List.mem_of_getElem? hw)
    (by rw [hrunning]; rfl)⟩

end Orangutan.Bootstrap
