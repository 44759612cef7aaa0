import Orangutan.Bootstrap.Writes
import Orangutan.Core.ScalarValues

/-!
# Stored results

A monitor stores the result of its job when the child reported. No other operation writes a
result, so what a terminal job shows was cut from the text its child left behind, and a board
shows cuts of such results.
-/

namespace Orangutan.Bootstrap

set_option autoImplicit false

open Orangutan.Core Orangutan.Core.Str Orangutan.Lib Orangutan.Tool Relation

/-- Every result and every report on a board is well-formed text. -/
structure ValidTexts (s : State) : Prop where
  results : ∀ r, isValidUtf8 (s.job r).result = true
  reports : ∀ tr, ∀ w ∈ (s.team tr).work, isValidUtf8 w.snapshot.report = true

/-- The reports of existing jobs are kept, new jobs have none, and boards show nothing else. -/
structure KeepsReports (s t : State) : Prop where
  next : s.jobHeap.next ≤ t.jobHeap.next
  kept : ∀ r, (t.job r).report = (s.job r).report ∨ s.jobHeap.next ≤ r ∧
    (t.job r).report = Job.blank
  boards : ValidTexts s → ∀ tr, ∀ w ∈ (t.team tr).work, isValidUtf8 w.snapshot.report = true

namespace ValidTexts

variable {s t : State}

theorem keeps (h : ValidTexts s) (hk : KeepsReports s t) : ValidTexts t := by
  refine ⟨fun r => ?_, hk.boards h⟩
  rcases hk.kept r with he | ⟨-, he⟩
  · have hresult : (t.job r).result = (s.job r).result := congrArg Prod.fst he
    rw [hresult]
    exact h.results r
  · have hresult : (t.job r).result = [] := congrArg Prod.fst he
    rw [hresult]
    rfl

theorem shown (h : ValidTexts s) {tr : TeamRef} {work : List Team.Work}
    (hshows : Shows (s.team tr).work work) :
    ∀ w ∈ work, isValidUtf8 w.snapshot.report = true := by
  intro w hw
  rcases hshows w hw with hnone | ⟨v, hv, hsame⟩
  · rw [hnone]
    rfl
  · rw [← hsame]
    exact h.reports tr v hv

end ValidTexts

namespace KeepsReports

variable {s t : State}

theorem of_boards (hjobs : t.jobHeap = s.jobHeap)
    (hboards : ValidTexts s → ∀ tr, ∀ w ∈ (t.team tr).work, isValidUtf8 w.snapshot.report = true) :
      KeepsReports s t := by
  refine ⟨hjobs ▸ le_refl _, fun r => .inl ?_, hboards⟩
  unfold State.job
  rw [hjobs]

theorem of_heaps (hjobs : t.jobHeap = s.jobHeap) (hteams : t.teamHeap = s.teamHeap) :
    KeepsReports s t := by
  refine of_boards hjobs fun h tr => ?_
  have hsame : t.team tr = s.team tr := by
    unfold State.team
    rw [hteams]
  rw [hsame]
  exact h.reports tr

theorem refl (s : State) : KeepsReports s s := of_heaps rfl rfl

theorem trans {u : State} (h : KeepsReports s t) (k : KeepsReports t u) : KeepsReports s u := by
  refine ⟨h.next.trans k.next, fun r => ?_, fun hs => k.boards (hs.keeps h)⟩
  rcases k.kept r with he | ⟨hle, he⟩
  · rw [he]
    exact h.kept r
  · exact .inr ⟨h.next.trans hle, he⟩

theorem setJob {r : JobRef} {job : Job} (h : job.report = (s.job r).report) :
    KeepsReports s (s.setJob r job) := by
  refine ⟨le_refl _, fun k => .inl ?_, fun hs => hs.reports⟩
  rw [State.job_setJob]
  split
  · next he => rw [he, h]
  · rfl

theorem pushJob {job : Job} (h : job.report = Job.blank) : KeepsReports s (s.pushJob job) := by
  refine ⟨Nat.le_succ _, fun r => ?_, fun hs => hs.reports⟩
  by_cases hr : r = s.jobHeap.next
  · have hjob : (s.pushJob job).job r = job := by
      rw [hr]
      exact Heap.get_alloc_next _ job
    exact .inr ⟨Nat.le_of_eq hr.symm, by rw [hjob, h]⟩
  · have hsame : (s.pushJob job).job r = s.job r := by
      simp [State.pushJob, State.job, Heap.alloc, Heap.get, hr]
    rw [hsame]
    exact .inl rfl

/-- The board entry of a job shows a cut of its result. -/
theorem updateTeamJob {job : Job} (h : ValidTexts s → isValidUtf8 job.result = true) :
    KeepsReports s (s.updateTeamJob job) := by
  rcases State.updateTeamJob_cases s job with ⟨hs, -⟩ | ⟨tr, i, w, members, -, hw, -, -, hs⟩ <;>
    rw [hs]
  · exact refl s
  · refine of_boards rfl fun htexts k => ?_
    rw [State.team_setTeam]
    split
    · intro v hv
      rcases List.mem_or_eq_of_mem_set hv with hold | rfl
      · exact htexts.reports tr v hold
      · unfold reportedTask
        split
        · exact isValidUtf8_truncateToCodePoint (h htexts) 65536
        · exact htexts.reports tr w (List.mem_of_getElem? hw)
    · exact htexts.reports k

theorem publish {r : JobRef} {job : Job} (h : job.report = (s.job r).report) :
    KeepsReports s (s.publish r job) := by
  refine (setJob h).trans (updateTeamJob fun hs => ?_)
  have hresult : isValidUtf8 ((s.setJob r job).job r).result = true := hs.results r
  rwa [State.job_setJob_self] at hresult

end KeepsReports

/-- Writes outside the monitor keep every report. -/
theorem keepsReports_write {S : Scope} {s t : State} (hends : ∀ r, ¬S.ends r) (h : Write S s t) :
    KeepsReports s t := by
  cases h with
  | lists => exact .of_heaps rfl rfl
  | returned => exact .of_heaps rfl rfl
  | job r job hreport => exact .setJob (hreport.resolve_right (hends r)).1
  | push job hblank => exact .pushJob hblank
  | report r => exact .updateTeamJob fun hs => hs.results r
  | team tr team _ hwork =>
    refine .of_boards rfl fun hs k => ?_
    rw [State.team_setTeam]
    split
    · exact hs.shown hwork
    · exact hs.reports k
  | mail tr message =>
    refine .of_boards rfl fun hs k => ?_
    rw [State.team_setTeam]
    split
    · exact hs.reports tr
    · exact hs.reports k
  | found teams tick team _ hwork =>
    refine .of_boards rfl fun hs tr => ?_
    have hteam : ({ s with tick, teams, teamHeap := s.teamHeap.alloc team } : State).team tr =
        if tr = s.teamHeap.next then team else s.team tr := by
      simp only [State.team, Heap.get, Heap.alloc, Function.update_apply]
    rw [hteam]
    split
    · rw [hwork]
      exact fun w hw => (by cases hw)
    · exact hs.reports tr

theorem keepsReports_writes {S : Scope} {s t : State} (hends : ∀ r, ¬S.ends r) (h : Writes S s t) :
    KeepsReports s t :=
  run_relates (r := Write S) (I := fun _ => True) (Q := KeepsReports)
    (fun _ _ _ _ => trivial) KeepsReports.refl
    (fun _ _ _ => .trans) (fun _ _ _ hw => keepsReports_write hends hw) h trivial

theorem Scope.none_ends (r : JobRef) : ¬Scope.none.ends r := id

/-- The monitor of `r` stores the cut of the text its child left behind. -/
structure Concludes (s : State) (r : JobRef) (text : Bytes) (t : State) : Prop where
  next : t.jobHeap.next = s.jobHeap.next
  result : (t.job r).result = truncateToCodePoint text s.options.maxResultBytes
  truncated : (t.job r).snapshot.resultTruncated = decide ((t.job r).result.length < text.length)
  succeeded : (t.job r).snapshot.state = .succeeded
  others : ∀ k, k ≠ r → t.job k = s.job k
  boards : ValidTexts s → isValidUtf8 text = true → ∀ tr, ∀ w ∈ (t.team tr).work,
    isValidUtf8 w.snapshot.report = true

namespace State

/-- A joined child left a text behind, or its job has nothing to show. -/
theorem concludedJob_cases (s : State) {job : Job} (joined : Bool)
    (outcome : Option (Except ErrorKind Bytes))
    (hlive : job.snapshot.state = .running ∨ job.snapshot.state = .cancelling) :
    (s.concludedJob job joined outcome).report = job.report ∨
      ∃ text, joined = true ∧ outcome = some (.ok text) ∧ job.snapshot.state = .running ∧
        (s.concludedJob job joined outcome).result =
          truncateToCodePoint text s.options.maxResultBytes ∧
        (s.concludedJob job joined outcome).snapshot.resultTruncated =
          decide ((truncateToCodePoint text s.options.maxResultBytes).length < text.length) ∧
        (s.concludedJob job joined outcome).snapshot.state = .succeeded := by
  have hnone : (job.snapshot.state == .succeeded) = false := by
    rcases hlive with h | h <;> rw [h] <;> rfl
  unfold concludedJob
  split
  · left
    simp only [Job.report, hnone]
    cases job.timedOut <;> rfl
  · next hrunning =>
    have hrunning : job.snapshot.state = .running := by
      rcases hlive with h | h
      · exact h
      · rw [h] at hrunning
        exact absurd rfl hrunning
    split
    · next text => exact .inr ⟨text, rfl, rfl, hrunning, rfl, rfl, rfl⟩
    · next kind _ =>
      left
      simp only [Job.report, hnone]
      split <;> rfl
    · left
      simp only [Job.report, hnone]
      rfl

theorem monitor_report (s : State) {r : JobRef} (joined : Bool)
    (outcome : Option (Except ErrorKind Bytes))
    (hlive : (s.job r).snapshot.state = .running ∨ (s.job r).snapshot.state = .cancelling) :
    KeepsReports s (s.monitor r joined outcome) ∨
      ∃ text, joined = true ∧ outcome = some (.ok text) ∧ (s.job r).snapshot.state = .running ∧
        Concludes s r text (s.monitor r joined outcome) := by
  unfold monitor
  dsimp only
  rcases concludedJob_cases s joined outcome hlive with h | ⟨text, hjoined, houtcome, hrunning,
    hresult, htruncated, hstate⟩
  · left
    have hread : KeepsReports s s.read := .of_heaps rfl rfl
    have hreport : ((s.concludedJob (s.job r) joined outcome).stamp
      (s.svc.env.steadyNow s.tick)).report =
        (s.read.job r).report := h
    refine ((hread.trans (.publish hreport)).trans (.setJob ?_)).trans (.of_heaps rfl rfl)
    rw [job_publish_self]
    rfl
  · refine .inr ⟨text, hjoined, houtcome, hrunning, ?_⟩
    generalize hjob : (s.concludedJob (s.job r) joined outcome).stamp (s.svc.env.steadyNow s.tick) =
      job
    have hres : job.result = truncateToCodePoint text s.options.maxResultBytes := by
      rw [← hjob]; exact hresult
    have hself : ((s.read.publish r job).setJob r job.detach).job r = job.detach :=
      job_setJob_self _ _ _
    refine ⟨?_, ?_, ?_, ?_, fun k hk => ?_, fun htexts htext => ?_⟩
    · simp [setJob, publish]
      rfl
    · exact (congrArg Job.result hself).trans hres
    · have htr : (((s.read.publish r job).setJob r job.detach).job r).snapshot.resultTruncated =
          job.snapshot.resultTruncated := congrArg (·.snapshot.resultTruncated) hself
      have hlen : (((s.read.publish r job).setJob r job.detach).job r).result = job.result := by
        rw [hself]; rfl
      refine htr.trans ?_
      change job.snapshot.resultTruncated =
        decide ((((s.read.publish r job).setJob r job.detach).job r).result.length < _)
      rw [hlen, hres, ← hjob]
      exact htruncated
    · have hst : (((s.read.publish r job).setJob r job.detach).job r).snapshot.state =
          job.snapshot.state :=
        congrArg (·.snapshot.state) hself
      refine hst.trans ?_
      rw [← hjob]
      exact hstate
    · change ((s.read.publish r job).setJob r job.detach).job k = s.job k
      rw [job_setJob_ne _ _ _ hk, job_publish_ne _ _ _ hk]
      rfl
    · have hboards : KeepsReports (s.read.setJob r job) ((s.read.setJob r job).updateTeamJob job) :=
        .updateTeamJob fun _ => by rw [hres]; exact isValidUtf8_truncateToCodePoint htext _
      refine hboards.boards ⟨fun k => ?_, htexts.reports⟩
      rw [job_setJob]
      split
      · rw [hres]
        exact isValidUtf8_truncateToCodePoint htext _
      · exact htexts.results k

/-- What one operation does to the reports. -/
theorem reports_apply {s : State} {op : Op} (h : s.Enabled op) :
    KeepsReports s (s.apply op) ∨
      ∃ r text, op = .monitor r true (some (.ok text)) ∧ (s.job r).snapshot.state = .running ∧
        Concludes s r text (s.apply op) := by
  by_cases hmonitor : ∃ r joined outcome, op = .monitor r joined outcome
  · obtain ⟨r, joined, outcome, rfl⟩ := hmonitor
    rcases monitor_report s joined outcome h.2 with hkeeps | ⟨text, rfl, rfl, hrunning, hconcludes⟩
    · exact .inl hkeeps
    · exact .inr ⟨r, text, rfl, hrunning, hconcludes⟩
  · left
    cases hcloses : op.closes with
    | false =>
      have hends : ∀ r, ¬op.scope.ends r := by
        intro r
        cases op with
        | monitor k joined outcome => exact absurd ⟨k, joined, outcome, rfl⟩ hmonitor
        | _ => exact id
      exact keepsReports_writes hends (writes_apply hcloses)
    | true =>
      rcases writes_closing (S := .none) (s := s) hcloses with hsame | ⟨joining, hwrites⟩
      · rw [hsame]
        exact .refl s
      · have hclosed : KeepsReports s { s with closed := true, joining } := .of_heaps rfl rfl
        exact hclosed.trans (keepsReports_writes Scope.none_ends hwrites)

end State

/-- A job without success shows nothing; a successful one shows the cut of the text its monitor
found. -/
structure Stored (svc : Service) (s : State) (r : JobRef) : Prop where
  none : (s.job r).snapshot.state ≠ .succeeded → (s.job r).result = [] ∧
    (s.job r).snapshot.resultTruncated = false
  some : (s.job r).snapshot.state = .succeeded → ∃ u text, State.Reachable svc u ∧
    u.Enabled (.monitor r true (some (.ok text))) ∧
    ReflTransGen State.Step (u.apply (.monitor r true (some (.ok text)))) s ∧
    (s.job r).result = truncateToCodePoint text svc.options.maxResultBytes ∧
    (s.job r).snapshot.resultTruncated = decide ((s.job r).result.length < text.length)

theorem Job.report_eq {a b : Job} (h : a.report = b.report) :
    a.result = b.result ∧ a.snapshot.resultTruncated = b.snapshot.resultTruncated ∧
      (a.snapshot.state = .succeeded ↔ b.snapshot.state = .succeeded) := by
  simp only [Job.report, Prod.mk.injEq] at h
  refine ⟨h.1, h.2.1, ?_⟩
  have hsame := h.2.2
  constructor <;> intro hs <;> rw [hs] at hsame <;> simpa using hsame

theorem Job.report_blank {a : Job} (h : a.report = Job.blank) :
    a.result = [] ∧ a.snapshot.resultTruncated = false ∧ a.snapshot.state ≠ .succeeded := by
  simp only [Job.report, Job.blank, Prod.mk.injEq] at h
  exact ⟨h.1, h.2.1, by simpa using h.2.2⟩

namespace Stored

variable {svc : Service} {s t : State}

theorem of_blank {r : JobRef} (h : (s.job r).report = Job.blank) : Stored svc s r := by
  obtain ⟨hresult, htruncated, hstate⟩ := Job.report_blank h
  exact ⟨fun _ => ⟨hresult, htruncated⟩, fun hs => absurd hs hstate⟩

theorem step {r : JobRef} (h : Stored svc s r) (hs : State.Step s t)
    (hsame : (t.job r).report = (s.job r).report) :
    Stored svc t r := by
  obtain ⟨hresult, htruncated, hstate⟩ := Job.report_eq hsame
  refine ⟨fun hne => ?_, fun hsucceeded => ?_⟩
  · rw [hresult, htruncated]
    exact h.none fun hsucceeded => hne (hstate.mpr hsucceeded)
  · obtain ⟨u, text, hu, henabled, hrun, htext, hcut⟩ := h.some (hstate.mp hsucceeded)
    refine ⟨u, text, hu, henabled, hrun.tail hs, ?_, ?_⟩
    · rw [hresult, htext]
    · rw [hresult, htruncated, hcut]

end Stored

theorem create_reachable {svc : Service} {s : State} (h : State.create svc = .ok s) :
    State.Reachable svc s :=
  ⟨s, h, .refl⟩

/-- Every record of a reachable state is a stored one. -/
theorem stored_reachable {svc : Service} {s : State} (hs : State.Reachable svc s) (r : JobRef) :
    Stored svc s r := by
  obtain ⟨s₀, hcreate, hrun⟩ := hs
  induction hrun with
  | refl =>
    obtain rfl := (State.create_ok hcreate).1
    exact .of_blank rfl
  | @tail u t hrun hstep ih =>
    have hu : State.Reachable svc u := ⟨s₀, hcreate, hrun⟩
    obtain ⟨op, henabled, rfl⟩ := hstep
    rcases State.reports_apply henabled with hkeeps | ⟨k, text, rfl, -, hconcludes⟩
    · rcases hkeeps.kept r with hsame | ⟨-, hblank⟩
      · exact ih.step ⟨op, henabled, rfl⟩ hsame
      · exact .of_blank hblank
    · by_cases hk : r = k
      · rw [hk]
        have hsvc : u.svc = svc := path_svc hu.path
        refine ⟨fun hne => absurd hconcludes.succeeded hne,
          fun _ => ⟨u, text, hu, henabled, .refl, ?_, hconcludes.truncated⟩⟩
        rw [hconcludes.result, State.options, hsvc]
      · refine ih.step ⟨_, henabled, rfl⟩ ?_
        rw [hconcludes.others r hk]

theorem all_stable : Grant.all.Stable := fun _ _ _ h => h

/-- A terminal job keeps its report. -/
theorem report_kept {s t : State} (hrun : ReflTransGen State.Step s t)
    {r : JobRef} (hr : r < s.jobHeap.next)
      (hterminal : taskTerminal (s.job r).snapshot.state = true) :
    (t.job r).report = (s.job r).report := by
  induction hrun with
  | refl => rfl
  | @tail u t hrun hstep ih =>
    have hfollows : Follows .all s u := follows_path all_stable (State.path_of_steps hrun)
    obtain ⟨op, henabled, rfl⟩ := hstep
    rcases State.reports_apply henabled with hkeeps | ⟨k, text, rfl, hrunning, hconcludes⟩
    · rcases hkeeps.kept r with hsame | ⟨hle, -⟩
      · rw [hsame, ih]
      · exact absurd (Nat.lt_of_lt_of_le hr hfollows.next) (Nat.not_lt.mpr hle)
    · have hk : r ≠ k := by
        rintro rfl
        rw [← hfollows.terminal r hr hterminal, hrunning] at hterminal
        cases hterminal
      rw [hconcludes.others r hk, ih]

end Orangutan.Bootstrap
