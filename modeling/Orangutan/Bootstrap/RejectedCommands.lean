import Orangutan.Agent.Loop
import Orangutan.Bootstrap.Exchange
import Orangutan.Bootstrap.Progress
import Orangutan.Bootstrap.ResultPages
import Orangutan.Memory.Session

/-!
# Rejected team commands

A team command that returns an error has changed nothing. Checks come before the change, and the
output that is built after it cannot fail: the board still has the entry, and its report is
well-formed text.
-/

namespace Orangutan.Bootstrap

set_option autoImplicit false

open Orangutan.Core Orangutan.Core.Str Orangutan.Agent Orangutan.Lib Orangutan.Memory
  Orangutan.Tool Relation

structure KeepsBoards (s t : State) : Prop where
  next : s.teamHeap.next ≤ t.teamHeap.next
  owner : ∀ tr < s.teamHeap.next, (t.team tr).owner = (s.team tr).owner
  entry : ∀ tr < s.teamHeap.next, ∀ v ∈ (s.team tr).work, ∃ w ∈ (t.team tr).work,
    w.snapshot.key = v.snapshot.key

theorem keepsBoards_refl (s : State) : KeepsBoards s s :=
    ⟨le_refl _, fun _ _ => rfl, fun _ _ v hv => ⟨v, hv, rfl⟩⟩

theorem KeepsBoards.trans {s t u : State} (h : KeepsBoards s t) (k : KeepsBoards t u) :
    KeepsBoards s u := by
  refine ⟨h.next.trans k.next, fun tr htr => ?_, fun tr htr v hv => ?_⟩
  · rw [k.owner tr (Nat.lt_of_lt_of_le htr h.next), h.owner tr htr]
  · obtain ⟨w, hw, hkey⟩ := h.entry tr htr v hv
    obtain ⟨x, hx, hkey'⟩ := k.entry tr (Nat.lt_of_lt_of_le htr h.next) w hw
    exact ⟨x, hx, hkey'.trans hkey⟩

theorem team_owner_setTeam {s : State} {k : TeamRef} {team : Team}
    (h : team.owner = (s.team k).owner) (tr : TeamRef) :
    ((s.setTeam k team).team tr).owner = (s.team tr).owner := by
  rw [State.team_setTeam]
  split
  · next he => rw [he, h]
  · rfl

theorem team_owner_move {G : Grant} {s t : State} (hm : Move G s t) {tr : TeamRef}
    (htr : tr < s.teamHeap.next) :
    (t.team tr).owner = (s.team tr).owner := by
  cases hm with
  | settle r shown kept =>
    rw [State.team_settled]
    rcases State.updateTeamJob_cases s shown with ⟨he, -⟩ | ⟨k, i, w, members, -, -, -, -, he⟩ <;>
      rw [he]
    exact team_owner_setTeam (by rfl) tr
  | dispatch k i w member id =>
      exact team_owner_setTeam (s := s.pushJob (teamJob s k member w id)) (by rfl) tr
  | edit k i w w' => exact team_owner_setTeam (by rfl) tr
  | submit k => exact team_owner_setTeam (by rfl) tr
  | stop k => exact team_owner_setTeam (by rfl) tr
  | join k => exact team_owner_setTeam (by rfl) tr
  | mail k => exact team_owner_setTeam (by rfl) tr
  | found keep team =>
    have hget : (s.teamHeap.alloc team).get tr = s.teamHeap.get tr :=
      Heap.get_alloc_of_lt _ htr team
    exact congrArg Team.owner hget
  | _ => rfl

theorem keepsBoards_move {G : Grant} {s t : State} (hm : Move G s t) : KeepsBoards s t := by
  refine ⟨TeamHost.teamHeap_next_move hm, fun tr htr => team_owner_move hm htr,
    fun tr htr v hv => ?_⟩
  rcases carries_move hm tr with hcarries | ⟨hnew, -, -⟩
  · obtain ⟨w, hw, hkey, -⟩ := hcarries.entry hv
    exact ⟨w, hw, hkey⟩
  · exact absurd htr (hnew ▸ Nat.lt_irrefl _)

theorem keepsBoards_path {G : Grant} {s t : State} (hp : Path G s t) : KeepsBoards s t :=
  run_relates (r := Move G) (I := fun _ => True) (Q := KeepsBoards)
    (fun _ _ _ _ => trivial) keepsBoards_refl
    (fun _ _ _ => .trans) (fun _ _ _ hm => keepsBoards_move hm) hp trivial

namespace State

theorem findTeam_keeps {s t : State} (hteams : t.teams = s.teams) (h : KeepsBoards s t)
    (hlt : ∀ tr ∈ s.teams, tr < s.teamHeap.next) (owner : TaskOwner) : t.findTeam owner =
      s.findTeam owner := by
  unfold findTeam
  rw [hteams]
  refine List.find?_congr fun tr htr => ?_
  rw [h.owner tr (hlt tr htr)]

theorem pumpBoards_teams (l : List TeamRef) (s : State) : (pumpBoards l s).teams = s.teams := by
  induction l generalizing s with
  | nil => rfl
  | cons tr rest ih =>
    have hboard := pumpBoard_teams tr (List.range (s.team tr).work.length) s
    unfold pumpBoards
    split_ifs
    · exact ih s
    · split
      · next hq => rw [hq] at hboard; exact hboard
      · next hq => rw [hq] at hboard; rw [ih]; exact hboard

theorem pumpJobs_teams (l : List JobRef) (s : State) : (pumpJobs l s).teams = s.teams := by
  induction l generalizing s with
  | nil => rfl
  | cons r rest ih =>
    rw [pumpJobs_cons]
    split_ifs
    · rfl
    · exact ih s
    · rw [ih]
      exact publish_teams s _ r

theorem pump_teams (s : State) : s.pump.teams = s.teams := by
  unfold pump pumpTeams
  split_ifs
  · rfl
  · rw [pumpJobs_teams, pumpBoards_teams]

theorem updateTeamTask_teams (s : State) (tr : TeamRef) (request : TeamTaskUpdateRequest)
    (turn : Option TurnId) :
    (s.updateTeamTask tr request turn).2.teams = s.teams := by
  have hcancel : ∀ i runId, (s.cancelTeamTask tr i runId request.feedback).teams = s.teams := by
    intro i runId
    unfold cancelTeamTask
    dsimp only
    split
    · exact cancelRun_teams _ _ _
    · rw [setWork_teams]
      exact cancelRun_teams _ _ _
  have hreviewed := s.updateTeamTask_reviewed tr request turn
  generalize s.updateTeamTask tr request turn = result at hreviewed
  cases hreviewed with
  | cancel => exact hcancel _ _
  | _ => rfl

theorem teamOutput_ok {team : Team}
    (hreports : ∀ w ∈ team.work, isValidUtf8 w.snapshot.report = true) (automaticDelivery : Bool)
    {key : Bytes} (hentry : key = [] ∨ ∃ w ∈ team.work, w.snapshot.key = key) :
    ∃ out, teamOutput team automaticDelivery { key } = .ok out := by
  unfold teamOutput
  dsimp only
  split
  · exact ⟨_, rfl⟩
  · next hkey =>
    obtain ⟨w, hw, hsame⟩ : ∃ w ∈ team.work, w.snapshot.key = key := by
      rcases hentry with rfl | hentry
      · exact absurd rfl hkey
      · exact hentry
    split
    · next hnone => exact absurd (List.find?_eq_none.mp hnone w hw) (by simp [hsame])
    · next work hfind =>
      have hvalid := hreports work (List.mem_of_find?_eq_some hfind)
      have hedge : ¬(decide (work.snapshot.report.length < 0) ||
          interiorOffset work.snapshot.report 0) = true := by
        rw [interior_zero hvalid]
        simp
      have hsome : ¬((truncateToCodePoint (work.snapshot.report.drop 0) 2048).isEmpty &&
          decide (0 < work.snapshot.report.length)) = true := by
        rw [List.drop_zero, Bool.and_eq_true, decide_eq_true_iff]
        rintro ⟨hempty, hpos⟩
        exact truncateToCodePoint_ne_nil hvalid (List.length_pos_iff.mp hpos) (by omega)
          (List.isEmpty_iff.mp hempty)
      rw [if_neg hedge, if_neg hsome]
      exact ⟨_, rfl⟩

/-- What a command that went through leaves for its output: the caller's team and the entry it
names. -/
structure Leaves (s : State) (owner : TaskOwner) (key : Bytes) (u : State) : Prop where
  team : ∃ tr ∈ u.teams, u.findTeam owner = some tr ∧
    (key = [] ∨ ∃ w ∈ (u.team tr).work, w.snapshot.key = key)
  ledger : Ledger u
  texts : ValidTexts s → ValidTexts u

/-- A command that is neither `create` nor `message` runs on the caller's team. -/
theorem leaves_of_keeps {s u : State} {owner : TaskOwner} {key : Bytes} {tr : TeamRef}
    (hledger : Ledger s) (hfind : s.findTeam owner = some tr) (hp : Path .all s u)
    (hteams : u.teams = s.teams) (htexts : KeepsReports s u)
    (hkey : key = [] ∨ ∃ w ∈ (u.team tr).work, w.snapshot.key = key) : Leaves s owner key u := by
  refine ⟨⟨tr, ?_, ?_, hkey⟩, ?_, fun h => h.keeps htexts⟩
  · rw [hteams]
    exact (findTeam_spec hfind).1
  · rw [findTeam_keeps hteams (keepsBoards_path hp) hledger.1.teams_lt, hfind]
  · exact run_invariant (r := Move .all) (I := Ledger) (fun _ _ => ledger_move) hp hledger

theorem teamRequest_ok {s u : State} {parent : AgentSessionOptions} {command : TeamCommand}
    {context : DispatchContext} {window : TeamGetRequest} (hledger : Ledger s)
    (hvalid : command.valid = true) (hreading : command.reading = false)
    (h : s.teamRequest parent command context = (.ok window, u)) :
    window = { key := window.key } ∧ Leaves s (taskOwner parent) window.key u := by
  have hp : Path .all s u := by
    have hpath := path_teamRequest s parent context hvalid
    rw [h] at hpath
    exact hpath.mono (Grant.le_all _)
  have htexts : KeepsReports s u := by
    have hwrites := writes_teamRequest (S := ⟨False, True, fun _ => False, False⟩) s parent command
      context trivial
    rw [h] at hwrites
    exact keepsReports_writes (fun _ => id) hwrites
  have hboards := keepsBoards_path hp
  cases command with
  | create request =>
    unfold teamRequest at h
    dsimp only at h
    obtain ⟨n, ⟨e, hcreate⟩ | ⟨kept, team, howner, hwork, -, hcreate⟩⟩ :=
      createTeam_cases s parent request context
    · rw [hcreate] at h
      cases h
    · rw [hcreate] at h
      cases h
      refine ⟨rfl, ?_, run_invariant (r := Move .all) (I := Ledger)
        (fun _ _ => ledger_move) hp hledger, fun hv => hv.keeps htexts⟩
      have hnew : (s.teamHeap.alloc team).get s.teamHeap.next = team := Heap.get_alloc_next _ team
      cases hfind : (kept ++ [s.teamHeap.next]).find? fun tr =>
          ((s.teamHeap.alloc team).get tr).owner == taskOwner parent with
      | none =>
        have hlast := List.find?_eq_none.mp hfind s.teamHeap.next
          (List.mem_append_right _ (List.mem_singleton.mpr rfl))
        rw [hnew, howner] at hlast
        exact absurd (beq_self_eq_true _) hlast
      | some tr => exact ⟨tr, List.mem_of_find?_eq_some hfind, hfind, .inl rfl⟩
  | memberAdd request =>
    unfold teamRequest at h
    dsimp only at h
    split at h
    · cases h
    next tr hfind =>
    obtain ⟨n, ⟨e, hadd⟩ | ⟨id, hadd, -⟩⟩ :=
      addTeamMember_cases s parent (s.team tr) request.member context
    · rw [hadd] at h
      cases h
    · rw [hadd] at h
      cases h
      exact ⟨rfl, leaves_of_keeps hledger hfind hp rfl htexts (.inl rfl)⟩
  | taskCreate request =>
    unfold teamRequest at h
    dsimp only at h
    split at h
    · cases h
    next tr hfind =>
    split at h
    · cases h
    next t hsubmit =>
    cases h
    refine ⟨rfl, ?_⟩
    unfold submitTeamTask at hsubmit
    dsimp only at hsubmit
    split at hsubmit
    · cases hsubmit
    split at hsubmit
    · cases hsubmit
    split at hsubmit
    · cases hsubmit
    split at hsubmit
    · cases hsubmit
    split at hsubmit
    · cases hsubmit
    split at hsubmit
    · cases hsubmit
    cases hsubmit
    refine leaves_of_keeps hledger hfind hp rfl htexts
      (.inr ⟨Team.newWork request context.parentTurnId, ?_, rfl⟩)
    rw [team_setTeam_self]
    exact List.mem_append_right _ (List.mem_singleton.mpr rfl)
  | taskUpdate request =>
    unfold teamRequest at h
    dsimp only at h
    split at h
    · cases h
    next tr hfind =>
    have hteams := updateTeamTask_teams s tr request context.parentTurnId
    split at h
    · cases h
    next t hupdate =>
    cases h
    rw [hupdate] at hteams
    refine ⟨rfl, leaves_of_keeps hledger hfind hp hteams htexts (.inr ?_)⟩
    have hknown : ∃ v ∈ (s.team tr).work, v.snapshot.key = request.key := by
      have hreviewed := s.updateTeamTask_reviewed tr request context.parentTurnId
      rw [hupdate] at hreviewed
      obtain ⟨i, w, hreviews⟩ := hreviewed.entry_of_ok
      exact ⟨w, List.mem_of_getElem? hreviews.entry, hreviews.key⟩
    obtain ⟨v, hv, hkey⟩ := hknown
    obtain ⟨w, hw, hsame⟩ := hboards.entry tr (hledger.1.teams_lt tr (findTeam_spec hfind).1) v hv
    exact ⟨w, hw, hsame.trans hkey⟩
  | stop =>
    unfold teamRequest at h
    dsimp only at h
    split at h
    · cases h
    next tr hfind =>
    cases h
    exact ⟨rfl, leaves_of_keeps hledger hfind hp (stopTeam_teams s tr) htexts (.inl rfl)⟩
  | get request => cases hreading
  | message request =>
    unfold teamRequest at h
    dsimp only at h
    split at h
    · cases h
    next tr hfind =>
    cases h
    exact ⟨rfl, leaves_of_keeps hledger hfind hp rfl htexts (.inl rfl)⟩

end State

/-- Boards and job records are as before; only records that have expired may be gone. -/
structure Unchanged (s t : State) : Prop where
  teams : t.teams = s.teams
  boards : t.teamHeap = s.teamHeap
  records : t.jobHeap = s.jobHeap
  jobs : t.jobs = s.jobs ∨ ∃ n, t.jobs = s.jobs.filter fun r =>
    !s.expired (s.svc.env.steadyNow n) (s.job r)

namespace Unchanged

theorem of_tick (s : State) (n : Nat) : Unchanged s { s with tick := n } :=
    ⟨rfl, rfl, rfl, .inl rfl⟩

theorem prune (s : State) : Unchanged s s.prune := ⟨rfl, rfl, rfl, .inr ⟨s.tick, rfl⟩⟩

theorem of_refused {s t : State} (h : t = s ∨ t = s.prune) : Unchanged s t := by
  rcases h with rfl | rfl
  · exact of_tick t t.tick
  · exact prune s

end Unchanged

namespace State

theorem teamRequest_refused {s t : State} {parent : AgentSessionOptions} {command : TeamCommand}
    {context : DispatchContext} {e : Error} (h : s.teamRequest parent command context =
      (.error e, t)) : Unchanged s t := by
  cases command with
  | create request =>
    unfold teamRequest at h
    dsimp only at h
    obtain ⟨n, ⟨e', hcreate⟩ | ⟨kept, team, -, -, -, hcreate⟩⟩ :=
      createTeam_cases s parent request context
    · rw [hcreate] at h
      cases h
      exact .of_tick s n
    · rw [hcreate] at h
      cases h
  | memberAdd request =>
    unfold teamRequest at h
    dsimp only at h
    split at h
    · cases h
      exact .of_tick s s.tick
    next tr hfind =>
    obtain ⟨n, ⟨e', hadd⟩ | ⟨id, hadd, -⟩⟩ :=
      addTeamMember_cases s parent (s.team tr) request.member context
    · rw [hadd] at h
      cases h
      exact .of_tick s n
    · rw [hadd] at h
      cases h
  | taskCreate request =>
    unfold teamRequest at h
    dsimp only at h
    split at h
    · cases h
      exact .of_tick s s.tick
    split at h
    · next hsubmit =>
      cases h
      exact .of_refused (submitTeamTask_error hsubmit)
    · cases h
  | taskUpdate request =>
    unfold teamRequest at h
    dsimp only at h
    split at h
    · cases h
      exact .of_tick s s.tick
    split at h
    · next hupdate =>
      cases h
      exact .of_refused (updateTeamTask_error hupdate)
    · cases h
  | _ =>
    unfold teamRequest at h
    dsimp only at h
    split at h <;> cases h
    exact .of_tick s s.tick

/-- Everything after the change succeeds. -/
theorem teamCommand_refused {s t : State} (hledger : Ledger s) (htexts : ValidTexts s)
    {parent : AgentSessionOptions} {command : TeamCommand} {context : DispatchContext} {e : Error}
    (h : s.teamCommand parent command context = (.error e, t)) : Unchanged s t := by
  have hsame : Unchanged s s := .of_tick s s.tick
  unfold teamCommand at h
  split at h
  · cases h; exact hsame
  split at h
  · cases h; exact hsame
  next hvalid =>
  have hvalid := valid_of_validateTeamCommand hvalid
  split at h
  · cases h; exact hsame
  split at h
  · split at h
    · cases h; exact hsame
    · rw [TeamHost.sendTeamMessage_refused h]
      exact hsame
  split at h
  · next hrequest =>
    cases h
    exact teamRequest_refused hrequest
  next window u hrequest =>
  dsimp only at h
  cases hreading : command.reading with
  | true =>
    -- Only `get` reads, and it changes nothing.
    obtain ⟨request, rfl⟩ : ∃ request, command = .get request := by
      cases command with
      | get request => exact ⟨request, rfl⟩
      | _ => cases hreading
    have hu : u = s := by
      unfold teamRequest at hrequest
      dsimp only at hrequest
      split at hrequest <;> cases hrequest
      rfl
    subst hu
    rw [hreading, if_pos rfl] at h
    split at h
    · cases h; exact hsame
    · rw [← (Prod.mk.inj h).2]
      exact hsame
  | false =>
    obtain ⟨hwindow, hleaves⟩ := teamRequest_ok hledger hvalid hreading hrequest
    obtain ⟨tr, htr, hfind, hkey⟩ := hleaves.team
    have hboards := keepsBoards_path (path_pump (G := .all) u)
    have hlt := hleaves.ledger.1.teams_lt
    rw [hreading, if_neg Bool.false_ne_true, findTeam_keeps (pump_teams u) hboards hlt, hfind] at h
    have hafter : window.key = [] ∨ ∃ w ∈ (u.pump.team tr).work, w.snapshot.key = window.key := by
      rcases hkey with hkey | ⟨v, hv, hsame⟩
      · exact .inl hkey
      · obtain ⟨w, hw, hkept⟩ := hboards.entry tr (hlt tr htr) v hv
        exact .inr ⟨w, hw, hkept.trans hsame⟩
    obtain ⟨out, hout⟩ :=
      teamOutput_ok
      (((hleaves.texts htexts).keeps (keepsReports_writes Scope.none_ends (writes_pump u))).reports
      tr)
      u.pump.options.automaticDelivery hafter
    rw [← hwindow] at hout
    dsimp only at h
    rw [hout] at h
    cases h

/-- An update the board refuses is refused by the command. -/
theorem teamCommand_update_refused {s : State} {parent : AgentSessionOptions}
    {request : TeamTaskUpdateRequest} {context : DispatchContext} {tr : TeamRef}
    (hfind : s.findTeam (taskOwner parent) = some tr)
    (h : ∃ e, (s.updateTeamTask tr request context.parentTurnId).1 = .error e) :
    ∃ e, (s.teamCommand parent (.taskUpdate request) context).1 = .error e := by
  obtain ⟨e, he⟩ := h
  unfold teamCommand
  split
  · exact ⟨_, rfl⟩
  split
  · exact ⟨_, rfl⟩
  split
  · exact ⟨_, rfl⟩
  dsimp only
  unfold teamRequest
  dsimp only
  rw [hfind]
  dsimp only
  cases hupdate : s.updateTeamTask tr request context.parentTurnId with
  | mk result t =>
    rw [hupdate] at he
    obtain rfl : result = .error e := he
    exact ⟨e, rfl⟩

/-- The view a review acts on is checked: the team, then the attempt, then whether the task is open.
-/
theorem updateTeamTask_stale {s : State} {tr : TeamRef} {request : TeamTaskUpdateRequest}
    {turn : Option TurnId} (h : request.teamId ≠ (s.team tr).id ∨ ∀ w ∈ (s.team tr).work,
    w.snapshot.key = request.key →
      request.attempt ≠ w.snapshot.attempt ∨ w.snapshot.state = .accepted ∧
        request.action ≠ .accept) :
    ∃ e, (s.updateTeamTask tr request turn).1 = .error e := by
  have hreviewed := s.updateTeamTask_reviewed tr request turn
  generalize s.updateTeamTask tr request turn = result at hreviewed
  -- an accepted review contradicts whichever part of the view was out of date
  have hstale : ∀ {i w}, s.Reviews tr request i w →
      (w.snapshot.state = .accepted → request.action = .accept) → False := by
    intro i w hreviews hsettled
    rcases h with hteam | hview
    · exact hteam hreviews.team
    rcases hview w (List.mem_of_getElem? hreviews.entry) hreviews.key with hne | ⟨hacc, hact⟩
    · exact hne hreviews.attempt.symm
    · exact hact (hsettled hacc)
  cases hreviewed with
  | refused e => exact ⟨e, rfl⟩
  | full e => exact ⟨e, rfl⟩
  | settled i w review accepted action => exact (hstale review fun _ => action).elim
  | cancel i w review unsettled => exact (hstale review fun hacc => absurd hacc unsettled).elim
  | accept i w review reported =>
    exact (hstale review fun hacc => by rw [reported] at hacc; cases hacc).elim
  | revise i w review reported =>
    exact (hstale review fun hacc => by
      rcases reported with hs | hs <;> rw [hs] at hacc <;> cases hacc).elim

end State

/-- The text a child leaves behind is put together from the blocks of a provider response. Their
strings come out of the JSON parser of the provider, which returns well-formed text only. -/
def State.Op.parsed : State.Op → Prop
  | .monitor _ _ (some (.ok text)) => ∃ blocks, text = assembleTerminalText blocks ∧
      ∀ block ∈ blocks, (Session.strings block).all isValidUtf8 = true
  | _ => True

/-- A reachable state; every child read its answers from a provider. -/
def State.Served (svc : Service) (s : State) : Prop :=
  ∃ s₀, State.create svc = .ok s₀ ∧
    ReflTransGen (fun s t => ∃ op, s.Enabled op ∧ op.parsed ∧ s.apply op = t) s₀ s

theorem State.Served.reachable {svc : Service} {s : State} (h : State.Served svc s) :
    State.Reachable svc s := by
  obtain ⟨s₀, hcreate, hrun⟩ := h
  exact ⟨s₀, hcreate, ReflTransGen.mono (fun _ _ ⟨op, hop, _, heq⟩ => ⟨op, hop, heq⟩) _ _ hrun⟩

theorem isValidUtf8_assembleTerminalText {blocks : List Content}
    (h : ∀ block ∈ blocks, (Session.strings block).all isValidUtf8 = true) :
      isValidUtf8 (assembleTerminalText blocks) = true := by
  refine List.foldlRecOn (motive := fun output => isValidUtf8 output = true) blocks _ rfl
    fun output ho block hmem => ?_
  cases block with
  | text t =>
    have ht : isValidUtf8 t = true := by simpa [Session.strings] using h _ hmem
    dsimp only
    unfold appendTextBlock
    split
    · rw [List.append_assoc, isValidUtf8_append ho, isValidUtf8_append (by decide)]
      exact ht
    · rw [isValidUtf8_append ho]
      exact ht
  | _ => exact ho

theorem validTexts_served {svc : Service} {s : State} (h : State.Served svc s) : ValidTexts s := by
  obtain ⟨s₀, hcreate, hrun⟩ := h
  refine run_invariant (I := ValidTexts) ?_ hrun ?_
  · rintro s t hs ⟨op, hop, hparsed, rfl⟩
    rcases State.reports_apply hop with hkeeps | ⟨r, text, rfl, -, hconcludes⟩
    · exact hs.keeps hkeeps
    · obtain ⟨blocks, rfl, hblocks⟩ := hparsed
      have htext := isValidUtf8_assembleTerminalText hblocks
      refine ⟨fun k => ?_, hconcludes.boards hs htext⟩
      by_cases hk : k = r
      · rw [hk, hconcludes.result]
        exact isValidUtf8_truncateToCodePoint htext _
      · rw [hconcludes.others k hk]
        exact hs.results k
  · obtain rfl := (State.create_ok hcreate).1
    exact ⟨fun _ => rfl, fun _ w hw => (by cases hw)⟩

/-- A rejected command changes nothing, and a review of an old view is rejected. -/
theorem rejected_commands {svc : Service} {s : State} (hs : State.Served svc s) :
    (∀ parent command context e t, s.teamCommand parent command context = (.error e, t) →
      Unchanged s t) ∧
    (∀ tr sender request e t, s.sendTeamMessage tr sender request = (.error e, t) → t = s) ∧
    ∀ parent context tr, s.findTeam (taskOwner parent) = some tr →
      (∀ request : TeamTaskUpdateRequest, request.teamId ≠ (s.team tr).id →
        ∃ e, (s.teamCommand parent (.taskUpdate request) context).1 = .error e) ∧
      ∀ (request : TeamTaskUpdateRequest) (i : Nat) (w : Team.Work), (s.team tr).work[i]? = some w →
        w.snapshot.key = request.key →
        (request.attempt ≠ w.snapshot.attempt →
          ∃ e, (s.teamCommand parent (.taskUpdate request) context).1 = .error e) ∧
        (w.snapshot.state = .accepted →
          (request.action ≠ .accept → ∃ e, (s.teamCommand parent (.taskUpdate request) context).1 =
            .error e) ∧
          ((s.teamCommand parent (.taskUpdate request) context).2.team tr).work[i]? = some w) := by
  have hledger := ledger_reachable hs.reachable
  refine ⟨fun parent command context e t h => State.teamCommand_refused hledger
    (validTexts_served hs) h, fun tr sender request e t h => TeamHost.sendTeamMessage_refused h,
    fun parent context tr hfind => ?_⟩
  have htr := (State.findTeam_spec hfind).1
  refine ⟨fun request hne => State.teamCommand_update_refused hfind
    (State.updateTeamTask_stale (.inl hne)), fun request i w hw hkey => ?_⟩
  have honly : ∀ v ∈ (s.team tr).work, v.snapshot.key = request.key → v = w := fun v hv hsame =>
    (hledger.2.boards tr htr).entry_unique hv (List.mem_of_getElem? hw) (hsame.trans hkey.symm)
  refine ⟨fun hne => ?_, fun haccepted => ⟨fun haction => ?_, ?_⟩⟩
  · refine State.teamCommand_update_refused hfind
      (State.updateTeamTask_stale (.inr fun v hv hsame => .inl ?_))
    rw [honly v hv hsame]
    exact hne
  · refine State.teamCommand_update_refused hfind
      (State.updateTeamTask_stale (.inr fun v hv hsame => .inr ⟨?_, haction⟩))
    rw [honly v hv hsame]
    exact haccepted
  · have hstep : State.Step s (s.apply (.teamCommand parent (.taskUpdate request) context)) :=
      ⟨.teamCommand parent (.taskUpdate request) context, trivial, rfl⟩
    exact (keepsAccepted_run hs.reachable (.single hstep)).entry tr
      (hledger.1.teams_lt tr htr) i w hw haccepted

theorem State.served_applyAll {s : State} (ops : List State.Op) (h : State.AllEnabled s ops)
    (hparsed : ∀ op ∈ ops, op.parsed) :
    ReflTransGen (fun s t => ∃ op, s.Enabled op ∧ op.parsed ∧
      s.apply op = t) s (s.applyAll ops) := by
  induction ops generalizing s with
  | nil => exact .refl
  | cons op rest ih =>
    exact .head ⟨op, h.1, hparsed op List.mem_cons_self, rfl⟩
      (ih h.2 fun other hother => hparsed other (List.mem_cons_of_mem _ hother))

theorem State.served_sampleReview :
    State.Served (State.sampleService false) (State.sample false State.sampleReview) := by
  refine ⟨State.empty (State.sampleService false), by rfl,
    State.served_applyAll _ (by decide +kernel) ?_⟩
  intro op hop
  simp only [State.sampleReview, List.mem_cons, List.not_mem_nil, or_false] at hop
  rcases hop with rfl | rfl | rfl | rfl | rfl | rfl <;> try trivial
  exact ⟨[.text (text "done")], by decide +kernel, by decide +kernel⟩

/-- The leader reviews an attempt that does not exist. -/
theorem rejected_commands_stale :
    Unchanged (State.sample false State.sampleReview)
      ((State.sample false State.sampleReview).teamCommand State.sampleLeader
      (.taskUpdate ⟨text "a", 2, .accept, text "fine", formatTurnIdHex (State.sampleId 0)⟩)
        State.sampleContext).2 := by
  obtain ⟨hrefused, -, hreview⟩ := rejected_commands State.served_sampleReview
  have hfind : (State.sample false State.sampleReview).findTeam (taskOwner State.sampleLeader) =
    some 0 := by decide +kernel
  have hentry : (((State.sample false State.sampleReview).team 0).work[0]?.any fun w =>
      w.snapshot.key == text "a" && w.snapshot.attempt == 1) = true := by decide +kernel
  rw [Option.any_eq_true] at hentry
  obtain ⟨w, hw, hfacts⟩ := hentry
  simp only [Bool.and_eq_true, beq_iff_eq] at hfacts
  obtain ⟨e, he⟩ := ((hreview State.sampleLeader State.sampleContext 0 hfind).2
    ⟨text "a", 2, .accept, text "fine", formatTurnIdHex (State.sampleId 0)⟩ 0 w hw hfacts.1).1
    (by rw [hfacts.2]; decide)
  exact hrefused _ _ _ e _ (Prod.ext he rfl)

end Orangutan.Bootstrap
