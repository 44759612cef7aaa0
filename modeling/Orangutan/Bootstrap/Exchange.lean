import Orangutan.Bootstrap.Mail

/-!
# Exactly-once delivery of team messages

Every message addressed to a member is shown by its turns in the order of sending,
and stays pending until a turn that showed it was persisted. The invariant splits the
messages of a member into those of committed transcripts and the pending ones, of
which the turn under way has shown a front part.
-/

namespace Orangutan.Bootstrap

set_option autoImplicit false

open Orangutan.Core Orangutan.Core.Str Orangutan.Agent Orangutan.Lib Orangutan.Tool

namespace Team

/-- The messages addressed to a member, in the order of sending. -/
def addressed (team : Team) (member : Bytes) : List Team.Message :=
  team.messages.filter (·.recipient == member)

/-- The member's messages are the acknowledged ones, which are `seen`, followed by the
pending ones. -/
structure Delivered (team : Team) (member : Bytes) (seen : List InboxMessage)
    (front back : List Team.Message) : Prop where
  split : team.addressed member = front ++ back
  seen : front.map (·.envelope) = seen
  acknowledged : ∀ m ∈ front, m.acknowledged = true
  pending : ∀ m ∈ back, m.acknowledged = false

theorem inboxRead_eq (team : Team) (member : Bytes) :
    team.inboxRead member = ((team.addressed member).filter fun m => !m.acknowledged).map
      (·.envelope) := by
  unfold inboxRead addressed
  rw [List.filter_filter]
  congr 2
  funext m
  rw [Bool.and_comm]

namespace Delivered

variable {a b : Team} {member : Bytes} {seen : List InboxMessage} {front back : List Team.Message}

theorem read (h : a.Delivered member seen front back) :
    a.inboxRead member = back.map (·.envelope) := by
  have hfront : front.filter (fun m => !m.acknowledged) = [] := by
    rw [List.filter_eq_nil_iff]
    intro m hm
    simp [h.acknowledged m hm]
  have hback : back.filter (fun m => !m.acknowledged) = back := by
    rw [List.filter_eq_self]
    intro m hm
    simp [h.pending m hm]
  rw [inboxRead_eq, h.split, List.filter_append, hfront, hback, List.nil_append]

theorem nil (h : a.messages = []) (member : Bytes) : a.Delivered member [] [] [] where
  split := by simp [addressed, h]
  seen := rfl
  acknowledged := fun m hm => by cases hm
  pending := fun m hm => by cases hm

/-- Moves only add pending messages, at the end. -/
theorem carries (h : a.Delivered member seen front back) (hc : Carries a b) :
    ∃ more, b.Delivered member seen front (back ++ more) := by
  cases hc with
  | keep messages =>
    refine ⟨[], ?_, h.seen, h.acknowledged, ?_⟩
    · have hsame : b.addressed member = a.addressed member := by unfold addressed; rw [messages]
      rw [hsame, h.split, List.append_nil]
    · rw [List.append_nil]
      exact h.pending
  | post message hadmits messages =>
    refine ⟨[message].filter (·.recipient == member), ?_, h.seen, h.acknowledged, fun m hm => ?_⟩
    · have happend : b.addressed member = a.addressed member ++
          [message].filter (·.recipient == member) := by
        unfold addressed
        rw [messages, List.filter_append]
      rw [happend, h.split, List.append_assoc]
    · rcases List.mem_append.mp hm with hm | hm
      · exact h.pending m hm
      · rw [List.mem_singleton.mp (List.mem_of_mem_filter hm)]
        exact hadmits.pending

end Delivered

/-- What acknowledging does to one message. -/
def acknowledgeOne (member : Bytes) (ids : List Bytes) (m : Team.Message) : Team.Message :=
  if m.recipient == member && ids.contains m.envelope.id then { m with acknowledged := true } else m

section AcknowledgeOne

variable (member : Bytes) (ids : List Bytes) (m : Team.Message)

@[simp] theorem acknowledgeOne_envelope : (acknowledgeOne member ids m).envelope = m.envelope := by
  unfold acknowledgeOne
  split <;> rfl

@[simp] theorem acknowledgeOne_recipient :
    (acknowledgeOne member ids m).recipient = m.recipient := by
  unfold acknowledgeOne
  split <;> rfl

theorem acknowledgeOne_monotone (h : m.acknowledged = true) :
    (acknowledgeOne member ids m).acknowledged = true := by
  unfold acknowledgeOne
  split
  · rfl
  · exact h

end AcknowledgeOne

theorem inboxAcknowledge_messages (team : Team) (member : Bytes) (ids : List Bytes) :
    (team.inboxAcknowledge member ids).messages = team.messages.map (acknowledgeOne member ids) :=
      rfl

theorem addressed_acknowledge (team : Team) (member other : Bytes) (ids : List Bytes) :
    (team.inboxAcknowledge member ids).addressed other =
      (team.addressed other).map (acknowledgeOne member ids) := by
  unfold addressed
  rw [inboxAcknowledge_messages, List.filter_map]
  congr 2
  funext m
  simp

/-- Another member's messages are left alone. -/
theorem addressed_acknowledge_other (team : Team) {member other : Bytes} (ids : List Bytes)
    (hne : other ≠ member) : (team.inboxAcknowledge member ids).addressed other =
      team.addressed other := by
  rw [addressed_acknowledge]
  refine (List.map_congr_left fun m hm => ?_).trans (List.map_id _)
  have hm : m.recipient = other := by simpa using List.of_mem_filter hm
  unfold acknowledgeOne
  exact if_neg (by simp [hm, hne])

/-- A committed turn moves what it showed from the pending to the seen messages. -/
theorem Delivered.acknowledge {team : Team} {member : Bytes} {seen shown : List InboxMessage}
    {front back : List Team.Message} (h : team.Delivered member seen front back)
    (hids : ((team.addressed member).map (·.envelope.id)).Nodup)
    (hshown : shown <+: team.inboxRead member) :
    ∃ front back, (team.inboxAcknowledge member (shown.map (·.id))).Delivered member (seen ++ shown)
      front back := by
  rw [h.read] at hshown
  obtain ⟨rest, hrest⟩ := hshown
  obtain ⟨now, later, hback, hnow, -⟩ := List.map_eq_append_iff.mp hrest.symm
  subst hback
  have hsplit := h.split
  have hrecipient : ∀ m ∈ now, m.recipient = member := fun m hm => by
    have hmem : m ∈ team.addressed member := by
      rw [hsplit]
      exact List.mem_append_right _ (List.mem_append_left _ hm)
    simpa using List.of_mem_filter hmem
  have hshownIds : shown.map (·.id) = now.map (·.envelope.id) := by
    rw [← hnow, List.map_map]
    rfl
  have hdisjoint : ∀ m ∈ later, m.envelope.id ∉ shown.map (·.id) := by
    intro m hm hin
    rw [hshownIds] at hin
    rw [hsplit, List.map_append, List.map_append] at hids
    have hpair := (List.nodup_append.mp (List.nodup_append.mp hids).2.1).2.2
    exact hpair _ hin _ (List.mem_map_of_mem hm) rfl
  have hnowAck : ∀ m ∈ now, (acknowledgeOne member (shown.map (·.id)) m).acknowledged = true := by
    intro m hm
    have hin : m.envelope.id ∈ shown.map (·.id) := by
      rw [hshownIds]
      exact List.mem_map_of_mem hm
    unfold acknowledgeOne
    have hflag : (m.recipient == member && (shown.map (·.id)).contains m.envelope.id) = true := by
      simp only [hrecipient m hm, beq_self_eq_true, Bool.true_and, List.contains_iff_mem]
      exact hin
    rw [if_pos hflag]
  have hlater : later.map (acknowledgeOne member (shown.map (·.id))) = later := by
    refine (List.map_congr_left fun m hm => ?_).trans (List.map_id _)
    unfold acknowledgeOne
    refine if_neg fun hc => hdisjoint m hm ?_
    simp only [Bool.and_eq_true, List.contains_iff_mem] at hc
    exact hc.2
  refine ⟨(front ++ now).map (acknowledgeOne member (shown.map (·.id))), later, ?_, ?_,
    fun m hm => ?_, fun m hm => h.pending m (List.mem_append_right _ hm)⟩
  · rw [addressed_acknowledge, hsplit, ← List.append_assoc, List.map_append, hlater]
  · rw [List.map_map, ← h.seen, ← hnow, ← List.map_append]
    exact List.map_congr_left fun m _ => acknowledgeOne_envelope _ _ m
  · obtain ⟨m, hm', rfl⟩ := List.mem_map.mp hm
    rcases List.mem_append.mp hm' with hm' | hm'
    · exact acknowledgeOne_monotone _ _ m (h.acknowledged m hm')
    · exact hnowAck m hm'

end Team

theorem live_of_occupies {state : TaskState} (h : state.occupies = true) :
    taskTerminal state = false := by
  cases state <;> first | rfl | cases h

/-- What a move leaves of a launched run that it does not bring to its end. -/
theorem launched_move {G : Grant} {s t : State} (hreg : Registry s) (hm : Move G s t) {r : JobRef}
    (hr : r ∈ s.jobs) (hrun : (s.job r).snapshot.state.occupies = true) (hends : ¬ G.ends r) :
    r ∈ t.jobs ∧ (t.job r).snapshot.state.occupies = true ∧ (t.job r).team = (s.job r).team ∧
      (t.job r).snapshot.teamTaskKey = (s.job r).snapshot.teamTaskKey := by
  cases hm with
  | reclaim keep gone =>
    refine ⟨List.mem_filter.mpr ⟨hr, ?_⟩, hrun, rfl, rfl⟩
    by_contra hk
    have hterm := (gone r hr (by simpa using hk)).1
    rw [live_of_occupies hrun] at hterm
    cases hterm
  | acknowledge k =>
    rw [State.job_setJob]
    split
    · next he => subst he; exact ⟨hr, hrun, rfl, rfl⟩
    · exact ⟨hr, hrun, rfl, rfl⟩
  | flag k =>
    rw [State.job_setJob]
    split
    · next he => subst he; exact ⟨hr, hrun, rfl, rfl⟩
    · exact ⟨hr, hrun, rfl, rfl⟩
  | settle k shown kept hset =>
    rw [State.settled_jobs, State.job_settled]
    split
    · next he =>
      subst he
      have hstays : shown.snapshot.state.occupies = true := by
        by_contra hf
        exact hends (hset.frees hrun (by simpa using hf)).2
      refine ⟨hr, ?_, ?_, ?_⟩
      · rw [hset.snapshot]
        exact hstays
      · rw [hset.kept_team, live_of_occupies hstays, if_neg (by decide)]
        exact hset.run.team
      · rw [hset.snapshot]
        exact hset.run.teamTaskKey
    · exact ⟨hr, hrun, rfl, rfl⟩
  | enqueue job =>
    have hold : (s.pushJob job).job r = s.job r := Heap.get_alloc_of_lt _ (hreg.jobs_lt r hr) _
    rw [hold]
    exact ⟨List.mem_append_left _ hr, hrun, rfl, rfl⟩
  | dispatch tr i w member id =>
    have hold : (s.pushJob (teamJob s tr member w id)).job r = s.job r :=
      Heap.get_alloc_of_lt _ (hreg.jobs_lt r hr) _
    rw [State.job_setWork, hold]
    exact ⟨List.mem_append_left _ hr, hrun, rfl, rfl⟩
  | _ => exact ⟨hr, hrun, rfl, rfl⟩

namespace Seat

variable {s t : State} {r : JobRef} {tr : TeamRef} {member : Bytes}

theorem current (h : Seat s r tr member) (hledger : Ledger s) : tr ∈ s.teams :=
  (hledger.2.task r h.listed (live_of_occupies h.launched) tr h.team).1

/-- A team with a launched run is not the one a move founds. -/
theorem carries {G : Grant} (h : Seat s r tr member) (hledger : Ledger s) (hm : Move G s t) :
    Carries (s.team tr) (t.team tr) := by
  rcases carries_move hm tr with hc | ⟨he, -⟩
  · exact hc
  · have hlt := hledger.1.teams_lt tr (h.current hledger)
    rw [he] at hlt
    exact absurd hlt (Nat.lt_irrefl _)

theorem move {G : Grant} (h : Seat s r tr member) (hledger : Ledger s) (hm : Move G s t)
    (hends : ¬ G.ends r) : Seat t r tr member := by
  obtain ⟨hr, hrun, hteam, hkey⟩ := launched_move hledger.1 hm h.listed h.launched hends
  obtain ⟨v, hv, hvkey, hvmember⟩ := h.entry
  obtain ⟨w, hw, hwkey, hwmember⟩ := (h.carries hledger hm).entry hv
  exact ⟨hr, hrun, hteam.trans h.team, w, hw, by rw [hkey, hwkey, hvkey], hwmember.trans hvmember⟩

/-- The entry of a launched run shows the run and is active. -/
theorem linked (h : Seat s r tr member) (hledger : Ledger s) :
    ∃ w ∈ (s.team tr).work, w.snapshot.member = member ∧ teamTaskActive w.snapshot.state = true ∧
      (s.job r).snapshot.taskId = w.snapshot.runId := by
  obtain ⟨htr, w, hw, hl⟩ := hledger.2.task r h.listed (live_of_occupies h.launched) tr h.team
  obtain ⟨v, hv, hkey, hmember⟩ := h.entry
  obtain rfl := (hledger.2.boards tr htr).entry_unique hv hw (hkey.trans hl.2.key)
  exact ⟨v, hv, hmember, (live_of_sameName hl.2.state).2, hl.2.run⟩

/-- A member has one launched run at a time. -/
theorem unique {k : JobRef} (h : Seat s r tr member) (hk : Seat s k tr member)
    (hledger : Ledger s) :
    r = k := by
  obtain ⟨w, hw, hwm, hwa, hwr⟩ := h.linked hledger
  obtain ⟨v, hv, hvm, hva, hvr⟩ := hk.linked hledger
  obtain ⟨i, hi⟩ := List.getElem?_of_mem hw
  obtain ⟨j, hj⟩ := List.getElem?_of_mem hv
  have hboard := hledger.2.boards tr (h.current hledger)
  obtain rfl := hboard.exclusive i j w v hi hj hwa hva (hwm.trans hvm.symm)
  obtain rfl : w = v := Option.some.inj (hi.symm.trans hj)
  exact hledger.1.ids r h.listed k hk.listed (hwr.trans hvr.symm)

end Seat

def batchMessage (batch : List InboxMessage) : Message := inboxMessage (encodeInbox batch)

/-- The turn's transcript shows the batches, and its shown identities are theirs. -/
structure MemberTurn.Shows (turn : MemberTurn) (batches : List (List InboxMessage)) : Prop where
  transcript : turn.transcript = batches.map batchMessage
  inboxIds : turn.inboxIds = batches.flatten.map (·.id)

namespace TeamHost

structure Inv (h : TeamHost) : Prop where
  ledger : Ledger h.tasks
  mail : ∀ tr, (h.tasks.team tr).Mail
  seats : ∀ turn ∈ h.turns, Seat h.tasks turn.job turn.team turn.member
  jobs : (h.turns.map (·.job)).Nodup
  shown : ∀ turn ∈ h.turns, ∃ batches, turn.Shows batches ∧
    batches.flatten <+: (h.tasks.team turn.team).inboxRead turn.member
  delivered : ∀ tr member, ∃ (batches : List (List InboxMessage)) (front back : List Team.Message),
    h.committedMessages tr member = batches.map batchMessage ∧
    (h.tasks.team tr).Delivered member batches.flatten front back
  allocated : ∀ turn ∈ h.committed, turn.team < h.tasks.teamHeap.next

theorem inv_empty (svc : Service) : Inv ⟨State.empty svc, [], []⟩ where
  ledger := ledger_empty svc
  mail := fun _ => .empty rfl rfl
  seats := fun turn hturn => by cases hturn
  jobs := List.nodup_nil
  shown := fun turn hturn => by cases hturn
  delivered := fun _ member => ⟨[], [], [], rfl, .nil rfl member⟩
  allocated := fun turn hturn => by cases hturn

theorem inboxRead_carries {a b : Team} {member : Bytes} {seen : List InboxMessage}
    {front back : List Team.Message} (h : a.Delivered member seen front back) (hc : Carries a b) :
    a.inboxRead member <+: b.inboxRead member := by
  obtain ⟨more, hmore⟩ := h.carries hc
  rw [h.read, hmore.read, List.map_append]
  exact List.prefix_append _ _

theorem committedMessages_nil {h : TeamHost} {tr : TeamRef}
    (hnew : ∀ turn ∈ h.committed, turn.team ≠ tr) (member : Bytes) :
    h.committedMessages tr member = [] := by
  have hturns : h.committedTurns tr member = [] := by
    unfold committedTurns
    rw [List.filter_eq_nil_iff]
    intro turn hturn
    simp [hnew turn hturn]
  unfold committedMessages
  rw [hturns]
  rfl

theorem teamHeap_next_move {G : Grant} {s t : State} (hm : Move G s t) :
    s.teamHeap.next ≤ t.teamHeap.next := by
  cases hm with
  | settle r shown kept =>
    rw [State.settled_teamHeap]
    rcases State.updateTeamJob_cases s shown with ⟨he, -⟩ | ⟨k, i, w, members, -, -, -, -, he⟩
    · rw [he]
    · rw [he]
      exact Nat.le_refl _
  | found => exact Nat.le_succ _
  | _ => exact Nat.le_refl _

theorem inv_move {G : Grant} {s t : State} {turns committed : List MemberTurn}
    (h : Inv ⟨s, turns, committed⟩) (hends : ∀ turn ∈ turns, ¬ G.ends turn.job) (hm : Move G s t) :
    Inv ⟨t, turns, committed⟩ := by
  refine ⟨ledger_move h.ledger hm, fun tr => ?_, fun turn hturn => ?_, h.jobs, fun turn hturn => ?_,
    fun tr member => ?_, fun turn hturn => ?_⟩
  · rcases carries_move hm tr with hc | ⟨-, hmessages, hwork⟩
    · exact (h.mail tr).carries hc
    · exact .empty hmessages hwork
  · exact (h.seats turn hturn).move h.ledger hm (hends turn hturn)
  · obtain ⟨batches, hshows, hstart⟩ := h.shown turn hturn
    obtain ⟨_, front, back, _, hd⟩ := h.delivered turn.team turn.member
    exact ⟨batches, hshows,
      hstart.trans (inboxRead_carries hd ((h.seats turn hturn).carries h.ledger hm))⟩
  · rcases carries_move hm tr with hc | ⟨he, hmessages, -⟩
    · obtain ⟨batches, front, back, hcommitted, hd⟩ := h.delivered tr member
      obtain ⟨more, hd⟩ := hd.carries hc
      exact ⟨batches, front, back ++ more, hcommitted, hd⟩
    · refine ⟨[], [], [], committedMessages_nil (fun turn hturn => ?_) member,
        .nil hmessages member⟩
      have := h.allocated turn hturn
      rw [he]
      exact Nat.ne_of_lt this
  · exact Nat.lt_of_lt_of_le (h.allocated turn hturn) (teamHeap_next_move hm)

theorem inv_path {G : Grant} {s t : State} {turns committed : List MemberTurn}
    (h : Inv ⟨s, turns, committed⟩) (hends : ∀ turn ∈ turns, ¬ G.ends turn.job) (hp : Path G s t) :
    Inv ⟨t, turns, committed⟩ :=
  run_invariant (r := Move G) (I := fun u => Inv ⟨u, turns, committed⟩)
    (fun _ _ hu hm => inv_move hu hends hm) hp h

theorem inboxRead_readable {team : Team} (h : team.Mail) (member : Bytes) :
    (∀ m ∈ team.inboxRead member, m.Readable) ∧ ((team.inboxRead member).map (·.id)).Nodup := by
  unfold Team.inboxRead
  constructor
  · intro m hm
    obtain ⟨k, hk, rfl⟩ := List.mem_map.mp hm
    exact h.readable k (List.mem_of_mem_filter hk)
  · rw [List.map_map]
    exact h.ids_nodup.sublist (List.filter_sublist.map _)

/-- One iteration took the turn from showing `before` to showing `after`. -/
structure Iterates (pending : List InboxMessage) (turn next : MemberTurn)
    (before after : List (List InboxMessage)) : Prop where
  job : next.job = turn.job
  team : next.team = turn.team
  member : next.member = turn.member
  iteration : next.iteration = turn.iteration + 1
  shows : next.Shows after
  front : after.flatten <+: pending
  grows : before.flatten <+: after.flatten
  progress : after.flatten = before.flatten → before.flatten = pending

/-- An iteration's inbox step succeeds: the transcript grows by the next pending
messages, by at least one as long as there are any. -/
theorem readInbox_spec {s : State} {turn : MemberTurn} {batches : List (List InboxMessage)}
    (hmail : (s.team turn.team).Mail) (hshows : turn.Shows batches)
    (hstart : batches.flatten <+: (s.team turn.team).inboxRead turn.member) :
    ∃ next after, readInbox s turn = .ok next ∧
      Iterates ((s.team turn.team).inboxRead turn.member) turn next batches after := by
  obtain ⟨hread, hnd⟩ := inboxRead_readable hmail turn.member
  obtain ⟨rest, hrest⟩ := hstart
  obtain ⟨batch, hreader, hbatch, hprogress, htake⟩ := inboxReader_spec hread hnd turn.inboxIds
  rw [hshows.inboxIds, ← hrest, unshown_append (hrest ▸ hnd)] at hbatch hprogress
  have happend : (batches ++ [batch]).flatten = batches.flatten ++ batch := by simp
  unfold readInbox
  simp only [hreader, htake]
  cases batch with
  | nil =>
    have hdone : rest = [] := by
      by_contra hne
      exact hprogress hne rfl
    refine ⟨_, batches, rfl, rfl, rfl, rfl, rfl, ⟨?_, ?_⟩, ?_, List.prefix_refl _, fun _ => ?_⟩
    · simpa using hshows.transcript
    · simpa using hshows.inboxIds
    · rw [← hrest]
      exact List.prefix_append _ _
    · rw [← hrest, hdone, List.append_nil]
  | cons m more =>
    refine ⟨_, batches ++ [m :: more], rfl, rfl, rfl, rfl, rfl, ⟨?_, ?_⟩, ?_, ?_, fun he => ?_⟩
    · rw [List.map_append, ← hshows.transcript]
      rfl
    · rw [happend, List.map_append, ← hshows.inboxIds]
    · rw [happend, ← hrest]
      exact (List.prefix_append_right_inj _).mpr hbatch
    · rw [happend]
      exact List.prefix_append _ _
    · rw [happend] at he
      simp at he

theorem turn_unique {h : TeamHost} (hinv : Inv h) {i j : Nat} {turn other : MemberTurn}
    (hi : h.turns[i]? = some turn) (hj : h.turns[j]? = some other) (hteam : other.team = turn.team)
    (hmember : other.member = turn.member) : j = i := by
  have hseat := hinv.seats turn (List.mem_of_getElem? hi)
  have hother := hinv.seats other (List.mem_of_getElem? hj)
  rw [hteam, hmember] at hother
  exact entry_unique hinv.jobs hj hi (hother.unique hseat hinv.ledger)

theorem inv_begin {h : TeamHost} (hinv : Inv h) {job : JobRef} {team : TeamRef} {member : Bytes}
    (hseat : Seat h.tasks job team member) (hnew : ∀ turn ∈ h.turns, turn.job ≠ job) :
    Inv { h with turns := h.turns ++ [{ job, team, member }] } := by
  refine { hinv with seats := fun turn hturn => ?_, jobs := ?_, shown := fun turn hturn => ?_ }
  · rcases List.mem_append.mp hturn with hturn | hturn
    · exact hinv.seats turn hturn
    · rw [List.mem_singleton.mp hturn]
      exact hseat
  · rw [List.map_append]
    refine List.nodup_append.mpr ⟨hinv.jobs, List.nodup_singleton _, fun r hr k hk => ?_⟩
    obtain ⟨turn, hturn, rfl⟩ := List.mem_map.mp hr
    rw [List.mem_singleton.mp hk]
    exact hnew turn hturn
  · rcases List.mem_append.mp hturn with hturn | hturn
    · exact hinv.shown turn hturn
    · rw [List.mem_singleton.mp hturn]
      exact ⟨[], ⟨rfl, rfl⟩, List.nil_prefix⟩

theorem inv_fail {h : TeamHost} (hinv : Inv h) (i : Nat) :
    Inv { h with turns := h.turns.eraseIdx i } :=
  { hinv with
    seats := fun turn hturn => hinv.seats turn (List.mem_of_mem_eraseIdx hturn)
    jobs := hinv.jobs.sublist ((List.eraseIdx_sublist ..).map _)
    shown := fun turn hturn => hinv.shown turn (List.mem_of_mem_eraseIdx hturn) }

theorem inv_read {h : TeamHost} (hinv : Inv h) {i : Nat} {turn next : MemberTurn}
    {before after : List (List InboxMessage)} (hi : h.turns[i]? = some turn)
    (hnext : Iterates ((h.tasks.team turn.team).inboxRead turn.member) turn next before after) :
    Inv { h with turns := h.turns.set i next } := by
  refine { hinv with seats := fun other hother => ?_, jobs := ?_, shown := fun other hother => ?_ }
  · rcases List.mem_or_eq_of_mem_set hother with hother | rfl
    · exact hinv.seats other hother
    · rw [hnext.job, hnext.team, hnext.member]
      exact hinv.seats turn (List.mem_of_getElem? hi)
  · rw [map_set_of_eq hi hnext.job]
    exact hinv.jobs
  · rcases List.mem_or_eq_of_mem_set hother with hother | rfl
    · exact hinv.shown other hother
    · rw [hnext.team, hnext.member]
      exact ⟨after, hnext.shows, hnext.front⟩

theorem mail_acknowledge {team : Team} (h : team.Mail) (member : Bytes) (ids : List Bytes) :
    (team.inboxAcknowledge member ids).Mail := by
  have hmessages := Team.inboxAcknowledge_messages team member ids
  have hlength : (team.inboxAcknowledge member ids).messages.length = team.messages.length := by
    rw [hmessages, List.length_map]
  refine ⟨by rw [hlength]; exact h.size, ?_, fun recipient => ?_, fun m hm => ?_, h.members⟩
  · rw [hlength, ← h.ids, hmessages, List.map_map]
    exact List.map_congr_left fun m _ => by simp
  · refine Nat.le_trans ?_ (h.share recipient)
    unfold Team.pendingFor
    rw [hmessages, List.countP_map]
    refine List.countP_mono_left fun m _ hm => ?_
    simp only [Function.comp_apply, Team.acknowledgeOne_recipient, Bool.and_eq_true,
      Bool.not_eq_true'] at hm ⊢
    refine ⟨hm.1, ?_⟩
    by_contra hack
    rw [Team.acknowledgeOne_monotone member ids m (by simpa using hack)] at hm
    cases hm.2
  · rw [hmessages] at hm
    obtain ⟨k, hk, rfl⟩ := List.mem_map.mp hm
    rw [Team.acknowledgeOne_envelope]
    exact h.readable k hk

theorem ledger_acknowledge {s : State} (h : Ledger s) (turn : MemberTurn) :
    Ledger (acknowledge s turn) :=
  ⟨h.1.setTeam turn.team rfl, h.2.setTeam turn.team ⟨rfl, rfl⟩ rfl⟩

theorem team_acknowledge (s : State) (turn : MemberTurn) (tr : TeamRef) :
    (acknowledge s turn).team tr =
      if tr = turn.team then (s.team turn.team).inboxAcknowledge turn.member turn.inboxIds
        else s.team tr :=
  State.team_setTeam _ _ _ _

/-- The messages of every other member stay as they are. -/
theorem addressed_acknowledge_ne (s : State) {turn : MemberTurn} {tr : TeamRef} {member : Bytes}
    (hne : ¬ (tr = turn.team ∧ member = turn.member)) :
    ((acknowledge s turn).team tr).addressed member = (s.team tr).addressed member := by
  rw [team_acknowledge]
  split
  · next he =>
    rw [he, Team.addressed_acknowledge_other _ _ fun hm => hne ⟨he, hm⟩]
  · rfl

theorem seat_acknowledge {s : State} {r : JobRef} {tr : TeamRef} {member : Bytes}
    (h : Seat s r tr member) (turn : MemberTurn) : Seat (acknowledge s turn) r tr member := by
  refine ⟨h.listed, h.launched, h.team, ?_⟩
  obtain ⟨w, hw, hkey⟩ := h.entry
  refine ⟨w, ?_, hkey⟩
  rw [team_acknowledge]
  split
  · next he => rw [← he]; exact hw
  · exact hw

theorem committedMessages_commit (h : TeamHost) (turn : MemberTurn) (tr : TeamRef) (member : Bytes)
    (s : State) (turns : List MemberTurn) :
    committedMessages ⟨s, turns, h.committed ++ [turn]⟩ tr member =
      h.committedMessages tr member ++
        if turn.team = tr ∧ turn.member = member then turn.transcript else [] := by
  unfold committedMessages committedTurns
  rw [List.filter_append, List.flatMap_append]
  congr 1
  by_cases hc : turn.team = tr ∧ turn.member = member
  · rw [if_pos hc, List.filter_cons_of_pos (by simp [hc.1, hc.2])]
    simp
  · rw [if_neg hc, List.filter_cons_of_neg (by simpa using hc)]
    rfl

theorem inv_commit {h : TeamHost} (hinv : Inv h) {i : Nat} {turn : MemberTurn}
    (hi : h.turns[i]? = some turn) :
    Inv ⟨acknowledge h.tasks turn, h.turns.eraseIdx i, h.committed ++ [turn]⟩ := by
  have hturn := List.mem_of_getElem? hi
  have hseat := hinv.seats turn hturn
  refine ⟨ledger_acknowledge hinv.ledger turn, fun tr => ?_, fun other hother => ?_,
    hinv.jobs.sublist ((List.eraseIdx_sublist ..).map _), fun other hother => ?_,
      fun tr member => ?_,
    fun other hother => ?_⟩
  · rw [team_acknowledge]
    split
    · exact mail_acknowledge (hinv.mail _) _ _
    · exact hinv.mail tr
  · exact seat_acknowledge (hinv.seats other (List.mem_of_mem_eraseIdx hother)) turn
  · obtain ⟨j, hne, hj⟩ := List.mem_eraseIdx_iff_getElem?.mp hother
    have hdiffer : ¬ (other.team = turn.team ∧ other.member = turn.member) := fun he =>
      hne (turn_unique hinv hi hj he.1 he.2)
    rw [Team.inboxRead_eq, addressed_acknowledge_ne _ hdiffer, ← Team.inboxRead_eq]
    exact hinv.shown other (List.mem_of_mem_eraseIdx hother)
  · obtain ⟨batches, front, back, hcommitted, hd⟩ := hinv.delivered tr member
    rw [committedMessages_commit]
    by_cases hc : turn.team = tr ∧ turn.member = member
    · obtain ⟨rfl, rfl⟩ := hc
      obtain ⟨shown, hshows, hstart⟩ := hinv.shown turn hturn
      have hnd : ((Team.addressed (h.tasks.team turn.team) turn.member).map
          (·.envelope.id)).Nodup :=
        (hinv.mail turn.team).ids_nodup.sublist (List.filter_sublist.map _)
      obtain ⟨front, back, hd⟩ := hd.acknowledge hnd hstart
      refine ⟨batches ++ shown, front, back, ?_, ?_⟩
      · rw [if_pos ⟨rfl, rfl⟩, List.map_append, hcommitted, hshows.transcript]
      · rw [List.flatten_append, team_acknowledge, if_pos rfl, hshows.inboxIds]
        exact hd
    · refine ⟨batches, front, back, ?_, ?_, hd.seen, hd.acknowledged, hd.pending⟩
      · rw [if_neg hc, List.append_nil, hcommitted]
      · rw [addressed_acknowledge_ne _ fun he => hc ⟨he.1.symm, he.2.symm⟩]
        exact hd.split
  · rcases List.mem_append.mp hother with hother | hother
    · exact hinv.allocated other hother
    · rw [List.mem_singleton.mp hother]
      exact hinv.ledger.1.teams_lt _ (hseat.current hinv.ledger)

/-- The monitor of a run waits for its turn. -/
theorem not_ends {h : TeamHost} {op : State.Op} (he : h.Enabled (.operation op)) :
    ∀ turn ∈ h.turns, ¬ (op.grant h.tasks).ends turn.job := by
  intro turn hturn hend
  have hend : op.ends turn.job = true := hend
  rw [he.2 turn hturn] at hend
  cases hend

theorem inv_step {h k : TeamHost} (hinv : Inv h) (hs : Step h k) : Inv k := by
  obtain ⟨e, he, rfl⟩ := hs
  cases e with
  | operation op => exact inv_path hinv (not_ends he) (State.path_apply he.1)
  | begin job team member => exact inv_begin hinv he.1 he.2
  | read i =>
    have hi : h.turns[i]? = some h.turns[i] := List.getElem?_eq_getElem he
    obtain ⟨batches, hshows, hstart⟩ := hinv.shown _ (List.mem_of_getElem? hi)
    obtain ⟨next, after, hread, hnext⟩ := readInbox_spec (hinv.mail _) hshows hstart
    simp only [apply, hi, hread]
    exact inv_read hinv hi hnext
  | commit i =>
    have hi : h.turns[i]? = some h.turns[i] := List.getElem?_eq_getElem he
    simp only [apply, hi]
    exact inv_commit hinv hi
  | fail i => exact inv_fail hinv i

theorem inv_reachable {svc : Service} {h : TeamHost} (hr : Reachable svc h) : Inv h := by
  obtain ⟨s₀, hs, hrun⟩ := hr
  obtain rfl := (State.create_ok hs).1
  exact run_invariant (r := Step) (I := Inv) (fun _ _ => inv_step) hrun (inv_empty svc)

section Owes

variable {h k : TeamHost} {tr : TeamRef} {member : Bytes} {shown : List InboxMessage}

end Owes

theorem sendTeamMessage_refused {s t : State} {tr : TeamRef} {sender : Bytes}
    {request : TeamMessageRequest} {e : Error}
    (h : s.sendTeamMessage tr sender request = (.error e, t)) : t = s := by
  rcases State.sendTeamMessage_cases s tr sender request with ⟨_, hs⟩ | ⟨_, _, -, hs⟩
  · rw [hs] at h
    exact (Prod.mk.inj h).2.symm
  · rw [hs] at h
    cases (Prod.mk.inj h).1

/-- Whatever a team admits, a read by its recipient succeeds, fits the loop's bound and
shows a message whenever one was not shown yet. -/
theorem inbox_read_succeeds {svc : Service} {h : TeamHost} (hr : Reachable svc h) (tr : TeamRef)
    (member : Bytes) (ids : List Bytes) :
    ∃ batch, inboxReader ((h.tasks.team tr).inboxRead member) ids =
        .ok (if batch.isEmpty then [] else encodeInbox batch, ids ++ batch.map (·.id)) ∧
      takeInbox (if batch.isEmpty then [] else encodeInbox batch) =
        .ok (if batch.isEmpty then none else some (batchMessage batch)) ∧
      batch <+: unshown ((h.tasks.team tr).inboxRead member) ids ∧
      (unshown ((h.tasks.team tr).inboxRead member) ids ≠ [] → batch ≠ []) := by
  obtain ⟨hread, hnd⟩ := inboxRead_readable ((inv_reachable hr).mail tr) member
  obtain ⟨batch, hreader, hstart, hprogress, htake⟩ := inboxReader_spec hread hnd ids
  exact ⟨batch, hreader, htake, hstart, hprogress⟩

/-- The leader's message holds quotes, so it is escaped twice. -/
theorem inbox_read_succeeds_quoted :
    Reachable (State.sampleService true) (sample []) ∧
    unshown (((sample []).tasks.team 0).inboxRead (text "dev")) [] ≠ [] ∧
    ∃ batch, batch ≠ [] ∧ inboxReader (((sample []).tasks.team 0).inboxRead (text "dev")) [] =
      .ok (if batch.isEmpty then [] else encodeInbox batch, batch.map (·.id)) := by
  have hr : Reachable (State.sampleService true) (sample []) := sample_reachable (by decide +kernel)
  have hne : unshown (((sample []).tasks.team 0).inboxRead (text "dev")) [] ≠ [] := by
    decide +kernel
  obtain ⟨batch, hreader, -, -, hprogress⟩ := inbox_read_succeeds hr 0 (text "dev") []
  exact ⟨hr, hne, batch, hprogress hne, hreader⟩

end TeamHost

end Orangutan.Bootstrap
