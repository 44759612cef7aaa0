import Orangutan.Bootstrap.AgentSession
import Orangutan.Bootstrap.Agreement

/-!
# Completion delivery

Claim, acknowledgement, retention and cancellation write three flags of one record.
`Follows` says what a run of moves may do to them, `Held` ties the claimed records to
the turns that hold them.
-/

namespace Orangutan.Bootstrap

set_option autoImplicit false

open Orangutan.Core Orangutan.Lib Orangutan.Tool Relation

/-- The parts of a record that never change. -/
structure Job.SameIdentity (a b : Job) : Prop where
  owner : a.owner = b.owner
  parentTurn : a.parentTurn = b.parentTurn
  taskId : a.snapshot.taskId = b.snapshot.taskId
  teamId : a.snapshot.teamId = b.snapshot.teamId
  automaticDelivery : a.snapshot.automaticDelivery = b.snapshot.automaticDelivery

theorem Job.SameIdentity.refl (a : Job) : a.SameIdentity a := ⟨rfl, rfl, rfl, rfl, rfl⟩

theorem Job.SameIdentity.trans {a b c : Job} (h₁ : a.SameIdentity b) (h₂ : b.SameIdentity c) :
    a.SameIdentity c :=
  ⟨h₁.owner.trans h₂.owner, h₁.parentTurn.trans h₂.parentTurn, h₁.taskId.trans h₂.taskId,
    h₁.teamId.trans h₂.teamId, h₁.automaticDelivery.trans h₂.automaticDelivery⟩

/-- Cancellation reads a job's identity only. -/
def Grant.Stable (G : Grant) : Prop := ∀ a b : Job, a.SameIdentity b → G.cancels a → G.cancels b

/-- What a run of moves may do to the records that already exist. -/
structure Follows (G : Grant) (s t : State) : Prop where
  next : s.jobHeap.next ≤ t.jobHeap.next
  identity : ∀ r < s.jobHeap.next, (t.job r).SameIdentity (s.job r)
  monotone : ∀ r < s.jobHeap.next, (s.job r).snapshot.acknowledged = true →
    (t.job r).snapshot.acknowledged = true
  granted : ∀ r < s.jobHeap.next, (t.job r).snapshot.acknowledged = true →
    (s.job r).snapshot.acknowledged = true ∨ G.delivers ∨ G.cancels (s.job r)
  claimed : ∀ r < s.jobHeap.next, (t.job r).claimed = (s.job r).claimed ∨ G.delivers
  terminal : ∀ r < s.jobHeap.next, taskTerminal (s.job r).snapshot.state = true →
    (t.job r).snapshot.state = (s.job r).snapshot.state
  gone : ∀ r < s.jobHeap.next, r ∉ s.jobs → r ∉ t.jobs ∧ t.job r = s.job r
  removed : s.options.automaticDelivery = true → ∀ r < s.jobHeap.next, r ∈ s.jobs → r ∉ t.jobs →
    taskTerminal (t.job r).snapshot.state = true ∧ (t.job r).snapshot.acknowledged = true ∧
      (t.job r).claimed = false

namespace Follows

variable {G : Grant} {s t : State}

theorem of_same (hjobs : t.jobs = s.jobs) (hheap : t.jobHeap = s.jobHeap) : Follows G s t := by
  have hjob : ∀ r, t.job r = s.job r := fun r => by unfold State.job; rw [hheap]
  refine ⟨by rw [hheap], fun r _ => ?_, fun r _ h => ?_, fun r _ h => ?_, fun r _ => ?_,
    fun r _ _ => ?_, fun r _ h => ?_, fun _ r _ h hn => ?_⟩
  · rw [hjob]
    exact .refl _
  · rw [hjob]
    exact h
  · rw [hjob] at h
    exact .inl h
  · rw [hjob]
    exact .inl rfl
  · rw [hjob]
  · rw [hjobs]
    exact ⟨h, hjob r⟩
  · rw [hjobs] at hn
    exact absurd h hn

/-- A write to one listed record. -/
theorem setJob (r : JobRef) (job : Job) (hr : r ∈ s.jobs) (hid : job.SameIdentity (s.job r))
    (hmono : (s.job r).snapshot.acknowledged = true → job.snapshot.acknowledged = true)
    (hack : job.snapshot.acknowledged = true →
      (s.job r).snapshot.acknowledged = true ∨ G.delivers ∨ G.cancels (s.job r))
    (hclaim : job.claimed = (s.job r).claimed ∨ G.delivers)
    (hterm : taskTerminal (s.job r).snapshot.state = true →
      job.snapshot.state = (s.job r).snapshot.state)
    (hjobs : t.jobs = s.jobs) (hnext : t.jobHeap.next = s.jobHeap.next)
    (hjob : ∀ k, t.job k = if k = r then job else s.job k) : Follows G s t := by
  refine ⟨Nat.le_of_eq hnext.symm, fun k _ => ?_, fun k _ h => ?_, fun k _ h => ?_, fun k _ => ?_,
    fun k _ h => ?_, fun k _ h => ?_, fun _ k _ h hn => ?_⟩
  · rw [hjob]
    split
    · next he => rw [he]; exact hid
    · exact .refl _
  · rw [hjob]
    split
    · next he => rw [he] at h; exact hmono h
    · exact h
  · rw [hjob] at h
    split at h
    · next he => rw [he]; exact hack h
    · exact .inl h
  · rw [hjob]
    split
    · next he => rw [he]; exact hclaim
    · exact .inl rfl
  · rw [hjob]
    split
    · next he => rw [he] at h ⊢; exact hterm h
    · rfl
  · have hne : k ≠ r := fun he => h (he ▸ hr)
    rw [hjobs, hjob, if_neg hne]
    exact ⟨h, rfl⟩
  · rw [hjobs] at hn
    exact absurd h hn

theorem refl (s : State) : Follows G s s := of_same rfl rfl

theorem trans {u : State} (hG : G.Stable) (hsvc : t.svc = s.svc) (h₁ : Follows G s t)
    (h₂ : Follows G t u) : Follows G s u := by
  have hlt : ∀ r, r < s.jobHeap.next → r < t.jobHeap.next :=
    fun r hr => Nat.lt_of_lt_of_le hr h₁.next
  refine ⟨Nat.le_trans h₁.next h₂.next, fun r hr => ?_, fun r hr h => ?_, fun r hr h => ?_,
    fun r hr => ?_, fun r hr h => ?_, fun r hr h => ?_, fun hauto r hr h hn => ?_⟩
  · exact (h₂.identity r (hlt r hr)).trans (h₁.identity r hr)
  · exact h₂.monotone r (hlt r hr) (h₁.monotone r hr h)
  · rcases h₂.granted r (hlt r hr) h with h | h | h
    · exact h₁.granted r hr h
    · exact .inr (.inl h)
    · exact .inr (.inr (hG _ _ (h₁.identity r hr) h))
  · rcases h₂.claimed r (hlt r hr) with h | h
    · rw [h]
      exact h₁.claimed r hr
    · exact .inr h
  · have hstate := h₁.terminal r hr h
    rw [← hstate] at h
    exact (h₂.terminal r (hlt r hr) h).trans hstate
  · obtain ⟨hn, he⟩ := h₁.gone r hr h
    obtain ⟨hn', he'⟩ := h₂.gone r (hlt r hr) hn
    exact ⟨hn', he'.trans he⟩
  · by_cases ht : r ∈ t.jobs
    · refine h₂.removed ?_ r (hlt r hr) ht hn
      rw [show t.options = s.options from congrArg Service.options hsvc]
      exact hauto
    · -- A record that was let go of is never written again.
      rw [(h₂.gone r (hlt r hr) ht).2]
      exact h₁.removed hauto r hr h ht

end Follows

theorem pushJob_follows {G : Grant} {s t : State} {job : Job}
    (hjobs : t.jobs = (s.pushJob job).jobs) (hheap : t.jobHeap = (s.pushJob job).jobHeap) :
    Follows G s t := by
  have hjob : ∀ r < s.jobHeap.next, t.job r = s.job r := fun r hr => by
    unfold State.job
    rw [hheap]
    exact Heap.get_alloc_of_lt _ hr _
  have hmem : ∀ r, r ∈ t.jobs ↔ r ∈ s.jobs ∨ r = s.jobHeap.next := fun r => by
    rw [hjobs]
    exact List.mem_append.trans (or_congr_right List.mem_singleton)
  refine ⟨?_, fun r hr => ?_, fun r hr h => ?_, fun r hr h => ?_, fun r hr => ?_, fun r hr _ => ?_,
    fun r hr h => ?_, fun _ r _ h hn => ?_⟩
  · rw [hheap]
    exact Nat.le_succ _
  · rw [hjob r hr]
    exact .refl _
  · rw [hjob r hr]
    exact h
  · rw [hjob r hr] at h
    exact .inl h
  · exact .inl (by rw [hjob r hr])
  · rw [hjob r hr]
  · refine ⟨fun hr' => ?_, hjob r hr⟩
    rcases (hmem r).mp hr' with hr' | hr'
    · exact h hr'
    · rw [hr'] at hr
      exact absurd hr (Nat.lt_irrefl _)
  · exact absurd ((hmem r).mpr (.inl h)) hn

theorem follows_move {G : Grant} {s t : State} (hm : Move G s t) : Follows G s t := by
  cases hm with
  | reclaim keep gone =>
    refine ⟨Nat.le_refl _, fun r _ => .refl _, fun r _ h => h, fun r _ h => .inl h,
      fun r _ => .inl rfl, fun r _ _ => rfl, fun r _ h =>
      ⟨fun hr => h (List.mem_of_mem_filter hr), rfl⟩, ?_⟩
    intro hauto r _ hr hn
    have hk : keep r = false := by
      by_contra hk
      exact hn (List.mem_filter.mpr ⟨hr, by simpa using hk⟩)
    obtain ⟨hterm, hclaim, hack⟩ := gone r hr hk
    exact ⟨hterm, hack hauto, hclaim⟩
  | acknowledge r listed target =>
    exact .setJob r (s.job r).acknowledge listed ⟨rfl, rfl, rfl, rfl, rfl⟩ (fun _ => rfl)
      (fun _ => .inr (.inr target)) (.inl rfl) (fun _ => rfl) rfl rfl fun k =>
        State.job_setJob _ _ _ k
  | flag r claimed acknowledged grant listed monotone =>
    exact .setJob r { s.job r with
        claimed, snapshot := { (s.job r).snapshot with acknowledged } } listed ⟨rfl, rfl,
          rfl, rfl, rfl⟩
      monotone (fun _ => .inr (.inl grant)) (.inr grant) (fun _ => rfl) rfl rfl
      fun k => State.job_setJob _ _ _ k
  | settle r shown kept hset =>
    refine .setJob r kept hset.listed ?_ ?_ ?_ ?_ ?_ (State.settled_jobs _ _ _ _)
      (by rw [State.settled_jobHeap]; rfl) fun k => State.job_settled _ _ _ _ k
    · exact
        { owner := hset.kept_owner.trans hset.run.owner
          parentTurn := hset.kept_parentTurn.trans hset.run.parentTurn
          taskId := by rw [hset.snapshot]; exact hset.run.taskId
          teamId := by rw [hset.snapshot]; exact hset.run.teamId
          automaticDelivery := by rw [hset.snapshot]; exact hset.run.automaticDelivery }
    · intro h
      rw [hset.snapshot]
      exact hset.monotone h
    · intro h
      rw [hset.snapshot] at h
      rcases hset.acknowledged with he | hc
      · exact .inl (he ▸ h)
      · exact .inr (.inr hc)
    · exact .inl (hset.kept_claimed.trans hset.run.claimed)
    · intro h
      rw [live_of_next hset.change] at h
      cases h
  | enqueue job => exact pushJob_follows rfl rfl
  | dispatch tr i w member id => exact pushJob_follows rfl rfl
  | _ => exact .of_same rfl rfl

theorem follows_path {G : Grant} (hG : G.Stable) {s t : State} (hp : Path G s t) :
    Follows G s t := by
  have h := run_relates (r := Move G) (I := fun _ => True)
    (Q := fun a b => Follows G a b ∧ b.svc = a.svc) (fun _ _ _ _ => trivial)
    (fun a => ⟨.refl a, rfl⟩) (fun _ _ _ h₁ h₂ => ⟨h₁.1.trans hG h₁.2 h₂.1, h₂.2.trans h₁.2⟩)
    (fun _ _ _ hm => ⟨follows_move hm, move_svc hm⟩) hp trivial
  exact h.1

theorem grant_stable (s : State) (op : State.Op) : (op.grant s).Stable := by
  intro a b hid hcancel
  have hsame : op.cancels s b = op.cancels s a := by
    cases op <;> simp only [State.Op.cancels, State.commandTarget, State.namesRun, State.ownedBy,
      hid.owner, hid.taskId, hid.parentTurn]
    congr 1
    split
    · simp only [State.ofTeam, hid.owner, hid.teamId]
    · simp only [State.reviewTarget, State.namesRun, hid.owner, hid.taskId]
    · rfl
  exact hsame.trans hcancel

theorem none_stable : Grant.none.Stable := fun _ _ _ h => h

theorem delivery_stable : Grant.delivery.Stable := fun _ _ _ h => h

/-- Without the operations of delivery no record becomes claimed. -/
theorem claims_move {G : Grant} (hG : ¬ G.delivers) {s t : State} (hreg : Registry s)
    (hm : Move G s t) {r : JobRef} (hr : r ∈ t.jobs) (hc : (t.job r).claimed = true) :
    r ∈ s.jobs ∧ (s.job r).claimed = true := by
  have hf := follows_move hm
  have hkeep : r ∈ s.jobs → r ∈ s.jobs ∧ (s.job r).claimed = true := by
    intro hr
    rcases hf.claimed r (hreg.jobs_lt r hr) with he | hd
    · exact ⟨hr, he ▸ hc⟩
    · exact absurd hd hG
  have hpush : ∀ job : Job, job.claimed = false → r ∈ (s.pushJob job).jobs →
      t.job r = (s.pushJob job).job r → r ∈ s.jobs := by
    intro job hjob hr he
    rcases List.mem_append.mp hr with hr | hr
    · exact hr
    · have hnew : (s.pushJob job).job s.jobHeap.next = job := Heap.get_alloc_next _ _
      rw [he, List.mem_singleton.mp hr, hnew, hjob] at hc
      cases hc
  cases hm with
  | reclaim keep gone => exact hkeep (List.mem_of_mem_filter hr)
  | settle r' shown kept hset => exact hkeep (State.settled_jobs _ _ _ _ ▸ hr)
  | enqueue job hfresh => exact hkeep (hpush job hfresh.claimed hr rfl)
  | dispatch tr i w member id => exact hkeep (hpush (teamJob s tr member w id) rfl hr rfl)
  | _ => exact hkeep hr

/-- Every claimed record is held by one of the listed claims, and the other way round. -/
structure Held (s : State) (holders : List (TaskOwner × Bytes)) : Prop where
  registry : Registry s
  auto : s.options.automaticDelivery = true
  nodup : holders.Nodup
  held : ∀ p ∈ holders, ∃ r ∈ s.jobs, (s.job r).owner = p.1 ∧ (s.job r).snapshot.taskId = p.2 ∧
    taskTerminal (s.job r).snapshot.state = true ∧ (s.job r).claimed = true
  claimed : ∀ r ∈ s.jobs, (s.job r).claimed = true →
    ((s.job r).owner, (s.job r).snapshot.taskId) ∈ holders

namespace Held

variable {s t : State} {holders : List (TaskOwner × Bytes)}

theorem congr {others : List (TaskOwner × Bytes)} (h : Held s holders) (hnodup : others.Nodup)
    (hmem : ∀ p, p ∈ others ↔ p ∈ holders) : Held s others :=
  ⟨h.registry, h.auto, hnodup, fun p hp => h.held p ((hmem p).mp hp), fun r hr hc =>
    (hmem _).mpr (h.claimed r hr hc)⟩

theorem move {G : Grant} (hG : ¬ G.delivers) (h : Held s holders) (hm : Move G s t) :
    Held t holders := by
  have hf := follows_move hm
  refine ⟨registry_move h.registry hm, ?_, h.nodup, fun p hp => ?_, fun r hr hc => ?_⟩
  · rw [show t.options = s.options from congrArg Service.options (move_svc hm)]
    exact h.auto
  · obtain ⟨r, hr, howner, hid, hterm, hclaim⟩ := h.held p hp
    have hlt := h.registry.jobs_lt r hr
    have hclaim' : (t.job r).claimed = true := by
      rcases hf.claimed r hlt with he | hd
      · rw [he, hclaim]
      · exact absurd hd hG
    have hr' : r ∈ t.jobs := by
      by_contra hn
      have hgone := (hf.removed h.auto r hlt hr hn).2.2
      rw [hclaim'] at hgone
      cases hgone
    have hsame := hf.identity r hlt
    refine ⟨r, hr', hsame.owner.trans howner, hsame.taskId.trans hid, ?_, hclaim'⟩
    rw [hf.terminal r hlt hterm]
    exact hterm
  · obtain ⟨hr', hc'⟩ := claims_move hG h.registry hm hr hc
    have hsame := hf.identity r (h.registry.jobs_lt r hr')
    rw [hsame.owner, hsame.taskId]
    exact h.claimed r hr' hc'

theorem path {G : Grant} (hG : ¬ G.delivers) (h : Held s holders) (hp : Path G s t) :
    Held t holders :=
  run_invariant (r := Move G) (I := fun u => Held u holders) (fun _ _ h hm => h.move hG hm) hp h

theorem prune (h : Held s holders) : Held s.prune holders :=
  h.path (G := Grant.none) (fun h => h) (State.path_prune s)

end Held

/-- A listed record is found under its owner and identity. -/
theorem find_of_mem {s : State} (hreg : Registry s) {r : JobRef} (hr : r ∈ s.jobs) :
    s.find (s.job r).owner (s.job r).snapshot.taskId = some r := by
  cases hfind : s.find (s.job r).owner (s.job r).snapshot.taskId with
  | none =>
    have hno := List.find?_eq_none.mp hfind r hr
    simp at hno
  | some k =>
    obtain ⟨hk, -, hid⟩ := State.find_spec hfind
    rw [hreg.ids k hk r hr hid]

/-- An unacknowledged record outlives every prune. -/
theorem mem_prune {s : State} (hauto : s.options.automaticDelivery = true) {r : JobRef}
    (hr : r ∈ s.jobs) (hack : (s.job r).snapshot.acknowledged = false) : r ∈ s.prune.jobs := by
  refine List.mem_filter.mpr ⟨hr, ?_⟩
  simp [State.expired, hauto, hack]

/-- A finished report that nobody acknowledged or holds can be claimed. -/
theorem claimCompletion_ok {s : State} {holders : List (TaskOwner × Bytes)} (h : Held s holders)
    {r : JobRef} (hr : r ∈ s.jobs) (hterm : taskTerminal (s.job r).snapshot.state = true)
    (hack : (s.job r).snapshot.acknowledged = false) (hclaim : (s.job r).claimed = false) :
    s.claimCompletion (s.job r).owner (s.job r).snapshot.taskId =
      (.ok true, s.prune.setJob r { s.job r with claimed := true }) := by
  have hfind := find_of_mem h.prune.registry (mem_prune h.auto hr hack)
  rw [State.job_prune] at hfind
  unfold State.claimCompletion
  dsimp only
  rw [hfind]
  simp [hack, hterm, hclaim]

/-- The outcomes of a claim. -/
theorem claimCompletion_cases (s : State) (owner : TaskOwner) (id : Bytes) :
    (∃ out, out ≠ .ok true ∧ s.claimCompletion owner id = (out, s.prune)) ∨
    ∃ r ∈ s.prune.jobs, (s.job r).owner = owner ∧ (s.job r).snapshot.taskId = id ∧
      taskTerminal (s.job r).snapshot.state = true ∧ (s.job r).snapshot.acknowledged = false ∧
      (s.job r).claimed = false ∧
      s.claimCompletion owner id =
        (.ok true, s.prune.setJob r { s.job r with claimed := true }) := by
  unfold State.claimCompletion
  dsimp only
  split
  · exact .inl ⟨_, by simp, rfl⟩
  next r hfind =>
  obtain ⟨hr, howner, hid⟩ := State.find_spec hfind
  split
  · exact .inl ⟨_, by simp, rfl⟩
  next hack =>
  split
  · exact .inl ⟨_, by simp, rfl⟩
  next hready =>
  simp only [State.job_prune, Bool.not_eq_true, Bool.or_eq_false_iff,
    Bool.not_eq_false'] at hack hready
  exact .inr ⟨r, hr, howner, hid, hready.1, hack, hready.2, rfl⟩

theorem finishCompletion_cases (s : State) (owner : TaskOwner) (id : Bytes) (committed : Bool) :
    (s.finishCompletion owner id committed = s.prune ∧
      ∀ r ∈ s.prune.jobs, ¬ ((s.job r).owner = owner ∧ (s.job r).snapshot.taskId = id)) ∨
    ∃ r ∈ s.prune.jobs, (s.job r).owner = owner ∧ (s.job r).snapshot.taskId = id ∧
      s.finishCompletion owner id committed = s.prune.setJob r { s.job r with
        claimed := false
        snapshot := { (s.job r).snapshot with
          acknowledged := (s.job r).snapshot.acknowledged || committed } } := by
  unfold State.finishCompletion
  dsimp only
  split
  · next hfind =>
    refine .inl ⟨rfl, fun r hr => ?_⟩
    have hno := List.find?_eq_none.mp hfind r hr
    simpa using hno
  · next r hfind =>
    obtain ⟨hr, howner, hid⟩ := State.find_spec hfind
    exact .inr ⟨r, hr, howner, hid, rfl⟩

namespace Held

variable {s : State} {holders : List (TaskOwner × Bytes)}

/-- A write to the flags of one listed record. -/
theorem setFlags (h : Held s holders) {r : JobRef} {others : List (TaskOwner × Bytes)}
    (claimed acknowledged : Bool) (hnodup : others.Nodup)
    (hheld : ∀ p ∈ others, ∃ k ∈ s.jobs, (s.job k).owner = p.1 ∧ (s.job k).snapshot.taskId = p.2 ∧
      taskTerminal (s.job k).snapshot.state = true ∧
      (if k = r then claimed else (s.job k).claimed) = true)
    (hclaimed : ∀ k ∈ s.jobs, (if k = r then claimed else (s.job k).claimed) = true →
      ((s.job k).owner, (s.job k).snapshot.taskId) ∈ others) :
    Held (s.setJob r { s.job r with
      claimed, snapshot := { (s.job r).snapshot with acknowledged } }) others := by
  have hfields : ∀ k, ((s.setJob r { s.job r with
      claimed, snapshot := { (s.job r).snapshot with acknowledged } }).job k).owner =
        (s.job k).owner ∧
      ((s.setJob r { s.job r with
        claimed, snapshot := { (s.job r).snapshot with acknowledged } }).job k).snapshot.taskId =
        (s.job k).snapshot.taskId ∧
      ((s.setJob r { s.job r with
        claimed, snapshot := { (s.job r).snapshot with acknowledged } }).job k).snapshot.state =
        (s.job k).snapshot.state ∧
      ((s.setJob r { s.job r with
        claimed, snapshot := { (s.job r).snapshot with acknowledged } }).job k).claimed =
        if k = r then claimed else (s.job k).claimed := by
    intro k
    rw [State.job_setJob]
    by_cases hk : k = r
    · subst hk
      simp
    · simp [hk]
  refine ⟨h.registry.setJob r rfl, h.auto, hnodup, fun p hp => ?_, fun k hk hc => ?_⟩
  · obtain ⟨k, hk, howner, hid, hterm, hc⟩ := hheld p hp
    obtain ⟨h₁, h₂, h₃, h₄⟩ := hfields k
    exact ⟨k, hk, h₁.trans howner, h₂.trans hid, by rw [h₃]; exact hterm, h₄.trans hc⟩
  · obtain ⟨h₁, h₂, -, h₄⟩ := hfields k
    rw [h₁, h₂]
    exact hclaimed k hk (h₄.symm.trans hc)

/-- A granted claim is one more holder. -/
theorem claim (h : Held s holders) {r : JobRef} (hr : r ∈ s.jobs)
    (hterm : taskTerminal (s.job r).snapshot.state = true) (hfree : (s.job r).claimed = false) :
    Held (s.setJob r { s.job r with claimed := true })
      (holders ++ [((s.job r).owner, (s.job r).snapshot.taskId)]) := by
  refine h.setFlags true (s.job r).snapshot.acknowledged ?_ (fun p hp => ?_) fun k hk hc => ?_
  · refine List.nodup_append.mpr ⟨h.nodup, by simp, fun p hp q hq he => ?_⟩
    rw [List.mem_singleton.mp hq] at he
    obtain ⟨k, hk, -, hid, -, hc⟩ := h.held p hp
    rw [he] at hid
    rw [h.registry.ids k hk r hr hid, hfree] at hc
    cases hc
  · rcases List.mem_append.mp hp with hp | hp
    · obtain ⟨k, hk, howner, hid, hkterm, hc⟩ := h.held p hp
      refine ⟨k, hk, howner, hid, hkterm, ?_⟩
      split
      · rfl
      · exact hc
    · rw [List.mem_singleton.mp hp]
      exact ⟨r, hr, rfl, rfl, hterm, by rw [if_pos rfl]⟩
  · split at hc
    · next he => rw [he]; exact List.mem_append_right _ (List.mem_singleton.mpr rfl)
    · exact List.mem_append_left _ (h.claimed k hk hc)

/-- A released claim is no holder any more; a release nobody needs changes no claim. -/
theorem finish (h : Held s holders) (owner : TaskOwner) (id : Bytes) (committed : Bool) :
    Held (s.finishCompletion owner id committed) (holders.erase (owner, id)) := by
  have hp := h.prune
  rcases finishCompletion_cases s owner id committed with ⟨he, hnone⟩ | ⟨r, hr, howner, hid, he⟩
  · rw [he]
    have hnot : (owner, id) ∉ holders := fun hm => by
      obtain ⟨k, hk, ho, hi, -⟩ := hp.held _ hm
      exact hnone k hk ⟨ho, hi⟩
    rw [List.erase_of_not_mem hnot]
    exact hp
  · rw [he]
    refine hp.setFlags (r := r) false _ (h.nodup.erase _) (fun p hmem => ?_) fun k hk hc => ?_
    · obtain ⟨hne, hmem⟩ := (List.Nodup.mem_erase_iff h.nodup).mp hmem
      obtain ⟨k, hk, ho, hi, hterm, hc⟩ := hp.held p hmem
      have hkr : k ≠ r := by
        rintro rfl
        refine hne ?_
        rw [← howner, ← hid]
        exact Prod.ext ho.symm hi.symm
      exact ⟨k, hk, ho, hi, hterm, by rw [if_neg hkr]; exact hc⟩
    · split at hc
      · cases hc
      · next hkr =>
        refine (List.Nodup.mem_erase_iff h.nodup).mpr ⟨fun he => hkr ?_, hp.claimed k hk hc⟩
        obtain ⟨-, hi⟩ := Prod.mk.inj he
        exact hp.registry.ids k hk r hr (hi.trans hid.symm)

theorem finishAll (h : Held s holders) (owner : TaskOwner) (committed : Bool) (ids : List Bytes) :
    Held (State.finishCompletions owner committed ids s)
      (holders.diff (ids.map fun id => (owner, id))) := by
  induction ids generalizing s holders with
  | nil => exact h
  | cons id rest ih =>
    unfold State.finishCompletions
    rw [List.map_cons, List.diff_cons]
    exact ih (h.finish owner id committed)

end Held

/-- What the delivery functions do to the flags of every record; `reports` are those
a commit acknowledges. -/
structure Touches (reports : List (TaskOwner × Bytes)) (s t : State) : Prop where
  listed : ∀ r ∈ t.jobs, r ∈ s.jobs
  identity : ∀ r, (t.job r).SameIdentity (s.job r)
  monotone : ∀ r, (s.job r).snapshot.acknowledged = true → (t.job r).snapshot.acknowledged = true
  acknowledged : ∀ r, (t.job r).snapshot.acknowledged = true →
    (s.job r).snapshot.acknowledged = true ∨ ((s.job r).owner, (s.job r).snapshot.taskId) ∈ reports
  claimed : ∀ r, (t.job r).claimed = true →
    (s.job r).claimed = true ∨ (s.job r).snapshot.acknowledged = false

namespace Touches

variable {reports : List (TaskOwner × Bytes)} {s t : State}

theorem refl (s : State) : Touches reports s s :=
  ⟨fun _ h => h, fun _ => .refl _, fun _ h => h, fun _ h => .inl h, fun _ h => .inl h⟩

theorem prune (s : State) : Touches reports s s.prune :=
  ⟨fun _ h => List.mem_of_mem_filter h, fun _ => .refl _, fun _ h => h, fun _ h => .inl h,
    fun _ h => .inl h⟩

theorem trans {u : State} (h₁ : Touches reports s t) (h₂ : Touches reports t u) :
    Touches reports s u := by
  refine ⟨fun r h => h₁.listed r (h₂.listed r h), fun r => (h₂.identity r).trans (h₁.identity r),
    fun r h => h₂.monotone r (h₁.monotone r h), fun r h => ?_, fun r h => ?_⟩
  · rcases h₂.acknowledged r h with h | h
    · exact h₁.acknowledged r h
    · rw [(h₁.identity r).owner, (h₁.identity r).taskId] at h
      exact .inr h
  · rcases h₂.claimed r h with h | h
    · exact h₁.claimed r h
    · refine .inr ?_
      by_contra hack
      rw [h₁.monotone r (by simpa using hack)] at h
      cases h

theorem setFlags (s : State) (r : JobRef) (claimed acknowledged : Bool)
    (hmono : (s.job r).snapshot.acknowledged = true → acknowledged = true)
    (hack : acknowledged = true → (s.job r).snapshot.acknowledged = true ∨
      ((s.job r).owner, (s.job r).snapshot.taskId) ∈ reports)
    (hclaim : claimed = true → (s.job r).snapshot.acknowledged = false) :
    Touches reports s (s.prune.setJob r { s.job r with
      claimed, snapshot := { (s.job r).snapshot with acknowledged } }) := by
  have hjob : ∀ k, (s.prune.setJob r { s.job r with
      claimed, snapshot := { (s.job r).snapshot with acknowledged } }).job k = if k = r then
      { s.job r with claimed, snapshot := { (s.job r).snapshot with acknowledged } } else s.job k :=
    fun k => State.job_setJob _ _ _ k
  refine ⟨fun k h => List.mem_of_mem_filter h, fun k => ?_, fun k h => ?_, fun k h => ?_,
    fun k h => ?_⟩
  · rw [hjob]
    split
    · next he => rw [he]; exact ⟨rfl, rfl, rfl, rfl, rfl⟩
    · exact .refl _
  · rw [hjob]
    split
    · next he => rw [he] at h; exact hmono h
    · exact h
  · rw [hjob] at h
    split at h
    · next he => rw [he]; exact hack h
    · exact .inl h
  · rw [hjob] at h
    split at h
    · next he => rw [he]; exact .inr (hclaim h)
    · exact .inl h

theorem claim (s : State) (owner : TaskOwner) (id : Bytes) :
    Touches reports s (s.claimCompletion owner id).2 := by
  rcases claimCompletion_cases s owner id with ⟨out, -, he⟩ | ⟨r, -, -, -, -, hack, -, he⟩
  · rw [he]
    exact prune s
  · rw [he]
    exact setFlags s r true (s.job r).snapshot.acknowledged (fun h => h) .inl fun _ => hack

theorem finish (s : State) (owner : TaskOwner) (id : Bytes) (committed : Bool)
    (hreport : committed = true → (owner, id) ∈ reports) :
    Touches reports s (s.finishCompletion owner id committed) := by
  rcases finishCompletion_cases s owner id committed with ⟨he, -⟩ | ⟨r, -, howner, hid, he⟩
  · rw [he]
    exact prune s
  · rw [he]
    refine setFlags s r false _ (fun h => by rw [h, Bool.true_or]) (fun h => ?_) fun h => by cases h
    rcases Bool.or_eq_true _ _ ▸ h with h | h
    · exact .inl h
    · rw [howner, hid]
      exact .inr (hreport h)

theorem finishAll (s : State) (owner : TaskOwner) (committed : Bool) (ids : List Bytes)
    (hreports : committed = true → ∀ id ∈ ids, (owner, id) ∈ reports) :
    Touches reports s (State.finishCompletions owner committed ids s) := by
  induction ids generalizing s with
  | nil => exact refl s
  | cons id rest ih =>
    exact (finish s owner id committed fun h => hreports h id List.mem_cons_self).trans
      (ih _ fun h k hk => hreports h k (List.mem_cons_of_mem id hk))

end Touches

theorem nextCompletion_spec {s : State} {owner : TaskOwner} {id : Bytes}
    (h : s.nextCompletion owner = some id) :
    ∃ r ∈ s.jobs, (s.job r).owner = owner ∧ (s.job r).snapshot.taskId = id ∧
      taskTerminal (s.job r).snapshot.state = true ∧ (s.job r).snapshot.acknowledged = false ∧
      (s.job r).claimed = false := by
  unfold State.nextCompletion at h
  cases hfind : s.jobs.find? fun r => State.deliverable owner (s.job r) with
  | none => rw [hfind] at h; cases h
  | some r =>
    rw [hfind] at h
    have hd := List.find?_some hfind
    simp only [State.deliverable, Bool.and_eq_true, beq_iff_eq, Bool.not_eq_true'] at hd
    obtain ⟨⟨⟨⟨howner, hterm⟩, -⟩, hack⟩, hclaim⟩ := hd
    exact ⟨r, List.mem_of_find?_eq_some hfind, howner, Option.some.inj h, hterm, hack, hclaim⟩

/-- The gathering loop only meets reports it can claim. -/
theorem gatherCompletions_spec (owner : TaskOwner) (places : Nat) {s : State} (ids : List Bytes)
    {others : List (TaskOwner × Bytes)} (h : Held s (others ++ ids.map fun id => (owner, id))) :
    ∃ more t, State.gatherCompletions owner places s ids = (.ok (), ids ++ more, t) ∧
      Held t (others ++ (ids ++ more).map fun id => (owner, id)) ∧ Touches [] s t := by
  induction places generalizing s ids with
  | zero => exact ⟨[], s, by simp [State.gatherCompletions], by simpa using h, .refl s⟩
  | succ places ih =>
    unfold State.gatherCompletions
    cases hnext : s.nextCompletion owner with
    | none => exact ⟨[], s, by simp, by simpa using h, .refl s⟩
    | some next =>
      obtain ⟨r, hr, howner, hid, hterm, hack, hclaim⟩ := nextCompletion_spec hnext
      have hok := claimCompletion_ok h hr hterm hack hclaim
      rw [howner, hid] at hok
      have hheld := h.prune.claim (mem_prune h.auto hr hack) hterm hclaim
      rw [State.job_prune, howner, hid, List.append_assoc] at hheld
      have htouch : Touches [] s _ := Touches.claim s owner next
      rw [hok] at htouch
      have hmap : (ids.map fun id => (owner, id)) ++ [(owner, next)] =
          (ids ++ [next]).map fun id => (owner, id) := by simp
      rw [hmap] at hheld
      obtain ⟨more, t, he, hheld', htouch'⟩ := ih (ids ++ [next]) hheld
      refine ⟨next :: more, t, ?_, ?_, htouch.trans htouch'⟩
      · dsimp only
        rw [hok]
        dsimp only
        rw [he]
        simp
      · simpa using hheld'

/-- A completion turn begins by claiming its reports or leaves the claims alone. -/
theorem beginCompletion_spec {s : State} {holders : List (TaskOwner × Bytes)} (h : Held s holders)
    (owner : TaskOwner) (id : Bytes) :
    Touches [] s (s.beginCompletion owner id).2 ∧
    ((∃ ids, (s.beginCompletion owner id).1 = .ok (some ids) ∧
        Held (s.beginCompletion owner id).2 (holders ++ ids.map fun k => (owner, k))) ∨
      ((∀ ids, (s.beginCompletion owner id).1 ≠ .ok (some ids)) ∧
        Held (s.beginCompletion owner id).2 holders)) := by
  unfold State.beginCompletion
  rcases claimCompletion_cases s owner id with
    ⟨out, hout, he⟩ | ⟨r, hr, howner, hid, hterm, hack, hclaim, he⟩
  · rw [he]
    rcases out with e | ok
    · exact ⟨.prune s, .inr ⟨fun ids hids => (by cases hids), h.prune⟩⟩
    · cases ok with
      | false => exact ⟨.prune s, .inr ⟨fun ids hids => (by cases hids), h.prune⟩⟩
      | true => exact absurd rfl hout
  · have htouch : Touches [] s _ := Touches.claim s owner id
    have hheld := h.prune.claim hr hterm hclaim
    rw [State.job_prune, howner, hid] at hheld
    rw [he] at htouch ⊢
    obtain ⟨more, t, hg, hheld', htouch'⟩ := gatherCompletions_spec owner 3 [id] hheld
    dsimp only
    rw [hg]
    exact ⟨htouch.trans htouch', .inl ⟨_, rfl, hheld'⟩⟩

/-- The claims of an ended turn are gone, whether it committed or not. -/
theorem endCompletion_spec {s : State} {holders : List (TaskOwner × Bytes)} (h : Held s holders)
    (owner : TaskOwner) (ids : List Bytes) (committed : Bool) :
    Touches (if committed then ids.map fun id => (owner, id) else []) s
        (s.endCompletion owner ids committed) ∧
      ∀ others : List (TaskOwner × Bytes), others.Nodup →
        (∀ p, p ∈ others ↔ p ∈ holders ∧ p ∉ ids.map fun id => (owner, id)) →
        Held (s.endCompletion owner ids committed) others := by
  unfold State.endCompletion
  have hmem : ∀ {l : List (TaskOwner × Bytes)}, l.Nodup →
    ∀ p, p ∈ l.diff (ids.map fun id => (owner, id)) ↔
      p ∈ l ∧ p ∉ ids.map fun id => (owner, id) := fun hl p => List.Nodup.mem_sdiff_iff hl
  cases committed with
  | false =>
    have hend := h.finishAll owner false ids
    refine ⟨Touches.finishAll s owner false ids fun h => (by cases h),
      fun others hnodup hothers => ?_⟩
    exact hend.congr hnodup fun p => (hothers p).trans (hmem h.nodup p).symm
  | true =>
    have hfirst := h.finishAll owner true ids
    have hend := hfirst.finishAll owner false ids
    refine ⟨(Touches.finishAll s owner true ids fun _ id hid => List.mem_map.mpr
      ⟨id, hid, rfl⟩).trans
      (Touches.finishAll _ owner false ids fun h => (by cases h)), fun others hnodup hothers => ?_⟩
    refine hend.congr hnodup fun p => ?_
    rw [hothers, hmem hfirst.nodup, hmem h.nodup, and_assoc, and_self]

namespace State

theorem path_finishCompletions (owner : TaskOwner) (committed : Bool) (ids : List Bytes)
    (s : State) :
    Path Grant.delivery s (finishCompletions owner committed ids s) := by
  induction ids generalizing s with
  | nil => exact .refl
  | cons id rest ih => exact (path_finishCompletion s owner id committed).trans (ih _)

theorem path_gatherCompletions (owner : TaskOwner) (places : Nat) (s : State) (ids : List Bytes) :
    Path Grant.delivery s (gatherCompletions owner places s ids).2.2 := by
  induction places generalizing s ids with
  | zero => exact .refl
  | succ places ih =>
    unfold gatherCompletions
    split
    · exact .refl
    next next hnext =>
    have hp := path_claimCompletion s owner next
    split
    · next hq => rw [hq] at hp; exact hp
    · next hq => rw [hq] at hp; exact hp.trans (ih _ _)

theorem path_beginCompletion (s : State) (owner : TaskOwner) (id : Bytes) :
    Path Grant.delivery s (s.beginCompletion owner id).2 := by
  have hp := path_claimCompletion s owner id
  unfold beginCompletion
  split
  · next hq => rw [hq] at hp; exact hp
  · next hq => rw [hq] at hp; exact hp
  next t hq =>
  rw [hq] at hp
  have hg := path_gatherCompletions owner 3 t [id]
  split
  · next hq => rw [hq] at hg; exact (hp.trans hg).trans (path_finishCompletions _ _ _ _)
  · next hq => rw [hq] at hg; exact hp.trans hg

theorem path_endCompletion (s : State) (owner : TaskOwner) (ids : List Bytes) (committed : Bool) :
    Path Grant.delivery s (s.endCompletion owner ids committed) := by
  unfold endCompletion
  cases committed with
  | false => exact path_finishCompletions _ _ _ _
  | true => exact (path_finishCompletions _ _ _ _).trans (path_finishCompletions _ _ _ _)

end State

namespace Host

variable {h : Host}

/-- Claims are held by turns, and an acknowledged claim was cancelled meanwhile. -/
structure Inv (h : Host) : Prop where
  held : Held h.tasks h.holders
  excused : ∀ r ∈ h.tasks.jobs, (h.tasks.job r).claimed = true →
    (h.tasks.job r).snapshot.acknowledged = true → r ∈ h.cancelled

/-- The reports of one turn and of the others. -/
theorem holders_split {i : Nat} {frame : CompletionTurn} (hi : h.turns[i]? = some frame) :
    ∃ pre post, h.turns = pre ++ frame :: post ∧ h.turns.eraseIdx i = pre ++ post := by
  obtain ⟨hlt, hget⟩ := List.getElem?_eq_some_iff.mp hi
  refine ⟨h.turns.take i, h.turns.drop (i + 1), ?_, List.eraseIdx_eq_take_drop_succ _ _⟩
  rw [← hget, ← List.drop_eq_getElem_cons hlt, List.take_append_drop]

theorem holders_erase {i : Nat} {frame : CompletionTurn} (hi : h.turns[i]? = some frame)
    (hnodup : h.holders.Nodup) :
    ({ h with turns := h.turns.eraseIdx i } : Host).holders.Nodup ∧
    ∀ p, p ∈ ({ h with turns := h.turns.eraseIdx i } : Host).holders ↔
      p ∈ h.holders ∧ p ∉ frame.ids.map fun id => (frame.owner, id) := by
  obtain ⟨pre, post, hturns, herase⟩ := holders_split hi
  unfold holders at hnodup ⊢
  dsimp only
  rw [herase]
  rw [hturns] at hnodup ⊢
  simp only [List.flatMap_append, List.flatMap_cons] at hnodup ⊢
  obtain ⟨hpre, hrest, hdisj⟩ := List.nodup_append.mp hnodup
  obtain ⟨hframe, hpost, hdisj'⟩ := List.nodup_append.mp hrest
  refine ⟨List.nodup_append.mpr ⟨hpre, hpost,
    fun a ha b hb => hdisj a ha b (List.mem_append_right _ hb)⟩, fun p =>
    ⟨fun hp => ?_, fun hp => ?_⟩⟩
  · rcases List.mem_append.mp hp with hp | hp
    · exact ⟨List.mem_append_left _ hp, fun hf => hdisj p hp p (List.mem_append_left _ hf) rfl⟩
    · exact ⟨List.mem_append_right _ (List.mem_append_right _ hp), fun hf => hdisj' p hf p hp rfl⟩
  · rcases List.mem_append.mp hp.1 with hm | hm
    · exact List.mem_append_left _ hm
    · rcases List.mem_append.mp hm with hm | hm
      · exact absurd hm hp.2
      · exact List.mem_append_right _ hm

/-- What one event may do to the records. -/
structure Effect (h : Host) (e : Event) (k : Host) : Prop where
  removed : ∀ r ∈ h.tasks.jobs, r ∉ k.tasks.jobs →
    taskTerminal (k.tasks.job r).snapshot.state = true ∧
      (k.tasks.job r).snapshot.acknowledged = true
  monotone : ∀ r ∈ h.tasks.jobs, (h.tasks.job r).snapshot.acknowledged = true →
    (k.tasks.job r).snapshot.acknowledged = true
  acknowledged : ∀ r ∈ h.tasks.jobs, (h.tasks.job r).snapshot.acknowledged = false →
    (k.tasks.job r).snapshot.acknowledged = true →
    (∃ i frame, e = .commit i ∧ h.turns[i]? = some frame ∧ frame.owner = (h.tasks.job r).owner ∧
      (h.tasks.job r).snapshot.taskId ∈ frame.ids) ∨
    ∃ op, e = .operation op ∧ op.cancels h.tasks (h.tasks.job r) = true
  unclaimed : ∀ r ∈ h.tasks.jobs, (h.tasks.job r).snapshot.acknowledged = true →
    (h.tasks.job r).claimed = false → (k.tasks.job r).claimed = false

/-- The events of delivery, from what they do to the flags. -/
theorem Effect.of_touches {e : Event} {k : Host} {reports : List (TaskOwner × Bytes)} (hinv : h.Inv)
    (hp : Path Grant.delivery h.tasks k.tasks) (ht : Touches reports h.tasks k.tasks)
    (hreports : ∀ owner id, (owner, id) ∈ reports → ∃ i frame, e = .commit i ∧
      h.turns[i]? = some frame ∧ frame.owner = owner ∧ id ∈ frame.ids) : Effect h e k := by
  have hf := follows_path delivery_stable hp
  refine ⟨fun r hr hn => ?_, fun r hr => ht.monotone r, fun r hr hack hack' => .inl ?_,
    fun r hr hack hfree => ?_⟩
  · have hgone := hf.removed hinv.held.auto r (hinv.held.registry.jobs_lt r hr) hr hn
    exact ⟨hgone.1, hgone.2.1⟩
  · rcases ht.acknowledged r hack' with h' | h'
    · rw [hack] at h'
      cases h'
    · exact hreports _ _ h'
  · by_contra hc
    rcases ht.claimed r (by simpa using hc) with h' | h'
    · rw [hfree] at h'
      cases h'
    · rw [hack] at h'
      cases h'

/-- A record claimed and acknowledged after an event of delivery was so before. -/
theorem excused_of_touches {k : State} {reports : List (TaskOwner × Bytes)} (hinv : h.Inv)
    (ht : Touches reports h.tasks k) {r : JobRef} (hr : r ∈ k.jobs) (hc : (k.job r).claimed = true)
    (hack : (k.job r).snapshot.acknowledged = true)
    (hreport : ((k.job r).owner, (k.job r).snapshot.taskId) ∉ reports) : r ∈ h.cancelled := by
  have hack' : (h.tasks.job r).snapshot.acknowledged = true := by
    rcases ht.acknowledged r hack with h' | h'
    · exact h'
    · rw [← (ht.identity r).owner, ← (ht.identity r).taskId] at h'
      exact absurd h' hreport
  rcases ht.claimed r hc with h' | h'
  · exact hinv.excused r (ht.listed r hr) h' hack'
  · rw [hack'] at h'
    cases h'

theorem inv_operation (hinv : h.Inv) {op : State.Op} (hop : h.tasks.Enabled op)
    (hdel : op.delivers = false) : (h.apply (.operation op)).Inv ∧
      Effect h (.operation op) (h.apply (.operation op)) := by
  have hG : ¬ (op.grant h.tasks).delivers := fun hd => by
    have hd : op.delivers = true := hd
    rw [hdel] at hd
    cases hd
  have hp := State.path_apply hop
  have hf := follows_path (grant_stable h.tasks op) hp
  have hlt := hinv.held.registry.jobs_lt
  have hclaims : ∀ r ∈ h.tasks.jobs, ((h.tasks.apply op).job r).claimed = (h.tasks.job r).claimed :=
    fun r hr => (hf.claimed r (hlt r hr)).resolve_right hG
  have hheld : Held (h.tasks.apply op) h.holders := hinv.held.path hG hp
  refine ⟨⟨hheld, fun r hr hc hack => ?_⟩, ⟨fun r hr hn => ?_, fun r hr => hf.monotone r (hlt r hr),
    fun r hr hack hack' => .inr ⟨op, rfl, ?_⟩, fun r hr _ hfree => (hclaims r hr).trans hfree⟩⟩
  · -- The holder's record was already listed, so the cancel met it there.
    obtain ⟨k, hk, -, hid, -⟩ := hinv.held.held _ (hheld.claimed r hr hc)
    have hsame := hf.identity k (hlt k hk)
    have hkr : k = r := by
      by_cases hk' : k ∈ (h.tasks.apply op).jobs
      · exact hheld.registry.ids k hk' r hr (hsame.taskId.trans hid)
      · have hgone := (hf.removed hinv.held.auto k (hlt k hk) hk hk').2.2
        obtain ⟨q, hq, -, hqid, -, hqc⟩ := hinv.held.held _ (hheld.claimed r hr hc)
        rw [hinv.held.registry.ids k hk q hq (hid.trans hqid.symm)] at hgone
        rw [hclaims q hq, hqc] at hgone
        cases hgone
    subst hkr
    rcases hf.granted k (hlt k hk) hack with hack' | hd | hcancel
    · exact List.mem_append_left _ (hinv.excused k hk ((hclaims k hk).symm.trans hc) hack')
    · exact absurd hd hG
    · exact List.mem_append_right _ (List.mem_filter.mpr ⟨hk, hcancel⟩)
  · have hgone := hf.removed hinv.held.auto r (hlt r hr) hr hn
    exact ⟨hgone.1, hgone.2.1⟩
  · rcases hf.granted r (hlt r hr) hack' with h' | hd | hcancel
    · rw [hack] at h'
      cases h'
    · exact absurd hd hG
    · exact hcancel

theorem inv_begin (hinv : h.Inv) (owner : TaskOwner) (id : Bytes) :
    (h.apply (.begin owner id)).Inv ∧ Effect h (.begin owner id) (h.apply (.begin owner id)) := by
  obtain ⟨ht, hspec⟩ := beginCompletion_spec hinv.held owner id
  have hp := State.path_beginCompletion h.tasks owner id
  have hexcused : ∀ r ∈ (h.tasks.beginCompletion owner id).2.jobs,
      ((h.tasks.beginCompletion owner id).2.job r).claimed = true →
      ((h.tasks.beginCompletion owner id).2.job r).snapshot.acknowledged = true → r ∈ h.cancelled :=
    fun r hr hc hack => excused_of_touches hinv ht hr hc hack List.not_mem_nil
  have heffect : ∀ k : Host, k.tasks = (h.tasks.beginCompletion owner id).2 →
      Effect h (.begin owner id) k := fun k hk =>
    .of_touches hinv (hk ▸ hp) (hk ▸ ht) fun _ _ hm => by cases hm
  unfold apply
  dsimp only
  generalize h.tasks.beginCompletion owner id = out at hspec hexcused heffect
  obtain ⟨res, t⟩ := out
  rcases hspec with ⟨ids, hids, hheld⟩ | ⟨hno, hheld⟩
  · dsimp only at hids
    subst hids
    refine ⟨⟨?_, hexcused⟩, heffect _ rfl⟩
    unfold holders at hheld ⊢
    rw [List.flatMap_append]
    simpa using hheld
  · split
    · next ids s heq => exact absurd (congrArg Prod.fst heq) (hno ids)
    · next res' s _ heq =>
      obtain rfl : t = s := congrArg Prod.snd heq
      exact ⟨⟨hheld, hexcused⟩, heffect _ rfl⟩

theorem endTurn_eq {i : Nat} {frame : CompletionTurn} (hi : h.turns[i]? = some frame)
    (committed : Bool) :
    h.endTurn i committed = { h with
      tasks := h.tasks.endCompletion frame.owner frame.ids committed
      turns := h.turns.eraseIdx i } := by
  unfold endTurn
  rw [hi]

theorem inv_end (hinv : h.Inv) {i : Nat} {frame : CompletionTurn} (hi : h.turns[i]? = some frame)
    (committed : Bool) (e : Event) (he : committed = true → e = .commit i) :
    (h.endTurn i committed).Inv ∧ Effect h e (h.endTurn i committed) := by
  obtain ⟨ht, hheld⟩ := endCompletion_spec hinv.held frame.owner frame.ids committed
  obtain ⟨hnodup, hmem⟩ := holders_erase hi hinv.held.nodup
  have hheld := hheld _ hnodup hmem
  have hp := State.path_endCompletion h.tasks frame.owner frame.ids committed
  rw [endTurn_eq hi]
  refine ⟨⟨hheld, fun r hr hc hack => ?_⟩, .of_touches hinv hp ht fun owner id hreport => ?_⟩
  · refine excused_of_touches hinv ht hr hc hack fun hreport => ?_
    have hnot := ((hmem _).mp (hheld.claimed r hr hc)).2
    split at hreport
    · exact hnot hreport
    · cases hreport
  · cases committed with
    | false => cases hreport
    | true =>
      obtain ⟨k, hk, heq⟩ := List.mem_map.mp hreport
      obtain ⟨rfl, rfl⟩ := Prod.mk.inj heq
      exact ⟨i, frame, he rfl, hi, rfl, hk⟩

theorem inv_apply (hinv : h.Inv) {e : Event} (he : h.Enabled e) :
    (h.apply e).Inv ∧ Effect h e (h.apply e) := by
  cases e with
  | operation op => exact inv_operation hinv he.1 he.2
  | begin owner id => exact inv_begin hinv owner id
  | commit i =>
    obtain ⟨frame, hi⟩ : ∃ frame, h.turns[i]? = some frame := ⟨_, List.getElem?_eq_getElem he⟩
    exact inv_end hinv hi true _ fun _ => rfl
  | fail i =>
    obtain ⟨frame, hi⟩ : ∃ frame, h.turns[i]? = some frame := ⟨_, List.getElem?_eq_getElem he⟩
    exact inv_end hinv hi false _ fun h => by cases h

/-- A failed turn leaves the reports it held claimable, but for those cancelled meanwhile. -/
theorem fail_claimable (hinv : h.Inv) {i : Nat} {frame : CompletionTurn}
    (hi : h.turns[i]? = some frame) {id : Bytes} (hid : id ∈ frame.ids) :
    ∃ r ∈ h.tasks.jobs, (h.tasks.job r).owner = frame.owner ∧ (h.tasks.job r).snapshot.taskId = id ∧
      (r ∉ h.cancelled → r ∈ (h.endTurn i false).tasks.jobs ∧
        ((h.endTurn i false).tasks.claimCompletion frame.owner id).1 = .ok true) := by
  have hmem : (frame.owner, id) ∈ h.holders :=
    List.mem_flatMap.mpr ⟨frame, List.mem_of_getElem? hi, List.mem_map.mpr ⟨id, hid, rfl⟩⟩
  obtain ⟨r, hr, howner, htask, hterm, hc⟩ := hinv.held.held _ hmem
  refine ⟨r, hr, howner, htask, fun hnot => ?_⟩
  have hack : (h.tasks.job r).snapshot.acknowledged = false := by
    by_contra hack
    exact hnot (hinv.excused r hr hc (by simpa using hack))
  obtain ⟨hinv', heffect⟩ := inv_end hinv hi false (.fail i) fun h => by cases h
  have hnot' := ((holders_erase hi hinv.held.nodup).2 (frame.owner, id)).not.mpr
    fun hm => hm.2 (List.mem_map.mpr ⟨id, hid, rfl⟩)
  have hf := follows_path delivery_stable
    (State.path_endCompletion h.tasks frame.owner frame.ids false)
  rw [endTurn_eq hi] at hinv' heffect ⊢
  generalize h.tasks.endCompletion frame.owner frame.ids false = t at hinv' heffect hf ⊢
  have hlt := hinv.held.registry.jobs_lt r hr
  have hsame := hf.identity r hlt
  have hack' : (t.job r).snapshot.acknowledged = false := by
    by_contra hack'
    rcases heffect.acknowledged r hr hack (by simpa using hack') with ⟨j, f, hj, -⟩ | ⟨op, hop, -⟩
    · cases hj
    · cases hop
  have hr' : r ∈ t.jobs := by
    by_contra hn
    have hgone : (t.job r).snapshot.acknowledged = true := (heffect.removed r hr hn).2
    rw [hack'] at hgone
    cases hgone
  have hfree : (t.job r).claimed = false := by
    by_contra hc'
    have hm := hinv'.held.claimed r hr' (by simpa using hc')
    dsimp only at hm
    rw [hsame.owner, hsame.taskId, howner, htask] at hm
    exact hnot' hm
  have hterm' : taskTerminal (t.job r).snapshot.state = true := by
    rw [hf.terminal r hlt hterm]
    exact hterm
  have hok := claimCompletion_ok hinv'.held hr' hterm' hack' hfree
  dsimp only at hok
  rw [hsame.owner, hsame.taskId, howner, htask] at hok
  exact ⟨hr', by rw [hok]⟩

theorem inv_reachable {svc : Service} (hauto : svc.options.automaticDelivery = true)
    (hh : Reachable svc h) : h.Inv := by
  obtain ⟨s₀, hcreate, hrun⟩ := hh
  obtain ⟨rfl, -⟩ := State.create_ok hcreate
  refine run_invariant (r := Step) (I := Inv) ?_ hrun
    ⟨⟨registry_empty svc, hauto, List.nodup_nil, ?_, ?_⟩, ?_⟩
  · rintro a b ha ⟨e, he, rfl⟩
    exact (inv_apply ha he).1
  · intro p hp
    cases hp
  · intro r hr
    cases hr
  · intro r hr
    cases hr

end Host

/-- Completion delivery with automatic delivery on, for every interleaving: (a) an
unacknowledged report is kept and can be claimed while nobody holds it, (b) claims
are exclusive, (c) acknowledgement comes from a committed turn or an explicit cancel
and lasts, (d) an acknowledged report is neither offered nor claimed again, (e) a
failed turn leaves its reports claimable unless they were cancelled. -/
theorem completion_delivery {svc : Service} {h : Host}
    (hauto : svc.options.automaticDelivery = true) (hh : Host.Reachable svc h) :
    (∀ r ∈ h.tasks.jobs, taskTerminal (h.tasks.job r).snapshot.state = true →
      (h.tasks.job r).snapshot.acknowledged = false → (h.tasks.job r).claimed = false →
      (h.tasks.claimCompletion (h.tasks.job r).owner (h.tasks.job r).snapshot.taskId).1 =
        .ok true) ∧
    (h.holders.Nodup ∧ ∀ r ∈ h.tasks.jobs, (h.tasks.job r).claimed = true ↔
      ((h.tasks.job r).owner, (h.tasks.job r).snapshot.taskId) ∈ h.holders) ∧
    (∀ r ∈ h.tasks.jobs, (h.tasks.job r).snapshot.acknowledged = true →
      h.tasks.nextCompletion (h.tasks.job r).owner ≠ some (h.tasks.job r).snapshot.taskId ∧
      (h.tasks.claimCompletion (h.tasks.job r).owner (h.tasks.job r).snapshot.taskId).1 ≠
        .ok true) ∧
    ∀ e, h.Enabled e →
      Host.Effect h e (h.apply e) ∧
      ∀ i frame, e = .fail i → h.turns[i]? = some frame → ∀ id ∈ frame.ids,
        ∃ r ∈ h.tasks.jobs, (h.tasks.job r).owner = frame.owner ∧
          (h.tasks.job r).snapshot.taskId = id ∧
          (r ∉ h.cancelled → r ∈ (h.apply e).tasks.jobs ∧
            ((h.apply e).tasks.claimCompletion frame.owner id).1 = .ok true) := by
  have hinv := Host.inv_reachable hauto hh
  have hreg := hinv.held.registry
  refine ⟨fun r hr hterm hack hfree => ?_,
    ⟨hinv.held.nodup, fun r hr => ⟨hinv.held.claimed r hr, fun hm => ?_⟩⟩, fun r hr hack =>
    ⟨fun hnext => ?_, fun hclaim => ?_⟩, fun e he => ⟨(Host.inv_apply hinv he).2, ?_⟩⟩
  · rw [claimCompletion_ok hinv.held hr hterm hack hfree]
  · obtain ⟨k, hk, -, hid, -, hc⟩ := hinv.held.held _ hm
    rw [hreg.ids r hr k hk hid.symm]
    exact hc
  · obtain ⟨k, hk, -, hid, -, hack', -⟩ := nextCompletion_spec hnext
    rw [hreg.ids k hk r hr hid, hack] at hack'
    cases hack'
  · rcases claimCompletion_cases h.tasks (h.tasks.job r).owner (h.tasks.job r).snapshot.taskId with
      ⟨out, hout, heq⟩ | ⟨k, hk, -, hid, -, hack', -⟩
    · rw [heq] at hclaim
      exact hout hclaim
    · rw [hreg.ids k (List.mem_of_mem_filter hk) r hr hid, hack] at hack'
      cases hack'
  · rintro i frame rfl hi id hid
    exact Host.fail_claimable hinv hi hid

/-- The report of the small host is held by one turn, and claimable again once that
turn failed. -/
theorem completion_delivery_failed_turn :
    Host.sample.holders.length = 1 ∧
    ∃ r ∈ Host.sample.tasks.jobs, r ∉ Host.sample.cancelled ∧
      ((Host.sample.apply (.fail 0)).tasks.claimCompletion (taskOwner State.sampleLeader)
        (formatTurnIdHex (State.sampleId 1))).1 = .ok true := by
  have h := completion_delivery rfl Host.sample_reachable
  have hframe : Host.sample.turns[0]? =
      some ⟨taskOwner State.sampleLeader, [formatTurnIdHex (State.sampleId 1)]⟩ := by rfl
  obtain ⟨r, hr, -, -, hclaim⟩ := (h.2.2.2 (.fail 0) (by decide +kernel)).2 0 _ rfl hframe _
    List.mem_cons_self
  have hnone : Host.sample.cancelled = [] := by decide +kernel
  exact ⟨by decide +kernel, r, hr, by rw [hnone]; exact List.not_mem_nil,
    (hclaim (by rw [hnone]; exact List.not_mem_nil)).2⟩

end Orangutan.Bootstrap
