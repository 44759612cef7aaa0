import Orangutan.Agent.BatchRuns

/-!
# The scheduler

Batches and joins share one scheduler on one strand: an event runs from one wait to the
next, and any number of batches and joins may be under way. The calls in flight are
counted for each dispatch context, so that a join returns only after the last of them,
also when their batch has returned before.
-/

namespace Orangutan.Agent

set_option autoImplicit false

open Orangutan.Core

inductive WaitStatus
  | blocked
  | woken
  | returned

/-- A call of `wait_idle`. -/
structure Wait where
  selector : Option Nat
  status : WaitStatus

structure ToolScheduler where
  shared : SharedState := {}
  runs : List BatchRun := []
  waits : List Wait := []

/-- `runBatch` and `waitIdle` are calls of the two operations; the rest is what their
coroutines and the calls of a batch do at their waits. -/
inductive SchedulerEvent
  | runBatch (context : Nat) (calls : List ToolBatchCall) (cancelled : Bool)
  | finish (batch index : Nat) (ending : CallEnd)
  | receive (batch : Nat) (cancelled : Bool)
  | cancel (batch : Nat)
  | graceOver (batch : Nat)
  | record (batch : Nat)
  | waitIdle (selector : Option Nat)
  | resume (wait : Nat)

namespace ToolScheduler

def onRun (batch : Nat) (f : SharedState → BatchRun → SharedState × BatchRun) (s : ToolScheduler) :
    ToolScheduler :=
  match s.runs[batch]? with
  | none => s
  | some r => { s with shared := (f s.shared r).1, runs := s.runs.set batch (f s.shared r).2 }

/-- Every registered timer is cancelled. -/
def wake (s : ToolScheduler) : ToolScheduler :=
  { s with
    shared := { s.shared with idleWaiters := [] }
    waits := s.waits.mapIdx fun w wait =>
      if s.shared.idleWaiters.contains w then { wait with status := .woken } else wait }

/-- One round of the loop of `wait_idle`. -/
def checkIdle (w : Nat) (selector : Option Nat) (shared : SharedState) : SharedState × Wait :=
  if shared.busy selector then
    ({ shared with idleWaiters := shared.idleWaiters ++ [w] }, ⟨selector, .blocked⟩)
  else (shared, ⟨selector, .returned⟩)

def step (options : ToolSchedulerOptions) (s : ToolScheduler) : SchedulerEvent → ToolScheduler
  | .runBatch context calls cancelled =>
    let p := BatchRun.begin options s.shared context calls cancelled
    { s with shared := p.1, runs := s.runs ++ [p.2] }
  | .finish batch index ending =>
    match s.runs[batch]? with
    | none => s
    | some r =>
      if r.batch.running.contains index
        then (s.onRun batch (BatchRun.finish options index ending)).wake
      else s
  | .receive batch cancelled => s.onRun batch (BatchRun.receive cancelled)
  | .cancel batch => s.onRun batch fun shared r => (shared, r.cancel)
  | .graceOver batch => s.onRun batch fun shared r => (shared, r.graceOver)
  | .record batch => s.onRun batch fun shared r => (shared, r.record)
  | .waitIdle selector =>
    let p := checkIdle s.waits.length selector s.shared
    { s with shared := p.1, waits := s.waits ++ [p.2] }
  | .resume w =>
    match s.waits[w]? with
    | some ⟨selector, .woken⟩ =>
      let p := checkIdle w selector s.shared
      { s with shared := p.1, waits := s.waits.set w p.2 }
    | _ => s

def run (options : ToolSchedulerOptions) (events : List SchedulerEvent) : ToolScheduler :=
  events.foldl (step options) {}

/-- The calls of all batches on a context that are started and not finished. -/
def inFlight (context : Nat) (s : ToolScheduler) : Nat :=
  (s.runs.map fun r => if r.context = context then r.inFlight.length else 0).sum

/-- No call that the selector joins is in flight. -/
def Idle (selector : Option Nat) (s : ToolScheduler) : Prop :=
  ∀ context, selector.all (· == context) → s.inFlight context = 0

structure Steady (options : ToolSchedulerOptions) (s : ToolScheduler) : Prop where
  runs : ∀ r ∈ s.runs, r.Consistent options
  positive : s.shared.Positive
  counts : ∀ c, s.shared.active c = (s.runs.map (·.load c)).sum
  waits : ∀ w wait, s.waits[w]? = some wait → wait.status = .blocked →
    w ∈ s.shared.idleWaiters ∧ s.shared.busy wait.selector = true

variable {options : ToolSchedulerOptions} {s : ToolScheduler}

theorem sum_set {l : List Nat} {i x : Nat} (h : l[i]? = some x) (y : Nat) :
    (l.set i y).sum + x = l.sum + y := by
  induction l generalizing i with
  | nil => cases h
  | cons a l ih =>
    cases i with
    | zero =>
      obtain rfl : a = x := by simpa using h
      simp only [List.set_cons_zero, List.sum_cons]
      omega
    | succ i =>
      have hrest := ih (i := i) (by simpa using h)
      simp only [List.set_cons_succ, List.sum_cons]
      omega

theorem onRun_some {batch : Nat} {r : BatchRun} (h : s.runs[batch]? = some r)
    (f : SharedState → BatchRun → SharedState × BatchRun) :
    s.onRun batch f = { s with
      shared := (f s.shared r).1, runs := s.runs.set batch (f s.shared r).2 } := by
  unfold onRun
  rw [h]

theorem Steady.load_le (h : s.Steady options) {batch : Nat} {r : BatchRun}
    (hr : s.runs[batch]? = some r) (c : Nat) : r.load c ≤ s.shared.active c := by
  rw [h.counts]
  exact List.le_sum_of_mem (List.mem_map_of_mem (List.mem_of_getElem? hr))

theorem busy_mono {shared shared' : SharedState} (h : shared.Positive) (h' : shared'.Positive)
    (hle : ∀ c, shared.active c ≤ shared'.active c) {selector : Option Nat}
    (hbusy : shared.busy selector = true) : shared'.busy selector = true := by
  cases selector with
  | some context => exact h'.busy_some.mpr ((h.busy_some.mp hbusy).trans_le (hle context))
  | none =>
    obtain ⟨c, hc⟩ := h.busy_none.mp hbusy
    exact h'.busy_none.mpr ⟨c, hc.trans_le (hle c)⟩

/-- The batches and counts after a balanced step of one batch. -/
theorem Steady.onRun_runs (h : s.Steady options) {batch : Nat} {r : BatchRun}
    (hr : s.runs[batch]? = some r) {p : SharedState × BatchRun} (hp : p.2.Consistent options)
    (hbalanced : BatchRun.Balanced (s.shared, r) p) :
    (∀ r' ∈ s.runs.set batch p.2, r'.Consistent options) ∧ p.1.Positive ∧
      ∀ c, p.1.active c = ((s.runs.set batch p.2).map (·.load c)).sum := by
  refine ⟨fun r' hr' => ?_, hbalanced.positive h.positive, fun c => ?_⟩
  · rcases List.mem_or_eq_of_mem_set hr' with hold | rfl
    · exact h.runs r' hold
    · exact hp
  · have hload : (s.runs.map (·.load c))[batch]? = some (r.load c) := by
      rw [List.getElem?_map, hr]; rfl
    have hsum := sum_set hload (p.2.load c)
    have hcount := hbalanced.counts c
    have hbefore := h.counts c
    rw [List.map_set]
    dsimp only at hcount
    omega

theorem Steady.onRun (h : s.Steady options) {batch : Nat}
    {f : SharedState → BatchRun → SharedState × BatchRun}
    (hf : ∀ r, r.Consistent options → (f s.shared r).2.Consistent options ∧
      BatchRun.Balanced (s.shared, r) (f s.shared r) ∧ ∀ c,
        s.shared.active c ≤ (f s.shared r).1.active c) :
    (s.onRun batch f).Steady options := by
  cases hr : s.runs[batch]? with
  | none =>
    unfold ToolScheduler.onRun
    rw [hr]
    exact h
  | some r =>
    obtain ⟨hconsistent, hbalanced, hmono⟩ := hf r (h.runs r (List.mem_of_getElem? hr))
    obtain ⟨hruns, hpositive, hcounts⟩ := h.onRun_runs hr hconsistent hbalanced
    rw [onRun_some hr]
    refine ⟨hruns, hpositive, hcounts, fun w wait hwait hblocked => ?_⟩
    obtain ⟨hregistered, hbusy⟩ := h.waits w wait hwait hblocked
    refine ⟨?_, busy_mono h.positive hpositive hmono hbusy⟩
    show w ∈ (f s.shared r).1.idleWaiters
    rw [hbalanced.waiters]
    exact hregistered

/-- After a completion nobody is blocked. -/
theorem wake_unblocked (h : ∀ w wait, s.waits[w]? = some wait → wait.status = .blocked →
    w ∈ s.shared.idleWaiters) {w : Nat} {wait : Wait} (hwait : s.wake.waits[w]? = some wait) :
    wait.status ≠ .blocked := by
  intro hblocked
  simp only [wake, List.getElem?_mapIdx] at hwait
  cases hold : s.waits[w]? with
  | none =>
    rw [hold] at hwait
    cases hwait
  | some old =>
    rw [hold] at hwait
    obtain rfl := Option.some.inj hwait
    by_cases hregistered : s.shared.idleWaiters.contains w = true
    · simp only [hregistered, if_true] at hblocked
      cases hblocked
    · simp only [hregistered] at hblocked
      exact hregistered (by simpa using h w old hold hblocked)

theorem Steady.finish (h : s.Steady options) (batch index : Nat) (ending : CallEnd) :
    (s.step options (.finish batch index ending)).Steady options := by
  unfold step
  dsimp only
  cases hr : s.runs[batch]? with
  | none => exact h
  | some r =>
    dsimp only
    split
    · next hrunning =>
      have hrunning : index ∈ r.batch.running := by simpa using hrunning
      have hr' := h.runs r (List.mem_of_getElem? hr)
      have hbalanced := hr'.calls.finish_balanced hrunning ending (h.load_le hr r.context)
      obtain ⟨hruns, hpositive, hcounts⟩ := h.onRun_runs hr (hr'.finish hrunning ending) hbalanced
      rw [onRun_some hr]
      refine ⟨hruns, hpositive, hcounts, fun w wait hwait hblocked => ?_⟩
      exact absurd hblocked (wake_unblocked
        (fun w wait hwait hb => (h.waits w wait hwait hb).1) hwait)
    · exact h

theorem Steady.checkIdle (h : s.Steady options) {w : Nat} {selector : Option Nat}
    {waits : List Wait} (hself : waits[w]? = some (ToolScheduler.checkIdle w selector s.shared).2)
    (hothers : ∀ v wait, v ≠ w → waits[v]? = some wait → s.waits[v]? = some wait) :
    ({ s with shared := (ToolScheduler.checkIdle w selector s.shared).1, waits } :
      ToolScheduler).Steady options := by
  unfold ToolScheduler.checkIdle at hself ⊢
  by_cases hbusy : s.shared.busy selector = true
  · rw [if_pos hbusy] at hself ⊢
    refine ⟨h.runs, h.positive, h.counts, fun v wait hwait hblocked => ?_⟩
    by_cases hv : v = w
    · subst hv
      obtain rfl := Option.some.inj (hself.symm.trans hwait)
      exact ⟨List.mem_append_right _ (List.mem_singleton_self _), hbusy⟩
    · obtain ⟨hregistered, hwaiting⟩ := h.waits v wait (hothers v wait hv hwait) hblocked
      exact ⟨List.mem_append_left _ hregistered, hwaiting⟩
  · rw [if_neg hbusy] at hself ⊢
    refine ⟨h.runs, h.positive, h.counts, fun v wait hwait hblocked => ?_⟩
    by_cases hv : v = w
    · subst hv
      obtain rfl := Option.some.inj (hself.symm.trans hwait)
      cases hblocked
    · exact h.waits v wait (hothers v wait hv hwait) hblocked

theorem receive_active {r : BatchRun} {shared : SharedState} (cancelled : Bool) (c : Nat) :
    shared.active c ≤ (r.receive cancelled shared).1.active c := by
  unfold BatchRun.receive
  split
  · dsimp only
    split
    · exact Nat.le_refl _
    split
    · show shared.active c ≤ (shared.enter r.context).active c
      rw [SharedState.active_enter]
      exact Nat.le_add_right _ _
    · exact Nat.le_refl _
  · exact Nat.le_refl _
  · exact Nat.le_refl _

theorem Steady.step (h : s.Steady options) (hparallel : 0 < options.maxParallelTools)
    (htimeout : 0 < options.perCallTimeout) (event : SchedulerEvent) :
      (s.step options event).Steady options := by
  cases event with
  | runBatch context calls cancelled =>
    have hrun := BatchRun.begin_consistent hparallel htimeout s.shared context calls cancelled
    obtain ⟨hwaiters, hpositive, hcounts⟩ :=
      BatchRun.begin_balanced options s.shared context calls cancelled
    refine ⟨fun r hr => ?_, hpositive h.positive, fun c => ?_, fun w wait hwait hblocked => ?_⟩
    · rcases List.mem_append.mp hr with hold | hnew
      · exact h.runs r hold
      · rw [List.mem_singleton.mp hnew]
        exact hrun
    · have hcount := hcounts c
      have hbefore := h.counts c
      simp only [ToolScheduler.step, List.map_append, List.map_cons, List.map_nil, List.sum_append,
        List.sum_singleton]
      omega
    · obtain ⟨hregistered, hbusy⟩ := h.waits w wait hwait hblocked
      refine ⟨?_, busy_mono h.positive (hpositive h.positive) (fun c => ?_) hbusy⟩
      · exact hwaiters ▸ hregistered
      · rw [hcounts c]
        exact Nat.le_add_right _ _
  | finish batch index ending => exact h.finish batch index ending
  | receive batch cancelled =>
    exact h.onRun fun r hr => ⟨hr.receive cancelled, BatchRun.receive_balanced cancelled,
      receive_active cancelled⟩
  | cancel batch =>
    exact h.onRun (f := fun shared r => (shared, r.cancel)) fun r hr =>
      ⟨hr.cancel, BatchRun.cancel_balanced, fun _ => Nat.le_refl _⟩
  | graceOver batch =>
    exact h.onRun (f := fun shared r => (shared, r.graceOver)) fun r hr =>
      ⟨hr.graceOver, BatchRun.graceOver_balanced, fun _ => Nat.le_refl _⟩
  | record batch =>
    exact h.onRun (f := fun shared r => (shared, r.record)) fun r hr =>
      ⟨hr.record, BatchRun.record_balanced, fun _ => Nat.le_refl _⟩
  | waitIdle selector =>
    refine h.checkIdle (by simp) fun v wait hv hwait => ?_
    rw [List.getElem?_append] at hwait
    split at hwait
    · exact hwait
    · next hlast =>
      rw [List.getElem?_eq_none (by simp; omega)] at hwait
      cases hwait
  | resume w =>
    unfold ToolScheduler.step
    dsimp only
    split
    · next selector hwoken =>
      refine h.checkIdle ?_ fun v wait hv hwait => ?_
      · rw [List.getElem?_set_self (List.getElem?_eq_some_iff.mp hwoken).1]
      · rwa [List.getElem?_set_ne (Ne.symm hv)] at hwait
    · exact h

theorem run_steady (hparallel : 0 < options.maxParallelTools)
    (htimeout : 0 < options.perCallTimeout) (events : List SchedulerEvent) :
    (run options events).Steady options := by
  have hfold : ∀ (events : List SchedulerEvent) (s : ToolScheduler), s.Steady options →
      (events.foldl (step options) s).Steady options := by
    intro events
    induction events with
    | nil => exact fun s h => h
    | cons event events ih => exact fun s h => ih _ (h.step hparallel htimeout event)
  refine hfold events {} ⟨fun r hr => ?_, fun c count hcount => ?_, fun c => rfl,
    fun w wait hwait _ => ?_⟩
  · cases hr
  · cases hcount
  · cases hwait

/-- The stored counts are those of the calls in flight. -/
theorem Steady.active (h : s.Steady options) (context : Nat) :
    s.shared.active context = s.inFlight context := by
  rw [h.counts]
  refine congrArg List.sum (List.map_congr_left fun r hr => ?_)
  unfold BatchRun.load
  rw [(h.runs r hr).calls.inFlight_perm.length_eq]

theorem Steady.idle_iff (h : s.Steady options) (selector : Option Nat) :
    s.Idle selector ↔ s.shared.busy selector = false := by
  rw [← Bool.not_eq_true]
  cases selector with
  | some context =>
    rw [h.positive.busy_some, h.active]
    constructor
    · intro hidle hactive
      have hzero := hidle context (by simp)
      omega
    · intro hidle c hc
      obtain rfl : context = c := by simpa using hc
      omega
  | none =>
    rw [h.positive.busy_none]
    constructor
    · rintro hidle ⟨c, hc⟩
      rw [h.active, hidle c rfl] at hc
      exact absurd hc (Nat.lt_irrefl 0)
    · intro hidle c _
      by_contra hbusy
      exact hidle ⟨c, by rw [h.active]; omega⟩

/-- A join returns only while nothing that it joins is in flight; a blocked one has
something to wait for, the completion that ends that wakes it, and then it returns. -/
structure Joins (options : ToolSchedulerOptions) (s : ToolScheduler) : Prop where
  returns : ∀ (event : SchedulerEvent) (w : Nat) (wait : Wait),
    (s.step options event).waits[w]? = some wait → wait.status = .returned →
      s.waits[w]? ≠ some wait →
      (s.step options event).Idle wait.selector
  blocked : ∀ (w : Nat) (wait : Wait), s.waits[w]? = some wait → wait.status = .blocked →
    ¬s.Idle wait.selector
  wakes : ∀ (event : SchedulerEvent) (w : Nat) (wait : Wait), s.waits[w]? = some wait →
    wait.status = .blocked → (s.step options event).Idle wait.selector →
      (∃ batch index ending, event = .finish batch index ending) ∧
        (s.step options event).waits[w]? = some { wait with status := .woken }
  resumes : ∀ (w : Nat) (selector : Option Nat), s.waits[w]? = some ⟨selector, .woken⟩ →
    s.Idle selector →
    (s.step options (.resume w)).waits[w]? = some ⟨selector, .returned⟩

theorem onRun_waits (batch : Nat) (f : SharedState → BatchRun → SharedState × BatchRun) :
    (s.onRun batch f).waits = s.waits := by
  unfold onRun
  split <;> rfl

theorem Steady.blocked (h : s.Steady options) {w : Nat} {wait : Wait}
    (hwait : s.waits[w]? = some wait) (hblocked : wait.status = .blocked) :
    ¬s.Idle wait.selector := by
  rw [h.idle_iff, (h.waits w wait hwait hblocked).2]
  exact Bool.noConfusion

theorem checkIdle_selector (w : Nat) (selector : Option Nat) (shared : SharedState) :
    (checkIdle w selector shared).2.selector = selector := by
  unfold checkIdle
  split <;> rfl

theorem checkIdle_returned {w : Nat} {selector : Option Nat} {shared : SharedState}
    (h : (checkIdle w selector shared).2.status = .returned) : shared.busy selector = false := by
  unfold checkIdle at h
  split at h
  · cases h
  · next hbusy => simpa using hbusy

theorem wake_waits {w : Nat} {wait : Wait} (h : s.wake.waits[w]? = some wait) :
    s.waits[w]? = some wait ∨ wait.status = .woken := by
  simp only [wake, List.getElem?_mapIdx, Option.map_eq_some_iff] at h
  obtain ⟨old, hold, rfl⟩ := h
  split
  · exact Or.inr rfl
  · exact Or.inl hold

theorem Steady.wake_blocked (h : s.Steady options) {shared : SharedState} {runs : List BatchRun}
    {w : Nat} {wait : Wait} (hwaiters : shared.idleWaiters = s.shared.idleWaiters)
    (hwait : s.waits[w]? = some wait) (hblocked : wait.status = .blocked) :
    ({ s with shared, runs } : ToolScheduler).wake.waits[w]? =
      some { wait with status := .woken } := by
  have hregistered := (h.waits w wait hwait hblocked).1
  simp only [wake, List.getElem?_mapIdx, hwait, Option.map_some, hwaiters]
  rw [if_pos (by simpa using hregistered)]

/-- How a wait may come to be as it is after a step. -/
theorem step_waits {event : SchedulerEvent} {w : Nat} {wait : Wait}
    (h : (s.step options event).waits[w]? = some wait) :
    s.waits[w]? = some wait ∨ wait.status = .woken ∨
      (wait = (checkIdle w wait.selector s.shared).2 ∧ (s.step options event).runs = s.runs) := by
  cases event with
  | runBatch context calls cancelled => exact Or.inl h
  | finish batch index ending =>
    unfold step at h
    dsimp only at h
    split at h
    · exact Or.inl h
    split at h
    · rcases wake_waits h with hsame | hwoken
      · exact Or.inl (onRun_waits batch _ ▸ hsame)
      · exact Or.inr (Or.inl hwoken)
    · exact Or.inl h
  | receive batch cancelled => exact Or.inl (onRun_waits batch _ ▸ h)
  | cancel batch => exact Or.inl (onRun_waits batch _ ▸ h)
  | graceOver batch => exact Or.inl (onRun_waits batch _ ▸ h)
  | record batch => exact Or.inl (onRun_waits batch _ ▸ h)
  | waitIdle selector =>
    unfold step at h ⊢
    dsimp only at h ⊢
    by_cases hold : w < s.waits.length
    · rw [List.getElem?_append_left hold] at h
      exact Or.inl h
    · have hnew : w = s.waits.length := by
        have hlt := (List.getElem?_eq_some_iff.mp h).1
        rw [List.length_append, List.length_singleton] at hlt
        omega
      subst hnew
      rw [List.getElem?_concat_length] at h
      obtain rfl := Option.some.inj h
      refine Or.inr (Or.inr ⟨?_, rfl⟩)
      rw [checkIdle_selector]
  | resume v =>
    unfold step at h ⊢
    dsimp only at h ⊢
    split at h
    · next selector hwoken =>
      by_cases hv : v = w
      · subst hv
        rw [List.getElem?_set_self (List.getElem?_eq_some_iff.mp hwoken).1] at h
        obtain rfl := Option.some.inj h
        refine Or.inr (Or.inr ⟨?_, rfl⟩)
        rw [checkIdle_selector]
      · rw [List.getElem?_set_ne hv] at h
        exact Or.inl h
    · exact Or.inl h

theorem Steady.returns (h : s.Steady options) {event : SchedulerEvent} {w : Nat} {wait : Wait}
    (hwait : (s.step options event).waits[w]? = some wait) (hreturned : wait.status = .returned)
    (hnew : s.waits[w]? ≠ some wait) : (s.step options event).Idle wait.selector := by
  rcases step_waits hwait with hold | hwoken | ⟨hcheck, hruns⟩
  · exact absurd hold hnew
  · rw [hreturned] at hwoken
    cases hwoken
  · rw [hcheck] at hreturned
    have hidle := (h.idle_iff wait.selector).mpr (checkIdle_returned hreturned)
    intro context hcontext
    show ((s.step options event).runs.map _).sum = 0
    rw [hruns]
    exact hidle context hcontext

/-- A blocked join is either left as it is by a step or woken by a completion. -/
theorem Steady.step_blocked (h : s.Steady options) (event : SchedulerEvent) {w : Nat} {wait : Wait}
    (hwait : s.waits[w]? = some wait) (hblocked : wait.status = .blocked) :
    (s.step options event).waits[w]? = some wait ∨
      (∃ batch index ending, event = .finish batch index ending) ∧
        (s.step options event).waits[w]? = some { wait with status := .woken } := by
  cases event with
  | runBatch context calls cancelled => exact Or.inl hwait
  | finish batch index ending =>
    unfold ToolScheduler.step
    dsimp only
    cases hr : s.runs[batch]? with
    | none => exact Or.inl hwait
    | some r =>
      dsimp only
      split
      · rw [onRun_some hr]
        exact Or.inr ⟨⟨batch, index, ending, rfl⟩, h.wake_blocked rfl hwait hblocked⟩
      · exact Or.inl hwait
  | receive batch cancelled => exact Or.inl ((congrArg (·[w]?) (onRun_waits batch _)).trans hwait)
  | cancel batch => exact Or.inl ((congrArg (·[w]?) (onRun_waits batch _)).trans hwait)
  | graceOver batch => exact Or.inl ((congrArg (·[w]?) (onRun_waits batch _)).trans hwait)
  | record batch => exact Or.inl ((congrArg (·[w]?) (onRun_waits batch _)).trans hwait)
  | waitIdle selector =>
    refine Or.inl ?_
    unfold ToolScheduler.step
    rw [List.getElem?_append_left (List.getElem?_eq_some_iff.mp hwait).1]
    exact hwait
  | resume v =>
    refine Or.inl ?_
    unfold ToolScheduler.step
    dsimp only
    split
    · next selector hwoken =>
      have hv : v ≠ w := by
        rintro rfl
        rw [hwait] at hwoken
        cases hwoken
        cases hblocked
      rw [List.getElem?_set_ne hv]
      exact hwait
    · exact hwait

theorem Steady.joins (h : s.Steady options) (hparallel : 0 < options.maxParallelTools)
    (htimeout : 0 < options.perCallTimeout) : s.Joins options := by
  constructor
  · exact fun event w wait hwait hreturned hnew => h.returns hwait hreturned hnew
  · exact fun w wait hwait hblocked => h.blocked hwait hblocked
  · intro event w wait hwait hblocked hidle
    rcases h.step_blocked event hwait hblocked with hsame | hwoken
    · exact absurd hidle ((h.step hparallel htimeout event).blocked hsame hblocked)
    · exact hwoken
  · intro w selector hwoken hidle
    unfold ToolScheduler.step
    dsimp only
    rw [hwoken]
    dsimp only
    rw [List.getElem?_set_self (List.getElem?_eq_some_iff.mp hwoken).1]
    unfold ToolScheduler.checkIdle
    rw [if_neg (by rw [(h.idle_iff selector).mp hidle]; exact Bool.false_ne_true)]

/-- The steps that a batch and its calls make of their own, without their parent. -/
def Own (batch : Nat) : SchedulerEvent → Prop
  | .finish b _ _ => b = batch
  | .receive b cancelled => b = batch ∧ cancelled = false
  | .graceOver b => b = batch
  | .record b => b = batch
  | _ => False

/-- Only its parent makes a batch cancelled, at any wait of its drain; from then on it
starts no call. Until it returns it has steps of its own to make, and each of these
lowers its work. -/
structure Advances (options : ToolSchedulerOptions) (s : ToolScheduler) (batch : Nat)
    (r : BatchRun) : Prop where
  follows : ∀ later : List SchedulerEvent, ∃ r',
    (later.foldl (step options) s).runs[batch]? = some r' ∧ r'.Follows r
  cancels : r.phase = .draining → ∃ r',
    (s.step options (.cancel batch)).runs[batch]? = some r' ∧ r'.batch.parentCancelled = true
  observes : r.phase = .draining → r.batch.completion ≠ [] → ∃ r',
    (s.step options (.receive batch true)).runs[batch]? = some r' ∧ r'.batch.parentCancelled = true
  only : ∀ event r', (s.step options event).runs[batch]? = some r' →
    r.batch.parentCancelled = false →
    r'.batch.parentCancelled = true → event = .cancel batch ∨ event = .receive batch true
  returns : (∀ result, r.phase ≠ .returned result) → ∃ event r',
    Own batch event ∧ (s.step options event).runs[batch]? = some r' ∧ r'.work < r.work

theorem onRun_runs {batch b : Nat} {r : BatchRun} (hr : s.runs[b]? = some r)
    (f : SharedState → BatchRun → SharedState × BatchRun) :
    (s.onRun batch f).runs[b]? = some (if batch = b then (f s.shared r).2 else r) := by
  by_cases hb : batch = b
  · subst hb
    rw [onRun_some hr, if_pos rfl]
    exact List.getElem?_set_self (List.getElem?_eq_some_iff.mp hr).1
  · rw [if_neg hb]
    unfold onRun
    split
    · exact hr
    · exact (List.getElem?_set_ne hb).trans hr

/-- What a step makes of one batch. -/
def nextRun (options : ToolSchedulerOptions) (shared : SharedState) (batch : Nat) (r : BatchRun) :
    SchedulerEvent → BatchRun
  | .finish b index ending =>
    if b = batch ∧ index ∈ r.batch.running then (r.finish options index ending shared).2 else r
  | .receive b cancelled => if b = batch then (r.receive cancelled shared).2 else r
  | .cancel b => if b = batch then r.cancel else r
  | .graceOver b => if b = batch then r.graceOver else r
  | .record b => if b = batch then r.record else r
  | _ => r

theorem step_runs {batch : Nat} {r : BatchRun} (hr : s.runs[batch]? = some r)
    (event : SchedulerEvent) :
    (s.step options event).runs[batch]? = some (nextRun options s.shared batch r event) := by
  cases event with
  | runBatch context calls cancelled =>
    exact (List.getElem?_append_left (List.getElem?_eq_some_iff.mp hr).1).trans hr
  | finish b index ending =>
    unfold step nextRun
    dsimp only
    by_cases hb : b = batch
    · subst hb
      rw [hr]
      dsimp only
      by_cases hrunning : index ∈ r.batch.running
      · rw [if_pos (by simpa using hrunning), if_pos ⟨rfl, hrunning⟩]
        exact (onRun_runs hr _).trans (congrArg some (if_pos rfl))
      · rw [if_neg (by simpa using hrunning), if_neg fun h => hrunning h.2]
        exact hr
    · rw [if_neg fun h => hb h.1]
      split
      · exact hr
      split
      · exact (onRun_runs hr _).trans (congrArg some (if_neg hb))
      · exact hr
  | receive b cancelled => exact onRun_runs hr _
  | cancel b => exact onRun_runs hr _
  | graceOver b => exact onRun_runs hr _
  | record b => exact onRun_runs hr _
  | waitIdle selector => exact hr
  | resume w =>
    unfold step
    dsimp only
    split <;> exact hr

theorem nextRun_follows {r : BatchRun} (h : r.Consistent options) (shared : SharedState)
    (batch : Nat) (event : SchedulerEvent) : (nextRun options shared batch r event).Follows r := by
  unfold nextRun
  cases event with
  | runBatch context calls cancelled => exact BatchRun.Follows.refl r
  | finish b index ending =>
    dsimp only
    split
    · next hrunning => exact h.finish_follows hrunning.2 ending
    · exact BatchRun.Follows.refl r
  | receive b cancelled =>
    dsimp only
    split
    · exact h.receive_follows cancelled
    · exact BatchRun.Follows.refl r
  | cancel b =>
    dsimp only
    split
    · exact h.cancel_follows
    · exact BatchRun.Follows.refl r
  | graceOver b =>
    dsimp only
    split
    · exact h.graceOver_follows
    · exact BatchRun.Follows.refl r
  | record b =>
    dsimp only
    split
    · exact BatchRun.record_follows
    · exact BatchRun.Follows.refl r
  | waitIdle selector => exact BatchRun.Follows.refl r
  | resume w => exact BatchRun.Follows.refl r

theorem Steady.follows (h : s.Steady options) (hparallel : 0 < options.maxParallelTools)
    (htimeout : 0 < options.perCallTimeout) {batch : Nat} {r : BatchRun}
      (hr : s.runs[batch]? = some r)
    (later : List SchedulerEvent) :
    ∃ r', (later.foldl (ToolScheduler.step options) s).runs[batch]? = some r' ∧ r'.Follows r := by
  induction later generalizing s r with
  | nil => exact ⟨r, hr, BatchRun.Follows.refl r⟩
  | cons event later ih =>
    have hnext := nextRun_follows (h.runs r (List.mem_of_getElem? hr)) s.shared batch event
    obtain ⟨r', hr', hfollows⟩ := ih (h.step hparallel htimeout event) (step_runs hr event)
    exact ⟨r', hr', hfollows.trans hnext⟩

theorem nextRun_cancelled {r : BatchRun} (h : r.Consistent options) {shared : SharedState}
    {batch : Nat} {event : SchedulerEvent} (huncancelled : r.batch.parentCancelled = false)
    (hcancelled : (nextRun options shared batch r event).batch.parentCancelled = true) :
    event = .cancel batch ∨ event = .receive batch true := by
  -- every other event keeps the flag
  have hkept : (nextRun options shared batch r event).batch.parentCancelled ≠
      r.batch.parentCancelled := by
    rw [huncancelled, hcancelled]
    exact Bool.noConfusion
  unfold nextRun at hkept
  cases event with
  | runBatch context calls cancelled => exact absurd rfl hkept
  | finish b index ending =>
    dsimp only at hkept
    split at hkept
    · next hrunning => exact absurd (h.finish_parentCancelled hrunning.2 ending) hkept
    · exact absurd rfl hkept
  | receive b cancelled =>
    dsimp only at hkept
    split at hkept
    · next hb =>
      cases cancelled with
      | false => exact absurd BatchRun.receive_parentCancelled hkept
      | true => exact Or.inr (by rw [hb])
    · exact absurd rfl hkept
  | cancel b =>
    dsimp only at hkept
    split at hkept
    · next hb => exact Or.inl (by rw [hb])
    · exact absurd rfl hkept
  | graceOver b =>
    dsimp only at hkept
    split at hkept
    · exact absurd (congrArg Batch.parentCancelled BatchRun.graceOver_batch) hkept
    · exact absurd rfl hkept
  | record b =>
    dsimp only at hkept
    split at hkept
    · exact absurd (congrArg Batch.parentCancelled BatchRun.record_batch) hkept
    · exact absurd rfl hkept
  | waitIdle selector => exact absurd rfl hkept
  | resume w => exact absurd rfl hkept

theorem Steady.advances (h : s.Steady options) (hparallel : 0 < options.maxParallelTools)
    (htimeout : 0 < options.perCallTimeout) {batch : Nat} {r : BatchRun}
      (hr : s.runs[batch]? = some r) :
    s.Advances options batch r := by
  have hconsistent := h.runs r (List.mem_of_getElem? hr)
  constructor
  · exact h.follows hparallel htimeout hr
  · intro hphase
    refine ⟨_, step_runs hr _, ?_⟩
    simp only [nextRun, if_true]
    exact BatchRun.cancel_observed hphase
  · intro hphase hcompletion
    refine ⟨_, step_runs hr _, ?_⟩
    simp only [nextRun, if_true]
    exact BatchRun.receive_observed hphase hcompletion
  · intro event r' hr' huncancelled hcancelled
    obtain rfl := Option.some.inj ((step_runs hr event).symm.trans hr')
    exact nextRun_cancelled hconsistent huncancelled hcancelled
  · intro hwaiting
    -- some step of its own changes the batch, and so lowers its work
    obtain ⟨event, hown, hchanged⟩ : ∃ event, Own batch event ∧
        nextRun options s.shared batch r event ≠ r := by
      cases hphase : r.phase with
      | draining =>
        rcases hconsistent.awaits hparallel hphase with hflight | hcompletion
        · obtain ⟨index, hindex⟩ := List.exists_mem_of_ne_nil _ hflight
          have hrunning := hconsistent.calls.inFlight_perm.mem_iff.mp hindex
          refine ⟨.finish batch index .failed, rfl, ?_⟩
          simp only [nextRun, true_and, if_pos hrunning]
          exact BatchRun.finish_changes
        · refine ⟨.receive batch false, ⟨rfl, rfl⟩, ?_⟩
          simp only [nextRun, if_true]
          exact BatchRun.receive_changes hphase hcompletion
      | grace =>
        refine ⟨.graceOver batch, rfl, ?_⟩
        simp only [nextRun, if_true]
        exact BatchRun.graceOver_changes hphase
      | recording lagging =>
        refine ⟨.record batch, rfl, ?_⟩
        simp only [nextRun, if_true]
        exact hconsistent.record_changes hphase
      | returned result => exact absurd hphase (hwaiting result)
    refine ⟨event, _, hown, step_runs hr event, ?_⟩
    exact (nextRun_follows hconsistent s.shared batch event).work.resolve_left hchanged

/-- A new batch has its caller's calls and context, and is cancelled only if its parent is. -/
theorem step_runBatch (options : ToolSchedulerOptions) (s : ToolScheduler) (context : Nat)
    (calls : List ToolBatchCall) (cancelled : Bool) :
    ∃ r, (s.step options (.runBatch context calls cancelled)).runs[s.runs.length]? = some r ∧
      r.request = calls ∧ r.context = context ∧
        (cancelled = false → r.batch.parentCancelled = false) := by
  refine ⟨_, List.getElem?_concat_length, ?_⟩
  unfold BatchRun.begin
  dsimp only
  split
  · exact ⟨rfl, rfl, fun _ => rfl⟩
  split
  · exact ⟨rfl, rfl, fun _ => rfl⟩
  split
  · next hcancelled => exact ⟨rfl, rfl,
      fun h => absurd (h.symm.trans hcancelled) Bool.false_ne_true⟩
  · have hstarted := BatchRun.startCalls s.shared calls context
      (min calls.length options.maxParallelTools)
    dsimp only at hstarted
    rw [hstarted]
    exact ⟨rfl, rfl, fun _ => rfl⟩

/-- Every batch keeps its contract in every run of the scheduler, whatever other batches and
joins do; the counts are those of the calls in flight, and joins follow them. -/
theorem run_batch_contract {options : ToolSchedulerOptions}
    (hparallel : 0 < options.maxParallelTools) (htimeout : 0 < options.perCallTimeout)
    (events : List SchedulerEvent) :
    (∀ context calls cancelled, ∃ r,
      (run options (events ++ [SchedulerEvent.runBatch context calls cancelled])).runs[(run options
        events).runs.length]? = some r ∧
        r.request = calls ∧ r.context = context ∧
          (cancelled = false → r.batch.parentCancelled = false)) ∧
    (∀ batch r, (run options events).runs[batch]? = some r →
      r.Contract options ∧ (run options events).Advances options batch r) ∧
    (∀ context, (run options events).shared.active context =
      (run options events).inFlight context) ∧
    (run options events).Joins options := by
  have hsteady := run_steady hparallel htimeout events
  refine ⟨fun context calls cancelled => ?_,
    fun batch r hr => ⟨?_, hsteady.advances hparallel htimeout hr⟩, hsteady.active,
    hsteady.joins hparallel htimeout⟩
  · obtain ⟨r, hr, hfields⟩ := step_runBatch options (run options events) context calls cancelled
    refine ⟨r, ?_, hfields⟩
    unfold run
    rw [List.foldl_append]
    exact hr
  · exact (hsteady.runs r (List.mem_of_getElem? hr)).contract hparallel

/-- A batch is cancelled after its first call has ended, and returns while the second lags;
a join of its context is woken by the end of that call and no sooner. -/
def laggingEvents : List SchedulerEvent :=
  [.runBatch 7 [⟨[], [], []⟩, ⟨[], [], []⟩, ⟨[], [], []⟩] false, .waitIdle (some 7),
    .finish 0 0 .failed, .resume 0, .receive 0 false, .cancel 0, .graceOver 0, .record 0]

theorem run_batch_contract_lagging :
    (run { maxParallelTools := 1 } laggingEvents).inFlight 7 = 1 ∧
      (run { maxParallelTools := 1 } laggingEvents).shared.active 7 = 1 ∧
      (run { maxParallelTools := 1 } laggingEvents).Joins { maxParallelTools := 1 } := by
  have hcontract := @run_batch_contract { maxParallelTools := 1 } (by decide)
    (by decide) laggingEvents
  exact ⟨by decide, (hcontract.2.2.1 7).trans (by decide), hcontract.2.2.2⟩

end ToolScheduler

end Orangutan.Agent
