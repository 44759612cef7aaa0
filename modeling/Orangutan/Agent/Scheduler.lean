import Orangutan.Core.Json

/-!
# Batches of tool calls

`run_batch` starts up to `max_parallel_tools` calls and starts another one for every
completion it receives. A call stores its output in its own slot before it reports,
so the results come back in the order of the calls, whatever order they end in.
-/

namespace Orangutan.Agent

set_option autoImplicit false

open Orangutan.Core Orangutan.Core.Str

structure ToolOutput where
  text : Bytes
  dataJson : Option Bytes := none
  isError : Bool := false
  truncated : Bool := false
  dataDropped : Bool := false

structure ToolBatchCall where
  toolUseId : Bytes
  name : Bytes
  inputJson : Bytes

structure ToolBatchResult where
  toolUseId : Bytes
  name : Bytes
  output : Result ToolOutput

structure ToolSchedulerOptions where
  maxParallelTools : Nat := 4
  /-- Milliseconds. -/
  perCallTimeout : Int := 60000

def parentCancelledError : Error := Error.cancelled.note "reason" (text "parent_cancelled")

def timeoutError (toolName : Bytes) (perCallTimeout : Int) : Error :=
  ((Error.cancelled.note "reason" (text "timeout")).note "tool" toolName).note "per_call_timeout_ms"
    (decimal perCallTimeout.toNat)

/-- How a started call ends: `dispatch` returns or throws, the timer wins the race or is
cancelled, or the coroutine itself fails. -/
inductive CallEnd
  | dispatched (output : Result ToolOutput)
  | threw (cancelled : Bool)
  | timeout
  | timerCancelled
  | failed

/-- `run_call` with the handler of `start_call`. -/
def callOutput (options : ToolSchedulerOptions) (name : Bytes) : CallEnd → Result ToolOutput
  | .dispatched output => output
  | .threw true => .error parentCancelledError
  | .threw false => .error (.internal "tool dispatch failed unexpectedly")
  | .timeout => .error (timeoutError name options.perCallTimeout)
  | .timerCancelled => .error parentCancelledError
  | .failed => .error (.internal "tool dispatch failed unexpectedly")

/-- `completion` holds the reported indices not yet received, `reported` those that were. -/
structure Batch where
  calls : List ToolBatchCall
  results : List (Option (Result ToolOutput))
  running : List Nat := []
  completion : List Nat := []
  reported : List Nat := []
  admitted : Nat := 0
  completed : Nat := 0
  parentCancelled : Bool := false

/-- A call ends, the batch receives a completion (and may then find its parent
cancelled), or the receive itself is cancelled. -/
inductive BatchEvent
  | finish (index : Nat) (ending : CallEnd)
  | receive (cancelled : Bool)
  | cancel

namespace Batch

def startCall (b : Batch) : Batch :=
  { b with running := b.running ++ [b.admitted], admitted := b.admitted + 1 }

def finish (options : ToolSchedulerOptions) (index : Nat) (ending : CallEnd) (b : Batch) : Batch :=
  match b.calls[index]? with
  | none => b
  | some call =>
    if b.running.contains index then
      { b with
        results := b.results.set index (some (callOutput options call.name ending))
        running := b.running.erase index
        completion := b.completion ++ [index] }
    else b

/-- One round of the cancel-sensitive drain. -/
def receive (cancelled : Bool) (b : Batch) : Batch :=
  match b.completion with
  | [] => b
  | index :: rest =>
    let b := { b with
      completion := rest
      reported := b.reported ++ [index]
      completed := b.completed + 1 }
    if cancelled then { b with parentCancelled := true }
    else if b.admitted < b.calls.length then b.startCall
    else b

def step (options : ToolSchedulerOptions) (b : Batch) : BatchEvent → Batch
  | .finish index ending => b.finish options index ending
  | .receive cancelled => b.receive cancelled
  | .cancel => { b with parentCancelled := true }

/-- The rows in the order of the calls. A slot that no call has filled gives none; the
source would read an empty optional there. -/
def ordered (b : Batch) : List ToolBatchResult :=
  (b.calls.zip b.results).filterMap fun (call, slot) =>
    slot.map fun output => ⟨call.toolUseId, call.name, output⟩

/-- What `run_batch` returns, once its drain has ended. -/
def outcome (b : Batch) : Option (Result (List ToolBatchResult)) :=
  if b.parentCancelled then some (.error parentCancelledError)
  else if b.completed < b.calls.length then none
  else some (.ok b.ordered)

/-- The calls started before the first wait. -/
def start (options : ToolSchedulerOptions) (calls : List ToolBatchCall) : Batch :=
  (List.range (min calls.length options.maxParallelTools)).foldl (fun b _ => b.startCall)
    { calls, results := List.replicate calls.length none }

/-- The drain under the given events; when these end, the parent is cancelled. -/
def drive (options : ToolSchedulerOptions) : List BatchEvent → Batch → Result (List ToolBatchResult)
  | [], b => b.outcome.getD (.error parentCancelledError)
  | event :: rest, b =>
    match b.outcome with
    | some result => result
    | none => drive options rest (b.step options event)

end Batch

/-- `run_batch_shared`. The scheduler has an executor. -/
def runBatch (options : ToolSchedulerOptions) (calls : List ToolBatchCall) (cancelled : Bool)
    (events : List BatchEvent) : Result (List ToolBatchResult) :=
  if options.maxParallelTools == 0 || options.perCallTimeout ≤ 0 then
    .error (.invalidArgument "scheduler requires an executor and positive bounds")
  else if calls.isEmpty then .ok []
  else if cancelled then .error parentCancelledError
  else Batch.drive options events (Batch.start options calls)

namespace Batch

/-- Every admitted call is running, waiting to be received or reported, and the last two
have filled their slots. -/
structure Sound (b : Batch) : Prop where
  slots : b.results.length = b.calls.length
  admitted : b.admitted ≤ b.calls.length
  indices : (b.running ++ (b.completion ++ b.reported)).Perm (List.range b.admitted)
  completed : b.completed = b.reported.length
  filled : ∀ i ∈ b.completion ++ b.reported, ∃ output, b.results[i]? = some (some output)

variable {options : ToolSchedulerOptions} {b : Batch}

theorem Sound.startCall (h : b.Sound) (hlt : b.admitted < b.calls.length) : b.startCall.Sound := by
  refine ⟨h.slots, hlt, ?_, h.completed, h.filled⟩
  show ((b.running ++ [b.admitted]) ++ (b.completion ++ b.reported)).Perm
    (List.range (b.admitted + 1))
  rw [List.range_succ, List.append_assoc]
  have hlast : (b.running ++ ([b.admitted] ++ (b.completion ++ b.reported))).Perm
      (b.running ++ ((b.completion ++ b.reported) ++ [b.admitted])) :=
    List.Perm.append_left _ List.perm_append_comm
  rw [← List.append_assoc b.running (b.completion ++ b.reported)] at hlast
  exact hlast.trans (h.indices.append_right _)

theorem start_sound (options : ToolSchedulerOptions) (calls : List ToolBatchCall) :
    (start options calls).Sound ∧ (start options calls).calls = calls := by
  -- the fold has started as many calls as it has run over
  have hstarted : ∀ n ≤ calls.length,
      let b := (List.range n).foldl (fun (b : Batch) _ => b.startCall)
        { calls, results := List.replicate calls.length none }
      b.Sound ∧ b.calls = calls ∧ b.admitted = n := by
    intro n hn
    induction n with
    | zero => exact ⟨⟨by simp, Nat.zero_le _, List.Perm.refl _, rfl, fun i hi => by simp at hi⟩,
        rfl, rfl⟩
    | succ n ih =>
      obtain ⟨hsound, hcalls, hadmitted⟩ := ih (by omega)
      rw [List.range_succ, List.foldl_append]
      refine ⟨hsound.startCall ?_, hcalls, congrArg (· + 1) hadmitted⟩
      rw [hadmitted, hcalls]
      omega
  obtain ⟨hsound, hcalls, -⟩ :=
    hstarted (min calls.length options.maxParallelTools) (Nat.min_le_left _ _)
  exact ⟨hsound, hcalls⟩

theorem Sound.finish (h : b.Sound) (index : Nat) (ending : CallEnd) :
    (b.finish options index ending).Sound := by
  unfold Batch.finish
  split
  · exact h
  next call hcall =>
  split
  · next hrunning =>
    have hmem : index ∈ b.running := by simpa using hrunning
    have hlt : index < b.results.length := by
      rw [h.slots]
      exact (List.getElem?_eq_some_iff.mp hcall).1
    refine ⟨by simpa using h.slots, h.admitted, ?_, h.completed, ?_⟩
    · show (b.running.erase index ++ ((b.completion ++ [index]) ++ b.reported)).Perm _
      have hfront : (b.running.erase index ++ ((b.completion ++ [index]) ++ b.reported)).Perm
          (index :: (b.running.erase index ++ (b.completion ++ b.reported))) := by
        rw [List.append_assoc b.completion, List.singleton_append]
        exact (List.Perm.append_left _ List.perm_middle).trans List.perm_middle
      have hback := (List.perm_cons_erase hmem).symm.append_right (b.completion ++ b.reported)
      exact hfront.trans (hback.trans h.indices)
    · intro i hi
      by_cases hq : i = index
      · subst hq
        exact ⟨_, List.getElem?_set_self hlt⟩
      · have hold : i ∈ b.completion ++ b.reported := by
          simp only [List.mem_append, List.mem_singleton] at hi ⊢
          tauto
        obtain ⟨output, hout⟩ := h.filled i hold
        exact ⟨output, by rw [List.getElem?_set_ne (Ne.symm hq)]; exact hout⟩
  · exact h

theorem Sound.receive (h : b.Sound) (cancelled : Bool) : (b.receive cancelled).Sound := by
  unfold Batch.receive
  split
  · exact h
  next index rest hcompletion =>
  have hmoved : ({ b with
      completion := rest
      reported := b.reported ++ [index]
      completed := b.completed + 1 } : Batch).Sound := by
    have hindices := h.indices
    have hfilled := h.filled
    rw [hcompletion] at hindices hfilled
    refine ⟨h.slots, h.admitted, ?_, by simp [h.completed], ?_⟩
    · refine List.Perm.trans (List.Perm.append_left _ ?_) hindices
      rw [← List.append_assoc, List.cons_append]
      exact List.perm_append_comm
    · intro i hi
      apply hfilled
      simp only [List.mem_append, List.mem_cons] at hi ⊢
      tauto
  dsimp only
  split
  · exact ⟨hmoved.slots, hmoved.admitted, hmoved.indices, hmoved.completed, hmoved.filled⟩
  split
  · next hlt => exact hmoved.startCall hlt
  · exact hmoved

theorem Sound.step (h : b.Sound) (event : BatchEvent) : (b.step options event).Sound := by
  cases event with
  | finish index ending => exact h.finish index ending
  | receive cancelled => exact h.receive cancelled
  | cancel => exact ⟨h.slots, h.admitted, h.indices, h.completed, h.filled⟩

theorem step_calls (event : BatchEvent) : (b.step options event).calls = b.calls := by
  cases event with
  | finish index ending =>
    simp only [step, Batch.finish]
    split
    · rfl
    · split <;> rfl
  | receive cancelled =>
    simp only [step, Batch.receive]
    split
    · rfl
    · split
      · rfl
      · split <;> rfl
  | cancel => rfl

/-- When all calls are completed, every slot is filled. -/
theorem Sound.all_filled (h : b.Sound) (hdone : b.calls.length ≤ b.completed) {i : Nat}
    (hi : i < b.calls.length) : ∃ output, b.results[i]? = some (some output) := by
  have hlength := h.indices.length_eq
  have hadmitted := h.admitted
  have hcompleted := h.completed
  simp only [List.length_append, List.length_range] at hlength
  have hrunning : b.running = [] := List.length_eq_zero_iff.mp (by omega)
  have hindices := h.indices
  rw [hrunning, List.nil_append] at hindices
  exact h.filled i (hindices.mem_iff.mpr (List.mem_range.mpr (by omega)))

theorem zip_filled {calls : List ToolBatchCall} {results : List (Option (Result ToolOutput))}
    (hlength : results.length = calls.length)
    (h : ∀ i < calls.length, ∃ output, results[i]? = some (some output)) :
    ((calls.zip results).filterMap fun (call, slot) =>
      slot.map fun output => (⟨call.toolUseId, call.name, output⟩ : ToolBatchResult)).map
        (fun row => (row.toolUseId, row.name)) = calls.map fun call =>
          (call.toolUseId, call.name) := by
  induction calls generalizing results with
  | nil => rfl
  | cons call calls ih =>
    cases results with
    | nil => cases hlength
    | cons slot results =>
      obtain ⟨output, hout⟩ := h 0 (Nat.zero_lt_succ _)
      obtain rfl : slot = some output := by simpa using hout
      have hslots : results.length = calls.length := by simpa using hlength
      have hrest := ih hslots fun i hi => by
        simpa using h (i + 1) (by simpa using hi)
      simpa using hrest

theorem drive_ok {events : List BatchEvent} (h : b.Sound) {rows : List ToolBatchResult}
    (hrun : drive options events b = .ok rows) :
    rows.map (fun row => (row.toolUseId, row.name)) =
      b.calls.map fun call => (call.toolUseId, call.name) := by
  -- a batch that has returned rows has completed all its calls
  have hdone : ∀ {b : Batch}, b.Sound → b.outcome = some (.ok rows) →
      rows.map (fun row => (row.toolUseId, row.name)) =
        b.calls.map fun call => (call.toolUseId, call.name) := by
    intro b h hout
    unfold outcome at hout
    split at hout
    · cases hout
    split at hout
    · cases hout
    · next hcount =>
      cases hout
      exact zip_filled h.slots fun i hi => h.all_filled (by omega) hi
  induction events generalizing b with
  | nil =>
    rw [drive] at hrun
    cases hout : b.outcome with
    | none =>
      rw [hout] at hrun
      cases hrun
    | some result =>
      rw [hout] at hrun
      exact hdone h (hout.trans (congrArg some hrun))
  | cons event rest ih =>
    rw [drive] at hrun
    split at hrun
    · next hout => exact hdone h (hout.trans (congrArg some hrun))
    · rw [← step_calls event]
      exact ih (h.step event) hrun

end Batch

/-- A batch that is not cancelled answers each call once, in the order of the calls. -/
theorem runBatch_ok {options : ToolSchedulerOptions} {calls : List ToolBatchCall} {cancelled : Bool}
    {events : List BatchEvent} {rows : List ToolBatchResult}
    (h : runBatch options calls cancelled events = .ok rows) :
    rows.map (fun row => (row.toolUseId, row.name)) =
      calls.map fun call => (call.toolUseId, call.name) := by
  unfold runBatch at h
  split at h
  · cases h
  split at h
  · next hempty =>
    cases h
    rw [List.isEmpty_iff.mp hempty]
    rfl
  split at h
  · cases h
  · obtain ⟨hsound, hcalls⟩ := Batch.start_sound options calls
    rw [Batch.drive_ok hsound h, hcalls]

end Orangutan.Agent
