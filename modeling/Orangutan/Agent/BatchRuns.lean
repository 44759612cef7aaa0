import Orangutan.Agent.Scheduler
import Orangutan.Lib.Table

/-!
# Batches under one scheduler

`run_batch_shared` and the completion handler of `start_call`, for one batch among
others: which calls it has started, what it does at each wait, and what it takes from
and gives back to the counts that its scheduler keeps for each dispatch context. A
completion may come at any time, also after a cancelled batch has returned.
-/

namespace Orangutan.Agent

set_option autoImplicit false

open Orangutan.Core Orangutan.Core.Str

/-- A dispatch context is known by its address, a waiter by its place among the joins. -/
structure SharedState where
  activeContexts : Lib.Table Nat Nat := ∅
  idleWaiters : List Nat := []

namespace SharedState

def active (shared : SharedState) (context : Nat) : Nat :=
  (shared.activeContexts.lookup context).getD 0

def enter (context : Nat) (shared : SharedState) : SharedState :=
  { shared with activeContexts := shared.activeContexts.insert context (shared.active context + 1) }

def leave (context : Nat) (shared : SharedState) : SharedState :=
  let left := shared.active context - 1
  { shared with
    activeContexts :=
      if left = 0 then shared.activeContexts.erase context
      else shared.activeContexts.insert context left }

/-- The loop condition of `wait_idle`; no selector joins every context. -/
def busy (shared : SharedState) : Option Nat → Bool
  | some context => (shared.activeContexts.lookup context).isSome
  | none => !shared.activeContexts.entries.isEmpty

/-- No stored count is zero. -/
def Positive (shared : SharedState) : Prop :=
  ∀ context count, shared.activeContexts.lookup context = some count → 0 < count

variable {shared : SharedState} {context : Nat}

theorem active_enter (c : Nat) :
    (shared.enter context).active c = shared.active c + if context = c then 1 else 0 := by
  unfold active enter
  by_cases hc : context = c
  · subst hc
    simp [active]
  · rw [AList.lookup_insert_ne (Ne.symm hc), if_neg hc]
    rfl

theorem active_leave (c : Nat) :
    (shared.leave context).active c = shared.active c - if context = c then 1 else 0 := by
  have hleft : (shared.leave context).active context = shared.active context - 1 := by
    unfold leave
    dsimp only
    by_cases hzero : shared.active context - 1 = 0
    · rw [if_pos hzero, hzero]
      simp [active]
    · rw [if_neg hzero]
      simp [active]
  by_cases hc : context = c
  · subst hc
    rw [hleft, if_pos rfl]
  · rw [if_neg hc]
    unfold leave active
    dsimp only
    split
    · rw [AList.lookup_erase_ne (Ne.symm hc)]
      rfl
    · rw [AList.lookup_insert_ne (Ne.symm hc)]
      rfl

theorem Positive.enter (h : shared.Positive) : (shared.enter context).Positive := by
  intro c count hcount
  by_cases hc : c = context
  · subst hc
    rw [SharedState.enter, AList.lookup_insert] at hcount
    cases hcount
    exact Nat.succ_pos _
  · rw [SharedState.enter, AList.lookup_insert_ne hc] at hcount
    exact h c count hcount

theorem Positive.leave (h : shared.Positive) : (shared.leave context).Positive := by
  intro c count hcount
  unfold SharedState.leave at hcount
  dsimp only at hcount
  by_cases hc : c = context
  · subst hc
    split at hcount
    · rw [AList.lookup_erase] at hcount
      cases hcount
    · next hleft =>
      rw [AList.lookup_insert] at hcount
      cases hcount
      omega
  · split at hcount
    · rw [AList.lookup_erase_ne hc] at hcount
      exact h c count hcount
    · rw [AList.lookup_insert_ne hc] at hcount
      exact h c count hcount

/-- A context is in the table just when its count is positive. -/
theorem Positive.busy_some (h : shared.Positive) : shared.busy (some context) = true ↔
    0 < shared.active context := by
  unfold busy active
  cases hlookup : shared.activeContexts.lookup context with
  | none => simp [hlookup]
  | some count => simpa [hlookup] using h context count hlookup

theorem Positive.busy_none (h : shared.Positive) : shared.busy none = true ↔
    ∃ c, 0 < shared.active c := by
  constructor
  · intro hbusy
    obtain ⟨entry, hentry⟩ :=
      List.exists_mem_of_ne_nil shared.activeContexts.entries (by simpa [busy] using hbusy)
    have hlookup : shared.activeContexts.lookup entry.1 = some entry.2 :=
      Lib.Table.lookup_iff.mpr hentry
    exact ⟨entry.1, by simpa [active, hlookup] using h _ _ hlookup⟩
  · rintro ⟨c, hc⟩
    cases hlookup : shared.activeContexts.lookup c with
    | none => simp [active, hlookup] at hc
    | some count =>
      have hmem := Lib.Table.lookup_iff.mp hlookup
      simpa [busy] using List.ne_nil_of_mem hmem

end SharedState

/-- The waits of `run_batch_shared`. -/
inductive BatchPhase
  | draining
  | grace
  | recording (lagging : List Nat)
  | returned (result : Result (List ToolBatchResult))

/-- `started` and `finished` are histories of the batch's calls; `lags` holds the tools of
the `cancellation_lag` audit rows. -/
structure BatchRun where
  request : List ToolBatchCall
  context : Nat
  batch : Batch
  phase : BatchPhase := .draining
  started : List Nat := []
  finished : List (Nat × CallEnd) := []
  lags : List Bytes := []

namespace Batch

def receipt (index : Nat) (rest : List Nat) (b : Batch) : Batch :=
  { b with completion := rest, reported := b.reported ++ [index], completed := b.completed + 1 }

/-- Queued calls are emptied and count as reported. -/
def dropQueued (b : Batch) : Batch :=
  let queued := b.calls.length - b.admitted
  { b with
    calls := b.calls.take b.admitted ++ List.replicate queued ⟨[], [], []⟩
    reported := b.reported ++ List.range' b.admitted queued
    completed := b.completed + queued
    parentCancelled := true }

theorem exists_outputs {results : List (Option (Result ToolOutput))}
    (h : ∀ i < results.length, ∃ output, results[i]? = some (some output)) :
    ∃ outputs : List (Result ToolOutput), results = outputs.map some := by
  induction results with
  | nil => exact ⟨[], rfl⟩
  | cons slot results ih =>
    obtain ⟨output, hout⟩ := h 0 (Nat.zero_lt_succ _)
    obtain rfl : slot = some output := by simpa using hout
    obtain ⟨outputs, rfl⟩ := ih fun i hi => by simpa using h (i + 1) (by simpa using hi)
    exact ⟨output :: outputs, rfl⟩

theorem ordered_outputs (calls : List ToolBatchCall) (outputs : List (Result ToolOutput)) :
    ((calls.zip (outputs.map some)).filterMap fun (call, slot) =>
      slot.map fun output => (⟨call.toolUseId, call.name, output⟩ : ToolBatchResult)) =
        List.zipWith (fun call output => ⟨call.toolUseId, call.name, output⟩) calls outputs := by
  induction calls generalizing outputs with
  | nil => rfl
  | cons call calls ih =>
    cases outputs with
    | nil => rfl
    | cons output outputs => simpa using ih outputs

end Batch

namespace BatchRun

def startCall (shared : SharedState) (r : BatchRun) : SharedState × BatchRun :=
  (shared.enter r.context,
    { r with batch := r.batch.startCall, started := r.started ++ [r.batch.admitted] })

/-- Up to the first wait. -/
def begin (options : ToolSchedulerOptions) (shared : SharedState) (context : Nat)
    (request : List ToolBatchCall) (cancelled : Bool) : SharedState × BatchRun :=
  let r : BatchRun :=
    { request, context, batch :=
      { calls := request, results := List.replicate request.length none } }
  if options.maxParallelTools == 0 || options.perCallTimeout ≤ 0 then
    (shared, { r with
      phase :=
        .returned (.error (.invalidArgument "scheduler requires an executor and positive bounds"))
        })
  else if request.isEmpty then (shared, { r with phase := .returned (.ok []) })
  else if cancelled then
    (shared, { r with
      batch := { r.batch with parentCancelled := true }
      phase := .returned (.error parentCancelledError) })
  else
    (List.range (min request.length options.maxParallelTools)).foldl
      (fun (shared, r) _ => r.startCall shared) (shared, r)

/-- The completion handler of `start_call`, for a call in flight. -/
def finish (options : ToolSchedulerOptions) (index : Nat) (ending : CallEnd) (shared : SharedState)
    (r : BatchRun) : SharedState × BatchRun :=
  (shared.leave r.context,
    { r with
      batch := r.batch.finish options index ending, finished := r.finished ++ [(index, ending)] })

def laggards (r : BatchRun) : List Nat :=
  (List.range r.batch.calls.length).filter fun i => !r.batch.reported.contains i

/-- After the grace window: laggards are recorded first, if there are any. -/
def concludeCancelled (r : BatchRun) : BatchRun :=
  match r.laggards with
  | [] => { r with phase := .returned (.error parentCancelledError) }
  | lagging => { r with phase := .recording lagging }

def observeCancellation (r : BatchRun) : BatchRun :=
  let r := { r with batch := r.batch.dropQueued }
  if r.batch.completed < r.batch.calls.length then { r with phase := .grace }
  else r.concludeCancelled

/-- The loop condition of the drain. -/
def continueDrain (r : BatchRun) : BatchRun :=
  if r.batch.completed < r.batch.calls.length then r
  else { r with phase := .returned (.ok r.batch.ordered) }

/-- A `receive` of the drain or of `drain_remaining` gets an index, and the drain may then
find its parent cancelled. -/
def receive (cancelled : Bool) (shared : SharedState) (r : BatchRun) : SharedState × BatchRun :=
  match r.phase, r.batch.completion with
  | .draining, index :: rest =>
    let r := { r with batch := r.batch.receipt index rest }
    if cancelled then (shared, r.observeCancellation)
    else if r.batch.admitted < r.batch.calls.length then
      ((r.startCall shared).1, (r.startCall shared).2.continueDrain)
    else (shared, r.continueDrain)
  | .grace, index :: rest =>
    let r := { r with batch := r.batch.receipt index rest }
    (shared, if r.batch.completed < r.batch.calls.length then r else r.concludeCancelled)
  | _, _ => (shared, r)

/-- The parent cancels the `receive` of the drain. -/
def cancel (r : BatchRun) : BatchRun :=
  match r.phase with
  | .draining => r.observeCancellation
  | _ => r

def graceOver (r : BatchRun) : BatchRun :=
  match r.phase with
  | .grace => r.concludeCancelled
  | _ => r

/-- One audit row of the last loop, whatever the audit service answers. -/
def record (r : BatchRun) : BatchRun :=
  match r.phase with
  | .recording (index :: rest) =>
    { r with
      lags := r.lags ++ (r.batch.calls[index]?.map (·.name)).toList
      phase := if rest.isEmpty then .returned (.error parentCancelledError) else .recording rest }
  | _ => r

/-- The calls started and not finished. -/
def inFlight (r : BatchRun) : List Nat :=
  r.started.filter fun i => !(r.finished.map Prod.fst).contains i

/-- One row for each call, in order, with the identity of the call and what it ended in. -/
def Answered (options : ToolSchedulerOptions) (r : BatchRun) (rows : List ToolBatchResult) : Prop :=
  rows.length = r.request.length ∧
    ∀ i call, r.request[i]? = some call →
      ∃ ending, (i, ending) ∈ r.finished ∧
        rows[i]? = some ⟨call.toolUseId, call.name, callOutput options call.name ending⟩

/-- The head of the drain loop, before its condition. -/
structure Draining (options : ToolSchedulerOptions) (r : BatchRun) : Prop where
  uncancelled : r.batch.parentCancelled = false
  calls : r.batch.calls = r.request
  reported : (r.batch.completion ++ r.batch.reported).Perm (r.finished.map Prod.fst)
  completed : r.batch.completed = r.batch.reported.length
  admitted : r.batch.admitted = min r.request.length (r.batch.completed + options.maxParallelTools)

def Stage (options : ToolSchedulerOptions) (r : BatchRun) : Prop :=
  match r.phase with
  | .draining => r.Draining options ∧ r.batch.completed < r.request.length
  | .grace => r.batch.parentCancelled = true
  | .recording lagging => r.batch.parentCancelled = true ∧ lagging ≠ []
  | .returned result =>
    (r.batch.parentCancelled = true ∧ result = .error parentCancelledError) ∨
      (r.batch.parentCancelled = false ∧ ∃ rows, result = .ok rows ∧ r.Answered options rows)

/-- What holds of the calls, whatever the batch is waiting for. -/
structure Calls (options : ToolSchedulerOptions) (r : BatchRun) : Prop where
  slots : r.batch.results.length = r.request.length
  length : r.batch.calls.length = r.request.length
  kept : ∀ i < r.batch.admitted, r.batch.calls[i]? = r.request[i]?
  admitted : r.batch.admitted ≤ r.request.length
  started : r.started = List.range r.batch.admitted
  indices : (r.batch.running ++ r.finished.map Prod.fst).Perm (List.range r.batch.admitted)
  outputs : ∀ entry ∈ r.finished, ∃ call, r.request[entry.1]? = some call ∧
    r.batch.results[entry.1]? = some (some (callOutput options call.name entry.2))
  unread : r.batch.completion.length ≤ r.finished.length
  width : r.batch.running.length ≤ options.maxParallelTools

variable {options : ToolSchedulerOptions} {r : BatchRun} {shared : SharedState}

theorem Calls.at_phase (h : r.Calls options) (phase : BatchPhase) (lags : List Bytes) :
    ({ r with phase, lags } : BatchRun).Calls options :=
  ⟨h.slots, h.length, h.kept, h.admitted, h.started, h.indices, h.outputs, h.unread, h.width⟩

theorem Calls.startCall (h : r.Calls options) (hqueued : r.batch.admitted < r.request.length)
    (hslot : r.batch.running.length < options.maxParallelTools)
    (hcalls : r.batch.calls = r.request) : (r.startCall shared).2.Calls options := by
  have hindices : ((r.batch.running ++ [r.batch.admitted]) ++ r.finished.map Prod.fst).Perm
      (List.range (r.batch.admitted + 1)) := by
    rw [List.range_succ, List.append_assoc]
    have hlast : (r.batch.running ++ ([r.batch.admitted] ++ r.finished.map Prod.fst)).Perm
        ((r.batch.running ++ r.finished.map Prod.fst) ++ [r.batch.admitted]) := by
      rw [List.append_assoc]
      exact List.Perm.append_left _ List.perm_append_comm
    exact hlast.trans (h.indices.append_right _)
  constructor
  · exact h.slots
  · exact h.length
  · intro i _
    exact congrArg (fun calls : List ToolBatchCall => calls[i]?) hcalls
  · exact hqueued
  · show r.started ++ [r.batch.admitted] = List.range (r.batch.admitted + 1)
    rw [h.started, List.range_succ]
  · exact hindices
  · exact h.outputs
  · exact h.unread
  · show (r.batch.running ++ [r.batch.admitted]).length ≤ options.maxParallelTools
    rw [List.length_append]
    exact hslot

theorem Calls.receipt (h : r.Calls options) {index : Nat} {rest : List Nat}
    (hcompletion : r.batch.completion = index :: rest) :
    ({ r with batch := r.batch.receipt index rest } : BatchRun).Calls options := by
  have hunread := h.unread
  rw [hcompletion, List.length_cons] at hunread
  exact ⟨h.slots, h.length, h.kept, h.admitted, h.started, h.indices, h.outputs, by
    show rest.length ≤ r.finished.length
    omega, h.width⟩

theorem Calls.dropQueued (h : r.Calls options) :
    ({ r with batch := r.batch.dropQueued } : BatchRun).Calls options := by
  have hadmitted := h.admitted
  have hlength := h.length
  refine ⟨h.slots, ?_, ?_, h.admitted, h.started, h.indices, h.outputs, h.unread, h.width⟩
  · simp only [Batch.dropQueued, List.length_append, List.length_take, List.length_replicate]
    omega
  · intro i hi
    have hi : i < r.batch.admitted := hi
    simp only [Batch.dropQueued]
    rw [List.getElem?_append_left (by rw [List.length_take]; omega), List.getElem?_take_of_lt hi]
    exact h.kept i hi

theorem Calls.running_lt (h : r.Calls options) {index : Nat} (hrunning : index ∈ r.batch.running) :
    index < r.batch.admitted :=
  List.mem_range.mp (h.indices.mem_iff.mp (List.mem_append_left _ hrunning))

theorem Calls.indices_nodup (h : r.Calls options) :
    (r.batch.running ++ r.finished.map Prod.fst).Nodup :=
  h.indices.nodup_iff.mpr List.nodup_range

theorem Calls.counted (h : r.Calls options) :
    r.batch.running.length + r.finished.length = r.batch.admitted := by
  simpa using h.indices.length_eq

/-- A completion always finds room in the channel, which has a place for each call. -/
theorem Calls.completion_room (h : r.Calls options) {index : Nat}
    (hrunning : index ∈ r.batch.running) :
    r.batch.completion.length < r.request.length := by
  have hpositive := List.length_pos_of_mem hrunning
  have hcounted := h.counted
  have hunread := h.unread
  have hadmitted := h.admitted
  omega

theorem Calls.batch_finish (h : r.Calls options) {index : Nat} (hrunning : index ∈ r.batch.running)
    (ending : CallEnd) : ∃ call, r.request[index]? = some call ∧
      r.batch.finish options index ending =
        { r.batch with
          results := r.batch.results.set index (some (callOutput options call.name ending))
          running := r.batch.running.erase index
          completion := r.batch.completion ++ [index] } := by
  have hlt := h.running_lt hrunning
  have hadmitted := h.admitted
  have hcall : r.request[index]? = some (r.request.get ⟨index, by omega⟩) :=
    List.getElem?_eq_getElem _
  refine ⟨_, hcall, ?_⟩
  unfold Batch.finish
  rw [h.kept index hlt, hcall]
  exact if_pos (by simpa using hrunning)

theorem Calls.finish (h : r.Calls options) {index : Nat} (hrunning : index ∈ r.batch.running)
    (ending : CallEnd) : (r.finish options index ending shared).2.Calls options := by
  have hlt := h.running_lt hrunning
  have hadmitted := h.admitted
  obtain ⟨call, hcall, hbatch⟩ := h.batch_finish hrunning ending
  have hfresh : ∀ entry ∈ r.finished, entry.1 ≠ index := by
    intro entry hentry heq
    exact List.disjoint_of_nodup_append h.indices_nodup hrunning
      (heq ▸ List.mem_map_of_mem hentry)
  unfold BatchRun.finish
  rw [hbatch]
  constructor
  · show (r.batch.results.set index _).length = r.request.length
    rw [List.length_set]
    exact h.slots
  · exact h.length
  · exact h.kept
  · exact h.admitted
  · exact h.started
  · show (r.batch.running.erase index ++ (r.finished ++ [(index, ending)]).map Prod.fst).Perm _
    rw [List.map_append, ← List.append_assoc]
    have hback : (r.batch.running.erase index ++ r.finished.map Prod.fst ++ [index]).Perm
        (index :: (r.batch.running.erase index ++ r.finished.map Prod.fst)) :=
          List.perm_append_singleton _ _
    have hfront := (List.perm_cons_erase hrunning).symm.append_right (r.finished.map Prod.fst)
    exact hback.trans (hfront.trans h.indices)
  · intro entry hentry
    rcases List.mem_append.mp hentry with hold | hnew
    · obtain ⟨call', hrequest, hresult⟩ := h.outputs entry hold
      refine ⟨call', hrequest, ?_⟩
      show (r.batch.results.set index _)[entry.1]? = _
      rw [List.getElem?_set_ne (Ne.symm (hfresh entry hold))]
      exact hresult
    · obtain rfl := List.mem_singleton.mp hnew
      refine ⟨call, hcall, ?_⟩
      show (r.batch.results.set index _)[index]? = _
      rw [List.getElem?_set_self (by rw [h.slots]; omega)]
  · show (r.batch.completion ++ [index]).length ≤ (r.finished ++ [(index, ending)]).length
    have hunread := h.unread
    simp only [List.length_append, List.length_singleton]
    omega
  · show (r.batch.running.erase index).length ≤ options.maxParallelTools
    have hwidth := h.width
    rw [List.length_erase_of_mem hrunning]
    omega

/-- The calls in flight are the running ones. -/
theorem Calls.inFlight_perm (h : r.Calls options) : r.inFlight.Perm r.batch.running := by
  have hsplit := h.indices.symm.filter fun i => !(r.finished.map Prod.fst).contains i
  have hdisjoint := List.disjoint_of_nodup_append h.indices_nodup
  have hrunning : r.batch.running.filter (fun i => !(r.finished.map Prod.fst).contains i) =
      r.batch.running := by
    refine List.filter_eq_self.mpr fun i hi => ?_
    simpa using fun ending hmem => hdisjoint hi (List.mem_map_of_mem hmem)
  have hfinished : (r.finished.map Prod.fst).filter
      (fun i => !(r.finished.map Prod.fst).contains i) = [] := by
    refine List.filter_eq_nil_iff.mpr fun i hi => ?_
    simpa using hi
  rw [List.filter_append, hrunning, hfinished, List.append_nil] at hsplit
  unfold inFlight
  rw [h.started]
  exact hsplit

/-- When the drain has counted every call, its rows answer the request. -/
theorem Draining.ordered (hcalls : r.Calls options) (h : r.Draining options)
    (hdone : r.request.length ≤ r.batch.completed) : r.Answered options r.batch.ordered := by
  have hcounted := hcalls.counted
  have hadmitted := hcalls.admitted
  have hreported := h.reported.length_eq
  have hcompleted := h.completed
  simp only [List.length_append, List.length_map] at hreported
  have hidle : r.batch.running = [] := List.length_eq_zero_iff.mp (by omega)
  have hended : ∀ i < r.request.length, ∃ ending, (i, ending) ∈ r.finished := by
    intro i hi
    have hindices := hcalls.indices
    rw [hidle, List.nil_append] at hindices
    obtain ⟨⟨_, ending⟩, hmem, rfl⟩ := List.mem_map.mp (hindices.mem_iff.mpr
      (List.mem_range.mpr (show i < r.batch.admitted by omega)))
    exact ⟨ending, hmem⟩
  have hfilled : ∀ i < r.request.length, ∃ output, r.batch.results[i]? = some (some output) := by
    intro i hi
    obtain ⟨ending, hmem⟩ := hended i hi
    obtain ⟨call, -, hresult⟩ := hcalls.outputs _ hmem
    exact ⟨_, hresult⟩
  obtain ⟨outputs, houtputs⟩ := Batch.exists_outputs (hcalls.slots ▸ hfilled)
  have hrows : r.batch.ordered =
      List.zipWith (fun call output => ⟨call.toolUseId, call.name, output⟩) r.request outputs := by
    unfold Batch.ordered
    rw [h.calls, houtputs]
    exact Batch.ordered_outputs _ _
  have hlength : outputs.length = r.request.length := by
    rw [← hcalls.slots, houtputs, List.length_map]
  constructor
  · rw [hrows, List.length_zipWith, hlength, Nat.min_self]
  · intro i call hcall
    have hi : i < r.request.length := (List.getElem?_eq_some_iff.mp hcall).1
    obtain ⟨ending, hmem⟩ := hended i hi
    obtain ⟨call', hcall', hresult⟩ := hcalls.outputs _ hmem
    obtain rfl : call = call' := Option.some.inj (hcall.symm.trans hcall')
    refine ⟨ending, hmem, ?_⟩
    have houtput : outputs[i]? = some (callOutput options call.name ending) := by
      rw [houtputs, List.getElem?_map] at hresult
      cases hout : outputs[i]? with
      | none => rw [hout] at hresult; cases hresult
      | some output =>
        rw [hout] at hresult
        exact congrArg some (Option.some.inj (Option.some.inj hresult))
    rw [hrows, List.getElem?_zipWith, hcall, houtput]

/-- What holds of a batch at each of its waits. -/
structure Consistent (options : ToolSchedulerOptions) (r : BatchRun) : Prop where
  calls : r.Calls options
  stage : r.Stage options

theorem Calls.concludeCancelled (h : r.Calls options)
    (hcancelled : r.batch.parentCancelled = true) :
    r.concludeCancelled.Consistent options := by
  unfold BatchRun.concludeCancelled
  split
  · exact ⟨h.at_phase _ _, Or.inl ⟨hcancelled, rfl⟩⟩
  · next hlagging => exact ⟨h.at_phase _ _, hcancelled, hlagging⟩

theorem Calls.observeCancellation (h : r.Calls options) :
    r.observeCancellation.Consistent options := by
  unfold BatchRun.observeCancellation
  dsimp only
  split
  · exact ⟨h.dropQueued.at_phase _ _, rfl⟩
  · exact h.dropQueued.concludeCancelled rfl

theorem Draining.continueDrain (hcalls : r.Calls options) (h : r.Draining options)
    (hphase : r.phase = .draining) : r.continueDrain.Consistent options := by
  unfold BatchRun.continueDrain
  have hlength := hcalls.length
  split
  · refine ⟨hcalls, ?_⟩
    unfold Stage
    rw [hphase]
    exact ⟨h, by omega⟩
  · have hrows : r.Answered options r.batch.ordered := h.ordered hcalls (by omega)
    exact ⟨hcalls.at_phase _ _, Or.inr ⟨h.uncancelled, _, rfl, hrows⟩⟩

theorem Consistent.draining (h : r.Consistent options) (hphase : r.phase = .draining) :
    r.Draining options ∧ r.batch.completed < r.request.length := by
  have hstage := h.stage
  unfold Stage at hstage
  rwa [hphase] at hstage

theorem Consistent.receive (h : r.Consistent options) (cancelled : Bool) :
    (r.receive cancelled shared).2.Consistent options := by
  unfold BatchRun.receive
  split
  · next index rest hphase hcompletion =>
    obtain ⟨hdrain, hunfinished⟩ := h.draining hphase
    have hcalls := h.calls.receipt hcompletion
    have hreported := hdrain.reported
    rw [hcompletion] at hreported
    have hmoved : (rest ++ (r.batch.reported ++ [index])).Perm (r.finished.map Prod.fst) := by
      refine List.Perm.trans ?_ hreported
      rw [← List.append_assoc, List.cons_append]
      exact List.perm_append_singleton _ _
    have hcount : r.batch.completed + 1 = (r.batch.reported ++ [index]).length := by
      rw [List.length_append, List.length_singleton, hdrain.completed]
    dsimp only
    split
    · exact hcalls.observeCancellation
    split
    · next hqueued =>
      -- the completion has made room for the next call
      have hadmitted := hdrain.admitted
      have hcounted := h.calls.counted
      have hlengths := hreported.length_eq
      have hcompleted := hdrain.completed
      have hqueued : r.batch.admitted < r.request.length := h.calls.length ▸ hqueued
      simp only [List.length_append, List.length_cons, List.length_map] at hlengths
      refine Draining.continueDrain (hcalls.startCall hqueued ?_ hdrain.calls)
        ⟨hdrain.uncancelled, hdrain.calls, hmoved, hcount, ?_⟩ hphase
      · show r.batch.running.length < options.maxParallelTools
        omega
      · show r.batch.admitted + 1 =
          min r.request.length (r.batch.completed + 1 + options.maxParallelTools)
        omega
    · next hlast =>
      have hadmitted := hdrain.admitted
      have hlast : ¬r.batch.admitted < r.request.length := h.calls.length ▸ hlast
      refine Draining.continueDrain hcalls ⟨hdrain.uncancelled, hdrain.calls, hmoved, hcount,
        ?_⟩ hphase
      show r.batch.admitted = min r.request.length
        (r.batch.completed + 1 + options.maxParallelTools)
      omega
  · next index rest hphase hcompletion =>
    have hcancelled : r.batch.parentCancelled = true := by
      have hstage := h.stage
      unfold Stage at hstage
      rwa [hphase] at hstage
    have hcalls := h.calls.receipt hcompletion
    dsimp only
    split
    · refine ⟨hcalls, ?_⟩
      unfold Stage
      rw [hphase]
      exact hcancelled
    · exact hcalls.concludeCancelled hcancelled
  · exact h

theorem Consistent.cancel (h : r.Consistent options) : r.cancel.Consistent options := by
  unfold BatchRun.cancel
  split
  · exact h.calls.observeCancellation
  · exact h

theorem Consistent.graceOver (h : r.Consistent options) : r.graceOver.Consistent options := by
  unfold BatchRun.graceOver
  split
  · next hphase =>
    have hstage := h.stage
    unfold Stage at hstage
    rw [hphase] at hstage
    exact h.calls.concludeCancelled hstage
  · exact h

theorem Consistent.record (h : r.Consistent options) : r.record.Consistent options := by
  unfold BatchRun.record
  split
  · next index rest hphase =>
    have hstage := h.stage
    unfold Stage at hstage
    rw [hphase] at hstage
    refine ⟨h.calls.at_phase _ _, ?_⟩
    cases rest with
    | nil => exact Or.inl ⟨hstage.1, rfl⟩
    | cons next rest => exact ⟨hstage.1, List.cons_ne_nil _ _⟩
  · exact h

theorem Consistent.finish (h : r.Consistent options) {index : Nat}
    (hrunning : index ∈ r.batch.running) (ending : CallEnd) :
    (r.finish options index ending shared).2.Consistent options := by
  refine ⟨h.calls.finish hrunning ending, ?_⟩
  have hstage := h.stage
  obtain ⟨call, -, hbatch⟩ := h.calls.batch_finish hrunning ending
  unfold BatchRun.finish
  rw [hbatch]
  unfold Stage at hstage ⊢
  dsimp only at hstage ⊢
  cases hphase : r.phase with
  | draining =>
    rw [hphase] at hstage
    obtain ⟨hdrain, hunfinished⟩ := hstage
    refine ⟨⟨hdrain.uncancelled, hdrain.calls, ?_, hdrain.completed, hdrain.admitted⟩, hunfinished⟩
    show ((r.batch.completion ++ [index]) ++ r.batch.reported).Perm
      ((r.finished ++ [(index, ending)]).map Prod.fst)
    rw [List.map_append, List.append_assoc]
    have hlast : (r.batch.completion ++ ([index] ++ r.batch.reported)).Perm
        ((r.batch.completion ++ r.batch.reported) ++ [index]) := by
      rw [List.append_assoc]
      exact List.Perm.append_left _ List.perm_append_comm
    exact hlast.trans (hdrain.reported.append_right _)
  | grace =>
    rw [hphase] at hstage
    exact hstage
  | recording lagging =>
    rw [hphase] at hstage
    exact hstage
  | returned result =>
    rw [hphase] at hstage
    rcases hstage with hcancelled | ⟨huncancelled, rows, hrows, hlength, hanswer⟩
    · exact Or.inl hcancelled
    · refine Or.inr ⟨huncancelled, rows, hrows, hlength, fun i call hcall => ?_⟩
      obtain ⟨ended, hmem, hrow⟩ := hanswer i call hcall
      exact ⟨ended, List.mem_append_left _ hmem, hrow⟩

/-- The calls started before the first wait. -/
theorem startCalls (shared : SharedState) (request : List ToolBatchCall) (context n : Nat) :
    let r : BatchRun :=
      { request, context, batch :=
        { calls := request, results := List.replicate request.length none } }
    (List.range n).foldl (fun (shared, r) _ => r.startCall shared) (shared, r) =
      ((SharedState.enter context)^[n] shared,
        { r with
          batch := { r.batch with running := List.range n, admitted := n }
          started := List.range n }) := by
  induction n with
  | zero => rfl
  | succ n ih =>
    dsimp only at ih ⊢
    rw [List.range_succ, List.foldl_append, ih, Function.iterate_succ_apply']
    rfl

theorem begin_consistent (hparallel : 0 < options.maxParallelTools)
    (htimeout : 0 < options.perCallTimeout) (shared : SharedState) (context : Nat)
    (request : List ToolBatchCall) (cancelled : Bool) :
    (begin options shared context request cancelled).2.Consistent options := by
  have hcalls : ∀ (n : Nat) (parentCancelled : Bool), n ≤ request.length →
    n ≤ options.maxParallelTools →
      ∀ phase, Calls options
        { request, context, phase, started := List.range n
          batch := { calls := request, results := List.replicate request.length none,
                     running := List.range n, admitted := n, parentCancelled } } := by
    intro n parentCancelled hn hmax phase
    refine ⟨List.length_replicate, rfl, fun _ _ => rfl, hn, rfl, ?_, ?_, Nat.le_refl _, ?_⟩
    · simp
    · intro entry hentry
      cases hentry
    · simpa using hmax
  unfold begin
  dsimp only
  rw [if_neg (by simp only [Bool.or_eq_true, beq_iff_eq, decide_eq_true_eq]; omega)]
  split
  · next hempty =>
    obtain rfl := List.isEmpty_iff.mp hempty
    refine ⟨hcalls 0 false (Nat.zero_le _) (Nat.zero_le _) _, Or.inr ⟨rfl, [], rfl, rfl, ?_⟩⟩
    intro i call hcall
    cases hcall
  · next hsome =>
    have hlength : 0 < request.length := List.length_pos_of_ne_nil (by simpa using hsome)
    split
    · exact ⟨hcalls 0 true (Nat.zero_le _) (Nat.zero_le _) _, Or.inl ⟨rfl, rfl⟩⟩
    · have hstarted := startCalls shared request context
        (min request.length options.maxParallelTools)
      dsimp only at hstarted
      rw [hstarted]
      refine ⟨hcalls _ false (Nat.min_le_left _ _) (Nat.min_le_right _ _) _, ?_, hlength⟩
      exact ⟨rfl, rfl, List.Perm.refl _, rfl, by rw [Nat.zero_add]⟩

/-- The share of a batch in the count of a context. -/
def load (r : BatchRun) (context : Nat) : Nat :=
  if r.context = context then r.batch.running.length else 0

/-- The counts change as the load of the batch does. -/
structure Balanced (before after : SharedState × BatchRun) : Prop where
  waiters : after.1.idleWaiters = before.1.idleWaiters
  positive : before.1.Positive → after.1.Positive
  counts : ∀ c, after.1.active c + before.2.load c = before.1.active c + after.2.load c

theorem Balanced.of_running {r' : BatchRun} (hcontext : r'.context = r.context)
    (hrunning : r'.batch.running = r.batch.running) : Balanced (shared, r) (shared, r') := by
  refine ⟨rfl, id, fun c => ?_⟩
  unfold load
  rw [hcontext, hrunning]

theorem begin_balanced (options : ToolSchedulerOptions) (shared : SharedState) (context : Nat)
    (request : List ToolBatchCall) (cancelled : Bool) :
    let p := begin options shared context request cancelled
    p.1.idleWaiters = shared.idleWaiters ∧ (shared.Positive → p.1.Positive) ∧
      ∀ c, p.1.active c = shared.active c + p.2.load c := by
  have hentered : ∀ n, ((SharedState.enter context)^[n] shared).idleWaiters = shared.idleWaiters ∧
      (shared.Positive → ((SharedState.enter context)^[n] shared).Positive) ∧
      ∀ c, ((SharedState.enter context)^[n] shared).active c = shared.active c + if context = c
        then n else 0 := by
    intro n
    induction n with
    | zero => exact ⟨rfl, id, fun c => by simp⟩
    | succ n ih =>
      obtain ⟨hwaiters, hpositive, hcount⟩ := ih
      rw [Function.iterate_succ_apply']
      refine ⟨hwaiters, fun h => (hpositive h).enter, fun c => ?_⟩
      rw [SharedState.active_enter, hcount]
      split <;> omega
  have hidle : ∀ {r : BatchRun} (c : Nat), r.batch.running = [] → r.load c = 0 := by
    intro r c hr
    unfold load
    rw [hr]
    exact ite_self _
  unfold begin
  dsimp only
  split
  · exact ⟨rfl, id, fun c => by rw [hidle c rfl]; rfl⟩
  split
  · exact ⟨rfl, id, fun c => by rw [hidle c rfl]; rfl⟩
  split
  · exact ⟨rfl, id, fun c => by rw [hidle c rfl]; rfl⟩
  · have hstarted := startCalls shared request context (min request.length options.maxParallelTools)
    dsimp only at hstarted
    rw [hstarted]
    obtain ⟨hwaiters, hpositive, hcount⟩ := hentered (min request.length options.maxParallelTools)
    refine ⟨hwaiters, hpositive, fun c => ?_⟩
    rw [hcount]
    simp only [load, List.length_range]

theorem concludeCancelled_eq : ∃ phase, r.concludeCancelled = { r with phase } := by
  unfold concludeCancelled
  split <;> exact ⟨_, rfl⟩

theorem observeCancellation_eq :
    ∃ phase, r.observeCancellation = { r with batch := r.batch.dropQueued, phase } := by
  unfold observeCancellation
  dsimp only
  split
  · exact ⟨_, rfl⟩
  · obtain ⟨phase, hphase⟩ := concludeCancelled_eq (r := { r with batch := r.batch.dropQueued })
    exact ⟨phase, hphase⟩

theorem continueDrain_eq : ∃ phase, r.continueDrain = { r with phase } := by
  unfold continueDrain
  split <;> exact ⟨_, rfl⟩

theorem receive_balanced (cancelled : Bool) :
    Balanced (shared, r) (r.receive cancelled shared) := by
  unfold receive
  split
  · next index rest _ _ =>
    dsimp only
    split
    · obtain ⟨phase, hobserve⟩ :=
        observeCancellation_eq (r := { r with batch := r.batch.receipt index rest })
      rw [hobserve]
      exact Balanced.of_running rfl rfl
    split
    · obtain ⟨phase, hphase⟩ := continueDrain_eq
        (r := (BatchRun.startCall shared { r with batch := r.batch.receipt index rest }).2)
      rw [hphase]
      refine ⟨rfl, SharedState.Positive.enter, fun c => ?_⟩
      show (shared.enter r.context).active c + r.load c = shared.active c +
        if r.context = c then (r.batch.running ++ [r.batch.admitted]).length else 0
      rw [SharedState.active_enter, List.length_append, List.length_singleton]
      unfold load
      split <;> omega
    · obtain ⟨phase, hphase⟩ :=
        continueDrain_eq (r := { r with batch := r.batch.receipt index rest })
      rw [hphase]
      exact Balanced.of_running rfl rfl
  · next index rest _ _ =>
    dsimp only
    split
    · exact Balanced.of_running rfl rfl
    · obtain ⟨phase, hphase⟩ :=
        concludeCancelled_eq (r := { r with batch := r.batch.receipt index rest })
      rw [hphase]
      exact Balanced.of_running rfl rfl
  · exact Balanced.of_running rfl rfl

theorem Calls.finish_balanced (h : r.Calls options) {index : Nat}
    (hrunning : index ∈ r.batch.running) (ending : CallEnd)
    (hcount : r.load r.context ≤ shared.active r.context) :
    Balanced (shared, r) (r.finish options index ending shared) := by
  obtain ⟨call, -, hbatch⟩ := h.batch_finish hrunning ending
  have hpositive := List.length_pos_of_mem hrunning
  unfold BatchRun.finish
  rw [hbatch]
  refine ⟨rfl, SharedState.Positive.leave, fun c => ?_⟩
  show (shared.leave r.context).active c + r.load c = shared.active c +
    if r.context = c then (r.batch.running.erase index).length else 0
  rw [SharedState.active_leave, List.length_erase_of_mem hrunning]
  unfold load at hcount ⊢
  rw [if_pos rfl] at hcount
  by_cases hc : r.context = c
  · subst hc
    rw [if_pos rfl, if_pos rfl, if_pos rfl]
    omega
  · rw [if_neg hc, if_neg hc, if_neg hc, Nat.sub_zero]

theorem cancel_balanced : Balanced (shared, r) (shared, r.cancel) := by
  unfold cancel
  split
  · obtain ⟨phase, hobserve⟩ := observeCancellation_eq (r := r)
    rw [hobserve]
    exact Balanced.of_running rfl rfl
  · exact Balanced.of_running rfl rfl

theorem graceOver_balanced : Balanced (shared, r) (shared, r.graceOver) := by
  unfold graceOver
  split
  · obtain ⟨phase, hphase⟩ := concludeCancelled_eq (r := r)
    rw [hphase]
    exact Balanced.of_running rfl rfl
  · exact Balanced.of_running rfl rfl

theorem record_balanced : Balanced (shared, r) (shared, r.record) := by
  unfold record
  split <;> exact Balanced.of_running rfl rfl

/-- Bounds the steps that a batch can still make. -/
def work (r : BatchRun) : Nat :=
  2 * (r.request.length - r.finished.length) + r.batch.completion.length +
    match r.phase with
    | .draining => r.request.length + 3
    | .grace => r.request.length + 2
    | .recording lagging => lagging.length + 1
    | .returned _ => 0

/-- A later wait of the same batch. -/
structure Follows (r' r : BatchRun) : Prop where
  request : r'.request = r.request
  context : r'.context = r.context
  observed : r.batch.parentCancelled = true → r'.batch.parentCancelled = true ∧
    r'.started = r.started
  returned : ∀ result, r.phase = .returned result → r'.phase = .returned result
  work : r' = r ∨ r'.work < r.work

theorem Follows.refl (r : BatchRun) : r.Follows r :=
  ⟨rfl, rfl, fun h => ⟨h, rfl⟩, fun _ h => h, Or.inl rfl⟩

theorem Follows.trans {r₁ r₂ : BatchRun} (h₂ : r₂.Follows r₁) (h₁ : r₁.Follows r) :
    r₂.Follows r := by
  refine ⟨h₂.request.trans h₁.request, h₂.context.trans h₁.context, fun h => ?_,
    fun result h => h₂.returned result (h₁.returned result h), ?_⟩
  · obtain ⟨hcancelled₁, hstarted₁⟩ := h₁.observed h
    obtain ⟨hcancelled₂, hstarted₂⟩ := h₂.observed hcancelled₁
    exact ⟨hcancelled₂, hstarted₂.trans hstarted₁⟩
  · rcases h₂.work with rfl | hlt₂
    · exact h₁.work
    rcases h₁.work with rfl | hlt₁
    · exact Or.inr hlt₂
    · exact Or.inr (hlt₂.trans hlt₁)

theorem Calls.concludeCancelled_work (h : r.Calls options) :
    r.concludeCancelled.work < 2 * (r.request.length - r.finished.length) +
      r.batch.completion.length +
      (r.request.length + 2) := by
  have hlaggards : r.laggards.length ≤ r.request.length := by
    have hfilter := List.length_filter_le (fun i => !r.batch.reported.contains i)
      (List.range r.batch.calls.length)
    exact hfilter.trans_eq (List.length_range.trans h.length)
  unfold BatchRun.concludeCancelled
  split
  · simp only [work]
    omega
  · simp only [work]
    omega

theorem Calls.observeCancellation_work (h : r.Calls options) :
    r.observeCancellation.work < 2 * (r.request.length - r.finished.length) +
      r.batch.completion.length +
      (r.request.length + 3) := by
  unfold BatchRun.observeCancellation
  dsimp only
  split
  · simp only [work]
    exact Nat.lt_succ_self _
  · exact h.dropQueued.concludeCancelled_work.trans (Nat.lt_succ_self _)

theorem Consistent.cancel_follows (h : r.Consistent options) : r.cancel.Follows r := by
  unfold BatchRun.cancel
  split
  · next hphase =>
    have hwork := h.calls.observeCancellation_work
    obtain ⟨phase, hobserve⟩ := observeCancellation_eq (r := r)
    rw [hobserve] at hwork ⊢
    refine ⟨rfl, rfl, fun _ => ⟨rfl, rfl⟩, fun _ hreturned => ?_, Or.inr ?_⟩
    · rw [hphase] at hreturned
      cases hreturned
    · refine hwork.trans_eq ?_
      rw [BatchRun.work, hphase]
  · exact Follows.refl r

theorem Consistent.graceOver_follows (h : r.Consistent options) : r.graceOver.Follows r := by
  unfold BatchRun.graceOver
  split
  · next hphase =>
    have hwork := h.calls.concludeCancelled_work
    obtain ⟨phase, hconclude⟩ := concludeCancelled_eq (r := r)
    rw [hconclude] at hwork ⊢
    refine ⟨rfl, rfl, fun hcancelled => ⟨hcancelled, rfl⟩, fun _ hreturned => ?_, Or.inr ?_⟩
    · rw [hphase] at hreturned
      cases hreturned
    · refine hwork.trans_eq ?_
      rw [BatchRun.work, hphase]
  · exact Follows.refl r

theorem record_follows : r.record.Follows r := by
  unfold record
  split
  · next index rest hphase =>
    refine ⟨rfl, rfl, fun hcancelled => ⟨hcancelled, rfl⟩, fun _ hreturned => ?_, Or.inr ?_⟩
    · rw [hphase] at hreturned
      cases hreturned
    · unfold work
      rw [hphase]
      cases rest with
      | nil => exact Nat.add_lt_add_left (Nat.succ_pos _) _
      | cons next rest => exact Nat.add_lt_add_left (Nat.lt_succ_self _) _
  · exact Follows.refl r

theorem Consistent.finish_follows (h : r.Consistent options) {index : Nat}
    (hrunning : index ∈ r.batch.running) (ending : CallEnd) :
    (r.finish options index ending shared).2.Follows r := by
  obtain ⟨call, -, hbatch⟩ := h.calls.batch_finish hrunning ending
  have hpositive := List.length_pos_of_mem hrunning
  have hcounted := h.calls.counted
  have hadmitted := h.calls.admitted
  unfold BatchRun.finish
  rw [hbatch]
  refine ⟨rfl, rfl, fun hcancelled => ⟨hcancelled, rfl⟩, fun _ hreturned => hreturned, Or.inr ?_⟩
  unfold work
  simp only [List.length_append, List.length_singleton]
  split <;> omega

theorem Consistent.receive_follows (h : r.Consistent options) (cancelled : Bool) :
    (r.receive cancelled shared).2.Follows r := by
  unfold BatchRun.receive
  split
  · next index rest hphase hcompletion =>
    have hcalls := h.calls.receipt hcompletion
    have huncancelled := (h.draining hphase).1.uncancelled
    have hlength : r.batch.completion.length = rest.length + 1 := by
      rw [hcompletion, List.length_cons]
    have hunobserved : ¬r.batch.parentCancelled = true := by
      rw [huncancelled]
      exact Bool.false_ne_true
    have hwaiting : ∀ result, r.phase ≠ .returned result := by
      intro result hreturned
      rw [hphase] at hreturned
      cases hreturned
    have hnow : r.work = 2 * (r.request.length - r.finished.length) + r.batch.completion.length +
        (r.request.length + 3) := by
      rw [BatchRun.work, hphase]
    -- going on or returning, the drain has one completion less to read
    have hdrained : ∀ r' : BatchRun, r'.request = r.request → r'.finished = r.finished →
        r'.batch.completion = rest → r'.phase = .draining → r'.continueDrain.work < r.work := by
      intro r' hrequest hfinished hrest hdraining
      rw [hnow]
      unfold continueDrain
      split
      · unfold work
        rw [hrequest, hfinished, hrest, hdraining]
        dsimp only
        omega
      · unfold work
        rw [hrequest, hfinished, hrest]
        dsimp only
        omega
    dsimp only
    split
    · have hwork := hcalls.observeCancellation_work
      obtain ⟨phase, hobserve⟩ :=
        observeCancellation_eq (r := { r with batch := r.batch.receipt index rest })
      rw [hobserve] at hwork ⊢
      refine ⟨rfl, rfl, fun ho => absurd ho hunobserved, fun _ hr => absurd hr (hwaiting _),
        Or.inr (hwork.trans ?_)⟩
      rw [hnow, hlength]
      show 2 * (r.request.length - r.finished.length) + rest.length + (r.request.length + 3) < _
      omega
    split
    · have hwork := hdrained
        (BatchRun.startCall shared { r with batch := r.batch.receipt index rest }).2 rfl rfl
          rfl hphase
      obtain ⟨phase, hcontinue⟩ := continueDrain_eq
        (r := (BatchRun.startCall shared { r with batch := r.batch.receipt index rest }).2)
      rw [hcontinue] at hwork ⊢
      exact ⟨rfl, rfl, fun ho => absurd ho hunobserved, fun _ hr => absurd hr (hwaiting _),
        Or.inr hwork⟩
    · have hwork := hdrained { r with batch := r.batch.receipt index rest } rfl rfl rfl hphase
      obtain ⟨phase, hcontinue⟩ :=
        continueDrain_eq (r := { r with batch := r.batch.receipt index rest })
      rw [hcontinue] at hwork ⊢
      exact ⟨rfl, rfl, fun ho => absurd ho hunobserved, fun _ hr => absurd hr (hwaiting _),
        Or.inr hwork⟩
  · next index rest hphase hcompletion =>
    have hcalls := h.calls.receipt hcompletion
    have hlength : r.batch.completion.length = rest.length + 1 := by
      rw [hcompletion, List.length_cons]
    have hwaiting : ∀ result, r.phase ≠ .returned result := by
      intro result hreturned
      rw [hphase] at hreturned
      cases hreturned
    have hnow : r.work = 2 * (r.request.length - r.finished.length) + r.batch.completion.length +
        (r.request.length + 2) := by
      rw [BatchRun.work, hphase]
    dsimp only
    split
    · refine ⟨rfl, rfl, fun hcancelled => ⟨hcancelled, rfl⟩, fun _ hr => absurd hr (hwaiting _),
        Or.inr ?_⟩
      rw [hnow, BatchRun.work, hphase, hlength]
      show 2 * (r.request.length - r.finished.length) + rest.length + (r.request.length + 2) < _
      omega
    · have hwork := hcalls.concludeCancelled_work
      obtain ⟨phase, hconclude⟩ :=
        concludeCancelled_eq (r := { r with batch := r.batch.receipt index rest })
      rw [hconclude] at hwork ⊢
      refine ⟨rfl, rfl, fun hcancelled => ⟨hcancelled, rfl⟩, fun _ hr => absurd hr (hwaiting _),
        Or.inr (hwork.trans ?_)⟩
      rw [hnow, hlength]
      show 2 * (r.request.length - r.finished.length) + rest.length + (r.request.length + 2) < _
      omega
  · exact Follows.refl r

theorem observeCancellation_observed : r.observeCancellation.batch.parentCancelled = true := by
  obtain ⟨phase, hobserve⟩ := observeCancellation_eq (r := r)
  rw [hobserve]
  rfl

theorem cancel_observed (hphase : r.phase = .draining) : r.cancel.batch.parentCancelled = true := by
  unfold cancel
  rw [hphase]
  exact observeCancellation_observed

theorem receive_observed (hphase : r.phase = .draining) (hcompletion : r.batch.completion ≠ []) :
    (r.receive true shared).2.batch.parentCancelled = true := by
  obtain ⟨index, rest, hrest⟩ := List.exists_cons_of_ne_nil hcompletion
  unfold receive
  rw [hphase, hrest]
  exact observeCancellation_observed

/-- What a `receive` that is not cancelled leaves of the flag, and what it moves. -/
theorem receive_batch {index : Nat} {rest : List Nat}
    (hphase : r.phase = .draining ∨ r.phase = .grace)
    (hcompletion : r.batch.completion = index :: rest) :
    (r.receive false shared).2.batch.parentCancelled = r.batch.parentCancelled ∧
      (r.receive false shared).2.batch.reported = r.batch.reported ++ [index] := by
  unfold receive
  rw [hcompletion]
  rcases hphase with hphase | hphase
  · rw [hphase]
    dsimp only
    rw [if_neg Bool.false_ne_true]
    split
    · obtain ⟨phase, hcontinue⟩ := continueDrain_eq
        (r :=
          (startCall shared { r with batch := r.batch.receipt index rest, phase := .draining }).2)
      rw [hcontinue]
      exact ⟨rfl, rfl⟩
    · obtain ⟨phase, hcontinue⟩ := continueDrain_eq
        (r := { r with batch := r.batch.receipt index rest, phase := .draining })
      rw [hcontinue]
      exact ⟨rfl, rfl⟩
  · rw [hphase]
    dsimp only
    split
    · exact ⟨rfl, rfl⟩
    · obtain ⟨phase, hconclude⟩ := concludeCancelled_eq
        (r := { r with batch := r.batch.receipt index rest, phase := .grace })
      rw [hconclude]
      exact ⟨rfl, rfl⟩

theorem receive_parentCancelled :
    (r.receive false shared).2.batch.parentCancelled = r.batch.parentCancelled := by
  cases hcompletion : r.batch.completion with
  | nil =>
    unfold receive
    rw [hcompletion]
    split <;> first | rfl | contradiction
  | cons index rest =>
    cases hphase : r.phase with
    | draining => exact (receive_batch (Or.inl hphase) hcompletion).1
    | grace => exact (receive_batch (Or.inr hphase) hcompletion).1
    | recording lagging =>
      unfold receive
      rw [hphase]
    | returned result =>
      unfold receive
      rw [hphase]

theorem Consistent.finish_parentCancelled (h : r.Consistent options) {index : Nat}
    (hrunning : index ∈ r.batch.running) (ending : CallEnd) :
    (r.finish options index ending shared).2.batch.parentCancelled = r.batch.parentCancelled := by
  obtain ⟨call, -, hbatch⟩ := h.calls.batch_finish hrunning ending
  unfold BatchRun.finish
  rw [hbatch]

theorem graceOver_batch : r.graceOver.batch = r.batch := by
  unfold graceOver
  split
  · obtain ⟨phase, hconclude⟩ := concludeCancelled_eq (r := r)
    rw [hconclude]
  · rfl

theorem record_batch : r.record.batch = r.batch := by
  unfold record
  split <;> rfl

theorem finish_changes {index : Nat} {ending : CallEnd} :
    (r.finish options index ending shared).2 ≠ r := by
  intro hsame
  have hlength := congrArg (fun r : BatchRun => r.finished.length) hsame
  simp [finish] at hlength

theorem receive_changes (hphase : r.phase = .draining) (hcompletion : r.batch.completion ≠ []) :
    (r.receive false shared).2 ≠ r := by
  intro hsame
  obtain ⟨index, rest, hrest⟩ := List.exists_cons_of_ne_nil hcompletion
  have hreported : (r.receive false shared).2.batch.reported = r.batch.reported ++ [index] :=
    (receive_batch (Or.inl hphase) hrest).2
  rw [hsame] at hreported
  simpa using congrArg List.length hreported

theorem graceOver_changes (hphase : r.phase = .grace) : r.graceOver ≠ r := by
  intro hsame
  have hafter := congrArg BatchRun.phase hsame
  unfold graceOver concludeCancelled at hafter
  rw [hphase] at hafter
  dsimp only at hafter
  split at hafter <;> cases hafter

theorem Consistent.record_changes (h : r.Consistent options) {lagging : List Nat}
    (hphase : r.phase = .recording lagging) : r.record ≠ r := by
  intro hsame
  have hstage := h.stage
  unfold Stage at hstage
  rw [hphase] at hstage
  obtain ⟨index, rest, rfl⟩ := List.exists_cons_of_ne_nil hstage.2
  have hafter := congrArg BatchRun.phase hsame
  unfold BatchRun.record at hafter
  rw [hphase] at hafter
  dsimp only at hafter
  split at hafter
  · cases hafter
  · simp at hafter

/-- What `run_batch` owes its caller: each call is started once and ends once, the width is
kept, an uncancelled batch answers every call in order, a cancelled one says so, and the
drain never waits for nothing. -/
structure Contract (options : ToolSchedulerOptions) (r : BatchRun) : Prop where
  once : r.started.Nodup ∧ (r.finished.map Prod.fst).Nodup ∧ ∀ i ∈ r.started, i < r.request.length
  width : r.inFlight.length ≤ options.maxParallelTools
  answered : ∀ result, r.phase = .returned result → r.batch.parentCancelled = false →
    ∃ rows, result = .ok rows ∧ r.Answered options rows
  cancelled : r.batch.parentCancelled = true →
    r.phase ≠ .draining ∧ ∀ result, r.phase = .returned result →
      result = .error parentCancelledError
  awaits : r.phase = .draining → r.inFlight ≠ [] ∨ r.batch.completion ≠ []

theorem Consistent.awaits (h : r.Consistent options) (hparallel : 0 < options.maxParallelTools)
    (hphase : r.phase = .draining) : r.inFlight ≠ [] ∨ r.batch.completion ≠ [] := by
  obtain ⟨hdrain, hunfinished⟩ := h.draining hphase
  have hflight := h.calls.inFlight_perm.length_eq
  have hcounted := h.calls.counted
  have hreported := hdrain.reported.length_eq
  have hcompleted := hdrain.completed
  have hadmitted := hdrain.admitted
  simp only [List.length_append, List.length_map] at hreported
  by_contra hnone
  simp only [not_or, not_not] at hnone
  rw [hnone.1, List.length_nil] at hflight
  rw [hnone.2, List.length_nil] at hreported
  omega

theorem Consistent.contract (h : r.Consistent options) (hparallel : 0 < options.maxParallelTools) :
    r.Contract options := by
  have hstage := h.stage
  unfold Stage at hstage
  constructor
  · rw [h.calls.started]
    refine ⟨List.nodup_range, (List.nodup_append.mp h.calls.indices_nodup).2.1, fun i hi => ?_⟩
    exact (List.mem_range.mp hi).trans_le h.calls.admitted
  · rw [h.calls.inFlight_perm.length_eq]
    exact h.calls.width
  · intro result hphase huncancelled
    rw [hphase] at hstage
    rcases hstage with ⟨hcancelled, -⟩ | ⟨-, hrows⟩
    · rw [huncancelled] at hcancelled
      cases hcancelled
    · exact hrows
  · intro hcancelled
    constructor
    · intro hphase
      rw [(h.draining hphase).1.uncancelled] at hcancelled
      cases hcancelled
    · intro result hphase
      rw [hphase] at hstage
      rcases hstage with ⟨-, hresult⟩ | ⟨huncancelled, -⟩
      · exact hresult
      · rw [huncancelled] at hcancelled
        cases hcancelled
  · exact h.awaits hparallel

end BatchRun

end Orangutan.Agent
