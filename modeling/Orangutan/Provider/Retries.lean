import Orangutan.Lib.Trials
import Orangutan.Provider.Execution
import Orangutan.Provider.Sink

/-!
# One list of attempts

The two loops of `execution::run` go through one list of attempts: the targets of the
route in order, each of them `max_attempts` times. A backend that says which callbacks it
makes gives, with the sink of the caller, the whole course of a run.
-/

namespace Orangutan.Provider

set_option autoImplicit false

open Orangutan.Core

/-- What one call of `System::send` does to its sink, and how it ends. -/
structure Stream where
  events : List SinkEvent
  reply : Reply

structure StreamBackend where
  send : Nat → Request → ModelTarget → Stream
  sleep : Nat → Result Unit

namespace StreamBackend

/-- The backend as the execution sees it: of the callbacks it asks whether there were any. -/
def backend (b : StreamBackend) : Backend where
  send tick request target :=
    ⟨(b.send tick request target).reply,
      (AttemptSink.drive (b.send tick request target).events { inner := [] }).emitted⟩
  sleep := b.sleep

end StreamBackend

namespace Execution

/-- A place in the order of attempts. -/
structure Slot where
  target : ModelTarget
  fallback : Bool
  attempt : UInt32

/-- What became of a slot: how the stream went, the backoff after it, and the end of the
attempt. -/
structure Tried where
  stream : Stream
  slept : Option (Result Unit)
  ending : TargetEnd

def TargetEnd.proceeds : TargetEnd → Bool
  | finish _ => false
  | proceed _ => true

/-- The slots of a target from an attempt on. -/
def targetSlots (target : ModelTarget) (fallback : Bool) : Nat → UInt32 → List Slot
  | 0, _ => []
  | left + 1, attempt => ⟨target, fallback, attempt⟩ :: targetSlots target fallback left
      (attempt + 1)

def slots (request : Request) (route : Route) : List Slot :=
  (targets route).flatMap fun t => targetSlots t.1 t.2 request.retry.maxAttempts.toNat 1

section Walk

variable (b : StreamBackend) (request : Request) (streaming : Bool)

/-- The error of an attempt that did not serve the request, as it is reported. -/
def attemptError (e : Error) (slot : Slot) (emitted : Bool) : Error :=
  skippedError emitted (withTargetContext e (attribution slot.target slot.fallback) slot.attempt
    request.retry.maxAttempts)

/-- One attempt. The state is the tick with what the sink of the caller has seen. -/
def trySlot (slot : Slot) (s : Nat × List SinkEvent) : Tried × Nat × List SinkEvent :=
  let attributed := attribution slot.target slot.fallback
  let maxAttempts := request.retry.maxAttempts
  let stream := b.send s.1 (attemptRequest request slot.target slot.fallback) slot.target
  let attemptSink := AttemptSink.drive stream.events { inner := s.2 }
  let seen := if streaming then attemptSink.inner else s.2
  match stream.reply with
  | .throws aborted =>
    (⟨stream, none, .finish ⟨attributed,
      .error (withTargetContext (thrownError aborted) attributed slot.attempt maxAttempts)⟩⟩,
        s.1 + 1, seen)
  | .returns (.ok response) =>
    (⟨stream, none, .finish ⟨servedTarget attributed response, .ok response⟩⟩, s.1 + 1, seen)
  | .returns (.error e) =>
    let emitted := streaming && attemptSink.emitted
    let error := withTargetContext e attributed slot.attempt maxAttempts
    let outcome : Outcome := ⟨attributed, .error (attemptError request e slot emitted)⟩
    if error.kind == .cancelled || !error.retryable || emitted
      then (⟨stream, none, .finish outcome⟩, s.1 + 1, seen)
    else if slot.attempt == maxAttempts then (⟨stream, none, .proceed outcome⟩, s.1 + 1, seen)
    else if 0 < retryDelay (attemptError request e slot emitted) request.retry then
      match b.sleep (s.1 + 1) with
      | .error e' =>
        (⟨stream, some (.error e'), .finish ⟨attributed,
          .error (withTargetContext e' attributed slot.attempt maxAttempts)⟩⟩, s.1 + 2, seen)
      | .ok u => (⟨stream, some (.ok u), .proceed outcome⟩, s.1 + 2, seen)
    else (⟨stream, none, .proceed outcome⟩, s.1 + 1, seen)

def walk (route : Route) (s : Nat × List SinkEvent) : List (Slot × Tried) × Nat × List SinkEvent :=
  Lib.tryEach (trySlot b request streaming) (fun t => t.ending.proceeds) (slots request route) s

/-- The attempt that a trial has sent. -/
def sentAttempt (t : Slot × Tried) : Attempt :=
  ⟨attemptRequest request t.1.target t.1.fallback, t.1.target⟩

end Walk

section Refinement

variable {b : StreamBackend} {request : Request} {streaming : Bool}

theorem backend_emitted (b : StreamBackend) (tick : Nat) (request : Request) (target : ModelTarget)
    (seen : List SinkEvent) :
    (b.backend.send tick request target).emitted =
      (AttemptSink.drive (b.send tick request target).events { inner := seen }).emitted := by
  show (AttemptSink.drive _ _).emitted = _
  rw [AttemptSink.drive_emitted, AttemptSink.drive_emitted]

/-- How the walk over some slots ends, or the outcome before it when it tried nothing. -/
def walkEnding (outcome : Outcome) (tried : List (Slot × Tried)) : TargetEnd :=
  (tried.getLast?.map fun t => t.2.ending).getD (.proceed outcome)

theorem walkEnding_cons {t : Slot × Tried} {outcome' : Outcome} (h : t.2.ending = .proceed outcome')
    (outcome : Outcome) (rest : List (Slot × Tried)) : walkEnding outcome (t :: rest) =
      walkEnding outcome' rest := by
  rcases List.eq_nil_or_concat rest with rfl | ⟨init, last, rfl⟩
  · simp [walkEnding, h]
  · simp [walkEnding, List.getLast?_cons]

/-- The attempts at a target are the walk over its slots. -/
theorem runTarget_eq (target : ModelTarget) (fallback : Bool) (left : Nat) (attempt : UInt32)
    (outcome : Outcome) (tick : Nat) (seen : List SinkEvent)
    (hleft : left = 0 ∨ attempt.toNat + left = request.retry.maxAttempts.toNat + 1) :
    let walked := Lib.tryEach (trySlot b request streaming) (fun t => t.ending.proceeds)
      (targetSlots target fallback left attempt) (tick, seen)
    runTarget b.backend request target fallback streaming left attempt outcome tick =
      (walkEnding outcome walked.1, walked.1.map (sentAttempt request), walked.2.1) := by
  induction left generalizing attempt outcome tick seen with
  | zero => rfl
  | succ left ih =>
    have hmax := request.retry.maxAttempts.toNat_lt
    replace hleft : attempt.toNat + (left + 1) = request.retry.maxAttempts.toNat + 1 :=
      hleft.resolve_left (Nat.succ_ne_zero left)
    have hemitted := backend_emitted b tick (attemptRequest request target fallback) target seen
    have hnext : ¬ (attempt == request.retry.maxAttempts) = true →
        left = 0 ∨ (attempt + 1).toNat + left = request.retry.maxAttempts.toNat + 1 := by
      intro hne
      right
      have hlt : attempt.toNat ≠ request.retry.maxAttempts.toNat := fun h =>
        hne (beq_iff_eq.mpr (UInt32.toNat_inj.mp h))
      rw [UInt32.toNat_add]
      show (attempt.toNat + 1) % 2 ^ 32 + left = _
      omega
    have hreply : (b.backend.send tick (attemptRequest request target fallback) target).reply =
        (b.send tick (attemptRequest request target fallback) target).reply := rfl
    rw [runTarget, targetSlots, Lib.tryEach]
    dsimp only
    rw [hreply, hemitted]
    generalize htry : trySlot b request streaming ⟨target, fallback, attempt⟩ (tick, seen) = tried
    unfold trySlot at htry
    dsimp only at htry
    -- the same questions are asked of the attempt on both sides
    rcases hq :
      (b.send tick (attemptRequest request target fallback)
      target).reply with (e | response) | aborted
    rotate_left
    · rw [hq] at htry
      subst htry
      rfl
    · rw [hq] at htry
      subst htry
      rfl
    rw [hq] at htry
    dsimp only at htry ⊢
    split at htry
    · next hterminal =>
      rw [if_pos hterminal]
      subst htry
      rfl
    next hterminal =>
    rw [if_neg hterminal]
    split at htry
    · next hlast =>
      rw [if_pos hlast]
      obtain rfl : left = 0 := by
        rw [beq_iff_eq.mp hlast] at hleft
        omega
      subst htry
      rfl
    next hlast =>
    rw [if_neg hlast]
    split at htry
    · next hdelay =>
      rw [if_pos (by exact hdelay)]
      have hsleep : b.backend.sleep (tick + 1) = b.sleep (tick + 1) := rfl
      rw [hsleep]
      rcases hslept : b.sleep (tick + 1) with e' | value
      · rw [hslept] at htry
        subst htry
        rfl
      · rw [hslept] at htry
        subst htry
        dsimp only
        rw [ih _ _ _ _ (hnext hlast), if_pos (by rfl), walkEnding_cons rfl]
        rfl
    · next hdelay =>
      rw [if_neg (by exact hdelay)]
      subst htry
      rw [ih _ _ _ _ (hnext hlast), if_pos (by rfl), walkEnding_cons rfl]
      rfl

theorem walkEnding_append {outcome outcome' : Outcome} {tried : List (Slot × Tried)}
    (h : walkEnding outcome tried = .proceed outcome') (more : List (Slot × Tried)) :
    walkEnding outcome (tried ++ more) = walkEnding outcome' more := by
  rcases List.eq_nil_or_concat more with rfl | ⟨init, last, rfl⟩
  · rw [List.append_nil, h]
    rfl
  · simp [walkEnding, ← List.append_assoc]

/-- A walk has been through all of its slots when its last trial, if any, proceeds. -/
theorem walk_proceeds (b : StreamBackend) (request : Request) (streaming : Bool) (outcome : Outcome)
    (candidates : List Slot) (s : Nat × List SinkEvent) :
    ((Lib.tryEach (trySlot b request streaming) (fun t => t.ending.proceeds) candidates s).1.all
      fun t => t.2.ending.proceeds) =
    (walkEnding outcome
      (Lib.tryEach (trySlot b request streaming)
        (fun t => t.ending.proceeds) candidates s).1).proceeds := by
  have hbefore := Lib.tryEach_again (trySlot b request streaming)
    (fun t => t.ending.proceeds) candidates s
  generalize Lib.tryEach (trySlot b request streaming) (fun t => t.ending.proceeds) candidates s =
    walked at hbefore ⊢
  rcases List.eq_nil_or_concat walked.1 with hnil | ⟨init, last, hconcat⟩
  · rw [hnil]
    rfl
  · rw [hconcat, List.concat_eq_append, List.dropLast_concat] at hbefore
    have hinit : (init.all fun t => t.2.ending.proceeds) = true := List.all_eq_true.mpr hbefore
    rw [hconcat, List.concat_eq_append, List.all_append, hinit]
    simp [walkEnding]

/-- The run over a list of targets is the walk over their slots. -/
theorem runRoute_eq (route : List (ModelTarget × Bool)) (outcome : Outcome) (tick : Nat)
    (seen : List SinkEvent) :
    let walked := Lib.tryEach (trySlot b request streaming) (fun t => t.ending.proceeds)
      (route.flatMap fun t => targetSlots t.1 t.2 request.retry.maxAttempts.toNat 1) (tick, seen)
    runRoute b.backend request streaming route outcome tick =
      ((walkEnding outcome walked.1).outcome, walked.1.map (sentAttempt request), walked.2.1) := by
  induction route generalizing outcome tick seen with
  | nil => rfl
  | cons t rest ih =>
    obtain ⟨target, fallback⟩ := t
    have hone : request.retry.maxAttempts.toNat = 0 ∨
        (1 : UInt32).toNat + request.retry.maxAttempts.toNat = request.retry.maxAttempts.toNat +
          1 := .inr (Nat.add_comm _ _)
    have hall := walk_proceeds b request streaming outcome
      (targetSlots target fallback request.retry.maxAttempts.toNat 1) (tick, seen)
    intro walked
    rw [runRoute, runTarget_eq target fallback _ 1 outcome tick seen hone]
    simp only [walked, List.flatMap_cons, Lib.tryEach_append]
    generalize Lib.tryEach (trySlot b request streaming) (fun t => t.ending.proceeds)
      (targetSlots target fallback request.retry.maxAttempts.toNat 1) (tick, seen) = first at hall ⊢
    rw [hall]
    split
    · next hq =>
      rw [Prod.mk.injEq, Prod.mk.injEq] at hq
      obtain ⟨hending, rfl, rfl⟩ := hq
      rw [hending, if_neg (show ¬ (TargetEnd.finish _).proceeds = true from Bool.false_ne_true),
        hending]
      rfl
    · next hq =>
      rw [Prod.mk.injEq, Prod.mk.injEq] at hq
      obtain ⟨hending, rfl, rfl⟩ := hq
      rw [hending, if_pos (by rfl)]
      dsimp only
      rw [ih _ _ first.2.2, walkEnding_append hending, List.map_append]

/-- Nothing is sent when the policy allows no attempt. -/
theorem slots_nil (route : Route) (h : request.retry.maxAttempts = 0) :
    slots request route = [] := by
  rw [slots, h]
  exact List.flatMap_eq_nil_iff.mpr fun t _ => rfl

/-- The attempts of a run are those of the walk, and its outcome is how the walk ended. -/
theorem run_eq (b : StreamBackend) (request : Request) (route : Route) (streaming : Bool)
    (tick : Nat) (seen : List SinkEvent) :
    (run b.backend request route streaming tick).2.1 =
      (walk b request streaming route (tick, seen)).1.map (sentAttempt request) ∧
    ∀ t, (walk b request streaming route (tick, seen)).1.getLast? = some t →
      (run b.backend request route streaming tick).1 = t.2.ending.outcome := by
  unfold run walk
  dsimp only
  split
  · next hzero =>
    rw [slots_nil route (beq_iff_eq.mp hzero)]
    exact ⟨rfl, fun t ht => by cases ht⟩
  · rw [runRoute_eq (targets route) _ tick seen]
    refine ⟨rfl, fun t ht => ?_⟩
    show (walkEnding _ _).outcome = _
    rw [slots] at ht
    rw [walkEnding, ht]
    rfl

end Refinement

/-- The attempt leaves the request to the next one: it returned a retryable error before
any callback, and the backoff after it was not cancelled. -/
structure Tried.Continues (streaming : Bool) (t : Tried) : Prop where
  failed : ∃ e, t.stream.reply = .returns (.error e) ∧ e.kind ≠ .cancelled ∧ e.retryable = true
  silent : streaming = true → t.stream.events = []
  rested : ∀ e, t.slept ≠ some (.error e)

/-- The target that is reported when the run ends with an attempt. -/
def reportedTarget (slot : Slot) (stream : Stream) : Attribution :=
  match stream.reply with
  | .returns (.ok response) => servedTarget (attribution slot.target slot.fallback) response
  | _ => attribution slot.target slot.fallback

/-- The thinking budget of an attempt, from the one of the request. -/
def thinkingPolicy (requested : Option UInt32) (target : ModelTarget) (fallback : Bool) :
    Option UInt32 :=
  if fallback then
    if target.thinkingBudget.isSome then target.thinkingBudget
    else if target.protocol != .anthropicMessages then none
    else requested
  else requested

theorem attemptRequest_policy (request : Request) (target : ModelTarget) (fallback : Bool) :
    (attemptRequest request target fallback).thinkingBudget =
      thinkingPolicy request.thinkingBudget target fallback := by
  unfold attemptRequest applyFallbackThinkingPolicy thinkingPolicy
  split
  · split
    · rfl
    · split <;> rfl
  · rfl

section Attempts

variable (b : StreamBackend) (request : Request) (streaming : Bool) (slot : Slot) (s : Nat ×
  List SinkEvent)

theorem withTargetContext_kind (e : Error) (target : Attribution) (attempt maxAttempts : UInt32) :
    (withTargetContext e target attempt maxAttempts).kind = e.kind := rfl

theorem withTargetContext_retryable (e : Error) (target : Attribution)
    (attempt maxAttempts : UInt32) :
    (withTargetContext e target attempt maxAttempts).retryable = e.retryable := rfl

theorem trySlot_stream : (trySlot b request streaming slot s).1.stream =
    b.send s.1 (attemptRequest request slot.target slot.fallback) slot.target := by
  unfold trySlot
  dsimp only
  repeat' split
  all_goals rfl

/-- The sink of the caller is given what the stream emits. -/
theorem trySlot_seen : (trySlot b request streaming slot s).2.2 =
    s.2 ++ if streaming then (trySlot b request streaming slot s).1.stream.events else [] := by
  rw [trySlot_stream]
  unfold trySlot
  cases streaming with
  | false =>
    simp only [Bool.false_eq_true, if_false]
    repeat' split
    all_goals exact (List.append_nil _).symm
  | true =>
    simp only [if_true]
    repeat' split
    all_goals exact AttemptSink.drive_inner _ _

theorem trySlot_target : (trySlot b request streaming slot s).1.ending.outcome.target =
    reportedTarget slot (trySlot b request streaming slot s).1.stream := by
  rw [trySlot_stream, reportedTarget]
  unfold trySlot
  dsimp only
  split
  · next hq => rw [hq]; rfl
  · next hq => rw [hq]; rfl
  next hq =>
  rw [hq]
  dsimp only
  repeat' split
  all_goals rfl

theorem trySlot_proceeds : (trySlot b request streaming slot s).1.ending.proceeds = true ↔
    (trySlot b request streaming slot s).1.Continues streaming := by
  unfold trySlot
  dsimp only
  split
  · next hq =>
    refine ⟨fun h => (by cases h), fun h => ?_⟩
    obtain ⟨e, he, -⟩ := h.failed
    exact absurd (hq.symm.trans he) (by simp)
  · next hq =>
    refine ⟨fun h => (by cases h), fun h => ?_⟩
    obtain ⟨e, he, -⟩ := h.failed
    exact absurd (hq.symm.trans he) (by simp)
  next e hq =>
  have hfailed : (b.send s.1 (attemptRequest request slot.target slot.fallback) slot.target).reply =
      .returns (.error e) := hq
  rw [AttemptSink.drive_emitted, withTargetContext_kind, withTargetContext_retryable]
  split
  · next hterminal =>
    refine ⟨fun h => (by cases h), fun h => ?_⟩
    obtain ⟨e', he', hkind, hretryable⟩ := h.failed
    obtain rfl : e = e' := by simpa using hfailed.symm.trans he'
    simp only [Bool.or_eq_true, beq_iff_eq, Bool.not_eq_eq_eq_not, Bool.not_true, Bool.and_eq_true,
      Bool.false_or, List.isEmpty_eq_false_iff] at hterminal
    rcases hterminal with (hcancelled | hfinal) | ⟨hstreaming, hevents⟩
    · exact absurd hcancelled hkind
    · exact absurd hfinal (by rw [hretryable]; simp)
    · exact absurd (h.silent hstreaming) hevents
  next hgoes =>
  simp only [Bool.or_eq_true, beq_iff_eq, Bool.not_eq_eq_eq_not, Bool.not_true, Bool.and_eq_true,
    Bool.false_or, List.isEmpty_eq_false_iff, not_or, not_and, not_not, Bool.not_eq_false] at hgoes
  obtain ⟨⟨hkind, hretryable⟩, hsilent⟩ := hgoes
  split
  · exact ⟨fun _ => ⟨⟨e, hfailed, hkind, hretryable⟩, hsilent, fun _ h => by cases h⟩, fun _ => rfl⟩
  split
  · split
    · next e' hslept =>
      exact ⟨fun h => (by cases h), fun h => absurd rfl (h.rested e')⟩
    · exact ⟨fun _ => ⟨⟨e, hfailed, hkind, hretryable⟩, hsilent, fun _ h => by cases h⟩,
        fun _ => rfl⟩
  · exact ⟨fun _ => ⟨⟨e, hfailed, hkind, hretryable⟩, hsilent, fun _ h => by cases h⟩, fun _ => rfl⟩

end Attempts

section Runs

variable (b : StreamBackend) (request : Request) (streaming : Bool)

theorem targetSlots_length (target : ModelTarget) (fallback : Bool) (left : Nat)
    (attempt : UInt32) :
    (targetSlots target fallback left attempt).length = left := by
  induction left generalizing attempt with
  | zero => rfl
  | succ left ih => rw [targetSlots, List.length_cons, ih]

theorem slots_length (route : Route) :
    (slots request route).length = (1 + route.fallbacks.length) *
      request.retry.maxAttempts.toNat := by
  have hlength : ∀ l : List (ModelTarget × Bool),
      (l.flatMap fun t => targetSlots t.1 t.2 request.retry.maxAttempts.toNat 1).length =
        l.length * request.retry.maxAttempts.toNat := by
    intro l
    induction l with
    | nil => exact (Nat.zero_mul _).symm
    | cons t rest ih =>
      rw [List.flatMap_cons, List.length_append, targetSlots_length, ih, List.length_cons,
        Nat.succ_mul, Nat.add_comm]
  rw [slots, hlength, targets, List.length_cons, List.length_map, Nat.add_comm]

/-- The sink of the caller is given the streams one after the other. -/
theorem walk_seen (candidates : List Slot) (s : Nat × List SinkEvent) :
    let walked := Lib.tryEach (trySlot b request streaming)
      (fun t => t.ending.proceeds) candidates s
    walked.2.2 = s.2 ++ if streaming then walked.1.flatMap fun t => t.2.stream.events else [] := by
  induction candidates generalizing s with
  | nil => cases streaming <;> exact (List.append_nil _).symm
  | cons slot rest ih =>
    have hseen := trySlot_seen b request streaming slot s
    have hrest := ih (trySlot b request streaming slot s).2
    dsimp only at hrest ⊢
    rw [Lib.tryEach]
    split
    · dsimp only
      rw [hrest, hseen]
      cases streaming with
      | false => simp
      | true => simp
    · dsimp only
      rw [hseen]
      simp

theorem walk_ending {route : Route} {s : Nat × List SinkEvent} {t : Slot × Tried}
    (ht : t ∈ (walk b request streaming route s).1) : ∃ s',
      t.2 = (trySlot b request streaming t.1 s').1 := by
  unfold walk at ht
  generalize slots request route = candidates at ht
  induction candidates generalizing s with
  | nil => cases ht
  | cons slot rest ih =>
    rw [Lib.tryEach] at ht
    split at ht
    · rcases List.mem_cons.mp ht with rfl | ht
      · exact ⟨s, rfl⟩
      · exact ih ht
    · obtain rfl := List.mem_singleton.mp ht
      exact ⟨s, rfl⟩

/-- The attempts of a run are a first part of the slots of its route. Each of them but the
last is followed by another because it returned a retryable error before any callback and
rested; the last one does not ask for another, or it was the last slot. The sink of the
caller is given the callbacks of the last attempt only, and its target is reported. The
thinking budget of an attempt depends on the request and on its own target. -/
theorem retry_and_fallback (b : StreamBackend) (request : Request) (route : Route)
    (streaming : Bool) (tick : Nat) (seen : List SinkEvent) :
    let ran := run b.backend request route streaming tick
    let walked := walk b request streaming route (tick, seen)
    ran.2.1 = walked.1.map (sentAttempt request) ∧
    walked.1.map Prod.fst <+: slots request route ∧
    ran.2.1.length ≤ (1 + route.fallbacks.length) * request.retry.maxAttempts.toNat ∧
    (∀ t ∈ walked.1.dropLast, t.2.Continues streaming) ∧
    (walked.1.map Prod.fst = slots request route ∨
      ∃ t, walked.1.getLast? = some t ∧ ¬ t.2.Continues streaming) ∧
    (∀ t, walked.1.getLast? = some t →
      ran.1.target = reportedTarget t.1 t.2.stream ∧
      walked.2.2 = seen ++ if streaming then t.2.stream.events else []) ∧
    (walked.1 = [] → walked.2.2 = seen ∧ ran.1.target = attribution route.primary false) ∧
    ∀ t ∈ walked.1, (sentAttempt request t).request.thinkingBudget =
      thinkingPolicy request.thinkingBudget t.1.target t.1.fallback := by
  intro ran walked
  obtain ⟨hattempts, houtcome⟩ := run_eq b request route streaming tick seen
  have hprefix : walked.1.map Prod.fst <+: slots request route := Lib.tryEach_prefix _ _ _ _
  have hcontinues : ∀ t ∈ walked.1, t.2.ending.proceeds = true ↔ t.2.Continues streaming := by
    intro t ht
    obtain ⟨s', hs'⟩ := walk_ending b request streaming ht
    rw [hs']
    exact trySlot_proceeds b request streaming t.1 s'
  have hsilent : ∀ t ∈ walked.1.dropLast, t.2.Continues streaming := fun t ht =>
    (hcontinues t (List.mem_of_mem_dropLast ht)).mp (Lib.tryEach_again _ _ _ _ t ht)
  have hseen : walked.2.2 = seen ++ if streaming then walked.1.flatMap fun t => t.2.stream.events
      else [] :=
    walk_seen b request streaming _ _
  refine ⟨hattempts, hprefix, ?_, hsilent, ?_, fun t ht => ⟨?_, ?_⟩, fun hnil => ⟨?_, ?_⟩,
    fun t _ => attemptRequest_policy request _ _⟩
  · show (run b.backend request route streaming tick).2.1.length ≤ _
    rw [hattempts, List.length_map, ← slots_length request route]
    simpa using hprefix.length_le
  · by_cases hlast : ∀ t, walked.1.getLast? = some t → t.2.ending.proceeds = true
    · exact .inl (Lib.tryEach_exhausted _ _ _ _ hlast)
    · push Not at hlast
      obtain ⟨t, ht, hends⟩ := hlast
      refine .inr ⟨t, ht, fun h => hends ?_⟩
      exact (hcontinues t (List.mem_of_getLast? ht)).mpr h
  · obtain ⟨s', hs'⟩ := walk_ending b request streaming (List.mem_of_getLast? ht)
    show (run b.backend request route streaming tick).1.target = _
    rw [houtcome t ht, hs']
    exact trySlot_target b request streaming t.1 s'
  · rw [hseen]
    cases hstreaming : streaming with
    | false => rfl
    | true =>
      have hsplit : walked.1 = walked.1.dropLast ++ [t] := (List.dropLast_append_getLast? t ht).symm
      have hquiet : (walked.1.dropLast.flatMap fun t => t.2.stream.events) = [] :=
        List.flatMap_eq_nil_iff.mpr fun u hu => (hsilent u hu).silent hstreaming
      rw [hsplit, List.flatMap_append, hquiet]
      simp
  · rw [hseen, hnil]
    cases streaming <;> exact List.append_nil _
  · have hslots : walked.1.map Prod.fst = slots request route :=
      Lib.tryEach_exhausted _ _ _ _ fun t ht => by
        rw [show (Lib.tryEach _ _ _ _).1 = [] from hnil] at ht
        cases ht
    have hzero : request.retry.maxAttempts.toNat = 0 := by
      have hlength := slots_length request route
      rw [← hslots, hnil] at hlength
      have hpos : 0 < 1 + route.fallbacks.length := by omega
      exact (Nat.mul_eq_zero.mp hlength.symm).resolve_left hpos.ne'
    show (run b.backend request route streaming tick).1.target = _
    rw [run, if_pos (beq_iff_eq.mpr (UInt32.toNat_inj.mp hzero))]

end Runs

end Execution

end Orangutan.Provider
