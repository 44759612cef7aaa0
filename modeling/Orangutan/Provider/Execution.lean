import Orangutan.Provider.Types

/-!
# Provider execution

Every target of the route is tried in turn, each up to `max_attempts` times. A
fallback target may replace the thinking budget of the request. The attempts that
reach the backend are recorded in order.
-/

namespace Orangutan.Provider

set_option autoImplicit false

open Orangutan.Core

/-- A request as one target received it. -/
structure Attempt where
  request : Request
  target : ModelTarget

/-- The provider backend and the clock, by position in the order of use. -/
structure Backend where
  send : Nat → Request → ModelTarget → Sending
  sleep : Nat → Result Unit

namespace Execution

def withTargetContext (error : Error) (target : Attribution)
    (attempt maxAttempts : UInt32) : Error :=
  error
    |>.note "provider_profile" target.profile
    |>.note "provider_model" target.model
    |>.note "protocol" target.protocol.name
    |>.note "route_role" (if target.fallback then text "fallback" else text "primary")
    |>.note "attempt" (decimal attempt.toNat)
    |>.note "max_attempts" (decimal maxAttempts.toNat)

/-- Fallback policy replaces the primary's thinking override when specified. -/
def applyFallbackThinkingPolicy (request : Request) (target : ModelTarget) : Request :=
  if target.thinkingBudget.isSome then { request with thinkingBudget := target.thinkingBudget }
  else if target.protocol != .anthropicMessages then { request with thinkingBudget := none }
  else request

/-- The request as an attempt at the target carries it. -/
def attemptRequest (request : Request) (target : ModelTarget) (fallback : Bool) : Request :=
  if fallback then applyFallbackThinkingPolicy request target else request

def attribution (target : ModelTarget) (fallback : Bool) : Attribution :=
  ⟨target.profile, target.model, target.protocol, fallback⟩

/-- The text of a thrown error, as the handlers of `run` report it. -/
def thrownError (aborted : Bool) : Error :=
  if aborted then .cancelled else .internal "provider execution failed unexpectedly"

/-- The model the endpoint reports replaces the one of the target. -/
def servedTarget (target : Attribution) (response : Response) : Attribution :=
  match response.modelUsed with
  | some model => if model.isEmpty then target else { target with model }
  | none => target

/-- An error after emitted events says that nothing else was tried. -/
def skippedError (emitted : Bool) (error : Error) : Error :=
  if emitted && error.retryable then
    (error.note "retry_skipped" (text "stream_already_emitted")).note "fallback_skipped"
      (text "stream_already_emitted")
  else error

/-- Milliseconds before the next attempt. -/
def retryDelay (error : Error) (retry : RetryPolicy) : Int :=
  max ((error.retryAfter.map Int.ofNat).getD retry.initialBackoff) retry.initialBackoff

/-- How the attempts at one target end: with the outcome of the whole run, or with an
error that the next target may still mend. -/
inductive TargetEnd
  | finish (outcome : Outcome)
  | proceed (outcome : Outcome)

def TargetEnd.outcome : TargetEnd → Outcome
  | finish outcome => outcome
  | proceed outcome => outcome

/-- The attempts at one target. `left` counts the attempts that remain, `attempt` the
one that comes next, `tick` the readings so far. -/
def runTarget (backend : Backend) (request : Request) (target : ModelTarget)
    (fallback streaming : Bool) :
    Nat → UInt32 → Outcome → Nat → TargetEnd × List Attempt × Nat
  | 0, _, outcome, tick => (.proceed outcome, [], tick)
  | left + 1, attempt, _, tick =>
    let attributed := attribution target fallback
    let sent := attemptRequest request target fallback
    let sending := backend.send tick sent target
    let maxAttempts := request.retry.maxAttempts
    let log := [⟨sent, target⟩]
    match sending.reply with
    | .throws aborted =>
      (.finish ⟨attributed, .error
        (withTargetContext (thrownError aborted) attributed attempt maxAttempts)⟩, log, tick + 1)
    | .returns (.ok response) =>
        (.finish ⟨servedTarget attributed response, .ok response⟩, log, tick + 1)
    | .returns (.error e) =>
      let error := withTargetContext e attributed attempt maxAttempts
      let emitted := streaming && sending.emitted
      let terminal := error.kind == .cancelled || !error.retryable || emitted
      let error := skippedError emitted error
      let outcome : Outcome := ⟨attributed, .error error⟩
      if terminal then (.finish outcome, log, tick + 1)
      else if attempt == maxAttempts then (.proceed outcome, log, tick + 1)
      else
        if 0 < retryDelay error request.retry then
          match backend.sleep (tick + 1) with
          | .error e =>
            (.finish ⟨attributed, .error (withTargetContext e attributed attempt maxAttempts)⟩,
              log, tick + 2)
          | .ok _ =>
            let (ending, rest, tick) :=
              runTarget backend request target fallback streaming left (attempt + 1) outcome
                (tick + 2)
            (ending, log ++ rest, tick)
        else
          let (ending, rest, tick) :=
            runTarget backend request target fallback streaming left (attempt + 1) outcome
              (tick + 1)
          (ending, log ++ rest, tick)

/-- The loop over the targets; the first one is the primary. -/
def runRoute (backend : Backend) (request : Request) (streaming : Bool) :
    List (ModelTarget × Bool) → Outcome → Nat → Outcome × List Attempt × Nat
  | [], outcome, tick => (outcome, [], tick)
  | (target, fallback) :: rest, outcome, tick =>
    match runTarget backend request target fallback streaming request.retry.maxAttempts.toNat 1
      outcome tick with
    | (.finish outcome, log, tick) => (outcome, log, tick)
    | (.proceed outcome, log, tick) =>
      let (outcome, more, tick) := runRoute backend request streaming rest outcome tick
      (outcome, log ++ more, tick)

/-- The targets of a route with their roles. -/
def targets (route : Route) : List (ModelTarget × Bool) :=
  (route.primary, false) :: route.fallbacks.map fun target => (target, true)

def run (backend : Backend) (request : Request) (route : Route) (streaming : Bool) (tick : Nat) :
    Outcome × List Attempt × Nat :=
  let primary := attribution route.primary false
  if request.retry.maxAttempts == 0 then
    (⟨primary,
      .error ((Error.invalidArgument "provider retry policy requires at least one attempt").note
      "field" (text "retry.max_attempts"))⟩, [], tick)
  else runRoute backend request streaming (targets route) ⟨primary, .ok { blocks := [] }⟩ tick

theorem runTarget_attempts (backend : Backend) (request : Request) (target : ModelTarget)
    (fallback streaming : Bool) (left : Nat) (attempt : UInt32) (outcome : Outcome) (tick : Nat) :
    ∀ a ∈ (runTarget backend request target fallback streaming left attempt outcome tick).2.1,
      a = ⟨attemptRequest request target fallback, target⟩ := by
  induction left generalizing attempt outcome tick with
  | zero => intro a ha; cases ha
  | succ left ih =>
    have hhead : ∀ a ∈ ([⟨attemptRequest request target fallback, target⟩] : List Attempt),
        a = ⟨attemptRequest request target fallback, target⟩ := fun a ha => List.mem_singleton.mp ha
    intro a ha
    rw [runTarget] at ha
    dsimp only at ha
    split at ha
    · exact hhead a ha
    · exact hhead a ha
    split at ha
    · exact hhead a ha
    split at ha
    · exact hhead a ha
    split at ha
    · split at ha
      · exact hhead a ha
      · rcases List.mem_append.mp ha with ha | ha
        · exact hhead a ha
        · exact ih _ _ _ a ha
    · rcases List.mem_append.mp ha with ha | ha
      · exact hhead a ha
      · exact ih _ _ _ a ha

theorem runRoute_attempts (backend : Backend) (request : Request) (streaming : Bool)
    (route : List (ModelTarget × Bool)) (outcome : Outcome) (tick : Nat) :
    ∀ a ∈ (runRoute backend request streaming route outcome tick).2.1,
      ∃ t ∈ route, a = ⟨attemptRequest request t.1 t.2, t.1⟩ := by
  induction route generalizing outcome tick with
  | nil => intro a ha; cases ha
  | cons t rest ih =>
    obtain ⟨target, fallback⟩ := t
    have hlog := runTarget_attempts backend request target fallback streaming
      request.retry.maxAttempts.toNat 1 outcome tick
    intro a ha
    rw [runRoute] at ha
    split at ha
    · next hq =>
      rw [hq] at hlog
      exact ⟨_, List.mem_cons_self, hlog a ha⟩
    · next hq =>
      rw [hq] at hlog
      rcases List.mem_append.mp ha with ha | ha
      · exact ⟨_, List.mem_cons_self, hlog a ha⟩
      · obtain ⟨t, ht, he⟩ := ih _ _ a ha
        exact ⟨t, List.mem_cons_of_mem _ ht, he⟩

/-- Every attempt sends the request to a target of the route, with the policy of the
target's role applied. -/
theorem run_attempts (backend : Backend) (request : Request) (route : Route) (streaming : Bool)
    (tick : Nat) : ∀ a ∈ (run backend request route streaming tick).2.1,
      ∃ t ∈ targets route, a = ⟨attemptRequest request t.1 t.2, t.1⟩ := by
  intro a ha
  unfold run at ha
  dsimp only at ha
  split at ha
  · cases ha
  · exact runRoute_attempts _ _ _ _ _ _ a ha

/-- An attempt changes the thinking budget at most. -/
theorem attemptRequest_eq (request : Request) (target : ModelTarget) (fallback : Bool) :
    attemptRequest request target fallback =
      { request with thinkingBudget :=
        (attemptRequest request target fallback).thinkingBudget } := by
  unfold attemptRequest applyFallbackThinkingPolicy
  split
  · split
    · rfl
    · split <;> rfl
  · rfl

/-- The budget an attempt carries is the request's, the fallback's, or none. -/
theorem attemptRequest_thinkingBudget (request : Request) (target : ModelTarget) (fallback : Bool) :
    (attemptRequest request target fallback).thinkingBudget = request.thinkingBudget ∨
    (fallback = true ∧ (attemptRequest request target fallback).thinkingBudget =
      target.thinkingBudget) ∨
    (attemptRequest request target fallback).thinkingBudget = none := by
  unfold attemptRequest applyFallbackThinkingPolicy
  split
  · next hf =>
    split
    · exact .inr (.inl ⟨hf, rfl⟩)
    · split
      · exact .inr (.inr rfl)
      · exact .inl rfl
  · exact .inl rfl

end Execution

end Orangutan.Provider
