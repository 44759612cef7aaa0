import Orangutan.Agent.Coherence

/-!
# Every request fits the token budget

A view is fitted with the largest thinking budget of the route reserved, and each
attempt carries one of the budgets that this reserve covers.
-/

namespace Orangutan.Agent

set_option autoImplicit false

open Orangutan.Core Orangutan.Provider

/-- The tokens a request may use: its counted input, its output and its thinking. -/
def ContextOptions.tokens (options : ContextOptions) (request : Request) : Nat :=
  (options.input request).toNat +
    ((request.maxTokens.getD 4096).toNat + (request.thinkingBudget.getD 0).toNat)

/-- The counter of the host reads messages, tools and system prompt only. -/
def ContextOptions.CountsInput (options : ContextOptions) : Prop :=
  ∀ count, options.countTokens = some count → ∀ a b : Request,
    a.messages = b.messages → a.tools = b.tools → a.systemPrompt = b.systemPrompt →
      count a = count b

theorem ContextOptions.CountsInput.input_eq {options : ContextOptions} (h : options.CountsInput)
    {a b : Request} (hmessages : a.messages = b.messages) (htools : a.tools = b.tools)
    (hprompt : a.systemPrompt = b.systemPrompt) : options.input a = options.input b := by
  unfold ContextOptions.input
  split
  · next count hcount => exact h count hcount a b hmessages htools hprompt
  · rw [estimateInputTokens, estimateInputTokens, hmessages, htools, hprompt]

theorem le_maxBudget_left (a b : UInt32) : a.toNat ≤ (maxBudget a b).toNat := by
  unfold maxBudget
  split
  · next h => exact Nat.le_of_lt (UInt32.lt_iff_toNat_lt.mp h)
  · exact Nat.le_refl _

theorem le_maxBudget_right (a b : UInt32) : b.toNat ≤ (maxBudget a b).toNat := by
  unfold maxBudget
  split
  · exact Nat.le_refl _
  · next h => exact UInt32.le_iff_toNat_le.mp (UInt32.not_lt.mp h)

/-- The fold over the fallbacks covers its start and every fallback. -/
theorem foldl_reserve (fallbacks : List ModelTarget) (start : UInt32) :
    start.toNat ≤ (fallbacks.foldl (fun reserve target =>
      maxBudget reserve (target.thinkingBudget.getD 0)) start).toNat ∧
    ∀ target ∈ fallbacks, (target.thinkingBudget.getD 0).toNat ≤
      (fallbacks.foldl (fun reserve target =>
        maxBudget reserve (target.thinkingBudget.getD 0)) start).toNat := by
  induction fallbacks generalizing start with
  | nil => exact ⟨Nat.le_refl _, fun target h => by cases h⟩
  | cons first rest ih =>
    obtain ⟨hstart, hrest⟩ := ih (maxBudget start (first.thinkingBudget.getD 0))
    refine ⟨Nat.le_trans (le_maxBudget_left _ _) hstart, fun target htarget => ?_⟩
    rcases List.mem_cons.mp htarget with rfl | htarget
    · exact Nat.le_trans (le_maxBudget_right _ _) hstart
    · exact hrest target htarget

/-- An attempt at any target thinks within the reserve. -/
theorem attempt_thinking (loop : Loop) (inputs : RunTurnInputs) {request : Request}
    (hrequest : request.thinkingBudget = thinkingBudget loop inputs) {t : ModelTarget × Bool}
    (ht : t ∈ Execution.targets loop.route) :
    ((Execution.attemptRequest request t.1 t.2).thinkingBudget.getD 0).toNat ≤
      (thinkingReserve loop inputs).toNat := by
  obtain ⟨hstart, hfallbacks⟩ := foldl_reserve loop.route.fallbacks
    (maxBudget ((thinkingBudget loop inputs).getD 0) (loop.route.primary.thinkingBudget.getD 0))
  have hframe : ((thinkingBudget loop inputs).getD 0).toNat ≤ (thinkingReserve loop inputs).toNat :=
    Nat.le_trans (le_maxBudget_left _ _) hstart
  rcases Execution.attemptRequest_thinkingBudget request t.1 t.2 with hq | ⟨hfallback, hq⟩ | hq
  · rw [hq, hrequest]
    exact hframe
  · rw [hq]
    rcases List.mem_cons.mp ht with rfl | ht
    · cases hfallback
    · obtain ⟨target, htarget, rfl⟩ := List.mem_map.mp ht
      exact hfallbacks target htarget
  · rw [hq]
    exact Nat.zero_le _

/-- The summary route has no thinking budgets. -/
theorem summary_thinking {route : Route} {request : Request}
    (hrequest : request.thinkingBudget = none) {t : ModelTarget × Bool}
    (ht : t ∈ Execution.targets (summaryRoute route)) :
    (Execution.attemptRequest request t.1 t.2).thinkingBudget = none := by
  have hnone : t.1.thinkingBudget = none := by
    rcases List.mem_cons.mp ht with rfl | ht
    · rfl
    · obtain ⟨target, htarget, rfl⟩ := List.mem_map.mp ht
      obtain ⟨original, -, rfl⟩ := List.mem_map.mp htarget
      rfl
  rcases Execution.attemptRequest_thinkingBudget request t.1 t.2 with hq | ⟨-, hq⟩ | hq
  · rw [hq, hrequest]
  · rw [hq, hnone]
  · exact hq

/-- A request that fits with some budget reserved fits with any smaller one. -/
theorem tokens_le {options : ContextOptions} (hcounter : options.CountsInput)
    (hmax : options.maxTokens.toNat ≤ 16777216) {counted sent : Request}
    (hfits : options.count counted ≤ options.maxTokens) (hmessages : sent.messages =
      counted.messages)
    (htools : sent.tools = counted.tools) (hprompt : sent.systemPrompt = counted.systemPrompt)
    (houtput : sent.maxTokens = counted.maxTokens)
    (hthinking : (sent.thinkingBudget.getD 0).toNat ≤ (counted.thinkingBudget.getD 0).toNat) :
    options.tokens sent ≤ options.maxTokens.toNat := by
  have hcounted := count_le hmax hfits
  rw [ContextOptions.tokens, hcounter.input_eq hmessages htools hprompt, houtput]
  omega

/-- Every attempt of a turn stays within the budget, and no size computation of
`fit_context` wraps. -/
theorem context_budget (env : TurnEnv) (loop : Loop) (inputs : RunTurnInputs)
    (hcounter : inputs.context.CountsInput) :
    (∀ checkpoint request attempts reply,
      .main checkpoint request attempts reply ∈ (runTurn env loop inputs).2 →
      ∀ a ∈ attempts, inputs.context.tokens a.request ≤ inputs.context.maxTokens.toNat) ∧
    (∀ request attempts, .summary request attempts ∈ (runTurn env loop inputs).2 →
      ∀ a ∈ attempts, inputs.context.tokens a.request ≤ inputs.context.maxTokens.toNat) ∧
    (validateContextOptions inputs.context = .ok () →
      (inputs.context.maxTokens * 3).toNat = inputs.context.maxTokens.toNat * 3 ∧
      ∀ request, (inputs.context.count request).toNat =
          min (inputs.context.input request).toNat (inputs.context.maxTokens.toNat + 1) +
            ((request.maxTokens.getD 4096).toNat + (request.thinkingBudget.getD 0).toNat) ∧
        (inputs.context.count request + inputs.context.summaryMaxBytes + 256).toNat =
          (inputs.context.count request).toNat + inputs.context.summaryMaxBytes.toNat + 256) := by
  refine ⟨?_, ?_, fun hoptions => ?_⟩
  · intro checkpoint request attempts reply hmem a ha
    rcases runTurn_sound env loop inputs with ⟨e, he⟩ | ⟨tools, haccepted, hlog, -⟩
    · rw [he] at hmem
      cases hmem
    obtain ⟨before, after, hq⟩ := List.append_of_mem hmem
    obtain ⟨-, -, -, hframe, -, hcount, hattempts⟩ := hlog before _ after hq
    obtain ⟨t, ht, rfl⟩ := hattempts a ha
    have hthinking : request.thinkingBudget = thinkingBudget loop inputs := by rw [hframe]; rfl
    refine tokens_le hcounter (validOptions_bounds haccepted.options).2.1 hcount ?_ ?_ ?_ ?_
      (attempt_thinking loop inputs hthinking ht)
    · rw [Execution.attemptRequest_eq]
    · rw [Execution.attemptRequest_eq, hframe]; rfl
    · rw [Execution.attemptRequest_eq, hframe]; rfl
    · rw [Execution.attemptRequest_eq, hframe]; rfl
  · intro request attempts hmem a ha
    rcases runTurn_sound env loop inputs with ⟨e, he⟩ | ⟨tools, haccepted, hlog, -⟩
    · rw [he] at hmem
      cases hmem
    obtain ⟨before, after, hq⟩ := List.append_of_mem hmem
    obtain ⟨hcount, hnone, hattempts⟩ := hlog before _ after hq
    obtain ⟨t, ht, rfl⟩ := hattempts a ha
    refine tokens_le hcounter (validOptions_bounds haccepted.options).2.1 hcount ?_ ?_ ?_ ?_ ?_
    · rw [Execution.attemptRequest_eq]
    · rw [Execution.attemptRequest_eq]
    · rw [Execution.attemptRequest_eq]
    · rw [Execution.attemptRequest_eq]
    · rw [summary_thinking hnone ht]
      exact Nat.zero_le _
  · obtain ⟨-, hmax, hsummary⟩ := validOptions_bounds hoptions
    refine ⟨?_, fun request => ⟨count_toNat hmax request, ?_⟩⟩
    · rw [UInt64.toNat_mul]
      show inputs.context.maxTokens.toNat * 3 % 2 ^ 64 = _
      omega
    · have houtput := (request.maxTokens.getD 4096).toNat_lt
      have hthinking := (request.thinkingBudget.getD 0).toNat_lt
      have hcount := count_toNat hmax request
      rw [UInt64.toNat_add, UInt64.toNat_add]
      show (((inputs.context.count request).toNat + inputs.context.summaryMaxBytes.toNat) % 2 ^
        64 + 256) %
        2 ^ 64 = _
      omega

theorem context_budget_fallback :
    ∃ checkpoint request attempts reply,
      .main checkpoint request attempts reply ∈ (runTurn Sample.env Sample.loop Sample.inputs).2 ∧
      ∃ a ∈ attempts, a.request.thinkingBudget = some 64 ∧
        Sample.inputs.context.tokens a.request ≤ 4096 := by
  obtain ⟨e, he, hthinks⟩ := List.any_eq_true.mp Sample.turn_ok.2.2
  cases e with
  | main checkpoint request attempts reply =>
    obtain ⟨a, ha, hbudget⟩ := List.any_eq_true.mp hthinks
    refine ⟨checkpoint, request, attempts, reply, he, a, ha, by simpa using hbudget, ?_⟩
    refine (context_budget Sample.env Sample.loop Sample.inputs ?_).1 checkpoint request attempts
      reply he a ha
    rintro count hcount a b hmessages - -
    obtain rfl : (fun request : Request => 500 * request.messages.length.toUInt64) = count := by
      simpa [Sample.inputs] using hcount
    show 500 * a.messages.length.toUInt64 = 500 * b.messages.length.toUInt64
    rw [hmessages]
  | _ => cases hthinks

end Orangutan.Agent
