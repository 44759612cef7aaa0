import Orangutan.Agent.Loop

/-!
# The exits of an iteration

Every proof about a turn follows the same path through an iteration. The path is
inverted once; an invariant of the turn is then a fact about each function on it.
-/

namespace Orangutan.Agent

set_option autoImplicit false

open Orangutan.Core Orangutan.Provider

/-- Two turns with the same log, view and transcript. -/
structure Turn.Same (next turn : Turn) : Prop where
  log : next.progress.log = turn.progress.log
  view : next.view = turn.view
  transcript : next.transcript = turn.transcript

section Iterations

variable (env : TurnEnv) (loop : Loop) (inputs : RunTurnInputs) (tools : List ToolDef)

theorem failTurn_same {α : Type} {error : Error} {turn next : Turn} {result : Result α}
    (h : failTurn env inputs error turn = (result, next)) : (∃ e, result = .error e) ∧
      next.Same turn := by
  unfold failTurn at h
  split at h
  · cases h
    exact ⟨⟨_, rfl⟩, rfl, rfl, rfl⟩
  dsimp only at h
  split at h
  · cases h
    exact ⟨⟨_, rfl⟩, rfl, rfl, rfl⟩
  · cases h
    exact ⟨⟨_, rfl⟩, rfl, rfl, rfl⟩

/-- What the checks before any reading establish. -/
structure Accepted (inputs : RunTurnInputs) : Prop where
  options : validateContextOptions inputs.context = .ok ()
  nonneg : 0 ≤ inputs.checkpoint.coveredSequence
  inside : inputs.checkpoint.coveredSequence ≤ inputs.historyEnd
  revision : 0 ≤ inputs.checkpoint.revision
  summary : 0 < inputs.checkpoint.coveredSequence → inputs.checkpoint.summary ≠ []
  valid : inputs.checkpoint.summary ≠ [] →
    validateContextSummary inputs.checkpoint.summary inputs.context.summaryMaxBytes = .ok ()

theorem validateInputs_ok {tools : List ToolDef} (h : validateInputs env inputs = .ok tools) :
    Accepted inputs := by
  unfold validateInputs at h
  split at h
  · cases h
  split at h
  · cases h
  split at h
  · cases h
  next hoptions =>
  split at h
  · cases h
  next hcovered =>
  simp only [Bool.or_eq_true, Bool.and_eq_true, decide_eq_true_eq, not_or, not_and,
    List.isEmpty_iff, not_lt] at hcovered
  obtain ⟨⟨⟨hnonneg, hinside⟩, hrevision⟩, hsummary⟩ := hcovered
  split at h
  · cases h
  next hvalid =>
  refine ⟨hoptions, hnonneg, hinside, hrevision, hsummary, fun hne => ?_⟩
  rw [if_neg (by simpa using hne)] at hvalid
  exact hvalid

/-- The last message of a turn enters the log and the transcript. -/
def finished (turn : Turn) (response : Response) : Turn :=
  { turn with
    transcript := turn.transcript ++ [⟨.assistant, response.blocks, none⟩]
    progress := { turn.progress with log := turn.progress.log ++ [.answer response.blocks] } }

theorem finishTurn_cases {iteration : UInt32} {turn next : Turn} {response : Response}
    {out : Result RunTurnResult} (h : finishTurn env inputs iteration turn response = (out, next)) :
    next.Same (finished turn response) ∧
    ∀ r, out = .ok r → r.transcript = next.transcript ∧ r.checkpoint = next.view.checkpoint := by
  unfold finishTurn at h
  dsimp only at h
  split at h
  · cases h
    exact ⟨⟨rfl, rfl, rfl⟩, fun r hr => by cases hr; exact ⟨rfl, rfl⟩⟩
  split at h
  · cases h
    exact ⟨⟨rfl, rfl, rfl⟩, fun r hr => by cases hr⟩
  · cases h
    exact ⟨⟨rfl, rfl, rfl⟩, fun r hr => by cases hr; exact ⟨rfl, rfl⟩⟩

/-- A main request is noted with its reply. -/
theorem sendMain_log (turn : Turn) : ∃ checkpoint request attempts reply,
    (sendMain env loop inputs tools turn).2.progress.log =
      turn.progress.log ++ [Entry.main checkpoint request attempts reply] ∧
    (sendMain env loop inputs tools turn).2.toolUseIds = turn.toolUseIds ∧
    ∀ response, (sendMain env loop inputs tools turn).1 = .ok response → reply = .ok response := by
  unfold sendMain
  dsimp only
  split
  · exact ⟨_, _, _, _, rfl, rfl, fun response hr => (by cases hr)⟩
  · next hreply =>
    refine ⟨_, _, _, _, rfl, rfl, fun response hr => ?_⟩
    cases hr
    exact hreply

/-- The turn once its calls went to the scheduler. -/
def batched (turn : Turn) (response : Response) : Turn :=
  let turn := turn.push ⟨.assistant, response.blocks, none⟩ (.answer response.blocks)
  { turn with progress := { turn.progress with
    tick := turn.progress.tick + 1
    log := turn.progress.log ++ [.batch (toolUsesIn response.blocks)] } }

theorem runTools_cases {turn next : Turn} {response : Response} {out : Result Unit}
    (h : runTools env inputs turn response = (out, next)) :
    (∃ e, out = .error e ∧ (next = turn ∨ next = batched turn response)) ∨
    ∃ rows results, runBatch inputs.scheduler (toolUsesIn response.blocks)
        (env.batchCancelled turn.progress.tick) (env.batchEvents turn.progress.tick) = .ok rows ∧
      collectToolResults rows = .ok results ∧ out = .ok () ∧
      next = (batched turn response).push ⟨.tool, results, none⟩ (.results results) := by
  unfold runTools at h
  dsimp only at h
  split at h
  · cases h
    exact .inl ⟨_, rfl, .inl rfl⟩
  split at h
  · cases h
    exact .inl ⟨_, rfl, .inl rfl⟩
  split at h
  · cases h
    exact .inl ⟨_, rfl, .inr rfl⟩
  next rows hrows =>
  split at h
  · cases h
    exact .inl ⟨_, rfl, .inr rfl⟩
  · next results hresults =>
    cases h
    exact .inr ⟨rows, results, hrows, hresults, rfl, rfl⟩

/-- The exits of an iteration, in order. The turns in between are those after the inbox,
the fitting and the main request. -/
theorem runIteration_cases {iteration : UInt32} {turn next : Turn}
    {out : Result (Option RunTurnResult)}
    (h : runIteration env loop inputs tools iteration turn = (out, next)) :
    ∃ read fit sent, (readTurnInbox env inputs turn).2 = read ∧
      (fitView env loop inputs tools read).2 = fit ∧ (sendMain env loop inputs tools fit).2 = sent ∧
      ((∃ e, out = .error e ∧ (next.Same read ∨
        (readTurnInbox env inputs turn).1 = .ok () ∧ next.Same fit)) ∨
      (readTurnInbox env inputs turn).1 = .ok () ∧ (fitView env loop inputs tools read).1 = .ok () ∧
        ((∃ e, out = .error e ∧ next.Same sent) ∨
        ∃ response ids, (sendMain env loop inputs tools fit).1 = .ok response ∧
          admitResponse sent response = .ok ids ∧
          ((∃ e, out = .error e ∧ next.Same
            (runTools env inputs { sent with toolUseIds := ids } response).2) ∨
          (out = .ok none ∧ runTools env inputs { sent with toolUseIds := ids } response =
            (.ok (), next)) ∨
          (toolUsesIn response.blocks = [] ∧
            ∃ result, finishTurn env inputs iteration { sent with toolUseIds := ids } response =
              (result, next) ∧
              out = result.map some)))) := by
  refine ⟨_, _, _, rfl, rfl, rfl, ?_⟩
  unfold runIteration at h
  split at h
  · next e read hq =>
    rw [hq]
    obtain ⟨⟨e, rfl⟩, hsame⟩ := failTurn_same env inputs h
    exact .inl ⟨e, rfl, .inl hsame⟩
  next read hq =>
  rw [hq]
  dsimp only
  split at h
  · next e fit hq =>
    rw [hq]
    obtain ⟨⟨e, rfl⟩, hsame⟩ := failTurn_same env inputs h
    exact .inl ⟨e, rfl, .inr ⟨rfl, hsame⟩⟩
  next fit hq =>
  rw [hq]
  dsimp only
  refine .inr ⟨rfl, rfl, ?_⟩
  split at h
  · next e sent hq =>
    rw [hq]
    obtain ⟨⟨e, rfl⟩, hsame⟩ := failTurn_same env inputs h
    exact .inl ⟨e, rfl, hsame⟩
  next response sent hq =>
  rw [hq]
  dsimp only at h ⊢
  split at h
  · obtain ⟨⟨e, rfl⟩, hsame⟩ := failTurn_same env inputs h
    exact .inl ⟨e, rfl, hsame⟩
  next ids hids =>
  refine .inr ⟨response, ids, rfl, hids, ?_⟩
  split at h
  · split at h
    · next e ran hq =>
      rw [hq]
      obtain ⟨⟨e, rfl⟩, hsame⟩ := failTurn_same env inputs h
      exact .inl ⟨e, rfl, hsame⟩
    · next ran hq =>
      cases h
      exact .inr (.inl ⟨rfl, hq⟩)
  · next huses =>
    simp only [Bool.or_eq_true, not_or, Bool.not_eq_true, Bool.not_eq_false',
      List.isEmpty_iff] at huses
    refine .inr (.inr ⟨huses.2, ?_⟩)
    split at h
    · next e done hq =>
      cases h
      exact ⟨_, hq, rfl⟩
    · next r done hq =>
      cases h
      exact ⟨_, hq, rfl⟩

/-- An invariant of whole turns, by what each function on the path does to it: `I` holds
between the steps, `S` after a main response, `E` at every exit and `R` of a result. -/
structure IterationRule (I : Turn → Prop) (S : Response → Turn → Prop) (E : Turn → Prop)
    (R : RunTurnResult → Turn → Prop) : Prop where
  exit : ∀ {turn}, I turn → E turn
  same : ∀ {turn next}, E turn → next.Same turn → E next
  read : ∀ {turn}, I turn → I (readTurnInbox env inputs turn).2
  fit : ∀ {turn}, I turn → I (fitView env loop inputs tools turn).2
  send : ∀ {turn}, I turn → inputs.context.count { budgetFrame loop inputs tools with
      messages := contextMessages turn.view } ≤ inputs.context.maxTokens →
    E (sendMain env loop inputs tools turn).2 ∧
      ∀ response, (sendMain env loop inputs tools turn).1 = .ok response →
        S response (sendMain env loop inputs tools turn).2
  runs : ∀ {turn response ids out next}, S response turn → admitResponse turn response = .ok ids →
    runTools env inputs { turn with toolUseIds := ids } response = (out, next) →
      E next ∧ (out = .ok () → I next)
  finish : ∀ {iteration turn response ids out next}, S response turn →
    admitResponse turn response = .ok ids → toolUsesIn response.blocks = [] →
    finishTurn env inputs iteration { turn with toolUseIds := ids } response = (out, next) →
      E next ∧ ∀ r, out = .ok r → R r next

variable {env loop inputs tools}

theorem fitView_budget {turn : Turn} {u : Unit}
    (h : (fitView env loop inputs tools turn).1 = .ok u) :
    inputs.context.count { budgetFrame loop inputs tools with
      messages := contextMessages (fitView env loop inputs tools turn).2.view } ≤
        inputs.context.maxTokens :=
  fitContext_budget (summarize env loop) inputs.context (budgetFrame loop inputs tools)
    (env.cancelled turn.progress.tick) turn.view { turn.progress with tick :=
      turn.progress.tick + 1 } h

namespace IterationRule

variable {I : Turn → Prop} {S : Response → Turn → Prop} {E : Turn → Prop} {R : RunTurnResult →
  Turn → Prop}

theorem iteration (rule : IterationRule env loop inputs tools I S E R) {iteration : UInt32}
    {turn next : Turn} {out : Result (Option RunTurnResult)} (h : I turn)
    (hrun : runIteration env loop inputs tools iteration turn = (out, next)) :
    E next ∧ (∀ r, out = .ok (some r) → R r next) ∧ (out = .ok none → I next) := by
  obtain ⟨_, _, _, rfl, rfl, rfl, hcases⟩ := runIteration_cases env loop inputs tools hrun
  have hread := rule.read h
  have hfit := rule.fit hread
  have herror {last : Turn} {e : Error} (hlast : E last) (hsame : next.Same last)
      (hout : out = .error e) : E next ∧ (∀ r, out = .ok (some r) → R r next) ∧
        (out = .ok none → I next) := by
    subst hout
    exact ⟨rule.same hlast hsame, fun r hr => (by cases hr), fun hr => (by cases hr)⟩
  rcases hcases with ⟨e, hout, hsame | ⟨-, hsame⟩⟩ | ⟨-, hok, hcases⟩
  · exact herror (rule.exit hread) hsame hout
  · exact herror (rule.exit hfit) hsame hout
  obtain ⟨hsent, hresponse⟩ := rule.send hfit (fitView_budget hok)
  rcases hcases with ⟨e, hout, hsame⟩ | ⟨response, ids, hreply, hids, hcases⟩
  · exact herror hsent hsame hout
  have hs := hresponse response hreply
  rcases hcases with ⟨e, hout, hsame⟩ | ⟨hout, htools⟩ | ⟨huses, result, hfinish, hout⟩
  · exact herror (rule.runs hs hids rfl).1 hsame hout
  · obtain ⟨hexit, hmore⟩ := rule.runs hs hids htools
    refine ⟨hexit, fun r hr => ?_, fun _ => hmore rfl⟩
    rw [hout] at hr
    cases hr
  · obtain ⟨hexit, hreturn⟩ := rule.finish hs hids huses hfinish
    subst hout
    cases result with
    | error e => exact ⟨hexit, fun r hr => (by cases hr), fun hr => (by cases hr)⟩
    | ok result =>
      refine ⟨hexit, fun r hr => ?_, fun hr => (by cases hr)⟩
      cases hr
      exact hreturn result rfl

theorem iterate (rule : IterationRule env loop inputs tools I S E R) (left : Nat)
    {iteration : UInt32} {turn next : Turn} {out : Result RunTurnResult} (h : I turn)
    (hrun : Agent.iterate env loop inputs tools left iteration turn = (out, next)) :
    E next ∧ ∀ r, out = .ok r → R r next := by
  induction left generalizing iteration turn with
  | zero =>
    rw [Agent.iterate] at hrun
    split at hrun
    · cases hrun
      exact ⟨rule.exit h, fun r hr => (by cases hr)⟩
    · obtain ⟨⟨e, rfl⟩, hsame⟩ := failTurn_same env inputs hrun
      exact ⟨rule.same (rule.exit h) hsame, fun r hr => (by cases hr)⟩
  | succ left ih =>
    rw [Agent.iterate] at hrun
    split at hrun
    · next e last hq =>
      cases hrun
      exact ⟨(rule.iteration h hq).1, fun r hr => (by cases hr)⟩
    · next r last hq =>
      cases hrun
      obtain ⟨hexit, hreturn, -⟩ := rule.iteration h hq
      refine ⟨hexit, fun r hr => ?_⟩
      cases hr
      exact hreturn _ rfl
    · next last hq => exact ih ((rule.iteration h hq).2.2 rfl) hrun

end IterationRule

end Iterations

end Orangutan.Agent
