import Orangutan.Agent.Coherence

/-!
# The summary that a turn returns

A checkpoint that a turn returns is the one it was given, or its summary was validated
when a compaction committed it. The transcript ends with an answer.
-/

namespace Orangutan.Agent

set_option autoImplicit false

open Orangutan.Core Orangutan.Core.Str Orangutan.Provider

theorem isPrefixOf_of_checkSections {heading next : Bytes} {rest : List Bytes} {t : Bytes}
    (h : checkSections (heading :: next :: rest) t = .ok ()) : heading.isPrefixOf t = true := by
  rw [checkSections] at h
  split at h
  · cases h
  · next hprefix => simpa using hprefix

/-- A valid summary is short, well formed and begins with a letter. -/
theorem validateContextSummary_ok {summary : Bytes} {maxBytes : UInt64}
    (h : validateContextSummary summary maxBytes = .ok ()) :
    summary.length ≤ maxBytes.toNat ∧ isValidUtf8 summary = true ∧ ∃ rest,
      summary = 0x4F :: rest := by
  unfold validateContextSummary at h
  split at h
  · cases h
  next hbounds =>
  simp only [Bool.or_eq_true, decide_eq_true_eq, not_or, not_lt, Bool.not_eq_eq_eq_not,
    Bool.not_true, Bool.not_eq_false] at hbounds
  obtain ⟨⟨hshort, hvalid⟩, -⟩ := hbounds
  refine ⟨hshort, hvalid, ?_⟩
  obtain ⟨rest, rfl⟩ := List.isPrefixOf_iff_prefix.mp (isPrefixOf_of_checkSections h)
  exact ⟨_, rfl⟩

theorem summaryVerdict_accept {options : ContextOptions} {reply : Reply} {summary : Bytes}
    (h : summaryVerdict options reply = .accept summary) :
    validateContextSummary summary options.summaryMaxBytes = .ok () := by
  unfold summaryVerdict at h
  split at h
  · cases h
  · cases h
  split at h
  · cases h
  split at h
  · cases h
  split at h
  · cases h
  split at h
  · cases h
  · next hvalid =>
    cases h
    exact hvalid

section Fit

variable {σ : Type} (send : Request → σ → Reply × σ) (options : ContextOptions) (frame : Request)
  (cancelled : Bool) (view : ContextView) (s : σ)

/-- A view keeps its checkpoint or gets one with a validated summary. -/
def Renewed (options : ContextOptions) (view next : ContextView) : Prop :=
  next.checkpoint = view.checkpoint ∨
    validateContextSummary next.checkpoint.summary options.summaryMaxBytes = .ok ()

theorem commitSummary_renewed {cut : Nat} (current : UInt64) {summary : Bytes}
    (hsummary : validateContextSummary summary options.summaryMaxBytes = .ok ()) :
    Renewed options view (commitSummary options frame view current cut summary).2 := by
  unfold commitSummary
  dsimp only
  split
  · exact .inl rfl
  split
  · split
    · exact .inl rfl
    · exact .inl rfl
  · exact .inr hsummary

theorem fitContext_renewed :
    Renewed options view (fitContext send options frame cancelled view s).2.1 := by
  unfold fitContext
  split
  · exact .inl rfl
  dsimp only
  split
  · exact .inl rfl
  split
  · split
    · exact .inl rfl
    · exact .inl rfl
  split
  · split
    · exact .inl rfl
    · exact .inl rfl
  split
  · exact .inl rfl
  · split
    · exact .inl rfl
    · exact .inl rfl
  · next hverdict =>
      exact commitSummary_renewed options frame view _ (summaryVerdict_accept hverdict)

end Fit

section Turns

variable {env : TurnEnv} {loop : Loop} {inputs : RunTurnInputs} {tools : List ToolDef} {turn : Turn}

/-- The checkpoint is the given one, or its summary is valid. -/
def Handoff (inputs : RunTurnInputs) (checkpoint : WorkingContext) : Prop :=
  checkpoint = inputs.checkpoint ∨
    validateContextSummary checkpoint.summary inputs.context.summaryMaxBytes = .ok ()

theorem fitView_handoff (h : Handoff inputs turn.view.checkpoint) :
    Handoff inputs (fitView env loop inputs tools turn).2.view.checkpoint := by
  rcases fitContext_renewed (summarize env loop) inputs.context (budgetFrame loop inputs tools)
    (env.cancelled turn.progress.tick) turn.view
    { turn.progress with tick := turn.progress.tick + 1 } with hsame | hvalid
  · exact Eq.mpr (congrArg (Handoff inputs) hsame) h
  · exact .inr hvalid

theorem loadPage_handoff {page : List Message} (h : Handoff inputs turn.view.checkpoint) :
    Handoff inputs (loadPage env loop inputs tools page turn).2.view.checkpoint := by
  induction page generalizing turn with
  | nil => exact h
  | cons message rest ih =>
    have hfit : Handoff inputs (fitView env loop inputs tools { turn with
        view := { turn.view with messages := turn.view.messages ++ [message] }
        progress := { turn.progress with log := turn.progress.log ++ [Entry.loaded message] }
      }).2.view.checkpoint := fitView_handoff h
    rw [loadPage]
    split
    · next hq =>
      rw [hq] at hfit
      exact hfit
    · next hq =>
      rw [hq] at hfit
      exact ih hfit

theorem loadHistory_handoff {fuel : Nat} {loaded : Int} (h : Handoff inputs turn.view.checkpoint) :
    Handoff inputs (loadHistory env loop inputs tools fuel loaded turn).2.view.checkpoint := by
  induction fuel generalizing loaded turn with
  | zero => exact h
  | succ fuel ih =>
    rw [loadHistory]
    split
    · split
      · exact h
      dsimp only
      split
      · exact h
      next page hpage =>
      split
      · exact h
      have hload : Handoff inputs (loadPage env loop inputs tools page { turn with
          progress := { turn.progress with tick := turn.progress.tick + 1 } }).2.view.checkpoint :=
        loadPage_handoff h
      split
      · next hq =>
        rw [hq] at hload
        exact hload
      · next hq =>
        rw [hq] at hload
        exact ih hload
    · exact h

theorem readTurnInbox_checkpoint :
    (readTurnInbox env inputs turn).2.view.checkpoint = turn.view.checkpoint := by
  unfold readTurnInbox
  repeat' split
  all_goals rfl

theorem sendMain_checkpoint : (sendMain env loop inputs tools turn).2.view.checkpoint =
    turn.view.checkpoint := by
  unfold sendMain
  dsimp only
  split
  · rfl
  · rfl

theorem runTools_checkpoint {response : Response} {out : Result Unit} {next : Turn}
    (h : runTools env inputs turn response = (out, next)) : next.view.checkpoint =
      turn.view.checkpoint := by
  rcases runTools_cases env inputs h with ⟨e, -, rfl | rfl⟩ | ⟨rows, results, -, -, -, rfl⟩
  · rfl
  · rfl
  · rfl

theorem handoffRule : IterationRule env loop inputs tools
    (fun turn => Handoff inputs turn.view.checkpoint)
    (fun _ turn => Handoff inputs turn.view.checkpoint) (fun _ => True)
    fun r _ => Handoff inputs r.checkpoint ∧ r.transcript ≠ [] where
  exit _ := trivial
  same _ _ := trivial
  read h := by rwa [readTurnInbox_checkpoint]
  fit h := fitView_handoff h
  send h _ := ⟨trivial, fun _ _ => by rwa [sendMain_checkpoint]⟩
  runs h _ hrun := ⟨trivial, fun _ => by rwa [runTools_checkpoint hrun]⟩
  finish h _ _ hrun := by
    obtain ⟨⟨-, hview, htranscript⟩, hresult⟩ := finishTurn_cases env inputs hrun
    refine ⟨trivial, fun r hr => ?_⟩
    obtain ⟨hr₁, hr₂⟩ := hresult r hr
    rw [hr₁, hr₂, hview, htranscript]
    exact ⟨h, List.concat_ne_nil _ _⟩

theorem runTurn_handoff {r : RunTurnResult} (h : (runTurn env loop inputs).1 = .ok r) :
    Handoff inputs r.checkpoint ∧ r.transcript ≠ [] := by
  unfold runTurn at h
  split at h
  · cases h
  next tools htools =>
  have hstart : Handoff inputs (startTurn loop inputs).view.checkpoint := .inl rfl
  dsimp only at h
  split at h
  · next e turn hq =>
    rcases hfail : (failTurn env inputs e turn : Result RunTurnResult × Turn) with ⟨result, next⟩
    obtain ⟨⟨e, rfl⟩, -⟩ := failTurn_same env inputs hfail
    rw [hfail] at h
    cases h
  · next turn hq =>
    have hload : Handoff inputs (loadHistory env loop inputs tools
        (inputs.historyEnd - inputs.checkpoint.coveredSequence).toNat
          inputs.checkpoint.coveredSequence
        (startTurn loop inputs)).2.view.checkpoint := loadHistory_handoff hstart
    rw [hq] at hload
    have hjoined : Handoff inputs turn.join.view.checkpoint := hload
    exact (handoffRule.iterate _ hjoined rfl).2 r h

end Turns

end Orangutan.Agent
