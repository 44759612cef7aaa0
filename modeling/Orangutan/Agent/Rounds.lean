import Orangutan.Agent.Coherence

/-!
# The rounds of a turn

What a turn says comes from outside: the inbox text that a round reads, the response that the route
gives to its main request, and the results of the batch of its calls. A round reads where the one
before it stopped, so nothing that was read is left out.
-/

namespace Orangutan.Agent

set_option autoImplicit false

open Orangutan.Core Orangutan.Provider

/-- What fitting a view may note. -/
def Entry.fits : Entry → Bool
  | summary _ _ => true
  | compacted => true
  | _ => false

section Rounds

variable (env : TurnEnv) (loop : Loop) (inputs : RunTurnInputs) (tools : List ToolDef)

/-- The text that a round finds in the inbox. -/
def inboxTexts (tick : Nat) : List Bytes :=
  if inputs.inboxReader then
    match env.inbox tick with
    | .ok inbox => if inbox.isEmpty then [] else [inbox]
    | .error _ => []
  else []

/-- The rounds from one reading to another that went on to the next, with what they said. -/
inductive Rounds (start : Nat) : Nat → List Entry → List Message → Prop
  | start : Rounds start start [] []
  | round {tick sent after : Nat} {log fits : List Entry} {said : List Message}
      {request : Request} {attempts : List Attempt} {target : Attribution} {response : Response}
      {rows : List ToolBatchResult} {results : List Content} (checkpoint : WorkingContext)
      (earlier : Rounds start tick log said) (quiet : ∀ e ∈ fits, e.fits = true)
      (reply : Execution.run env.backend request loop.route inputs.sink sent =
        (⟨target, .ok response⟩, attempts, after))
      (batch : runBatch inputs.scheduler (toolUsesIn response.blocks)
        (env.batchCancelled (after + 1))
        (env.batchEvents (after + 1)) = .ok rows)
      (collected : collectToolResults rows = .ok results) :
      Rounds start (after + 2)
        (log ++ (inboxTexts env inputs tick).map .inbox ++ fits ++
          [Entry.main checkpoint request attempts (.ok response), .answer response.blocks,
            .batch (toolUsesIn response.blocks), .results results])
        (said ++ (inboxTexts env inputs tick).map inboxMessage ++
          [⟨.assistant, response.blocks, none⟩, ⟨.tool, results, none⟩])

/-- The log before a main request and what was said so far, when the first round began after `p`. -/
def Asks (p : Progress) (before : List Entry) (said : List Message) : Prop :=
  ∃ (tick : Nat) (log : List Entry) (earlier : List Message) (fits : List Entry),
    Rounds env loop inputs p.tick tick log earlier ∧
    before = p.log ++ log ++ (inboxTexts env inputs tick).map .inbox ++ fits ∧
    said = earlier ++ (inboxTexts env inputs tick).map inboxMessage ∧ ∀ e ∈ fits, e.fits = true

/-- A reply in the log is the one that the route gave. -/
def Replied (request : Request) (attempts : List Attempt) (reply : Result Response) : Prop :=
  ∃ sent target after, Execution.run env.backend request loop.route inputs.sink sent =
    (⟨target, reply⟩, attempts, after)

/-- Every main request of the log comes after whole rounds. -/
def AsksOk (p : Progress) (log : List Entry) : Prop :=
  ∀ before checkpoint request attempts reply after,
    log = before ++ Entry.main checkpoint request attempts reply :: after →
      Replied env loop inputs request attempts reply ∧ Asks env loop inputs p before (spoken before)

/-- The turn between two rounds. -/
structure Pausing (p : Progress) (turn : Turn) : Prop where
  rounds : ∃ log said, Rounds env loop inputs p.tick turn.progress.tick log said ∧
    turn.progress.log = p.log ++ log ∧ turn.transcript = inputs.conversationTail ++ said
  asks : AsksOk env loop inputs p turn.progress.log

/-- A turn that ended with a response without calls. -/
def Concluded (p : Progress) (result : RunTurnResult) (log : List Entry) : Prop :=
  ∃ before said checkpoint request attempts response,
    log = before ++ [Entry.main checkpoint request attempts (.ok response),
      .answer response.blocks] ∧
    Replied env loop inputs request attempts (.ok response) ∧ Asks env loop inputs p before said ∧
    toolUsesIn response.blocks = [] ∧
    result.transcript = inputs.conversationTail ++ said ++ [⟨.assistant, response.blocks, none⟩]

variable {env loop inputs tools}

theorem AsksOk.append {p : Progress} {log more : List Entry} (h : AsksOk env loop inputs p log)
    (hmore : ∀ e ∈ more, ∀ checkpoint request attempts reply,
      e ≠ .main checkpoint request attempts reply) :
    AsksOk env loop inputs p (log ++ more) := by
  intro before checkpoint request attempts reply after hl
  rcases List.append_eq_append_iff.mp hl with ⟨front, rfl, hfront⟩ | ⟨back, rfl, hback⟩
  · exact absurd rfl (hmore _ (by rw [hfront]; simp) checkpoint request attempts reply)
  · cases back with
    | nil =>
      rw [List.nil_append] at hback
      exact absurd rfl (hmore _ (by rw [← hback]; simp) checkpoint request attempts reply)
    | cons e back =>
      obtain ⟨rfl, -⟩ := List.cons.inj hback
      exact h before checkpoint request attempts reply back rfl

theorem AsksOk.snoc {p : Progress} {log : List Entry} {checkpoint : WorkingContext}
    {request : Request} {attempts : List Attempt} {reply : Result Response}
    (h : AsksOk env loop inputs p log) (hreply : Replied env loop inputs request attempts reply)
    (hasks : Asks env loop inputs p log (spoken log)) :
    AsksOk env loop inputs p (log ++ [Entry.main checkpoint request attempts reply]) := by
  intro before checkpoint' request' attempts' reply' after hl
  rcases List.eq_nil_or_concat after with rfl | ⟨after, m, rfl⟩
  · obtain ⟨rfl, hlast⟩ := List.append_inj' hl rfl
    cases hlast
    exact ⟨hreply, hasks⟩
  · have hl : log ++ [Entry.main checkpoint request attempts reply] =
        (before ++ Entry.main checkpoint' request' attempts' reply' :: after) ++ [m] := by
      simpa using hl
    exact h before checkpoint' request' attempts' reply' after (List.append_inj' hl rfl).1

theorem takeInbox_eq {inbox : Bytes} {found : Option Message} (h : takeInbox inbox = .ok found) :
    found = if inbox.isEmpty then none else some (inboxMessage inbox) := by
  unfold takeInbox at h
  split at h
  · cases h
  split at h
  · next hempty =>
    cases h
    rw [if_pos hempty]
  · next hempty =>
    cases h
    rw [if_neg hempty]

variable {turn : Turn}

/-- A reading that succeeds puts the text it finds into the log and the transcript. -/
theorem readTurnInbox_reads (h : (readTurnInbox env inputs turn).1 = .ok ()) :
    (readTurnInbox env inputs turn).2.progress.log =
      turn.progress.log ++ (inboxTexts env inputs turn.progress.tick).map .inbox ∧
    (readTurnInbox env inputs turn).2.transcript =
      turn.transcript ++ (inboxTexts env inputs turn.progress.tick).map inboxMessage := by
  unfold readTurnInbox at h ⊢
  unfold inboxTexts
  cases hreader : inputs.inboxReader with
  | false => simp
  | true =>
    rw [hreader] at h
    simp only [Bool.not_true, Bool.false_eq_true, if_false, if_true] at h ⊢
    cases hinbox : env.inbox turn.progress.tick with
    | error e =>
      rw [hinbox] at h
      cases h
    | ok inbox =>
      rw [hinbox] at h
      dsimp only at h ⊢
      cases htake : takeInbox inbox with
      | error e =>
        rw [htake] at h
        cases h
      | ok found =>
        rw [takeInbox_eq htake]
        cases inbox.isEmpty with
        | true => simp
        | false => simp [Turn.push]

theorem readTurnInbox_noted (env : TurnEnv) (inputs : RunTurnInputs) (turn : Turn) :
    ∃ more, (readTurnInbox env inputs turn).2.progress.log = turn.progress.log ++ more ∧
      ∀ e ∈ more, ∃ inbox, e = .inbox inbox := by
  unfold readTurnInbox
  split
  · exact ⟨[], by simp, by simp⟩
  dsimp only
  split
  · exact ⟨[], by simp, by simp⟩
  split
  · exact ⟨[], by simp, by simp⟩
  · exact ⟨[], by simp, by simp⟩
  · exact ⟨[Entry.inbox _], rfl, by simp⟩

/-- Fitting says nothing. -/
theorem fitView_noted (env : TurnEnv) (loop : Loop) (inputs : RunTurnInputs) (tools : List ToolDef)
    (turn : Turn) :
    (∃ fits, (fitView env loop inputs tools turn).2.progress.log = turn.progress.log ++ fits ∧
      ∀ e ∈ fits, e.fits = true) ∧
    (fitView env loop inputs tools turn).2.transcript = turn.transcript := by
  rw [fitView_eq]
  refine ⟨?_, rfl⟩
  have hsent : ∃ fits, (fitted env loop inputs tools turn).2.2.log = turn.progress.log ++ fits ∧
      ∀ e ∈ fits, e.fits = true := by
    rcases fitted_log env loop inputs tools turn with hlog | ⟨request, attempts, hlog, -⟩
    · exact ⟨[], by simp [hlog], by simp⟩
    · exact ⟨[Entry.summary request attempts], hlog, by simp [Entry.fits]⟩
  obtain ⟨fits, hlog, hfits⟩ := hsent
  dsimp only
  split
  · exact ⟨fits, hlog, hfits⟩
  · refine ⟨fits ++ [Entry.compacted], by rw [hlog, List.append_assoc], fun e he => ?_⟩
    rcases List.mem_append.mp he with he | he
    · exact hfits e he
    · rw [List.mem_singleton.mp he]
      rfl

/-- The main request is noted with the reply of the route. -/
theorem sendMain_replied (env : TurnEnv) (loop : Loop) (inputs : RunTurnInputs)
    (tools : List ToolDef) (turn : Turn) : ∃ request target reply attempts after,
    Execution.run env.backend request loop.route inputs.sink turn.progress.tick =
      (⟨target, reply⟩, attempts, after) ∧
    (sendMain env loop inputs tools turn).2.progress.log =
      turn.progress.log ++ [Entry.main turn.view.checkpoint request attempts reply] ∧
    (sendMain env loop inputs tools turn).2.progress.tick = after + 1 ∧
    (sendMain env loop inputs tools turn).2.transcript = turn.transcript ∧
    ∀ response, (sendMain env loop inputs tools turn).1 = .ok response → reply = .ok response := by
  unfold sendMain
  dsimp only
  split
  · exact ⟨_, _, _, _, _, rfl, rfl, rfl, rfl, fun response hr => (by cases hr)⟩
  · next hreply =>
    refine ⟨_, _, _, _, _, rfl, rfl, rfl, rfl, fun response hr => ?_⟩
    cases hr
    exact hreply

theorem spoken_fits {fits : List Entry} (h : ∀ e ∈ fits, e.fits = true) : spoken fits = [] := by
  rw [spoken, List.flatMap_eq_nil_iff]
  intro e he
  have hfits := h e he
  cases e <;> first | rfl | cases hfits

theorem spoken_inbox (texts : List Bytes) : spoken (texts.map .inbox) = texts.map inboxMessage := by
  induction texts with
  | nil => rfl
  | cons t texts ih =>
    rw [List.map_cons, List.map_cons, ← ih]
    rfl

/-- The log of whole rounds holds what they said. -/
theorem Rounds.spoken_eq {start tick : Nat} {log : List Entry} {said : List Message}
    (h : Rounds env loop inputs start tick log said) : spoken log = said := by
  induction h with
  | start => rfl
  | round checkpoint earlier quiet reply batch collected ih =>
    rw [spoken_append, spoken_append, spoken_append, ih, spoken_inbox, spoken_fits quiet,
      List.append_nil]
    rfl

/-- One round of a turn: it ends in an error, goes on to the next round, or concludes the turn. -/
theorem Pausing.iteration {p : Progress} (hquiet : spoken p.log = []) {iteration : UInt32}
    {next : Turn} {out : Result (Option RunTurnResult)} (h : Pausing env loop inputs p turn)
    (hrun : runIteration env loop inputs tools iteration turn = (out, next)) :
    AsksOk env loop inputs p next.progress.log ∧ (out = .ok none → Pausing env loop inputs p next) ∧
      ∀ result, out = .ok (some result) → Concluded env loop inputs p result next.progress.log := by
  obtain ⟨⟨log, said, hrounds, hlog, htranscript⟩, hasks⟩ := h
  obtain ⟨read, fit, sent, hread, hfit, hsent, hcases⟩ :=
    runIteration_cases env loop inputs tools hrun
  have herror : ∀ {last : Turn} {e : Error}, AsksOk env loop inputs p last.progress.log →
    next.Same last →
      out = .error e → AsksOk env loop inputs p next.progress.log ∧
        (out = .ok none → Pausing env loop inputs p next) ∧
        ∀ result, out = .ok (some result) →
          Concluded env loop inputs p result next.progress.log := by
    rintro last e hlast hsame rfl
    exact ⟨by rw [hsame.log]; exact hlast, fun hq => (by cases hq), fun r hq => (by cases hq)⟩
  have hasksRead : AsksOk env loop inputs p read.progress.log := by
    obtain ⟨more, hmore, hinbox⟩ := readTurnInbox_noted env inputs turn
    rw [← hread, hmore]
    refine hasks.append fun e he checkpoint request attempts reply hq => ?_
    obtain ⟨inbox, rfl⟩ := hinbox e he
    cases hq
  obtain ⟨⟨fits, hfits, hfitted⟩, hfitTranscript⟩ := fitView_noted env loop inputs tools read
  rw [hfit] at hfits hfitTranscript
  have hasksFit : AsksOk env loop inputs p fit.progress.log := by
    rw [hfits]
    refine hasksRead.append fun e he checkpoint request attempts reply hq => ?_
    have hfit := hfitted e he
    rw [hq] at hfit
    cases hfit
  rcases hcases with ⟨e, hout, hsame | ⟨-, hsame⟩⟩ | ⟨hok, -, hcases⟩
  · exact herror hasksRead hsame hout
  · exact herror hasksFit hsame hout
  obtain ⟨hreadLog, hreadTranscript⟩ := readTurnInbox_reads hok
  rw [hread] at hreadLog hreadTranscript
  -- What the round has found so far is all in the log and in the transcript.
  have hfitLog : fit.progress.log =
      p.log ++ log ++ (inboxTexts env inputs turn.progress.tick).map .inbox ++ fits := by
    rw [hfits, hreadLog, hlog]
  have hspoken : spoken fit.progress.log =
      said ++ (inboxTexts env inputs turn.progress.tick).map inboxMessage := by
    rw [hfitLog, spoken_append, spoken_append, spoken_append, hquiet, hrounds.spoken_eq,
      spoken_inbox, spoken_fits hfitted, List.append_nil, List.nil_append]
  have hasked : Asks env loop inputs p fit.progress.log (spoken fit.progress.log) :=
    ⟨_, log, said, fits, hrounds, hfitLog, hspoken, hfitted⟩
  have hsaid : sent.transcript = inputs.conversationTail ++ spoken fit.progress.log := by
    obtain ⟨_, _, _, _, _, -, -, -, hkept, -⟩ := sendMain_replied env loop inputs tools fit
    rw [← hsent, hkept, hfitTranscript, hreadTranscript, htranscript, hspoken, List.append_assoc]
  obtain ⟨request, target, reply, attempts, after, hreplied, hsentLog, hsentTick, -, hreply⟩ :=
    sendMain_replied env loop inputs tools fit
  rw [hsent] at hsentLog hsentTick
  have hgiven : Replied env loop inputs request attempts reply := ⟨_, _, _, hreplied⟩
  have hasksSent : AsksOk env loop inputs p sent.progress.log := by
    rw [hsentLog]
    exact hasksFit.snoc hgiven hasked
  rcases hcases with ⟨e, hout, hsame⟩ | ⟨response, ids, hresponse, -, hcases⟩
  · exact herror hasksSent hsame hout
  obtain rfl := hreply response hresponse
  have hbatched : AsksOk env loop inputs p
      (batched { sent with toolUseIds := ids } response).progress.log := by
    have hanswered : AsksOk env loop inputs p
        (sent.progress.log ++ [Entry.answer response.blocks]) := hasksSent.append (by simp)
    exact hanswered.append (by simp)
  rcases hcases with ⟨e, hout, hsame⟩ | ⟨hout, htools⟩ | ⟨huses, result, hfinish, hout⟩
  · refine herror ?_ hsame hout
    rcases htools : runTools env inputs { sent with toolUseIds := ids } response with ⟨ran, last⟩
    obtain ⟨_, _, rfl | rfl⟩ | ⟨rows, results, -, -, -, rfl⟩ := runTools_cases env inputs htools
    · exact hasksSent
    · exact hbatched
    · exact hbatched.append (by simp)
  · subst hout
    obtain ⟨e, he, -⟩ | ⟨rows, results, hrows, hresults, -, rfl⟩ := runTools_cases env inputs htools
    · cases he
    have htick : ((batched { sent with toolUseIds := ids } response).push ⟨.tool, results, none⟩
        (.results results)).progress.tick = after + 2 := congrArg (· + 1) hsentTick
    rw [show (sent.progress.tick : Nat) = after + 1 from hsentTick] at hrows
    have hround := Rounds.round fit.view.checkpoint hrounds hfitted hreplied hrows hresults
    rw [← htick] at hround
    refine ⟨hbatched.append (by simp), fun _ => ⟨⟨_, _, hround, ?_, ?_⟩, hbatched.append (by simp)⟩,
      fun r hq => (by cases hq)⟩
    · show sent.progress.log ++ [_] ++ [_] ++ [_] = _
      rw [hsentLog, hfitLog]
      simp
    · show sent.transcript ++ [_] ++ [_] = _
      rw [hsaid, hspoken]
      simp
  · subst hout
    obtain ⟨⟨hlast, -, hsame⟩, hresult⟩ := finishTurn_cases env inputs hfinish
    refine ⟨by rw [hlast]; exact hasksSent.append (by simp), fun hq => ?_, fun r hq => ?_⟩
    · cases result <;> cases hq
    · cases result with
      | error e => cases hq
      | ok result =>
        cases hq
        refine ⟨fit.progress.log, _, fit.view.checkpoint, _, _, response, ?_, hgiven, hasked,
          huses, ?_⟩
        · rw [hlast]
          show sent.progress.log ++ [_] = _
          rw [hsentLog]
          simp
        · rw [(hresult _ rfl).1, hsame]
          exact congrArg (· ++ _) hsaid

theorem Pausing.iterate {p : Progress} (hquiet : spoken p.log = []) (left : Nat)
    {iteration : UInt32} {next : Turn} {out : Result RunTurnResult}
    (h : Pausing env loop inputs p turn)
    (hrun : Agent.iterate env loop inputs tools left iteration turn = (out, next)) :
    AsksOk env loop inputs p next.progress.log ∧
      ∀ result, out = .ok result → Concluded env loop inputs p result next.progress.log := by
  induction left generalizing iteration turn with
  | zero =>
    rw [Agent.iterate] at hrun
    split at hrun
    · cases hrun
      exact ⟨h.asks, fun r hr => (by cases hr)⟩
    · obtain ⟨⟨e, rfl⟩, hsame⟩ := failTurn_same env inputs hrun
      exact ⟨by rw [hsame.log]; exact h.asks, fun r hr => (by cases hr)⟩
  | succ left ih =>
    rw [Agent.iterate] at hrun
    split at hrun
    · next e last hq =>
      cases hrun
      exact ⟨(h.iteration hquiet hq).1, fun r hr => (by cases hr)⟩
    · next r last hq =>
      cases hrun
      obtain ⟨hasks, -, hconcluded⟩ := h.iteration hquiet hq
      refine ⟨hasks, fun r hr => ?_⟩
      cases hr
      exact hconcluded _ rfl
    · next last hq => exact ih ((h.iteration hquiet hq).2.1 rfl) hrun

/-- The log while the history is loaded. -/
def Loading (log : List Entry) : Prop := ∀ e ∈ log, (∃ message, e = .loaded message) ∨ e.fits = true

theorem Loading.spoken_eq {log : List Entry} (h : Loading log) : spoken log = [] := by
  rw [spoken, List.flatMap_eq_nil_iff]
  intro e he
  rcases h e he with ⟨message, rfl⟩ | hfits
  · rfl
  · cases e <;> first | rfl | cases hfits

theorem Loading.append {log more : List Entry} (h : Loading log) (hmore : Loading more) :
    Loading (log ++ more) := fun e he => (List.mem_append.mp he).elim (h e) (hmore e)

theorem loadPage_loading (page : List Message) (h : Loading turn.progress.log) :
    Loading (loadPage env loop inputs tools page turn).2.progress.log := by
  induction page generalizing turn with
  | nil => exact h
  | cons message rest ih =>
    have hloaded : Loading (turn.progress.log ++ [Entry.loaded message]) :=
      h.append fun e he => .inl ⟨message, List.mem_singleton.mp he⟩
    obtain ⟨⟨fits, hlog, hfits⟩, -⟩ := fitView_noted env loop inputs tools { turn with
      view := { turn.view with messages := turn.view.messages ++ [message] }
      progress := { turn.progress with log := turn.progress.log ++ [Entry.loaded message] } }
    have hfitted := hloaded.append fun e he => .inr (hfits e he)
    rw [← hlog] at hfitted
    rw [loadPage]
    split
    · next hq =>
      rw [hq] at hfitted
      exact hfitted
    · next hq =>
      rw [hq] at hfitted
      exact ih hfitted

theorem loadHistory_loading (fuel : Nat) (loaded : Int) (h : Loading turn.progress.log) :
    Loading (loadHistory env loop inputs tools fuel loaded turn).2.progress.log := by
  induction fuel generalizing loaded turn with
  | zero => exact h
  | succ fuel ih =>
    rw [loadHistory]
    split
    · split
      · exact h
      dsimp only
      split
      · exact h
      split
      · exact h
      next page _ _ =>
      have hpage : Loading (loadPage env loop inputs tools page
          { turn with progress := { turn.progress with tick :=
            turn.progress.tick + 1 } }).2.progress.log :=
        loadPage_loading page h
      split
      · next hq =>
        rw [hq] at hpage
        exact hpage
      · next hq =>
        rw [hq] at hpage
        exact ih _ hpage
    · exact h

/-- What a turn has read when its history is loaded. -/
def loadedHistory (env : TurnEnv) (loop : Loop) (inputs : RunTurnInputs) (tools : List ToolDef) :
    Progress :=
  (loadHistory env loop inputs tools (inputs.historyEnd - inputs.checkpoint.coveredSequence).toNat
    inputs.checkpoint.coveredSequence (startTurn loop inputs)).2.progress

/-- A turn fails before it reads anything, or its requests and its result come after whole rounds.
-/
theorem runTurn_rounds (env : TurnEnv) (loop : Loop) (inputs : RunTurnInputs) :
    (∃ e, runTurn env loop inputs = (.error e, [])) ∨
    ∃ tools, validateInputs env inputs = .ok tools ∧
      AsksOk env loop inputs (loadedHistory env loop inputs tools) (runTurn env loop inputs).2 ∧
      ∀ result, (runTurn env loop inputs).1 = .ok result →
        Concluded env loop inputs (loadedHistory env loop inputs tools) result
          (runTurn env loop inputs).2 := by
  cases hvalid : validateInputs env inputs with
  | error e =>
    left
    exact ⟨e, by simp only [runTurn, hvalid]⟩
  | ok tools =>
    right
    refine ⟨tools, rfl, ?_⟩
    have hloading : Loading (loadedHistory env loop inputs tools).log :=
      loadHistory_loading _ _ fun e he => (by cases he)
    have hnone : AsksOk env loop inputs (loadedHistory env loop inputs tools)
        (loadedHistory env loop inputs tools).log := by
      intro before checkpoint request attempts reply after hq
      have hmem : Entry.main checkpoint request attempts reply ∈
          (loadedHistory env loop inputs tools).log := by
        rw [hq]
        simp
      rcases hloading _ hmem with ⟨message, he⟩ | he <;> cases he
    have haccepted := validateInputs_ok env inputs hvalid
    have hstart : Sound env loop inputs tools false (startTurn loop inputs) := startTurn_sound
    obtain ⟨hsound, -⟩ := loadHistory_sound hstart (by simp [startTurn, stored])
      (le_refl _) haccepted.inside
    simp only [runTurn, hvalid]
    split
    · next e turn hq =>
      rcases hfail : (failTurn env inputs e turn : Result RunTurnResult × Turn) with ⟨result, next⟩
      obtain ⟨⟨e, rfl⟩, hsame⟩ := failTurn_same env inputs hfail
      refine ⟨?_, fun r hr => (by cases hr)⟩
      rw [hsame.log]
      unfold loadedHistory at hnone ⊢
      rw [hq] at hnone ⊢
      exact hnone
    · next turn hq =>
      have hprogress : loadedHistory env loop inputs tools = turn.progress := by
        unfold loadedHistory
        rw [hq]
      rw [hprogress] at hnone hloading ⊢
      rw [hq] at hsound
      have htranscript : turn.transcript = inputs.conversationTail ++ [] := by
        rw [hsound.transcript, hloading.spoken_eq]
      have hjoined : Pausing env loop inputs turn.progress turn.join :=
        ⟨⟨[], [], .start, (List.append_nil _).symm, htranscript⟩, hnone⟩
      exact hjoined.iterate hloading.spoken_eq _ rfl

end Rounds

/-- Every main request carries the summary, if there is one, and then exactly the messages after
the checkpoint, of a conversation that holds what the rounds before it read and were answered; a
result has the transcript of its rounds, and agrees with what was said and compacted. -/
theorem view_coherence (env : TurnEnv) (loop : Loop) (inputs : RunTurnInputs)
    (history : List Message) (hend : inputs.historyEnd = history.length)
    (hload : ∀ (tick after : Nat) page, env.loadAfter tick after = .ok page →
    page <+: history.drop after) :
    (∀ before checkpoint request attempts reply after,
      (runTurn env loop inputs).2 =
        before ++ Entry.main checkpoint request attempts reply :: after →
      let conversation := history ++ (inputs.conversationTail ++ spoken before)
      (∃ tools, validateInputs env inputs = .ok tools ∧
        Asks env loop inputs (loadedHistory env loop inputs tools) before (spoken before)) ∧
      Replied env loop inputs request attempts reply ∧
      0 ≤ checkpoint.coveredSequence ∧ checkpoint.coveredSequence ≤ (conversation.length : Int) ∧
      request.messages = (if checkpoint.summary = [] then []
        else [summaryMessage checkpoint.summary]) ++
        conversation.drop checkpoint.coveredSequence.toNat ∧
      ∀ a ∈ attempts, a.request.messages = request.messages) ∧
    ∀ result, (runTurn env loop inputs).1 = .ok result →
      (∃ tools, validateInputs env inputs = .ok tools ∧
        Concluded env loop inputs (loadedHistory env loop inputs tools) result
          (runTurn env loop inputs).2) ∧
      result.transcript = inputs.conversationTail ++ spoken (runTurn env loop inputs).2 ∧
      inputs.checkpoint.coveredSequence ≤ result.checkpoint.coveredSequence ∧
      result.checkpoint.coveredSequence ≤ inputs.historyEnd + result.transcript.length ∧
      result.checkpoint.revision = inputs.checkpoint.revision +
        compactions (runTurn env loop inputs).2 ∧
      (compactions (runTurn env loop inputs).2 = 0 → result.checkpoint = inputs.checkpoint) := by
  rcases runTurn_sound env loop inputs with ⟨e, he⟩ | ⟨tools, haccepted, hlog, hresult⟩
  · rw [he]
    exact ⟨fun before _ _ _ _ _ hq => by simp at hq, fun r hr => (by cases hr)⟩
  rcases runTurn_rounds env loop inputs with ⟨e, he⟩ | ⟨selected, hvalid, hasks, hconcluded⟩
  · rw [he]
    exact ⟨fun before _ _ _ _ _ hq => by simp at hq, fun r hr => (by cases hr)⟩
  refine ⟨fun before checkpoint request attempts reply after hq => ?_, fun r hr => ?_⟩
  · obtain ⟨hcomplete, hcovered, hinside, -, hmessages, -, hattempts⟩ := hlog before _ after hq
    have hbefore : LogOk env loop inputs tools before := fun b d a hb =>
      hlog b d (a ++ Entry.main checkpoint request attempts reply :: after) (by rw [hq, hb]; simp)
    have hnonneg := haccepted.nonneg
    have hin := haccepted.inside
    have hlength : (history.drop inputs.checkpoint.coveredSequence.toNat).length =
        (stored before).length := by
      rw [List.length_drop, hcomplete]
      omega
    have hstored := (stored_initial hnonneg hload hbefore).eq_of_length hlength.symm
    simp only [List.length_append, hstored, List.length_drop] at hinside
    obtain ⟨hreplied, hasked⟩ := hasks before checkpoint request attempts reply after hq
    refine ⟨⟨selected, hvalid, hasked⟩, hreplied, by omega, ?_, ?_, fun a ha => ?_⟩
    · simp only [List.length_append]
      omega
    · rw [hmessages, contextMessages, uncovered, hstored,
        ← List.drop_append_of_le_length (by omega), List.drop_drop,
        show inputs.checkpoint.coveredSequence.toNat +
          (checkpoint.coveredSequence - inputs.checkpoint.coveredSequence).toNat =
            checkpoint.coveredSequence.toNat by omega]
      simp only [List.isEmpty_iff]
    · obtain ⟨t, -, rfl⟩ := hattempts a ha
      rw [Execution.attemptRequest_eq]
  · obtain ⟨h₁, h₂, h₃, h₄, h₅⟩ := hresult r hr
    exact ⟨⟨selected, hvalid, hconcluded r hr⟩, h₁, h₂, h₃, h₄, h₅⟩

theorem view_coherence_sample :
    compactions (runTurn Sample.env Sample.loop Sample.inputs).2 = 1 ∧
    ∃ r, (runTurn Sample.env Sample.loop Sample.inputs).1 = .ok r ∧
      r.transcript = Sample.inputs.conversationTail ++
        spoken (runTurn Sample.env Sample.loop Sample.inputs).2 ∧ r.checkpoint.revision = 1 := by
  obtain ⟨hok, hcount, -⟩ := Sample.turn_ok
  cases hr : (runTurn Sample.env Sample.loop Sample.inputs).1 with
  | error e =>
    rw [hr] at hok
    cases hok
  | ok r =>
    obtain ⟨-, htranscript, -, -, hrevision, -⟩ :=
      (view_coherence Sample.env Sample.loop Sample.inputs
      Sample.history rfl Sample.loads_in_order).2 r hr
    refine ⟨hcount, r, rfl, htranscript, ?_⟩
    rw [hrevision, hcount]
    rfl

end Orangutan.Agent
