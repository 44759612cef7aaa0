import Orangutan.Agent.Coherence

/-!
# Tool effects of a turn

The identities a turn has passed to the scheduler are those it remembers, so none is
passed twice. A batch follows the response whose calls it runs, and its results
follow the batch.
-/

namespace Orangutan.Agent

set_option autoImplicit false

open Orangutan.Core Orangutan.Provider

def Entry.batchCalls : Entry → List ToolBatchCall
  | batch calls => calls
  | _ => []

/-- The calls a turn has passed to the scheduler. -/
def batchCalls (log : List Entry) : List ToolBatchCall := log.flatMap Entry.batchCalls

@[simp] theorem batchCalls_append (a b : List Entry) :
    batchCalls (a ++ b) = batchCalls a ++ batchCalls b := by
  simp [batchCalls]

/-- The call that a block answers. -/
def resultId : Content → Option Bytes
  | .toolResult id _ _ _ => some id
  | _ => none

/-- One result for every call, in order. -/
def Answers (calls : List ToolBatchCall) (results : List Content) : Prop :=
  results.map resultId = calls.map fun call => some call.toolUseId

/-- The response is complete and its calls have new identities. -/
structure Admitted (response : Response) (earlier : List ToolBatchCall) : Prop where
  complete : response.stopReason = .endTurn ∨ response.stopReason = .stopSequence ∨
    response.stopReason = .toolUse
  nodup : ((toolUsesIn response.blocks).map (·.toolUseId)).Nodup
  fresh : ∀ call ∈ toolUsesIn response.blocks,
    call.toolUseId ≠ [] ∧ call.toolUseId ∉ earlier.map (·.toolUseId)

/-- What comes after a batch is its results, and what comes after a main request is its
response, with the calls admitted. -/
def Entry.Followed (last : Entry) (b : List Entry) (next : Entry) : Prop :=
  match last with
  | batch calls => ∃ results, next = .results results ∧ Answers calls results
  | main _ _ _ reply => ∃ response, reply = .ok response ∧ next = .answer response.blocks ∧
      Admitted response (Agent.batchCalls b)
  | _ => True

/-- A batch belongs to the response before it. -/
def Entry.Effect (before : List Entry) (e : Entry) : Prop :=
  (∀ calls, e = .batch calls → ∃ (b : List Entry) (checkpoint : WorkingContext) (request : Request)
      (attempts : List Attempt) (response : Response),
    before = b ++ [Entry.main checkpoint request attempts (.ok response),
      .answer response.blocks] ∧
      calls = toolUsesIn response.blocks ∧ Admitted response (Agent.batchCalls b)) ∧
  ∀ (b : List Entry) (last : Entry), before = b ++ [last] → last.Followed b e

/-- Entries that the next one has to follow up. -/
def Entry.opens : Entry → Bool
  | batch _ => true
  | main _ _ _ _ => true
  | _ => false

/-- Every message with tool calls is followed by the message with their results. -/
def Exchanged (messages : List Message) : Prop :=
  ∀ (pre : List Message) (message : Message) (post : List Message),
    messages = pre ++ message :: post → toolUsesIn message.blocks ≠ [] →
    ∃ results rest, post = ⟨.tool, results, none⟩ :: rest ∧
      Answers (toolUsesIn message.blocks) results

/-- A tool call of this identity has no later result. -/
def Unanswered (messages : List Message) (id : Bytes) : Prop :=
  ∃ (pre : List Message) (message : Message) (post : List Message),
    messages = pre ++ message :: post ∧
    (∃ call ∈ toolUsesIn message.blocks, call.toolUseId = id) ∧
    ∀ later ∈ post, ∀ block ∈ later.blocks, resultId block ≠ some id

theorem admitToolUseIds_ok {i : Nat} {uses : List ToolBatchCall} {seen ids : List Bytes}
    (h : admitToolUseIds i uses seen = .ok ids) :
    ids = seen ++ uses.map (·.toolUseId) ∧ (uses.map (·.toolUseId)).Nodup ∧
      ∀ use ∈ uses, use.toolUseId ≠ [] ∧ use.toolUseId ∉ seen := by
  induction uses generalizing i seen with
  | nil =>
    cases h
    exact ⟨by simp, List.nodup_nil, fun use huse => by cases huse⟩
  | cons use rest ih =>
    rw [admitToolUseIds] at h
    split at h
    · cases h
    next hnew =>
    simp only [Bool.or_eq_true, not_or, List.isEmpty_iff, List.contains_iff_mem] at hnew
    obtain ⟨hids, hnodup, hfresh⟩ := ih h
    refine ⟨by simp [hids], ?_, fun other hother => ?_⟩
    · rw [List.map_cons, List.nodup_cons]
      refine ⟨fun hmem => ?_, hnodup⟩
      obtain ⟨other, hother, heq⟩ := List.mem_map.mp hmem
      exact (hfresh other hother).2 (by simp [heq])
    · rcases List.mem_cons.mp hother with rfl | hother
      · exact hnew
      · obtain ⟨hne, hnot⟩ := hfresh other hother
        exact ⟨hne, fun hmem => hnot (List.mem_append_left _ hmem)⟩

theorem admitResponse_ok {turn : Turn} {response : Response} {ids : List Bytes}
    (h : admitResponse turn response = .ok ids) :
    (response.stopReason = .endTurn ∨ response.stopReason = .stopSequence ∨
      response.stopReason = .toolUse) ∧
      admitToolUseIds 0 (toolUsesIn response.blocks) turn.toolUseIds = .ok ids := by
  unfold admitResponse at h
  split at h
  · cases h
  split at h
  · cases h
  · next hstop =>
    refine ⟨?_, h⟩
    cases hreason : response.stopReason <;> simp_all

theorem collectToolResults_ok {rows : List ToolBatchResult} {results : List Content}
    (h : collectToolResults rows = .ok results) :
    results.map resultId = rows.map fun row => some row.toolUseId := by
  induction rows generalizing results with
  | nil =>
    cases h
    rfl
  | cons row rest ih =>
    rw [collectToolResults] at h
    split at h
    · cases h
    next result hresult =>
    split at h
    · cases h
    next more hmore =>
    cases h
    have hid : resultId result = some row.toolUseId := by
      unfold toolResultFrom at hresult
      split at hresult
      · cases hresult
        rfl
      · split at hresult
        · cases hresult
          rfl
        · cases hresult
    rw [List.map_cons, List.map_cons, ih hmore, hid]

/-- The results of a batch answer its calls. -/
theorem batch_answers {options : ToolSchedulerOptions} {calls : List ToolBatchCall}
    {cancelled : Bool} {events : List BatchEvent} {rows : List ToolBatchResult}
    {results : List Content} (hrows : runBatch options calls cancelled events = .ok rows)
    (hresults : collectToolResults rows = .ok results) : Answers calls results := by
  have hids := congrArg (List.map fun p : Bytes × Bytes => some p.1) (runBatch_ok hrows)
  rw [List.map_map, List.map_map] at hids
  rw [Answers, collectToolResults_ok hresults]
  exact hids

/-- Results hold no tool call. -/
theorem Answers.no_uses {calls : List ToolBatchCall} {results : List Content}
    (h : Answers calls results) :
    toolUsesIn results = [] := by
  rw [toolUsesIn, List.filterMap_eq_nil_iff]
  intro block hblock
  have hmem : resultId block ∈ calls.map fun call => some call.toolUseId := by
    rw [← h]
    exact List.mem_map_of_mem hblock
  obtain ⟨call, -, hcall⟩ := List.mem_map.mp hmem
  cases block <;> simp_all [resultId]

theorem Answers.mem {calls : List ToolBatchCall} {results : List Content}
    (h : Answers calls results) {call : ToolBatchCall} (hcall : call ∈ calls) :
    ∃ block ∈ results, resultId block = some call.toolUseId := by
  have hmem : some call.toolUseId ∈ results.map resultId := by
    rw [h]
    exact List.mem_map_of_mem hcall
  exact List.mem_map.mp hmem

namespace Exchanged

variable {messages : List Message}

theorem nil : Exchanged [] := fun pre message post h => by simp at h

theorem snoc (h : Exchanged messages) {message : Message} (hnone : toolUsesIn message.blocks = []) :
    Exchanged (messages ++ [message]) := by
  intro pre m post hsplit huses
  rcases List.eq_nil_or_concat post with rfl | ⟨post, last, rfl⟩
  · obtain ⟨-, hlast⟩ := List.append_inj' hsplit rfl
    obtain rfl : message = m := by simpa using hlast
    exact absurd hnone huses
  · have hsplit : messages ++ [message] = (pre ++ m :: post) ++ [last] := by simpa using hsplit
    obtain ⟨results, rest, rfl, hanswers⟩ := h pre m post (List.append_inj' hsplit rfl).1 huses
    exact ⟨results, rest ++ [last], by simp, hanswers⟩

/-- A call message and its results are appended together. -/
theorem exchange (h : Exchanged messages) {message : Message} {results : List Content}
    (hanswers : Answers (toolUsesIn message.blocks) results) :
    Exchanged (messages ++ [message] ++ [⟨.tool, results, none⟩]) := by
  intro pre m post hsplit huses
  rcases List.eq_nil_or_concat post with rfl | ⟨post, last, rfl⟩
  · obtain ⟨-, hlast⟩ := List.append_inj' hsplit rfl
    obtain rfl : (⟨.tool, results, none⟩ : Message) = m := by simpa using hlast
    exact absurd hanswers.no_uses huses
  have hsplit : (messages ++ [message]) ++ [⟨.tool, results, none⟩] = (pre ++ m :: post) ++
      [last] := by
    simpa using hsplit
  obtain ⟨hfront, hlast⟩ := List.append_inj' hsplit rfl
  obtain rfl : (⟨.tool, results, none⟩ : Message) = last := by simpa using hlast
  rcases List.eq_nil_or_concat post with rfl | ⟨post, other, rfl⟩
  · obtain ⟨-, hmessage⟩ := List.append_inj' hfront rfl
    obtain rfl : message = m := by simpa using hmessage
    exact ⟨results, [], rfl, hanswers⟩
  · have hfront : messages ++ [message] = (pre ++ m :: post) ++ [other] := by simpa using hfront
    obtain ⟨found, rest, rfl, hfound⟩ := h pre m post (List.append_inj' hfront rfl).1 huses
    exact ⟨found, rest ++ [other] ++ [⟨.tool, results, none⟩], by simp, hfound⟩

/-- Only the messages before exchanged ones can have an unanswered call. -/
theorem unanswered_append (h : Exchanged messages) {tail : List Message} {id : Bytes}
    (hopen : Unanswered (tail ++ messages) id) : Unanswered tail id := by
  obtain ⟨pre, message, post, hsplit, ⟨call, hcall, rfl⟩, hlater⟩ := hopen
  rcases List.append_eq_append_iff.mp hsplit with ⟨front, rfl, hmessages⟩ | ⟨back, rfl, hback⟩
  · have huses : toolUsesIn message.blocks ≠ [] := List.ne_nil_of_mem hcall
    obtain ⟨results, rest, rfl, hanswers⟩ := h front message post hmessages huses
    obtain ⟨block, hblock, hid⟩ := hanswers.mem hcall
    exact absurd hid (hlater _ List.mem_cons_self block hblock)
  · cases back with
    | nil =>
      have huses : toolUsesIn message.blocks ≠ [] := List.ne_nil_of_mem hcall
      obtain ⟨results, rest, rfl, hanswers⟩ := h [] message post (by simpa using hback.symm) huses
      obtain ⟨block, hblock, hid⟩ := hanswers.mem hcall
      exact absurd hid (hlater _ List.mem_cons_self block hblock)
    | cons first back =>
      obtain ⟨rfl, rfl⟩ := List.cons.inj hback
      exact ⟨pre, message, back, rfl, ⟨call, hcall, rfl⟩, fun later hl =>
        hlater later (List.mem_append_left _ hl)⟩

end Exchanged

/-- What holds of the log at every exit. -/
structure Effects (log : List Entry) : Prop where
  nodup : ((batchCalls log).map (·.toolUseId)).Nodup
  nonempty : ∀ call ∈ batchCalls log, call.toolUseId ≠ []
  entries : ∀ (before : List Entry) (e : Entry) (after : List Entry),
    log = before ++ e :: after → e.Effect before

/-- What holds of a turn with its log. -/
structure Kept (turn : Turn) : Prop where
  effects : Effects turn.progress.log
  seen : turn.toolUseIds = (batchCalls turn.progress.log).map (·.toolUseId)
  exchanged : Exchanged (spoken turn.progress.log)

/-- What holds between the steps of a turn. -/
structure Tracked (turn : Turn) : Prop extends Kept turn where
  closed : ∀ (b : List Entry) (last : Entry), turn.progress.log = b ++ [last] → last.opens = false

theorem Effects.nil : Effects [] :=
  ⟨List.nodup_nil, fun call h => (by cases h), fun before e after h => by simp at h⟩

theorem Effects.snoc {log : List Entry} {e : Entry} (h : Effects log) (he : e.Effect log)
    (hnodup : ((batchCalls (log ++ [e])).map (·.toolUseId)).Nodup)
    (hnonempty : ∀ call ∈ e.batchCalls, call.toolUseId ≠ []) : Effects (log ++ [e]) := by
  refine ⟨hnodup, fun call hcall => ?_, fun before d after hl => ?_⟩
  · rw [batchCalls_append, List.mem_append] at hcall
    rcases hcall with hcall | hcall
    · exact h.nonempty call hcall
    · exact hnonempty call (by simpa [batchCalls] using hcall)
  · rcases List.eq_nil_or_concat after with rfl | ⟨after, m, rfl⟩
    · obtain ⟨rfl, hlast⟩ := List.append_inj' hl rfl
      obtain rfl : e = d := by simpa using hlast
      exact he
    · have hl : log ++ [e] = (before ++ d :: after) ++ [m] := by simpa using hl
      exact h.entries before d after (List.append_inj' hl rfl).1

/-- An entry other than a batch. -/
theorem Effects.quiet {log : List Entry} {e : Entry} (h : Effects log)
    (hkind : ∀ calls, e ≠ .batch calls)
    (hlast : ∀ (b : List Entry) (last : Entry), log = b ++ [last] → last.Followed b e) :
    Effects (log ++ [e]) := by
  have hcalls : e.batchCalls = [] := by
    cases e with
    | batch calls => exact absurd rfl (hkind calls)
    | _ => rfl
  refine h.snoc ⟨fun calls hq => absurd hq (hkind calls), hlast⟩ ?_ fun call hcall => ?_
  · rw [batchCalls_append, show batchCalls [e] = [] by simp [batchCalls, hcalls], List.append_nil]
    exact h.nodup
  · rw [hcalls] at hcall
    cases hcall

theorem Entry.followed_of_closed {b : List Entry} {e last : Entry} (h : last.opens = false) :
    last.Followed b e := by
  cases last with
  | batch _ => cases h
  | main _ _ _ _ => cases h
  | _ => trivial

namespace Tracked

variable {turn : Turn}

/-- An entry that runs nothing is added, with at most a message without calls. -/
theorem keep (h : Tracked turn) {next : Turn} {e : Entry}
    (hlog : next.progress.log = turn.progress.log ++ [e]) (hids : next.toolUseIds = turn.toolUseIds)
    (hkind : ∀ calls, e ≠ .batch calls)
    (hspoken : ∀ message ∈ e.spokenMessages, toolUsesIn message.blocks = []) : Kept next := by
  have hcalls : e.batchCalls = [] := by
    cases e with
    | batch calls => exact absurd rfl (hkind calls)
    | _ => rfl
  have hbatches : batchCalls next.progress.log = batchCalls turn.progress.log := by
    rw [hlog, batchCalls_append, show batchCalls [e] = [] by simp [batchCalls, hcalls],
      List.append_nil]
  refine ⟨?_, ?_, ?_⟩
  · rw [hlog]
    exact h.effects.quiet hkind fun b last hq => Entry.followed_of_closed (h.closed b last hq)
  · rw [hids, h.seen, hbatches]
  · rw [hlog, spoken_append, show spoken [e] = e.spokenMessages by simp [spoken]]
    have hone : e.spokenMessages = [] ∨ ∃ message, e.spokenMessages = [message] := by
      cases e <;> simp [Entry.spokenMessages]
    rcases hone with hnone | ⟨message, hmessage⟩
    · rw [hnone, List.append_nil]
      exact h.exchanged
    · rw [hmessage] at hspoken ⊢
      exact h.exchanged.snoc (hspoken message List.mem_cons_self)

theorem quiet (h : Tracked turn) {next : Turn} {e : Entry}
    (hlog : next.progress.log = turn.progress.log ++ [e]) (hids : next.toolUseIds = turn.toolUseIds)
    (hopens : e.opens = false)
    (hspoken : ∀ message ∈ e.spokenMessages, toolUsesIn message.blocks = []) : Tracked next := by
  have hkind : ∀ calls, e ≠ .batch calls := by
    rintro calls rfl
    cases hopens
  refine ⟨h.keep hlog hids hkind hspoken, fun b last hq => ?_⟩
  rw [hlog] at hq
  obtain rfl : e = last := by simpa using (List.append_inj' hq rfl).2
  exact hopens

theorem congr (h : Tracked turn) {next : Turn} (hlog : next.progress.log = turn.progress.log)
    (hids : next.toolUseIds = turn.toolUseIds) : Tracked next := by
  obtain ⟨⟨h₁, h₂, h₃⟩, h₄⟩ := h
  rw [← hlog] at h₁ h₂ h₃ h₄
  exact ⟨⟨h₁, hids.trans h₂, h₃⟩, h₄⟩

end Tracked

section Steps

variable {env : TurnEnv} {loop : Loop} {inputs : RunTurnInputs} {tools : List ToolDef} {turn : Turn}

theorem startTurn_tracked : Tracked (startTurn loop inputs) :=
  ⟨⟨Effects.nil, rfl, Exchanged.nil⟩, fun b last h => by simp [startTurn] at h⟩

theorem fitView_tracked (h : Tracked turn) : Tracked (fitView env loop inputs tools turn).2 := by
  have hsent : Tracked { turn with progress := (fitted env loop inputs tools turn).2.2 } := by
    rcases fitted_log env loop inputs tools turn with hlog | ⟨request, attempts, hlog, -⟩
    · exact h.congr hlog rfl
    · exact h.quiet hlog rfl rfl fun message hm => by cases hm
  rw [fitView_eq]
  dsimp only
  split
  · exact hsent.congr rfl rfl
  · exact hsent.quiet rfl rfl rfl fun message hm => by cases hm

theorem loadPage_tracked (page : List Message) (h : Tracked turn) :
    Tracked (loadPage env loop inputs tools page turn).2 := by
  induction page generalizing turn with
  | nil => exact h
  | cons message rest ih =>
    have hloaded : Tracked { turn with
        view := { turn.view with messages := turn.view.messages ++ [message] }
        progress := { turn.progress with log := turn.progress.log ++ [Entry.loaded message] } } :=
      h.quiet rfl rfl rfl fun message hm => by cases hm
    have hfitted : Tracked (fitView env loop inputs tools _).2 := fitView_tracked hloaded
    rw [loadPage]
    split
    · next hq =>
      rw [hq] at hfitted
      exact hfitted
    · next hq =>
      rw [hq] at hfitted
      exact ih hfitted

theorem loadHistory_tracked (fuel : Nat) (loaded : Int) (h : Tracked turn) :
    Tracked (loadHistory env loop inputs tools fuel loaded turn).2 := by
  induction fuel generalizing loaded turn with
  | zero => exact h
  | succ fuel ih =>
    rw [loadHistory]
    split
    · split
      · exact h
      have hnext : Tracked { turn with progress :=
          { turn.progress with tick := turn.progress.tick + 1 } } :=
        h.congr rfl rfl
      dsimp only
      split
      · exact hnext
      split
      · exact hnext
      next page _ _ =>
      have hpage : Tracked (loadPage env loop inputs tools page _).2 := loadPage_tracked page hnext
      split
      · next hq =>
        rw [hq] at hpage
        exact hpage
      · next hq =>
        rw [hq] at hpage
        exact ih _ hpage
    · exact h

theorem readTurnInbox_tracked (h : Tracked turn) : Tracked (readTurnInbox env inputs turn).2 := by
  unfold readTurnInbox
  split
  · exact h
  have hnext : Tracked { turn with progress :=
      { turn.progress with tick := turn.progress.tick + 1 } } :=
    h.congr rfl rfl
  dsimp only
  split
  · exact hnext
  split
  · exact hnext
  · exact hnext
  · refine hnext.quiet rfl rfl rfl fun message hm => ?_
    rw [List.mem_singleton.mp hm]
    rfl

/-- The log ends with the main request that brought the response. -/
def Answered (response : Response) (turn : Turn) : Prop :=
  Kept turn ∧ ∃ (b : List Entry) (checkpoint : WorkingContext) (request : Request)
    (attempts : List Attempt),
    turn.progress.log = b ++ [Entry.main checkpoint request attempts (.ok response)]

theorem sendMain_tracked (h : Tracked turn) : Kept (sendMain env loop inputs tools turn).2 ∧
    ∀ response, (sendMain env loop inputs tools turn).1 = .ok response →
      Answered response (sendMain env loop inputs tools turn).2 := by
  obtain ⟨checkpoint, request, attempts, reply, hlog, hids, hreply⟩ :=
    sendMain_log env loop inputs tools turn
  have hnext : Kept (sendMain env loop inputs tools turn).2 :=
    h.keep hlog hids (fun calls hq => by cases hq) fun message hm => by cases hm
  refine ⟨hnext, fun response hr => ⟨hnext, turn.progress.log, checkpoint, request, attempts, ?_⟩⟩
  rw [hlog, hreply response hr]

/-- An admitted response is taken over. -/
theorem answer_effects {response : Response} {ids : List Bytes} (h : Answered response turn)
    (hids : admitResponse turn response = .ok ids) :
    Admitted response (batchCalls turn.progress.log) ∧
      Effects (turn.progress.log ++ [Entry.answer response.blocks]) := by
  obtain ⟨hkept, b, checkpoint, request, attempts, hlog⟩ := h
  obtain ⟨hstop, hadmit⟩ := admitResponse_ok hids
  obtain ⟨rfl, hnodup, hfresh⟩ := admitToolUseIds_ok hadmit
  rw [hkept.seen] at hfresh
  have hadmitted : Admitted response (batchCalls turn.progress.log) := ⟨hstop, hnodup, hfresh⟩
  refine ⟨hadmitted, hkept.effects.quiet (fun calls hq => by cases hq) fun b' last hq => ?_⟩
  rw [hlog] at hq hadmitted
  obtain ⟨rfl, hlast⟩ := List.append_inj' hq rfl
  obtain rfl : Entry.main checkpoint request attempts (.ok response) = last := by simpa using hlast
  refine ⟨response, rfl, rfl, ?_⟩
  simpa [batchCalls, Entry.batchCalls] using hadmitted

/-- The batch of an admitted response runs calls with new identities. -/
theorem batched_effects {response : Response} {ids : List Bytes} (h : Answered response turn)
    (hids : admitResponse turn response = .ok ids) :
    Effects (batched { turn with toolUseIds := ids } response).progress.log ∧
      ids = (batchCalls (batched { turn with toolUseIds := ids } response).progress.log).map
        (·.toolUseId) := by
  obtain ⟨hadmitted, hanswer⟩ := answer_effects h hids
  obtain ⟨hkept, b, checkpoint, request, attempts, hlog⟩ := h
  obtain ⟨rfl, -, -⟩ := admitToolUseIds_ok (admitResponse_ok hids).2
  have hcalls : batchCalls (turn.progress.log ++ [Entry.answer response.blocks] ++
      [Entry.batch (toolUsesIn response.blocks)]) = batchCalls turn.progress.log ++
        toolUsesIn response.blocks := by
    simp [batchCalls, Entry.batchCalls]
  have hearlier : batchCalls turn.progress.log = batchCalls b := by
    rw [hlog]
    simp [batchCalls, Entry.batchCalls]
  rw [hkept.seen]
  show Effects (turn.progress.log ++ [Entry.answer response.blocks] ++
    [Entry.batch (toolUsesIn response.blocks)]) ∧ _ =
    (batchCalls (turn.progress.log ++ [Entry.answer response.blocks] ++
      [Entry.batch (toolUsesIn response.blocks)])).map (·.toolUseId)
  refine ⟨hanswer.snoc ⟨fun calls hq => ?_, fun b last hq => ?_⟩ ?_ fun call hcall => ?_, ?_⟩
  · cases hq
    exact ⟨b, checkpoint, request, attempts, response, by simp [hlog], rfl, hearlier ▸ hadmitted⟩
  · obtain rfl : Entry.answer response.blocks = last := by simpa using (List.append_inj' hq rfl).2
    trivial
  · rw [hcalls, List.map_append]
    refine List.nodup_append.mpr ⟨hkept.effects.nodup, hadmitted.nodup,
      fun id hold other hnew => ?_⟩
    rintro rfl
    obtain ⟨call, hcall, rfl⟩ := List.mem_map.mp hnew
    exact (hadmitted.fresh call hcall).2 hold
  · exact (hadmitted.fresh call hcall).1
  · rw [hcalls, List.map_append]

theorem runTools_tracked {response : Response} {ids : List Bytes} {out : Result Unit} {next : Turn}
    (h : Answered response turn) (hids : admitResponse turn response = .ok ids)
    (hrun : runTools env inputs { turn with toolUseIds := ids } response = (out, next)) :
    Effects next.progress.log ∧ (out = .ok () → Tracked next) := by
  obtain ⟨heffects, hseen⟩ := batched_effects h hids
  obtain ⟨e, rfl, rfl | rfl⟩ | ⟨rows, results, hrows, hresults, rfl, rfl⟩ :=
    runTools_cases env inputs hrun
  · exact ⟨h.1.effects, fun hq => (by cases hq)⟩
  · exact ⟨heffects, fun hq => (by cases hq)⟩
  · have hanswers := batch_answers hrows hresults
    have hpushed : Effects ((batched { turn with toolUseIds := ids } response).push
      ⟨.tool, results, none⟩
        (Entry.results results)).progress.log := by
      refine heffects.quiet (fun calls hq => by cases hq) fun b last hq => ?_
      obtain rfl : Entry.batch (toolUsesIn response.blocks) = last := by
        simpa using (List.append_inj' hq rfl).2
      exact ⟨results, rfl, hanswers⟩
    refine ⟨hpushed, fun _ => ⟨⟨hpushed, ?_, ?_⟩, fun b last hq => ?_⟩⟩
    · show ids = (batchCalls ((batched { turn with toolUseIds := ids } response).progress.log ++
        [Entry.results results])).map (·.toolUseId)
      rw [batchCalls_append, show batchCalls [Entry.results results] = [] from rfl, List.append_nil]
      exact hseen
    · have hspoken : spoken ((batched { turn with toolUseIds := ids } response).push
        ⟨.tool, results, none⟩
          (Entry.results results)).progress.log =
          spoken turn.progress.log ++ [⟨.assistant, response.blocks, none⟩] ++
            [⟨.tool, results, none⟩] := by
        simp [batched, Turn.push, spoken, Entry.spokenMessages]
      rw [hspoken]
      exact h.1.exchanged.exchange hanswers
    · obtain rfl : Entry.results results = last := by simpa using (List.append_inj' hq rfl).2
      rfl

theorem finishTurn_tracked {iteration : UInt32} {response : Response} {ids : List Bytes}
    {out : Result RunTurnResult} {next : Turn} (h : Answered response turn)
    (hids : admitResponse turn response = .ok ids) (huses : toolUsesIn response.blocks = [])
    (hrun : finishTurn env inputs iteration { turn with toolUseIds := ids } response =
      (out, next)) :
    Effects next.progress.log ∧ Exchanged (spoken next.progress.log) := by
  obtain ⟨⟨hlog, -, -⟩, -⟩ := finishTurn_cases env inputs hrun
  rw [hlog]
  constructor
  · exact (answer_effects h hids).2
  · show Exchanged (spoken (turn.progress.log ++ [Entry.answer response.blocks]))
    rw [spoken_append]
    exact h.1.exchanged.snoc huses

theorem effectsRule : IterationRule env loop inputs tools Tracked Answered
    (fun turn => Effects turn.progress.log) fun _ turn => Exchanged (spoken turn.progress.log) where
  exit h := h.effects
  same h hsame := by rw [hsame.log]; exact h
  read h := readTurnInbox_tracked h
  fit h := fitView_tracked h
  send h _ := ⟨(sendMain_tracked h).1.effects, (sendMain_tracked h).2⟩
  runs h hids hrun := runTools_tracked h hids hrun
  finish h hids huses hrun :=
    have hnext := finishTurn_tracked h hids huses hrun
    ⟨hnext.1, fun _ _ => hnext.2⟩

end Steps

theorem runTurn_effects (env : TurnEnv) (loop : Loop) (inputs : RunTurnInputs) :
    Effects (runTurn env loop inputs).2 ∧
      ∀ r, (runTurn env loop inputs).1 = .ok r →
        Exchanged (spoken (runTurn env loop inputs).2) := by
  unfold runTurn
  split
  · exact ⟨Effects.nil, fun r hr => (by cases hr)⟩
  next tools _ =>
  have hloaded : Tracked (loadHistory env loop inputs tools
      (inputs.historyEnd - inputs.checkpoint.coveredSequence).toNat
        inputs.checkpoint.coveredSequence
      (startTurn loop inputs)).2 := loadHistory_tracked _ _ startTurn_tracked
  dsimp only
  split
  · next e turn hq =>
    rw [hq] at hloaded
    rcases hfail : (failTurn env inputs e turn : Result RunTurnResult × Turn) with ⟨result, next⟩
    obtain ⟨⟨e, rfl⟩, hsame⟩ := failTurn_same env inputs hfail
    exact ⟨by rw [hsame.log]; exact hloaded.effects, fun r hr => (by cases hr)⟩
  · next turn hq =>
    rw [hq] at hloaded
    have hjoined : Tracked turn.join := hloaded.congr rfl rfl
    exact effectsRule.iterate _ hjoined rfl

/-- No identity reaches the scheduler twice; a batch runs the calls of the admitted
response before it, and a response that is not admitted ends the turn; a batch that the
turn continues past is answered in order; and a result leaves no call unanswered. -/
theorem tool_effects (env : TurnEnv) (loop : Loop) (inputs : RunTurnInputs) :
    (((batchCalls (runTurn env loop inputs).2).map (·.toolUseId)).Nodup ∧
      ∀ call ∈ batchCalls (runTurn env loop inputs).2, call.toolUseId ≠ []) ∧
    (∀ before calls after, (runTurn env loop inputs).2 = before ++ Entry.batch calls :: after →
      ∃ b checkpoint request attempts response,
        before = b ++ [Entry.main checkpoint request attempts (.ok response),
          .answer response.blocks] ∧
        calls = toolUsesIn response.blocks ∧ Admitted response (batchCalls b)) ∧
    (∀ before checkpoint request attempts response after,
      (runTurn env loop inputs).2 = before ++ Entry.main checkpoint request attempts
        (.ok response) :: after →
      ¬ Admitted response (batchCalls before) → after = []) ∧
    (∀ before calls next after,
      (runTurn env loop inputs).2 = before ++ Entry.batch calls :: next :: after →
      ∃ pre blocks results, spoken (before ++ [Entry.batch calls, next]) =
          pre ++ [⟨.assistant, blocks, none⟩, ⟨.tool, results, none⟩] ∧
        calls = toolUsesIn blocks ∧ next = .results results ∧ Answers calls results) ∧
    ∀ result, (runTurn env loop inputs).1 = .ok result →
      (result.transcript = inputs.conversationTail ++ spoken (runTurn env loop inputs).2 ∧
        Exchanged (spoken (runTurn env loop inputs).2)) ∧
      (∀ id, Unanswered result.transcript id → Unanswered inputs.conversationTail id) ∧
      ((∀ message ∈ inputs.conversationTail, toolUsesIn message.blocks = []) →
        ∀ id, ¬ Unanswered result.transcript id) := by
  obtain ⟨heffects, hexchanged⟩ := runTurn_effects env loop inputs
  refine ⟨⟨heffects.nodup, heffects.nonempty⟩, ?_, ?_, ?_, ?_⟩
  · intro before calls after hq
    exact (heffects.entries before _ after hq).1 calls rfl
  · intro before checkpoint request attempts response after hq hnot
    cases after with
    | nil => rfl
    | cons e after =>
      have hlast :=
        (heffects.entries (before ++ [Entry.main checkpoint request attempts (.ok response)]) e
          after (by simp [hq])).2 before _ rfl
      obtain ⟨found, hfound, -, hadmitted⟩ := hlast
      cases hfound
      exact absurd hadmitted hnot
  · intro before calls next after hq
    obtain ⟨b, checkpoint, request, attempts, response, rfl, rfl, -⟩ :=
      (heffects.entries before _ (next :: after) hq).1 calls rfl
    obtain ⟨results, rfl, hanswers⟩ := (heffects.entries
      (b ++ [Entry.main checkpoint request attempts (.ok response), .answer response.blocks] ++
        [Entry.batch (toolUsesIn response.blocks)]) next after (by simp [hq])).2 _ _ rfl
    refine ⟨spoken b, response.blocks, results, ?_, rfl, rfl, hanswers⟩
    simp [spoken, Entry.spokenMessages]
  · intro result hr
    rcases runTurn_sound env loop inputs with ⟨e, he⟩ | ⟨tools, -, -, hresult⟩
    · rw [he] at hr
      cases hr
    · have htranscript := (hresult result hr).transcript
      have htail : ∀ id, Unanswered result.transcript id →
          Unanswered inputs.conversationTail id := by
        intro id hopen
        rw [htranscript] at hopen
        exact (hexchanged result hr).unanswered_append hopen
      refine ⟨⟨htranscript, hexchanged result hr⟩, htail, fun hplain id hopen => ?_⟩
      obtain ⟨pre, message, post, hsplit, ⟨call, hcall, -⟩, -⟩ := htail id hopen
      rw [hplain message (by simp [hsplit])] at hcall
      cases hcall

end Orangutan.Agent
