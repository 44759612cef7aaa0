import Orangutan.Agent.Exchanges
import Orangutan.Agent.Iterations

/-!
# View, transcript and checkpoint of a turn agree

The log of a turn says what was loaded and what was said. At every point the view
holds the end of these messages that the checkpoint does not cover, and the transcript
holds all that was said. Each function of the turn is followed once.
-/

namespace Orangutan.Agent

set_option autoImplicit false

open Orangutan.Core Orangutan.Provider

def Entry.storedMessages : Entry → List Message
  | loaded message => [message]
  | _ => []

def Entry.spokenMessages : Entry → List Message
  | inbox t => [inboxMessage t]
  | answer blocks => [⟨.assistant, blocks, none⟩]
  | results blocks => [⟨.tool, blocks, none⟩]
  | _ => []

def Entry.isCompacted : Entry → Bool
  | compacted => true
  | _ => false

/-- The stored messages a turn has loaded. -/
def stored (log : List Entry) : List Message := log.flatMap Entry.storedMessages

/-- The inbox messages, responses and tool results of a turn, in order. -/
def spoken (log : List Entry) : List Message := log.flatMap Entry.spokenMessages

/-- The number of committed compactions. -/
def compactions (log : List Entry) : Nat := log.countP Entry.isCompacted

@[simp] theorem stored_append (a b : List Entry) : stored (a ++ b) = stored a ++ stored b := by
    simp [stored]
@[simp] theorem spoken_append (a b : List Entry) : spoken (a ++ b) = spoken a ++ spoken b := by
  simp [spoken]

@[simp] theorem compactions_append (a b : List Entry) :
    compactions (a ++ b) = compactions a + compactions b := by simp [compactions]

section Sound

variable (env : TurnEnv) (loop : Loop) (inputs : RunTurnInputs) (tools : List ToolDef)

/-- What a checkpoint leaves of the loaded and spoken messages. -/
def uncovered (checkpoint : WorkingContext) (messages : List Message) : List Message :=
  messages.drop (checkpoint.coveredSequence - inputs.checkpoint.coveredSequence).toNat

/-- What holds of an entry, given the log before it. -/
def Entry.Ok (before : List Entry) : Entry → Prop
  | loaded message => ∃ (tick : Nat) (after : Int) (i : Nat) (page : List Message),
      inputs.checkpoint.coveredSequence ≤ after ∧ env.loadAfter tick after = .ok page ∧
        page[i]? = some message ∧
          after + (i : Int) = inputs.checkpoint.coveredSequence + (stored before).length
  | summary request attempts =>
    inputs.context.count request ≤ inputs.context.maxTokens ∧ request.thinkingBudget = none ∧
      ∀ a ∈ attempts, ∃ t ∈ Execution.targets (summaryRoute loop.route),
        a = ⟨Execution.attemptRequest request t.1 t.2, t.1⟩
  | main checkpoint request attempts _ =>
    (stored before).length = (inputs.historyEnd - inputs.checkpoint.coveredSequence).toNat ∧
    inputs.checkpoint.coveredSequence ≤ checkpoint.coveredSequence ∧
    (checkpoint.coveredSequence - inputs.checkpoint.coveredSequence).toNat ≤
      (stored before ++ (inputs.conversationTail ++ spoken before)).length ∧
    request = { requestFrame loop inputs tools with messages := request.messages } ∧
    request.messages = contextMessages
      ⟨checkpoint, uncovered inputs checkpoint
        (stored before ++ (inputs.conversationTail ++ spoken before)), false⟩ ∧
    inputs.context.count { budgetFrame loop inputs tools with messages := request.messages } ≤
      inputs.context.maxTokens ∧
    ∀ a ∈ attempts, ∃ t ∈ Execution.targets loop.route,
      a = ⟨Execution.attemptRequest request t.1 t.2, t.1⟩
  | _ => True

/-- An entry that says something does nothing else. -/
theorem Entry.spoken_facts (before : List Entry) {e : Entry} {message : Message}
    (h : e.spokenMessages = [message]) :
    e.storedMessages = [] ∧ e.isCompacted = false ∧ e.Ok env loop inputs tools before := by
  cases e with
  | inbox t => exact ⟨rfl, rfl, trivial⟩
  | answer blocks => exact ⟨rfl, rfl, trivial⟩
  | results blocks => exact ⟨rfl, rfl, trivial⟩
  | loaded _ => cases h
  | summary _ _ => cases h
  | compacted => cases h
  | main _ _ _ _ => cases h
  | batch _ => cases h

def LogOk (log : List Entry) : Prop :=
  ∀ (before : List Entry) (e : Entry) (after : List Entry),
    log = before ++ e :: after → e.Ok env loop inputs tools before

theorem logOk_nil : LogOk env loop inputs tools [] := fun before e after h => by simp at h

variable {env loop inputs tools}

theorem LogOk.snoc {log : List Entry} {e : Entry} (h : LogOk env loop inputs tools log)
    (he : e.Ok env loop inputs tools log) : LogOk env loop inputs tools (log ++ [e]) := by
  intro before d after hl
  rcases List.eq_nil_or_concat after with rfl | ⟨after, m, rfl⟩
  · obtain ⟨rfl, hlast⟩ := List.append_inj' hl rfl
    obtain rfl : e = d := by simpa using hlast
    exact he
  · have hl : log ++ [e] = (before ++ d :: after) ++ [m] := by simpa using hl
    exact h before d after (List.append_inj' hl rfl).1

variable (env loop inputs tools)

/-- The turn agrees with its log. `joined` says that the transcript has joined the view. -/
structure Sound (joined : Bool) (turn : Turn) : Prop where
  covered : inputs.checkpoint.coveredSequence ≤ turn.view.checkpoint.coveredSequence
  messages : turn.view.messages = uncovered inputs turn.view.checkpoint
    (stored turn.progress.log ++ if joined then turn.transcript else [])
  inside : (turn.view.checkpoint.coveredSequence - inputs.checkpoint.coveredSequence).toNat ≤
    (stored turn.progress.log ++ if joined then turn.transcript else []).length
  complete : joined = true → (stored turn.progress.log).length =
    (inputs.historyEnd - inputs.checkpoint.coveredSequence).toNat
  transcript : turn.transcript = inputs.conversationTail ++ spoken turn.progress.log
  revision : turn.view.checkpoint.revision = inputs.checkpoint.revision +
    compactions turn.progress.log
  unchanged : compactions turn.progress.log = 0 → turn.view.checkpoint = inputs.checkpoint
  log : LogOk env loop inputs tools turn.progress.log

variable {env loop inputs tools}

namespace Sound

variable {joined : Bool} {turn : Turn}

theorem congr (h : Sound env loop inputs tools joined turn) {next : Turn} (hsame : next.Same turn) :
    Sound env loop inputs tools joined next := by
  obtain ⟨hlog, hview, htranscript⟩ := hsame
  obtain ⟨h₁, h₂, h₃, h₄, h₅, h₆, h₇, h₈⟩ := h
  rw [← hlog, ← hview] at *
  rw [← htranscript] at *
  exact ⟨h₁, h₂, h₃, h₄, h₅, h₆, h₇, h₈⟩

/-- An entry that carries no message is noted. -/
theorem note (h : Sound env loop inputs tools joined turn) {p : Progress} {e : Entry}
    (hlog : p.log = turn.progress.log ++ [e]) (hstored : e.storedMessages = [])
    (hspoken : e.spokenMessages = []) (hkind : e.isCompacted = false)
    (he : e.Ok env loop inputs tools turn.progress.log) :
    Sound env loop inputs tools joined { turn with progress := p } := by
  have hs : stored p.log = stored turn.progress.log := by simp [hlog, stored, hstored]
  have ht : spoken p.log = spoken turn.progress.log := by simp [hlog, spoken, hspoken]
  have hc : compactions p.log = compactions turn.progress.log := by simp [hlog, compactions, hkind]
  exact
    { covered := h.covered
      messages := by rw [hs]; exact h.messages
      inside := by rw [hs]; exact h.inside
      complete := fun hj => by rw [hs]; exact h.complete hj
      transcript := by rw [ht]; exact h.transcript
      revision := by rw [hc]; exact h.revision
      unchanged := fun hz => h.unchanged (hc ▸ hz)
      log := by rw [hlog]; exact h.log.snoc he }

/-- A fitted view covers what it no longer holds. -/
theorem fit (h : Sound env loop inputs tools joined turn) {result : Result Unit}
    {view : ContextView} (hfits : Fits turn.view result view) :
    Sound env loop inputs tools joined { turn with
      view
      progress := { turn.progress with
        log := if view.checkpoint = turn.view.checkpoint then turn.progress.log
          else turn.progress.log ++ [Entry.compacted] } } := by
  have hsame : view.checkpoint = turn.view.checkpoint → view.messages = turn.view.messages →
      Sound env loop inputs tools joined { turn with
        view
        progress := { turn.progress with
          log := if view.checkpoint = turn.view.checkpoint then turn.progress.log
            else turn.progress.log ++ [Entry.compacted] } } := by
    intro hcheckpoint hmessages
    rw [if_pos hcheckpoint]
    obtain ⟨h₁, h₂, h₃, h₄, h₅, h₆, h₇, h₈⟩ := h
    rw [← hcheckpoint] at h₁ h₂ h₃ h₆ h₇
    exact ⟨h₁, hmessages.trans h₂, h₃, h₄, h₅, h₆, h₇, h₈⟩
  cases hfits with
  | fail e => exact hsame rfl rfl
  | keep => exact hsame rfl rfl
  | defer => exact hsame rfl rfl
  | compact cut summary hcut =>
    obtain ⟨hpos, hlt, -⟩ := cuts_spec hcut
    have hchanged : (compacted turn.view cut summary).checkpoint ≠ turn.view.checkpoint := by
      intro he
      have := congrArg WorkingContext.revision he
      simp [compacted] at this
    have hcovered := h.covered
    have hoffset : (turn.view.checkpoint.coveredSequence + (cut : Int) -
        inputs.checkpoint.coveredSequence).toNat =
        (turn.view.checkpoint.coveredSequence - inputs.checkpoint.coveredSequence).toNat + cut := by
          omega
    rw [if_neg hchanged]
    have hlength := congrArg List.length h.messages
    rw [uncovered, List.length_drop] at hlength
    refine ⟨?_, ?_, ?_, fun hj => ?_, ?_, ?_, fun hz => ?_, h.log.snoc trivial⟩
    · show inputs.checkpoint.coveredSequence ≤ turn.view.checkpoint.coveredSequence + cut
      omega
    · show turn.view.messages.drop cut = _
      rw [h.messages, uncovered, uncovered, List.drop_drop]
      show _ = List.drop (turn.view.checkpoint.coveredSequence + (cut : Int) -
        inputs.checkpoint.coveredSequence).toNat _
      rw [hoffset, stored_append]
      simp [stored, Entry.storedMessages]
    · show (turn.view.checkpoint.coveredSequence + (cut : Int) -
        inputs.checkpoint.coveredSequence).toNat ≤ _
      rw [hoffset, stored_append]
      simp only [stored, Entry.storedMessages, List.flatMap_cons, List.flatMap_nil,
        List.append_nil] at hlength ⊢
      omega
    · rw [stored_append]
      simpa [stored, Entry.storedMessages] using h.complete hj
    · rw [spoken_append]
      simpa [spoken, Entry.spokenMessages] using h.transcript
    · show turn.view.checkpoint.revision + 1 = _
      rw [h.revision, compactions_append]
      simp [compactions, Entry.isCompacted, Int.add_assoc]
    · rw [compactions_append] at hz
      simp [compactions, Entry.isCompacted] at hz

/-- A message is said: it enters the view and the transcript. -/
theorem push (h : Sound env loop inputs tools true turn) {message : Message} {e : Entry}
    (hspoken : e.spokenMessages = [message]) :
      Sound env loop inputs tools true (turn.push message e) := by
  obtain ⟨hstored, hkind, he⟩ := Entry.spoken_facts env loop inputs tools turn.progress.log hspoken
  have hs : stored (turn.progress.log ++ [e]) = stored turn.progress.log := by
    simp [stored, hstored]
  have ht : spoken (turn.progress.log ++ [e]) = spoken turn.progress.log ++ [message] := by
    simp [spoken, hspoken]
  have hc : compactions (turn.progress.log ++ [e]) = compactions turn.progress.log := by
    simp [compactions, hkind]
  have hinside := h.inside
  simp only [if_true] at hinside
  refine ⟨h.covered, ?_, ?_, fun hj => ?_, ?_, ?_, fun hz => ?_, h.log.snoc he⟩
  · show turn.view.messages ++ [message] = uncovered inputs turn.view.checkpoint
      (stored (turn.progress.log ++ [e]) ++ (turn.transcript ++ [message]))
    rw [hs, ← List.append_assoc, uncovered, List.drop_append_of_le_length hinside]
    exact congrArg (· ++ [message]) h.messages
  · show _ ≤ (stored (turn.progress.log ++ [e]) ++ (turn.transcript ++ [message])).length
    rw [hs, ← List.append_assoc, List.length_append]
    exact Nat.le_trans hinside (Nat.le_add_right _ _)
  · show (stored (turn.progress.log ++ [e])).length = _
    rw [hs]
    exact h.complete hj
  · show turn.transcript ++ [message] = inputs.conversationTail ++ spoken (turn.progress.log ++ [e])
    rw [ht, h.transcript, List.append_assoc]
  · show turn.view.checkpoint.revision = inputs.checkpoint.revision +
      compactions (turn.progress.log ++ [e])
    rw [hc]
    exact h.revision
  · exact h.unchanged (hc ▸ hz)

/-- A stored message is loaded: it enters the view only. -/
theorem load (h : Sound env loop inputs tools false turn) {message : Message}
    (he : (Entry.loaded message).Ok env loop inputs tools turn.progress.log) :
    Sound env loop inputs tools false { turn with
      view := { turn.view with messages := turn.view.messages ++ [message] }
      progress := { turn.progress with log := turn.progress.log ++ [Entry.loaded message] } } := by
  have hs : stored (turn.progress.log ++ [Entry.loaded message]) = stored turn.progress.log ++
      [message] := by
    simp [stored, Entry.storedMessages]
  have hinside := h.inside
  have hmessages := h.messages
  simp only [Bool.false_eq_true, if_false, List.append_nil] at hinside hmessages
  refine ⟨h.covered, ?_, ?_, fun hj => (by cases hj), ?_, ?_, fun hz => h.unchanged ?_,
    h.log.snoc he⟩
  · show turn.view.messages ++ [message] = uncovered inputs turn.view.checkpoint
      (stored (turn.progress.log ++ [Entry.loaded message]) ++ [])
    rw [hs, List.append_nil, uncovered, List.drop_append_of_le_length hinside]
    exact congrArg (· ++ [message]) hmessages
  · show _ ≤ (stored (turn.progress.log ++ [Entry.loaded message]) ++ []).length
    rw [hs, List.append_nil, List.length_append]
    exact Nat.le_trans hinside (Nat.le_add_right _ _)
  · show turn.transcript = inputs.conversationTail ++
      spoken (turn.progress.log ++ [Entry.loaded message])
    simpa [spoken, Entry.spokenMessages] using h.transcript
  · show turn.view.checkpoint.revision =
      inputs.checkpoint.revision + compactions (turn.progress.log ++ [Entry.loaded message])
    simpa [compactions, Entry.isCompacted] using h.revision
  · simpa [compactions, Entry.isCompacted] using hz

/-- The transcript joins once all of the history was loaded. -/
theorem join (h : Sound env loop inputs tools false turn)
    (hall : (stored turn.progress.log).length =
      (inputs.historyEnd - inputs.checkpoint.coveredSequence).toNat) :
    Sound env loop inputs tools true turn.join := by
  have hinside := h.inside
  have hmessages := h.messages
  simp only [Bool.false_eq_true, if_false, List.append_nil] at hinside hmessages
  refine ⟨h.covered, ?_, ?_, fun _ => hall, h.transcript, h.revision, h.unchanged, h.log⟩
  · show turn.view.messages ++ turn.transcript =
      uncovered inputs turn.view.checkpoint (stored turn.progress.log ++ turn.transcript)
    rw [uncovered, List.drop_append_of_le_length hinside]
    exact congrArg (· ++ turn.transcript) hmessages
  · show _ ≤ (stored turn.progress.log ++ turn.transcript).length
    rw [List.length_append]
    exact Nat.le_trans hinside (Nat.le_add_right _ _)

end Sound

variable (env loop inputs tools)

/-- A summary is noted with its attempts. -/
theorem summarize_log (request : Request) (p : Progress) :
    ∃ attempts, (summarize env loop request p).2.log = p.log ++ [Entry.summary request attempts] ∧
      ∀ a ∈ attempts, ∃ t ∈ Execution.targets (summaryRoute loop.route),
        a = ⟨Execution.attemptRequest request t.1 t.2, t.1⟩ := by
  refine ⟨(Execution.run env.backend request (summaryRoute loop.route) false p.tick).2.1, ?_,
    Execution.run_attempts _ _ _ _ _⟩
  unfold summarize
  dsimp only
  split <;> rfl

section Fit

variable (turn : Turn)

/-- The readings after a call of `fit_context` on the turn's view. -/
def fitted : Result Unit × ContextView × Progress :=
  fitContext (summarize env loop) inputs.context (budgetFrame loop inputs tools)
    (env.cancelled turn.progress.tick) turn.view { turn.progress with tick :=
      turn.progress.tick + 1 }

theorem fitView_eq : fitView env loop inputs tools turn =
    let out := fitted env loop inputs tools turn
    (out.1, { turn with
      view := out.2.1
      progress := { out.2.2 with
        log := if out.2.1.checkpoint = turn.view.checkpoint then out.2.2.log
          else out.2.2.log ++ [Entry.compacted] } }) := rfl

/-- Fitting notes at most one summary, and it was within the budget. -/
theorem fitted_log : (fitted env loop inputs tools turn).2.2.log = turn.progress.log ∨
    ∃ request attempts,
      (fitted env loop inputs tools turn).2.2.log = turn.progress.log ++
        [Entry.summary request attempts] ∧
      (Entry.summary request attempts).Ok env loop inputs tools turn.progress.log := by
  unfold fitted
  rcases fitContext_sends (summarize env loop) inputs.context (budgetFrame loop inputs tools)
    (env.cancelled turn.progress.tick) turn.view
    { turn.progress with tick := turn.progress.tick + 1 } with hs | ⟨cut, hcount, hs⟩
  · left
    rw [hs]
  · right
    obtain ⟨attempts, hlog, hattempts⟩ := summarize_log env loop
      (summaryRequest inputs.context (budgetFrame loop inputs tools) turn.view cut)
      { turn.progress with tick := turn.progress.tick + 1 }
    refine ⟨_, attempts, ?_, hcount, rfl, hattempts⟩
    rw [hs, hlog]

/-- A summary stores nothing. -/
theorem fitView_stored :
    stored (fitView env loop inputs tools turn).2.progress.log = stored turn.progress.log := by
  have hsent : stored (fitted env loop inputs tools turn).2.2.log = stored turn.progress.log := by
    rcases fitted_log env loop inputs tools turn with hlog | ⟨request, attempts, hlog, -⟩
    · rw [hlog]
    · rw [hlog, stored_append]
      simp [stored, Entry.storedMessages]
  rw [fitView_eq]
  dsimp only
  split
  · exact hsent
  · rw [stored_append, hsent]
    simp [stored, Entry.storedMessages]

end Fit

variable {env loop inputs tools}

section Steps

variable {joined : Bool} {turn : Turn}

theorem fitView_sound (h : Sound env loop inputs tools joined turn) :
    Sound env loop inputs tools joined (fitView env loop inputs tools turn).2 := by
  have hsent : Sound env loop inputs tools joined
      { turn with progress := (fitted env loop inputs tools turn).2.2 } := by
    rcases fitted_log env loop inputs tools turn with hlog | ⟨request, attempts, hlog, hok⟩
    · exact h.congr ⟨hlog, rfl, rfl⟩
    · exact h.note hlog rfl rfl rfl hok
  have hfits : Fits turn.view (fitted env loop inputs tools turn).1
      (fitted env loop inputs tools turn).2.1 :=
    fitContext_fits _ _ _ _ _ _
  exact hsent.fit hfits

/-- The messages of a page are loaded in order. `done` counts those loaded before. -/
theorem loadPage_sound (done : Nat) {tick : Nat} {after : Int} {page : List Message}
    (hafter : inputs.checkpoint.coveredSequence ≤ after)
      (hpage : env.loadAfter tick after = .ok page)
    (h : Sound env loop inputs tools false turn)
    (hat : after + (done : Int) = inputs.checkpoint.coveredSequence +
      (stored turn.progress.log).length) :
    Sound env loop inputs tools false (loadPage env loop inputs tools (page.drop done) turn).2 ∧
    ((loadPage env loop inputs tools (page.drop done) turn).1 = .ok () →
      (stored (loadPage env loop inputs tools (page.drop done) turn).2.progress.log).length =
        (stored turn.progress.log).length + (page.length - done)) := by
  generalize hrest : page.drop done = rest
  induction rest generalizing turn done with
  | nil =>
    refine ⟨h, fun _ => ?_⟩
    have hlength := congrArg List.length hrest
    rw [List.length_drop, List.length_nil] at hlength
    rw [hlength]
    rfl
  | cons message rest ih =>
    have hget : page[done]? = some message := by
      rw [← List.head?_drop, hrest, List.head?_cons]
    have hnext : page.drop (done + 1) = rest := by
      rw [← List.tail_drop, hrest, List.tail_cons]
    have hlength := congrArg List.length hrest
    rw [List.length_drop, List.length_cons] at hlength
    have hentry : (Entry.loaded message).Ok env loop inputs tools turn.progress.log :=
      ⟨tick, after, done, page, hafter, hpage, hget, hat⟩
    have hfitted := fitView_sound (h.load hentry)
    have hstored := fitView_stored env loop inputs tools { turn with
      view := { turn.view with messages := turn.view.messages ++ [message] }
      progress := { turn.progress with log := turn.progress.log ++ [Entry.loaded message] } }
    have hone : (stored (turn.progress.log ++ [Entry.loaded message])).length =
        (stored turn.progress.log).length + 1 := by simp [stored, Entry.storedMessages]
    rw [loadPage]
    split
    · next e next hq =>
      rw [hq] at hfitted
      exact ⟨hfitted, fun he => (by cases he)⟩
    · next next hq =>
      rw [hq] at hfitted hstored
      dsimp only at hstored
      obtain ⟨hsound, hcount⟩ :=
        ih (done + 1) hfitted (by rw [hstored, hone]; push_cast; omega) hnext
      refine ⟨hsound, fun he => ?_⟩
      rw [hcount he, hstored, hone]
      omega

/-- Loading ends with an error or with all of the history. -/
theorem loadHistory_sound {fuel : Nat} {loaded : Int} (h : Sound env loop inputs tools false turn)
    (hat : loaded = inputs.checkpoint.coveredSequence + (stored turn.progress.log).length)
    (hfuel : (inputs.historyEnd - loaded).toNat ≤ fuel) (hend : loaded ≤ inputs.historyEnd) :
    Sound env loop inputs tools false (loadHistory env loop inputs tools fuel loaded turn).2 ∧
    ((loadHistory env loop inputs tools fuel loaded turn).1 = .ok () →
      (stored (loadHistory env loop inputs tools fuel loaded turn).2.progress.log).length =
        (inputs.historyEnd - inputs.checkpoint.coveredSequence).toNat) := by
  induction fuel generalizing loaded turn with
  | zero => exact ⟨h, fun _ => by show (stored turn.progress.log).length = _; omega⟩
  | succ fuel ih =>
    rw [loadHistory]
    split
    · next hmore =>
      split
      · exact ⟨h, fun he => (by cases he)⟩
      have hnext : Sound env loop inputs tools false
          { turn with progress := { turn.progress with tick := turn.progress.tick + 1 } } :=
        h.congr ⟨rfl, rfl, rfl⟩
      dsimp only
      split
      · exact ⟨hnext, fun he => (by cases he)⟩
      next page hpage =>
      split
      · exact ⟨hnext, fun he => (by cases he)⟩
      next hsize =>
      simp only [Bool.or_eq_true, decide_eq_true_eq, not_or, List.isEmpty_iff] at hsize
      have hpos : 0 < page.length := List.length_pos_iff.mpr hsize.1
      obtain ⟨hsound, hcount⟩ := loadPage_sound 0 (by omega) hpage hnext (by simpa using hat)
      rw [List.drop_zero] at hsound hcount
      split
      · next e next hq =>
        rw [hq] at hsound
        exact ⟨hsound, fun he => (by cases he)⟩
      · next next hq =>
        rw [hq] at hsound hcount
        have hlength := hcount rfl
        dsimp only at hlength
        exact ih hsound (by rw [hlength]; push_cast; omega) (by omega) (by omega)
    · exact ⟨h, fun _ => by show (stored turn.progress.log).length = _; omega⟩

theorem readTurnInbox_sound (h : Sound env loop inputs tools true turn) :
    Sound env loop inputs tools true (readTurnInbox env inputs turn).2 := by
  unfold readTurnInbox
  split
  · exact h
  have hnext : Sound env loop inputs tools true
      { turn with progress := { turn.progress with tick := turn.progress.tick + 1 } } :=
        h.congr ⟨rfl, rfl, rfl⟩
  dsimp only
  split
  · exact hnext
  split
  · exact hnext
  · exact hnext
  · next message hmessage =>
    rw [takeInbox_some hmessage]
    exact hnext.push rfl

theorem sendMain_sound (h : Sound env loop inputs tools true turn)
    (hbudget : inputs.context.count { budgetFrame loop inputs tools with
      messages := contextMessages turn.view } ≤ inputs.context.maxTokens) :
    Sound env loop inputs tools true (sendMain env loop inputs tools turn).2 := by
  generalize hrequest :
    { requestFrame loop inputs tools with messages := contextMessages turn.view } = request
  have hmessages : request.messages = contextMessages turn.view := by rw [← hrequest]
  have hview : contextMessages turn.view = contextMessages ⟨turn.view.checkpoint,
      uncovered inputs turn.view.checkpoint (stored turn.progress.log ++
        (inputs.conversationTail ++ spoken turn.progress.log)), false⟩ := by
    rw [← h.transcript]
    exact congrArg (_ ++ ·) h.messages
  have hok : (Entry.main turn.view.checkpoint request
      (Execution.run env.backend request loop.route inputs.sink turn.progress.tick).2.1
      (Execution.run env.backend request loop.route inputs.sink turn.progress.tick).1.response).Ok
        env loop inputs tools turn.progress.log :=
    ⟨h.complete rfl, h.covered, h.transcript ▸ h.inside, by rw [hmessages]; exact hrequest.symm,
      hmessages.trans hview, by rw [hmessages]; exact hbudget, Execution.run_attempts _ _ _ _ _⟩
  unfold sendMain
  rw [hrequest]
  dsimp only
  split
  · exact h.note rfl rfl rfl rfl hok
  · exact h.note rfl rfl rfl rfl hok

theorem batched_sound (h : Sound env loop inputs tools true turn) (response : Response) :
    Sound env loop inputs tools true (batched turn response) := by
  have hanswer : Sound env loop inputs tools true
      (turn.push ⟨.assistant, response.blocks, none⟩ (.answer response.blocks)) := h.push rfl
  have hbatch : (Entry.batch (toolUsesIn response.blocks)).Ok env loop inputs tools
      (turn.push ⟨.assistant, response.blocks, none⟩ (.answer response.blocks)).progress.log :=
        trivial
  exact hanswer.note rfl rfl rfl rfl hbatch

theorem runTools_sound (h : Sound env loop inputs tools true turn) {next : Turn}
    {response : Response} {out : Result Unit}
    (hrun : runTools env inputs turn response = (out, next)) :
    Sound env loop inputs tools true next := by
  obtain ⟨e, -, rfl | rfl⟩ | ⟨rows, results, -, -, -, rfl⟩ := runTools_cases env inputs hrun
  · exact h
  · exact batched_sound h response
  · exact (batched_sound h response).push rfl

end Steps

/-- The returned transcript and checkpoint agree with the log. -/
structure Returned (inputs : RunTurnInputs) (result : RunTurnResult) (log : List Entry) : Prop where
  transcript : result.transcript = inputs.conversationTail ++ spoken log
  low : inputs.checkpoint.coveredSequence ≤ result.checkpoint.coveredSequence
  high : result.checkpoint.coveredSequence ≤ inputs.historyEnd + result.transcript.length
  revision : result.checkpoint.revision = inputs.checkpoint.revision + compactions log
  unchanged : compactions log = 0 → result.checkpoint = inputs.checkpoint

theorem finishTurn_ended (hend : inputs.checkpoint.coveredSequence ≤ inputs.historyEnd)
    {iteration : UInt32} {turn next : Turn} {response : Response} {out : Result RunTurnResult}
    (h : Sound env loop inputs tools true turn)
    (hrun : finishTurn env inputs iteration turn response = (out, next)) :
    LogOk env loop inputs tools next.progress.log ∧ ∀ r, out = .ok r →
      Returned inputs r next.progress.log := by
  obtain ⟨⟨hlog, hview, htranscript⟩, hresult⟩ := finishTurn_cases env inputs hrun
  have hanswer : (Entry.answer response.blocks).Ok env loop inputs tools turn.progress.log :=
    trivial
  have hcompactions : compactions next.progress.log = compactions turn.progress.log := by
    rw [hlog, finished, compactions_append]
    rfl
  refine ⟨by rw [hlog]; exact h.log.snoc hanswer, fun r hr => ?_⟩
  obtain ⟨hr₁, hr₂⟩ := hresult r hr
  rw [htranscript] at hr₁
  rw [hview] at hr₂
  refine ⟨?_, ?_, ?_, ?_, fun hz => ?_⟩
  · rw [hr₁, hlog, finished, h.transcript, spoken_append, List.append_assoc]
    rfl
  · rw [hr₂]
    exact h.covered
  · have hinside := h.inside
    have hcomplete := h.complete rfl
    simp only [if_true, List.length_append] at hinside
    rw [hr₁, hr₂]
    simp only [finished, List.length_append, List.length_singleton]
    push_cast
    omega
  · rw [hr₂, hcompactions]
    exact h.revision
  · rw [hr₂]
    exact h.unchanged (hcompactions ▸ hz)

theorem Sound.withIds {joined : Bool} {turn : Turn} (h : Sound env loop inputs tools joined turn)
    (ids : List Bytes) : Sound env loop inputs tools joined { turn with toolUseIds := ids } :=
  h.congr ⟨rfl, rfl, rfl⟩

theorem coherenceRule (hend : inputs.checkpoint.coveredSequence ≤ inputs.historyEnd) :
    IterationRule env loop inputs tools (Sound env loop inputs tools true)
      (fun _ => Sound env loop inputs tools true)
        (fun turn => LogOk env loop inputs tools turn.progress.log)
      fun r turn => Returned inputs r turn.progress.log where
  exit h := h.log
  same h hsame := by rw [hsame.log]; exact h
  read h := readTurnInbox_sound h
  fit h := fitView_sound h
  send h hbudget := ⟨(sendMain_sound h hbudget).log, fun _ _ => sendMain_sound h hbudget⟩
  runs h _ hrun :=
    have hnext := runTools_sound (h.withIds _) hrun
    ⟨hnext.log, fun _ => hnext⟩
  finish h _ _ hrun := finishTurn_ended hend (h.withIds _) hrun

theorem startTurn_sound : Sound env loop inputs tools false (startTurn loop inputs) where
  covered := le_refl _
  messages := by simp [startTurn, uncovered, stored]
  inside := by simp [startTurn]
  complete h := by cases h
  transcript := by simp [startTurn, spoken]
  revision := by simp [startTurn, compactions]
  unchanged _ := rfl
  log := logOk_nil env loop inputs tools

/-- A turn fails before it reads anything, or its log and its result agree with it. -/
theorem runTurn_sound (env : TurnEnv) (loop : Loop) (inputs : RunTurnInputs) :
    (∃ e, runTurn env loop inputs = (.error e, [])) ∨
    ∃ tools, Accepted inputs ∧ LogOk env loop inputs tools (runTurn env loop inputs).2 ∧
      ∀ r, (runTurn env loop inputs).1 = .ok r → Returned inputs r (runTurn env loop inputs).2 := by
  cases hvalid : validateInputs env inputs with
  | error e =>
    left
    exact ⟨e, by simp only [runTurn, hvalid]⟩
  | ok tools =>
    right
    have haccepted := validateInputs_ok env inputs hvalid
    have hstart : Sound env loop inputs tools false (startTurn loop inputs) := startTurn_sound
    obtain ⟨hsound, hall⟩ := loadHistory_sound hstart (by simp [startTurn, stored]) (le_refl _)
      haccepted.inside
    refine ⟨tools, haccepted, ?_⟩
    simp only [runTurn, hvalid]
    split
    · next e turn hq =>
      rw [hq] at hsound
      rcases hfail : (failTurn env inputs e turn : Result RunTurnResult × Turn) with ⟨result, next⟩
      obtain ⟨⟨e, rfl⟩, hsame⟩ := failTurn_same env inputs hfail
      exact ⟨by rw [hsame.log]; exact hsound.log, fun r hr => (by cases hr)⟩
    · next turn hq =>
      rw [hq] at hsound hall
      exact (coherenceRule haccepted.inside).iterate _ (hsound.join (hall rfl)) rfl

end Sound

section Coherence

variable {env : TurnEnv} {loop : Loop} {inputs : RunTurnInputs} {tools : List ToolDef}

/-- Pages in order give the history in order. -/
theorem stored_initial {history : List Message} (hnonneg : 0 ≤ inputs.checkpoint.coveredSequence)
    (hload : ∀ (tick after : Nat) page, env.loadAfter tick after = .ok page →
      page <+: history.drop after)
    {log : List Entry} (hlog : LogOk env loop inputs tools log) :
    stored log <+: history.drop inputs.checkpoint.coveredSequence.toNat := by
  induction log using List.reverseRecOn with
  | nil => exact List.nil_prefix
  | append_singleton before e ih =>
    have hbefore : LogOk env loop inputs tools before := fun b d a hq =>
      hlog b d (a ++ [e]) (by rw [hq]; simp)
    have hstored := ih hbefore
    have hentry := hlog before e [] rfl
    rw [stored_append]
    cases e with
    | loaded message =>
      obtain ⟨tick, after, i, page, hafter, hpage, hget, hat⟩ := hentry
      obtain ⟨n, rfl⟩ : ∃ n : Nat, after = n := ⟨after.toNat, by omega⟩
      obtain ⟨rest, hrest⟩ := hload tick n page hpage
      have hlt := (List.getElem?_eq_some_iff.mp hget).1
      -- the message stands in the history right after the loaded ones
      have hnext : (history.drop inputs.checkpoint.coveredSequence.toNat)[(stored before).length]? =
          some message := by
        rw [List.getElem?_drop, show inputs.checkpoint.coveredSequence.toNat +
            (stored before).length = n + i by
          omega, ← List.getElem?_drop, ← hrest, List.getElem?_append_left hlt, hget]
      rw [List.prefix_iff_eq_take] at hstored ⊢
      have hlength : (stored before ++ stored [Entry.loaded message]).length =
          (stored before).length + 1 := by
        simp [stored, Entry.storedMessages]
      rw [hlength, List.take_add_one, hnext, ← hstored]
      rfl
    | summary _ _ => simpa [stored, Entry.storedMessages] using hstored
    | compacted => simpa [stored, Entry.storedMessages] using hstored
    | inbox _ => simpa [stored, Entry.storedMessages] using hstored
    | main _ _ _ _ => simpa [stored, Entry.storedMessages] using hstored
    | answer _ => simpa [stored, Entry.storedMessages] using hstored
    | batch _ => simpa [stored, Entry.storedMessages] using hstored
    | results _ => simpa [stored, Entry.storedMessages] using hstored

end Coherence

/-- An attempt of a main request with this thinking budget. -/
def Entry.thinksWith (budget : UInt32) : Entry → Bool
  | main _ _ attempts _ => attempts.any fun a => a.request.thinkingBudget == some budget
  | _ => false

namespace Sample

def history : List Message :=
  [.userText (text "plan"), ⟨.assistant, [.text (text "ok")], none⟩, .userText (text "start"),
    ⟨.assistant, [.text (text "done")], none⟩]

def handoff : Bytes :=
  text "Objective:\na\nConstraints:\nb\nDecisions:\nc\nCompleted:\nd\nPending:\ne\nReferences:\nf\n"

def target : ModelTarget := { profile := text "p", model := text "m" }

/-- Summaries are answered with a handoff, the first main request with a tool call. The
primary target serves summaries only. -/
def backend : Backend where
  send _ request target :=
    if request.systemPrompt = some summaryPrompt then
      ⟨.returns (.ok { blocks := [.text handoff] }), false⟩
    else if target.thinkingBudget.isNone then ⟨.returns (.error (.upstream "overloaded")), false⟩
    else if request.messages.any fun m => m.role == .tool then
      ⟨.returns (.ok { blocks := [.text (text "bye")] }), false⟩
    else
      ⟨.returns (.ok {
          blocks := [.toolUse (text "t1") (text "shell") (text "[]")], stopReason := .toolUse }),
        false⟩
  sleep _ := .ok ()

def env : TurnEnv where
  backend := backend
  generateTurnId _ := .error (.internal "no clock")
  cancelled _ := false
  loadAfter _ after := .ok ((history.drop after.toNat).take 3)
  inbox tick := .ok (if tick < 9 then text "mail" else [])
  batchCancelled _ := false
  batchEvents _ := [.finish 0 (.dispatched (.ok { text := text "out" })), .receive false]
  phase _ := .initial
  writeTrace _ := .ok ()

def loop : Loop where
  route := { primary := target, fallbacks := [{ target with thinkingBudget := some 64 }] }

/-- Four stored messages in two pages, and a counter that makes the turn compact. -/
def inputs : RunTurnInputs where
  nativeTools := .ok []
  rendered := ⟨text "s", 0, 0⟩
  conversationTail := [.userText (text "more")]
  context := {
    maxTokens := 4096
    summaryMaxBytes := 256
    countTokens := some fun request => 500 * request.messages.length.toUInt64 }
  historyEnd := 4
  historyLoader := true
  inboxReader := true
  maxTokens := some 100
  tools := true
  dispatchContext := true

/-- What is said in the turn. -/
def said : List Message :=
  [.userText (text "more"), inboxMessage (text "mail"),
    ⟨.assistant, [.toolUse (text "t1") (text "shell") (text "[]")], none⟩,
    ⟨.tool, [.toolResult (text "t1") (text "out") none false], none⟩,
    ⟨.assistant, [.text (text "bye")], none⟩]

theorem turn_ok :
    (runTurn env loop inputs).1.toOption.map (fun r => (r.transcript, r.checkpoint)) =
      some (said, { coveredSequence := 4, revision := 1, summary := handoff }) ∧
    compactions (runTurn env loop inputs).2 = 1 ∧
    (runTurn env loop inputs).2.any (·.thinksWith 64) = true := by
  decide +kernel

theorem loads_in_order (tick after : Nat) (page : List Message)
    (h : env.loadAfter tick after = .ok page) :
    page <+: history.drop after := by
  obtain rfl : (history.drop after).take 3 = page := by simpa [env] using h
  exact List.take_prefix _ _

end Sample

end Orangutan.Agent
