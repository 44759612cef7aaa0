import Orangutan.Provider.AnthropicSse

/-!
# The contract of the event sink

The header of the sink says that `on_done` is the last call and carries the stop reason of
the response. The Anthropic decoder keeps this when the events after the `message_stop` it
accepts are quiet, and only then.
-/

namespace Orangutan.Provider

set_option autoImplicit false

open Orangutan.Core Orangutan.Storage

/-- `on_done` comes at most once and last; a response comes with it, and with its stop reason. -/
structure SinkContract (sink : List SinkEvent) (result : Result Response) : Prop where
  once : sink.countP SinkEvent.isDone ≤ 1
  last : ∀ before reason after, sink = before ++ SinkEvent.done reason :: after → after = []
  done : ∀ response, result = .ok response →
    ∃ before, sink = before ++ [SinkEvent.done response.stopReason]

/-- A sink that was not told of an end, for a call that failed. -/
theorem contract_of_failed {sink : List SinkEvent} {e : Error}
    (h : ∀ event ∈ sink, event.isDone = false) :
    SinkContract sink (.error e) where
  once := by
    rw [List.countP_eq_zero.mpr fun event hevent => by
      rw [h event hevent]; exact Bool.false_ne_true]
    exact Nat.zero_le 1
  last before reason after hsplit := by
    have hdone := h (.done reason) (hsplit ▸ List.mem_append_right _ List.mem_cons_self)
    cases hdone
  done response h := by cases h

/-- A sink that was told of the end once: the contract holds when nothing follows and the
response, if any, has the reason. -/
theorem contract_of_done {before after : List SinkEvent} {reason : StopReason}
    {result : Result Response} (h : ∀ event ∈ before, event.isDone = false) :
    SinkContract (before ++ SinkEvent.done reason :: after) result ↔
      after = [] ∧ ∀ response, result = .ok response → response.stopReason = reason := by
  constructor
  · intro hc
    obtain rfl := hc.last before reason after rfl
    refine ⟨rfl, fun response hok => ?_⟩
    obtain ⟨start, hstart⟩ := hc.done response hok
    have hlast := (List.append_inj' hstart rfl).2
    injection hlast with hlast
    injection hlast with hlast
    exact hlast.symm
  · rintro ⟨rfl, hreason⟩
    constructor
    · rw [List.countP_append, List.countP_eq_zero.mpr fun event hevent => by
        rw [h event hevent]; exact Bool.false_ne_true]
      exact le_refl 1
    · intro start other rest hsplit
      by_contra hne
      have hinit : before = start ++ SinkEvent.done other :: rest.dropLast := by
        have hdrop := congrArg List.dropLast hsplit
        rwa [List.dropLast_concat, List.dropLast_append_of_ne_nil (List.cons_ne_nil _ _),
          List.dropLast_cons_of_ne_nil hne] at hdrop
      have hdone := h (.done other) (hinit ▸ List.mem_append_right _ List.mem_cons_self)
      cases hdone
    · intro response hok
      rw [hreason response hok]
      exact ⟨before, rfl⟩

namespace AnthropicSseDecoder

variable (codec : JsonCodec) (d : AnthropicSseDecoder)

@[simp] theorem fail_sink (e : Error) : (d.fail e).sink = d.sink := by unfold fail; split <;> rfl

@[simp] theorem fail_saw (e : Error) : (d.fail e).sawMessageStop = d.sawMessageStop := by
  unfold fail; split <;> rfl

@[simp] theorem fail_error (e : Error) : (d.fail e).error.isSome = true := by
  unfold fail
  split
  · rfl
  · next h =>
    rw [Option.isSome_iff_ne_none]
    simpa using h

/-- The event is a `message_stop` that the decoder takes as the end. -/
def acceptsStop (event data : Bytes) : Bool :=
  d.error.isNone && event = text "message_stop" && d.block.kind = .none &&
    (match codec.parse data with
      | .ok payload => payload.isObject
      | .error _ => false)

/-- What a step other than the end may do. -/
structure Goes (d next : AnthropicSseDecoder) : Prop where
  saw : next.sawMessageStop = d.sawMessageStop
  sink : ∃ more, next.sink = d.sink ++ more ∧ ∀ event ∈ more, event.isDone = false

variable {d}

theorem Goes.quiet {next : AnthropicSseDecoder} (hsaw : next.sawMessageStop = d.sawMessageStop)
    (hsink : next.sink = d.sink) : Goes d next :=
  ⟨hsaw, [], by rw [hsink, List.append_nil], fun _ h => by cases h⟩

theorem Goes.called {next : AnthropicSseDecoder} {event : SinkEvent}
    (hsaw : next.sawMessageStop = d.sawMessageStop) (hsink : next.sink = d.sink ++ [event])
    (hevent : event.isDone = false) : Goes d next :=
  ⟨hsaw, [event], hsink, fun e he => by rw [List.mem_singleton.mp he]; exact hevent⟩

theorem goes_fail (e : Error) : Goes d (d.fail e) := .quiet (d.fail_saw e) (d.fail_sink e)

theorem goes_messageStart (payload : SqlJson) : Goes d (d.messageStart payload) := by
  unfold messageStart
  split
  · exact .quiet rfl rfl
  · dsimp only
    split <;> split <;> exact .quiet rfl rfl

theorem goes_contentBlockStart (payload : SqlJson) : Goes d (d.contentBlockStart payload) := by
  unfold contentBlockStart
  split
  · exact goes_fail _
  split
  · exact goes_fail _
  dsimp only
  split
  · exact .quiet rfl rfl
  split
  · exact .quiet rfl rfl
  split
  · exact .called rfl rfl rfl
  · exact .quiet (fail_saw _ _) (fail_sink _ _)

theorem goes_contentBlockDelta (payload : SqlJson) : Goes d (d.contentBlockDelta payload) := by
  unfold contentBlockDelta
  split
  · exact goes_fail _
  split
  · exact goes_fail _
  dsimp only
  split
  · exact .called rfl rfl (by split <;> rfl)
  split
  · exact .called rfl rfl rfl
  split
  · exact .quiet rfl rfl
  split
  · exact .called rfl rfl rfl
  · exact .quiet rfl rfl

theorem goes_contentBlockStop : Goes d (d.contentBlockStop codec) := by
  unfold contentBlockStop finalizeOpenBlock
  split
  · exact goes_fail _
  split
  · exact .quiet rfl rfl
  · exact .quiet rfl rfl
  · dsimp only
    split
    · exact goes_fail _
    · exact .quiet rfl rfl
    · split
      · exact .quiet rfl rfl
      · exact goes_fail _
  · exact .quiet rfl rfl

theorem goes_messageDelta (payload : SqlJson) : Goes d (d.messageDelta payload) := by
  unfold messageDelta
  dsimp only
  split <;> exact .quiet rfl rfl

/-- Nothing but an accepted `message_stop` tells the sink of the end. -/
theorem goes_consume {event data : Bytes} (h : acceptsStop codec d event data = false) :
    Goes d (d.consume codec event data) := by
  unfold consume
  split
  · exact .quiet rfl rfl
  next herror =>
  split
  · exact .quiet rfl rfl
  split
  · exact goes_fail _
  · exact .quiet rfl rfl
  next payload hparse =>
  split
  swap
  · exact goes_fail _
  next hobject =>
  unfold dispatch
  split
  · exact goes_messageStart payload
  split
  · exact goes_contentBlockStart payload
  split
  · exact goes_contentBlockDelta payload
  split
  · exact goes_contentBlockStop codec
  split
  · exact goes_messageDelta payload
  split
  · next hstop =>
    unfold messageStop
    split
    · exact goes_fail _
    · next hkind =>
      -- this is the accepted end
      simp only [acceptsStop, hparse, hstop, hobject, Bool.and_true, decide_true,
        Bool.and_eq_false_iff] at h
      simp_all
  split
  · exact goes_fail _
  · exact .quiet rfl rfl

/-- The accepted end. -/
theorem consume_stop {event data : Bytes} (h : acceptsStop codec d event data = true) :
    d.consume codec event data =
      { d with sawMessageStop := true, sink := d.sink ++ [SinkEvent.done d.stopReason] } ∧
      d.error = none ∧ d.block.kind = .none := by
  unfold acceptsStop at h
  cases hparse : codec.parse data with
  | error detail => simp [hparse] at h
  | ok payload =>
    rw [hparse] at h
    simp only [Bool.and_eq_true, decide_eq_true_eq, Option.isNone_iff_eq_none] at h
    obtain ⟨⟨⟨herror, rfl⟩, hkind⟩, hobject⟩ := h
    refine ⟨?_, herror, hkind⟩
    have hnone : ¬ d.error.isSome = true := by rw [herror]; exact Bool.false_ne_true
    rw [consume, if_neg hnone, if_neg (by decide), hparse]
    dsimp only
    rw [if_pos hobject, dispatch, if_neg (by decide), if_neg (by decide), if_neg (by decide),
      if_neg (by decide), if_neg (by decide), if_pos rfl, messageStop,
      if_neg (fun hne => hne hkind)]
    rfl

/-- What an event does to a decoder that has accepted the end, by the event and whether a
text or thinking block has been opened since. -/
inductive LateEffect
  /-- It is recorded as an error. -/
  | fails
  | callsSink
  | silent (blockOpen : Bool) (reason : Option StopReason)

def latePayload (blockOpen : Bool) (event : Bytes) (payload : SqlJson) : LateEffect :=
  if event = text "message_start" then .silent blockOpen none
  else if event = text "content_block_start" then
    if blockOpen then .fails
    else
      match objectMember payload "content_block" with
      | none => .fails
      | some block =>
        let type := stringOrEmpty block "type"
        if type = text "text" ∨ type = text "thinking" then .silent true none
        else if type = text "tool_use" then .callsSink
        else .fails
  else if event = text "content_block_delta" then
    if blockOpen then
      match objectMember payload "delta" with
      | none => .fails
      | some delta =>
        let type := stringOrEmpty delta "type"
        if type = text "text_delta" ∨ type = text "thinking_delta" ∨ type = text "input_json_delta"
          then .callsSink
        else .silent true none
    else .fails
  else if event = text "content_block_stop" then (if blockOpen then .silent false none else .fails)
  else if event = text "message_delta" then .silent blockOpen (deltaStopReason payload)
  else if event = text "message_stop" then (if blockOpen then .fails else .callsSink)
  else if event = text "error" then .fails
  else .silent blockOpen none

def lateEffect (blockOpen : Bool) (event data : Bytes) : LateEffect :=
  if event = text "ping" then .silent blockOpen none
  else
    match codec.parse data with
    | .error (.parseError _) => .fails
    | .error .other => .silent blockOpen none
    | .ok payload => if payload.isObject then latePayload blockOpen event payload else .fails

/-- The events after the end, up to the first error, call the sink no more, and when there
is no error the last stop reason is the reported one. -/
def QuietAfter (reported : StopReason) : StopReason → Bool → List (Bytes × Bytes) → Prop
  | current, _, [] => current = reported
  | current, blockOpen, (event, data) :: rest =>
    match lateEffect codec blockOpen event data with
    | .fails => True
    | .callsSink => False
    | .silent blockOpen reason => QuietAfter reported (reason.getD current) blockOpen rest

/-- A decoder without an error that has no tool block open. -/
structure Idle (d : AnthropicSseDecoder) (blockOpen : Bool) : Prop where
  error : d.error = none
  saw : d.sawMessageStop = true
  kind : d.block.kind = (if blockOpen then d.block.kind else .none)
  opened : blockOpen = true → d.block.kind = .text ∨ d.block.kind = .thinking

/-- The step that a late event makes. -/
def LateStep (d next : AnthropicSseDecoder) : LateEffect → Prop
  | .fails => next.error.isSome = true ∧ next.sink = d.sink
  | .callsSink => ∃ event, next.sink = d.sink ++ [event]
  | .silent blockOpen reason => Idle next blockOpen ∧ next.sink = d.sink ∧
      next.stopReason = reason.getD d.stopReason

theorem Idle.open_iff {blockOpen : Bool} (h : Idle d blockOpen) : d.block.kind = .none ↔
    blockOpen = false := by
  cases blockOpen with
  | true =>
    constructor
    · intro hkind
      rcases h.opened rfl with hopen | hopen <;> rw [hopen] at hkind <;> cases hkind
    · intro hfalse
      cases hfalse
  | false => exact ⟨fun _ => rfl, fun _ => h.kind⟩

theorem late_fail {next : AnthropicSseDecoder} (hsink : next.sink = d.sink) (e : Error) :
    LateStep d (next.fail e) .fails := ⟨fail_error _ _, by rw [fail_sink, hsink]⟩

theorem late_silent {blockOpen : Bool} {next : AnthropicSseDecoder} (h : Idle d blockOpen)
    (reason : Option StopReason) (herror : next.error = d.error)
    (hsaw : next.sawMessageStop = d.sawMessageStop) (hblock : next.block.kind = d.block.kind)
    (hsink : next.sink = d.sink) (hreason : next.stopReason = reason.getD d.stopReason) :
    LateStep d next (.silent blockOpen reason) := by
  refine ⟨⟨herror.trans h.error, hsaw.trans h.saw, ?_, ?_⟩, hsink, hreason⟩
  · rw [hblock]
    exact h.kind
  · rw [hblock]
    exact h.opened

theorem late_contentBlockStart {blockOpen : Bool} (h : Idle d blockOpen) (payload : SqlJson) :
    LateStep d (d.contentBlockStart payload)
      (latePayload blockOpen (text "content_block_start") payload) := by
  rw [latePayload, if_neg (by decide), if_pos rfl, contentBlockStart]
  by_cases hopen : blockOpen = true
  · rw [if_pos hopen, if_pos (fun hkind => by rw [h.open_iff.mp hkind] at hopen; cases hopen)]
    exact late_fail rfl _
  rw [if_neg hopen, if_neg (fun hne => hne (h.open_iff.mpr (by simpa using hopen)))]
  cases objectMember payload "content_block" with
  | none => exact late_fail rfl _
  | some block =>
    dsimp only
    generalize stringOrEmpty block "type" = type
    by_cases hopens : type = text "text" ∨ type = text "thinking"
    · rw [if_pos hopens]
      rcases hopens with rfl | rfl
      · rw [if_pos rfl]
        exact ⟨⟨h.error, h.saw, rfl, fun _ => .inl rfl⟩, rfl, rfl⟩
      · rw [if_neg (by decide), if_pos rfl]
        exact ⟨⟨h.error, h.saw, rfl, fun _ => .inr rfl⟩, rfl, rfl⟩
    · rw [if_neg hopens]
      rw [not_or] at hopens
      rw [if_neg hopens.1, if_neg hopens.2]
      by_cases htool : type = text "tool_use"
      · rw [if_pos htool, if_pos htool]
        exact ⟨_, rfl⟩
      · rw [if_neg htool, if_neg htool]
        exact late_fail rfl _

theorem late_contentBlockDelta {blockOpen : Bool} (h : Idle d blockOpen) (payload : SqlJson) :
    LateStep d (d.contentBlockDelta payload)
      (latePayload blockOpen (text "content_block_delta") payload) := by
  rw [latePayload, if_neg (by decide), if_neg (by decide), if_pos rfl, contentBlockDelta]
  by_cases hopen : blockOpen = true
  swap
  · rw [if_neg hopen, if_pos (h.open_iff.mpr (by simpa using hopen))]
    exact late_fail rfl _
  rw [if_pos hopen, if_neg (fun hkind => by rw [h.open_iff.mp hkind] at hopen; cases hopen)]
  subst hopen
  cases objectMember payload "delta" with
  | none => exact late_fail rfl _
  | some delta =>
    dsimp only
    generalize stringOrEmpty delta "type" = type
    by_cases hcalls : type = text "text_delta" ∨ type = text "thinking_delta" ∨
      type = text "input_json_delta"
    · rw [if_pos hcalls]
      rcases hcalls with rfl | rfl | rfl
      · rw [if_pos rfl]
        exact ⟨_, rfl⟩
      · rw [if_neg (by decide), if_pos rfl]
        exact ⟨_, rfl⟩
      · rw [if_neg (by decide), if_neg (by decide), if_neg (by decide), if_pos rfl]
        exact ⟨_, rfl⟩
    · rw [if_neg hcalls]
      rw [not_or, not_or] at hcalls
      rw [if_neg hcalls.1, if_neg hcalls.2.1, if_neg hcalls.2.2]
      split <;> exact late_silent h none rfl rfl rfl rfl rfl

theorem late_contentBlockStop {blockOpen : Bool} (h : Idle d blockOpen) (payload : SqlJson) :
    LateStep d (d.contentBlockStop codec)
      (latePayload blockOpen (text "content_block_stop") payload) := by
  rw [latePayload, if_neg (by decide), if_neg (by decide), if_neg (by decide), if_pos rfl,
    contentBlockStop]
  by_cases hopen : blockOpen = true
  · rw [if_pos hopen, if_neg (fun hkind => by rw [h.open_iff.mp hkind] at hopen; cases hopen),
      finalizeOpenBlock]
    rcases h.opened hopen with hkind | hkind <;> rw [hkind] <;>
      exact ⟨⟨h.error, h.saw, rfl, fun hfalse => by cases hfalse⟩, rfl, rfl⟩
  · rw [if_neg hopen, if_pos (h.open_iff.mpr (by simpa using hopen))]
    exact late_fail rfl _

theorem late_messageStart {blockOpen : Bool} (h : Idle d blockOpen) (payload : SqlJson) :
    LateStep d (d.messageStart payload) (.silent blockOpen none) := by
  unfold messageStart
  split
  · exact late_silent h none rfl rfl rfl rfl rfl
  · dsimp only
    split <;> split <;> exact late_silent h none rfl rfl rfl rfl rfl

theorem late_messageDelta {blockOpen : Bool} (h : Idle d blockOpen) (payload : SqlJson) :
    LateStep d (d.messageDelta payload) (.silent blockOpen (deltaStopReason payload)) := by
  unfold messageDelta
  dsimp only
  split <;> exact late_silent h (deltaStopReason payload) rfl rfl rfl rfl rfl

theorem late_messageStop {blockOpen : Bool} (h : Idle d blockOpen) :
    LateStep d d.messageStop (if blockOpen then .fails else .callsSink) := by
  rw [messageStop]
  by_cases hopen : blockOpen = true
  · rw [if_pos hopen, if_pos (fun hkind => by rw [h.open_iff.mp hkind] at hopen; cases hopen)]
    exact late_fail rfl _
  · rw [if_neg hopen, if_neg (fun hne => hne (h.open_iff.mpr (by simpa using hopen)))]
    exact ⟨_, rfl⟩

/-- The decoder does with a late event what its effect says. -/
theorem late_consume {blockOpen : Bool} (h : Idle d blockOpen) (event data : Bytes) :
    LateStep d (d.consume codec event data) (lateEffect codec blockOpen event data) := by
  have hnone : ¬ d.error.isSome = true := by rw [h.error]; exact Bool.false_ne_true
  rw [consume, if_neg hnone, lateEffect]
  by_cases hping : event = text "ping"
  · rw [if_pos hping, if_pos hping]
    exact late_silent h none rfl rfl rfl rfl rfl
  rw [if_neg hping, if_neg hping]
  cases codec.parse data with
  | error thrown =>
    cases thrown with
    | parseError detail => exact late_fail rfl _
    | other => exact late_silent h none rfl rfl rfl rfl rfl
  | ok payload =>
    dsimp only
    by_cases hobject : payload.isObject = true
    swap
    · rw [if_neg hobject, if_neg hobject]
      exact late_fail rfl _
    rw [if_pos hobject, if_pos hobject, dispatch]
    by_cases hstart : event = text "message_start"
    · rw [if_pos hstart, latePayload, if_pos hstart]
      exact late_messageStart h payload
    rw [if_neg hstart]
    by_cases hblockStart : event = text "content_block_start"
    · subst hblockStart
      rw [if_pos rfl]
      exact late_contentBlockStart h payload
    rw [if_neg hblockStart]
    by_cases hblockDelta : event = text "content_block_delta"
    · subst hblockDelta
      rw [if_pos rfl]
      exact late_contentBlockDelta h payload
    rw [if_neg hblockDelta]
    by_cases hblockStop : event = text "content_block_stop"
    · subst hblockStop
      rw [if_pos rfl]
      exact late_contentBlockStop codec h payload
    rw [if_neg hblockStop, latePayload, if_neg hstart, if_neg hblockStart, if_neg hblockDelta,
      if_neg hblockStop]
    split
    · exact late_messageDelta h payload
    split
    · exact late_messageStop h
    split
    · exact late_fail rfl _
    · exact late_silent h none rfl rfl rfl rfl rfl

theorem consumeAll_failed (h : d.error.isSome = true) (events : List (Bytes × Bytes)) :
    d.consumeAll codec events = d := by
  induction events with
  | nil => rfl
  | cons e rest ih =>
    rw [consumeAll, List.foldl_cons, ← consumeAll, consume, if_pos h]
    exact ih

/-- Callbacks are never taken back. -/
theorem sink_grows (d : AnthropicSseDecoder) (events : List (Bytes × Bytes)) :
    ∃ more, (d.consumeAll codec events).sink = d.sink ++ more := by
  induction events generalizing d with
  | nil => exact ⟨[], (List.append_nil _).symm⟩
  | cons e rest ih =>
    obtain ⟨later, hlater⟩ := ih (d.consume codec e.1 e.2)
    rw [consumeAll, List.foldl_cons, ← consumeAll, hlater]
    cases hstop : acceptsStop codec d e.1 e.2 with
    | true =>
      rw [(consume_stop codec hstop).1]
      exact ⟨.done d.stopReason :: later, List.append_assoc ..⟩
    | false =>
      obtain ⟨more, hmore, -⟩ := (goes_consume codec hstop).sink
      rw [hmore]
      exact ⟨more ++ later, List.append_assoc ..⟩

theorem Idle.result {blockOpen : Bool} (h : Idle d blockOpen) :
    d.result = .ok { blocks := d.blocks, stopReason := d.stopReason, usage := d.usage,
                     modelUsed := d.model } := by
  rw [AnthropicSseDecoder.result, h.error]
  dsimp only
  rw [if_pos h.saw]

theorem result_failed (h : d.error.isSome = true) : ∃ e, d.result = .error e := by
  obtain ⟨e, he⟩ := Option.isSome_iff_exists.mp h
  exact ⟨e, by rw [result, he]⟩

theorem quietAfter_iff (reported : StopReason) {blockOpen : Bool} (h : Idle d blockOpen)
    (late : List (Bytes × Bytes)) :
    ((d.consumeAll codec late).sink = d.sink ∧
        ∀ response, (d.consumeAll codec late).result = .ok response →
          response.stopReason = reported) ↔
      QuietAfter codec reported d.stopReason blockOpen late := by
  induction late generalizing d blockOpen with
  | nil =>
    rw [QuietAfter, consumeAll, List.foldl_nil, h.result]
    constructor
    · exact fun hc => hc.2 _ rfl
    · intro hreason
      refine ⟨rfl, fun response hok => ?_⟩
      cases hok
      exact hreason
  | cons e rest ih =>
    have hstep := late_consume codec h e.1 e.2
    rw [consumeAll, List.foldl_cons, ← consumeAll, QuietAfter]
    cases heffect : lateEffect codec blockOpen e.1 e.2 with
    | fails =>
      rw [heffect] at hstep
      obtain ⟨herror, hsink⟩ := hstep
      obtain ⟨e', he'⟩ := result_failed herror
      rw [consumeAll_failed codec herror, he']
      exact iff_of_true ⟨hsink, fun response hok => by cases hok⟩ trivial
    | callsSink =>
      rw [heffect] at hstep
      obtain ⟨event, hsink⟩ := hstep
      obtain ⟨more, hmore⟩ := sink_grows codec (d.consume codec e.1 e.2) rest
      refine iff_of_false (fun hc => ?_) id
      have hsame := hc.1
      rw [hmore, hsink, List.append_assoc] at hsame
      have hlength := congrArg List.length hsame
      simp only [List.length_append, List.length_cons] at hlength
      omega
    | silent blockOpen reason =>
      rw [heffect] at hstep
      obtain ⟨hidle, hsink, hreason⟩ := hstep
      dsimp only
      rw [← hreason, ← ih hidle, hsink]

/-- The first accepted `message_stop` is followed by quiet events only. -/
def EndsQuietly (codec : JsonCodec) : AnthropicSseDecoder → List (Bytes × Bytes) → Prop
  | _, [] => True
  | d, (event, data) :: rest =>
    if acceptsStop codec d event data then QuietAfter codec d.stopReason d.stopReason false rest
    else EndsQuietly codec (d.consume codec event data) rest

theorem sinkContract_iff (hsaw : d.sawMessageStop = false)
    (hsink : ∀ event ∈ d.sink, event.isDone = false) (events : List (Bytes × Bytes)) :
    SinkContract (d.consumeAll codec events).sink (d.consumeAll codec events).result ↔
      EndsQuietly codec d events := by
  induction events generalizing d with
  | nil =>
    obtain ⟨e, he⟩ : ∃ e, d.result = .error e := by
      rw [result]
      split
      · exact ⟨_, rfl⟩
      · rw [hsaw, if_neg Bool.false_ne_true]
        exact ⟨_, rfl⟩
    rw [consumeAll, List.foldl_nil, he]
    exact iff_of_true (contract_of_failed hsink) trivial
  | cons e rest ih =>
    rw [consumeAll, List.foldl_cons, ← consumeAll, EndsQuietly]
    cases hstop : acceptsStop codec d e.1 e.2 with
    | true =>
      rw [if_pos rfl]
      obtain ⟨hnext, herror, hkind⟩ := consume_stop codec hstop
      have hidle : Idle (d.consume codec e.1 e.2) false := by
        rw [hnext]
        exact ⟨herror, rfl, hkind, fun hfalse => by cases hfalse⟩
      have hquiet := quietAfter_iff codec d.stopReason hidle rest
      obtain ⟨more, hmore⟩ := sink_grows codec (d.consume codec e.1 e.2) rest
      have hdone : (d.consume codec e.1 e.2).sink = d.sink ++ [SinkEvent.done d.stopReason] := by
        rw [hnext]
      have hreason : (d.consume codec e.1 e.2).stopReason = d.stopReason := by rw [hnext]
      rw [hreason, hmore, List.append_right_eq_self] at hquiet
      rw [← hquiet, hmore, hdone, List.append_assoc]
      exact contract_of_done hsink
    | false =>
      rw [if_neg Bool.false_ne_true]
      obtain ⟨hsame, more, hmore, hnone⟩ := goes_consume codec hstop
      apply ih (hsame.trans hsaw)
      rw [hmore]
      exact fun event hevent => (List.mem_append.mp hevent).elim (hsink event) (hnone event)

end AnthropicSseDecoder

end Orangutan.Provider
