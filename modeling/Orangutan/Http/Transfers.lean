import Orangutan.Http.Client

/-!
# What a streaming transfer reports

The transfer fails on a broken bound of the parser only if another piece of the body arrives
after the one that broke it. Nothing looks at the latch when the transfer has ended.
-/

namespace Orangutan.Http

set_option autoImplicit false

open Orangutan.Core EventStream

/-- Some piece that is not empty arrives when the bytes before it have broken a bound. -/
def Noticed (stream : Bytes) (chunks : List Bytes) : Prop :=
  ∃ (before : List Bytes) (chunk : Bytes) (after : List Bytes),
    chunks = before ++ chunk :: after ∧ chunk ≠ [] ∧
    exceeds {} (stream ++ before.flatten) = true

variable {stream : Bytes} {chunk : Bytes} {rest : List Bytes}

theorem noticed_nil (stream : Bytes) : ¬Noticed stream [] := by
  rintro ⟨before, chunk, after, hsplit, _⟩
  simp at hsplit

theorem noticed_cons : Noticed stream (chunk :: rest) ↔
    (chunk ≠ [] ∧ exceeds {} stream = true) ∨ Noticed (stream ++ chunk) rest := by
  constructor
  · rintro ⟨before, piece, after, hsplit, hne, hexceeds⟩
    cases before with
    | nil =>
      obtain ⟨rfl, rfl⟩ := List.cons_eq_cons.mp hsplit
      exact Or.inl ⟨hne, by simpa using hexceeds⟩
    | cons first others =>
      obtain ⟨rfl, rfl⟩ := List.cons_eq_cons.mp hsplit
      exact Or.inr ⟨others, piece, after, rfl, hne, by simpa using hexceeds⟩
  · rintro (⟨hne, hexceeds⟩ | ⟨before, piece, after, rfl, hne, hexceeds⟩)
    · exact ⟨[], chunk, rest, rfl, hne, by simpa using hexceeds⟩
    · exact ⟨chunk :: before, piece, after, rfl, hne, by simpa using hexceeds⟩

theorem noticed_append {chunks : List Bytes} : Noticed stream (chunks ++ rest) ↔
    Noticed stream chunks ∨ Noticed (stream ++ chunks.flatten) rest := by
  induction chunks generalizing stream with
  | nil => simp [noticed_nil]
  | cons chunk others ih =>
    rw [List.cons_append, noticed_cons, noticed_cons, ih, List.flatten_cons,
      List.append_assoc, or_assoc]

/-- A bound that is noticed broken is broken on the whole body. -/
theorem exceeds_of_noticed {chunks : List Bytes} (h : Noticed stream chunks) :
    exceeds {} (stream ++ chunks.flatten) = true := by
  obtain ⟨before, chunk, after, rfl, _, hexceeds⟩ := h
  rw [List.flatten_append, ← List.append_assoc]
  exact (exceeds_append hexceeds _).1

/-- The transfer has taken these bytes of an event stream. -/
structure Streaming (maxBytes : UInt64) (state : StreamState) (stream : Bytes) : Prop where
  follows : SseParser.Follows {} state.parser stream state.posted
  fedBytes : state.fedBytes = stream.length
  maxBytes : state.maxBytes = maxBytes
  errorBody : state.errorBody = []
  notError : state.isStream ≠ some false

variable {maxBytes : UInt64} {state : StreamState} {status : Except CurlCode Int}
  {headers : List Header}

/-- A piece arrives when a bound is already broken: its bytes are refused. -/
theorem Streaming.refused (h : Streaming maxBytes state stream)
    (hexceeds : exceeds {} stream = true) (chunk : Bytes) :
    writeStream status headers state chunk = ({ state with exceeded := true }, 0) := by
  rw [writeStream, if_pos (Or.inr (h.follows.exceeded.trans hexceeds))]

/-- A piece arrives within the bounds: the parser takes all of it. -/
theorem Streaming.taken (h : Streaming maxBytes state stream) (hgoing : exceeds {} stream = false)
    (hroom : (stream ++ chunk).length ≤ maxBytes.toNat)
    (hstream : state.isStream = none → responseIsEventStream status headers = true) :
    (writeStream status headers state chunk).2 = chunk.length ∧
      (writeStream status headers state chunk).1.isStream = some true ∧
      Streaming maxBytes (writeStream status headers state chunk).1 (stream ++ chunk) := by
  have hfits : ¬(state.maxBytes.toNat < (state.fedBytes + chunk.length) % 2 ^ 64 ∨
      state.parser.exceeded = true) := by
    rw [h.follows.exceeded, hgoing, h.maxBytes, h.fedBytes, ← List.length_append]
    have hbound := maxBytes.toNat_lt
    have hmod := Nat.mod_le (stream ++ chunk).length (2 ^ 64)
    rintro (hlarge | hfalse)
    · omega
    · cases hfalse
  have htrue : state.isStream.getD (responseIsEventStream status headers) = true := by
    cases hkind : state.isStream with
    | none => exact hstream hkind
    | some kind =>
      have hne := h.notError
      rw [hkind] at hne
      cases kind with
      | true => rfl
      | false => exact absurd rfl hne
  rw [writeStream, if_neg hfits]
  simp only [htrue, if_true]
  refine ⟨trivial, trivial, ?_⟩
  constructor
  · exact h.follows.feed chunk
  · simp [h.fedBytes]
  · exact h.maxBytes
  · exact h.errorBody
  · simp

/-- The callbacks of a round come to a short count exactly if a broken bound is noticed. -/
theorem Streaming.deliver (headers : List Header) (h : Streaming maxBytes state stream)
    {chunks : List Bytes} (hroom : (stream ++ chunks.flatten).length ≤ maxBytes.toNat)
    (hstream : chunks ≠ [] → state.isStream = none → exceeds {} stream = false →
    responseIsEventStream status headers = true) :
    ((deliver status headers state chunks).2 = true ↔ Noticed stream chunks) ∧
      ((deliver status headers state chunks).2 = true →
        (deliver status headers state chunks).1.exceeded = true) ∧
      ((deliver status headers state chunks).2 = false →
        Streaming maxBytes (deliver status headers state chunks).1 (stream ++ chunks.flatten) ∧
          ((deliver status headers state chunks).1.isStream = none →
            state.isStream = none ∧ (chunks = [] ∨ exceeds {} stream = true))) := by
  induction chunks generalizing state stream with
  | nil => simpa [Http.deliver, noticed_nil] using h
  | cons chunk rest ih =>
    rw [noticed_cons, Http.deliver, List.flatten_cons, ← List.append_assoc]
    rw [List.flatten_cons, ← List.append_assoc] at hroom
    cases hexceeds : exceeds {} stream with
    | true =>
      rw [h.refused hexceeds]
      by_cases hempty : chunk = []
      · subst hempty
        have hnext : Streaming maxBytes { state with exceeded := true } (stream ++ []) := by
          rw [List.append_nil]
          exact ⟨h.follows, h.fedBytes, h.maxBytes, h.errorBody, h.notError⟩
        have hstop : exceeds {} (stream ++ []) = true := by rw [List.append_nil, hexceeds]
        have hrest := ih hnext hroom (fun _ _ hfalse => by rw [hstop] at hfalse; cases hfalse)
        simp only [List.length_nil, if_true]
        refine ⟨hrest.1.trans (by simp), hrest.2.1, fun hgo => ?_⟩
        obtain ⟨hfollows, hnone⟩ := hrest.2.2 hgo
        exact ⟨hfollows, fun hkind => ⟨(hnone hkind).1, Or.inr trivial⟩⟩
      · have hshort : ¬(0 = chunk.length) :=
          fun hzero => hempty (List.length_eq_zero_iff.mp hzero.symm)
        simp only [hshort, if_false]
        simp [hempty]
    | false =>
      have hhere : (stream ++ chunk).length ≤ maxBytes.toNat := by
        rw [List.length_append] at hroom
        omega
      obtain ⟨hcount, hkind, hnext⟩ := h.taken hexceeds hhere
        (fun hnone => hstream (List.cons_ne_nil _ _) hnone hexceeds)
      have hrest := ih hnext hroom (fun _ hnone => by rw [hkind] at hnone; cases hnone)
      rw [if_pos hcount]
      refine ⟨hrest.1.trans (by simp), hrest.2.1, fun hgo => ?_⟩
      obtain ⟨hfollows, hnone⟩ := hrest.2.2 hgo
      refine ⟨hfollows, fun hlater => ?_⟩
      rw [hkind] at hnone
      exact absurd (hnone hlater).1 (by simp)

/-- The response is an event stream when the first piece of the body arrives. -/
def IsEventStream (status : Except CurlCode Int) (headers : List Header) : List Round → Prop
  | [] => True
  | round :: rest =>
    if round.chunks = [] then IsEventStream status
      (round.headerLines.foldl writeHeader headers) rest
    else responseIsEventStream status (round.headerLines.foldl writeHeader headers) = true

/-- Neither the caller nor libcurl ends the transfer early. -/
structure Smooth (round : Round) : Prop where
  perform : round.perform = 0
  cancelled : round.cancelled = false
  poll : round.poll = 0

def callbacks (rounds : List Round) : List Bytes := rounds.flatMap Round.chunks

theorem Streaming.runRounds {curl : Curl} (hresult : curl.result = some .ok) {rounds : List Round}
    (hsmooth : ∀ round ∈ rounds, Smooth round) (h : Streaming maxBytes state stream)
    (hroom : (stream ++ (callbacks rounds).flatten).length ≤ maxBytes.toNat)
    (hstream : state.isStream = none → exceeds {} stream = false →
      IsEventStream curl.status headers rounds) :
    (Noticed stream (callbacks rounds) →
      (∃ e, (runRounds curl state headers rounds).result = .error e) ∧
        (runRounds curl state headers rounds).state.exceeded = true) ∧
      (¬Noticed stream (callbacks rounds) → (runRounds curl state headers rounds).result = .ok () ∧
        Streaming maxBytes (runRounds curl state headers rounds).state
          (stream ++ (callbacks rounds).flatten)) := by
  induction rounds generalizing state stream headers with
  | nil =>
    simpa [callbacks, noticed_nil, Http.runRounds, completion, hresult] using h
  | cons round rest ih =>
    obtain ⟨hperform, hcancelled, hpoll⟩ := hsmooth round (List.mem_cons_self ..)
    have hsplit : callbacks (round :: rest) = round.chunks ++ callbacks rest := List.flatMap_cons
    rw [hsplit, List.flatten_append, ← List.append_assoc] at hroom
    rw [hsplit, noticed_append, List.flatten_append, ← List.append_assoc]
    have hhere : (stream ++ round.chunks.flatten).length ≤ maxBytes.toNat := by
      rw [List.length_append] at hroom
      omega
    obtain ⟨hshort, hflag, hnext⟩ := h.deliver (round.headerLines.foldl writeHeader headers) hhere
      (fun hne hnone hgoing => by simpa only [IsEventStream, if_neg hne] using hstream hnone hgoing)
    rw [Http.runRounds]
    simp only [hperform, hcancelled, hpoll, ne_eq, not_true_eq_false, if_false, Bool.false_eq_true]
    cases haborted : (Http.deliver curl.status (round.headerLines.foldl writeHeader headers) state
      round.chunks).2 with
    | true =>
      have hnoticed := hshort.mp haborted
      simp only [if_true]
      exact ⟨fun _ => ⟨⟨_, rfl⟩, hflag haborted⟩, fun hnot => absurd (Or.inl hnoticed) hnot⟩
    | false =>
      have hquiet : ¬Noticed stream round.chunks := fun hnoticed => by
        rw [hshort.mpr hnoticed] at haborted
        cases haborted
      obtain ⟨hfollows, hkind⟩ := hnext haborted
      cases rest with
      | nil =>
        simpa [hquiet, callbacks, noticed_nil, completion, hresult] using hfollows
      | cons second others =>
        have hkinds : (Http.deliver curl.status (round.headerLines.foldl writeHeader headers) state
          round.chunks).1.isStream =
            none → exceeds {} (stream ++ round.chunks.flatten) = false →
              IsEventStream curl.status (round.headerLines.foldl writeHeader headers)
                (second :: others) := by
          intro hnone hgoing
          obtain ⟨hbefore, hempty | hexceeds⟩ := hkind hnone
          · have hgoing' : exceeds {} stream = false := by simpa [hempty] using hgoing
            simpa only [IsEventStream, if_pos hempty] using hstream hbefore hgoing'
          · rw [(exceeds_append hexceeds _).1] at hgoing
            cases hgoing
        have hlater := ih (fun r hr => hsmooth r (List.mem_cons_of_mem _ hr)) hfollows hroom hkinds
        simpa [hquiet] using hlater

/-- The request is valid, and libcurl answers it with an event stream of at most `max_bytes`
bytes and ends the transfer only after the whole body or a short count. -/
structure Undisturbed (curl : Curl) (request : BodyRequest) : Prop where
  globalInit : curl.globalInit = true
  easyInit : curl.easyInit = true
  multiInit : curl.multiInit = true
  valid : validateRequest request = .ok ()
  configured : configureEasy curl request = .ok ()
  added : curl.addHandle = 0
  smooth : ∀ round ∈ curl.rounds, Smooth round
  completed : curl.result = some .ok
  code : ∃ code, responseCode curl = .ok code
  eventStream : IsEventStream curl.status [] curl.rounds
  room : (callbacks curl.rounds).flatten.length ≤ request.maxBytes.toNat

/-- A transfer that nothing disturbs fails exactly if a broken bound is noticed. -/
theorem send_streaming_outcome {curl : Curl} {request : BodyRequest}
    (h : Undisturbed curl request) :
    (Noticed [] (callbacks curl.rounds) → ∃ e, (sendStreamingBlocking curl request false).result =
      .error e) ∧
      (¬Noticed [] (callbacks curl.rounds) →
        (∃ response, (sendStreamingBlocking curl request false).result = .ok response ∧
          response.body = []) ∧
          (sendStreamingBlocking curl request false).posted =
            events {} (callbacks curl.rounds).flatten) := by
  have hstart : Streaming request.maxBytes { maxBytes := request.maxBytes } [] :=
    ⟨SseParser.follows_start {}, rfl, rfl, rfl, by simp⟩
  obtain ⟨hnoticed, hquiet⟩ :=
    hstart.runRounds h.completed h.smooth (by simpa using h.room) fun _ _ => h.eventStream
  have hperformed : runMulti curl { maxBytes := request.maxBytes } =
      runRounds curl { maxBytes := request.maxBytes } [] curl.rounds := by simp [runMulti, h.added]
  constructor
  · intro hlate
    obtain ⟨⟨e, herror⟩, hflag⟩ := hnoticed hlate
    simp only [sendStreamingBlocking, h.globalInit, h.valid, h.easyInit, h.multiInit, h.configured,
      hperformed, herror, hflag, not_true_eq_false, Bool.false_eq_true, if_false, if_true]
    exact ⟨_, rfl⟩
  · intro hnot
    obtain ⟨hok, hfollows⟩ := hquiet hnot
    obtain ⟨code, hcode⟩ := h.code
    simp only [sendStreamingBlocking, h.globalInit, h.valid, h.easyInit, h.multiInit, h.configured,
      hperformed, hok, hcode, not_true_eq_false, Bool.false_eq_true, if_false]
    refine ⟨⟨_, rfl, hfollows.errorBody⟩, ?_⟩
    have hposted := hfollows.follows.emitted
    rwa [List.nil_append] at hposted

/-- The transfer fails if the body breaks a bound of the parser, and else posts the body's events.
-/
def Reports (sent : Sent) (body : Bytes) : Prop :=
  ((∃ e, sent.result = .error e) ↔ exceeds {} body = true) ∧
    (exceeds {} body = false → (∃ response, sent.result = .ok response) ∧
      sent.posted = events {} body)

/-- The transfer reports a broken bound exactly if a later piece of the body arrives. -/
theorem send_streaming_reports_iff (curl : Curl) (request : BodyRequest)
    (h : Undisturbed curl request) :
    Reports (sendStreamingBlocking curl request false) (callbacks curl.rounds).flatten ↔
      (exceeds {} (callbacks curl.rounds).flatten = true → Noticed [] (callbacks curl.rounds)) := by
  obtain ⟨hnoticed, hquiet⟩ := send_streaming_outcome h
  constructor
  · rintro ⟨hfails, _⟩ hexceeds
    by_contra hnot
    obtain ⟨⟨response, hok, _⟩, _⟩ := hquiet hnot
    obtain ⟨e, herror⟩ := hfails.mpr hexceeds
    rw [hok] at herror
    cases herror
  · intro hcondition
    by_cases hexceeds : exceeds {} (callbacks curl.rounds).flatten = true
    · refine ⟨⟨fun _ => hexceeds, fun _ => hnoticed (hcondition hexceeds)⟩, fun hfalse => ?_⟩
      rw [hexceeds] at hfalse
      cases hfalse
    · have hnot : ¬Noticed [] (callbacks curl.rounds) :=
        fun hlate => hexceeds (by simpa using exceeds_of_noticed hlate)
      obtain ⟨⟨response, hok, _⟩, hposted⟩ := hquiet hnot
      refine ⟨⟨?_, fun hbroken => absurd hbroken hexceeds⟩, fun _ => ⟨⟨response, hok⟩, hposted⟩⟩
      rintro ⟨e, herror⟩
      rw [hok] at herror
      cases herror

/-- A response of one round with these pieces. -/
def answering (chunks : List Bytes) : Curl where
  rounds := [{ headerLines := [text "Content-Type: text/event-stream\r\n"], chunks }]
  status := .ok 200
  easyStrerror _ := []
  multiStrerror _ := []

def plainRequest : BodyRequest := { url := text "https://host/" }

theorem answering_undisturbed {chunks : List Bytes} (h : chunks.flatten.length ≤ 16 * 1024 * 1024) :
    Undisturbed (answering chunks) plainRequest where
  globalInit := rfl
  easyInit := rfl
  multiInit := rfl
  valid := by decide
  configured := rfl
  added := rfl
  smooth := by simp [answering, Smooth.mk]
  completed := rfl
  code := ⟨200, rfl⟩
  eventStream := by
    simp only [answering, IsEventStream]
    split
    · trivial
    · decide
  room := by simpa [answering, callbacks, plainRequest] using h

theorem send_streaming_reports_iff_event :
    Reports (sendStreamingBlocking (answering [text "data: x\n", text "\n"]) plainRequest false)
      (text "data: x\n\n") :=
  (send_streaming_reports_iff (answering [text "data: x\n", text "\n"]) plainRequest
    (answering_undisturbed (by decide))).mpr
    (fun h => absurd h (by decide))

theorem exceeds_long_line {line : Bytes} (hline : lf ∉ line) (hlong : 64 * 1024 < line.length) :
    exceeds {} line = true := by
  have hclear : ∀ byte ∈ line, (byte == lf) = false := by
    intro byte hbyte
    exact beq_eq_false_iff_ne.mpr fun heq => hline (heq ▸ hbyte)
  have htail : tail line = line := by
    rw [tail, Lib.openPiece, List.splitOnP_eq_singleton hclear]; rfl
  simp only [exceeds, htail, decide_eq_true_eq]
  exact Or.inr hlong

/-- A line that is too long, in the only piece of the body: the transfer succeeds without an event.
-/
theorem send_streaming_overflow_unreported :
    Undisturbed (answering [List.replicate 65537 97]) plainRequest ∧
      ¬Reports (sendStreamingBlocking (answering [List.replicate 65537 97]) plainRequest false)
        (List.replicate 65537 97) := by
  have hundisturbed : Undisturbed (answering [List.replicate 65537 97]) plainRequest := by
    apply answering_undisturbed
    rw [List.flatten_singleton, List.length_replicate]
    omega
  have hexceeds : exceeds {} (List.replicate 65537 97) = true := by
    apply exceeds_long_line
    · intro hmem
      exact absurd (List.eq_of_mem_replicate hmem) (by decide)
    · rw [List.length_replicate]
      omega
  have hquiet : ¬Noticed [] (callbacks (answering [List.replicate 65537 97]).rounds) := by
    have hchunks : callbacks (answering [List.replicate 65537 97]).rounds =
      [List.replicate 65537 97] := rfl
    rw [hchunks, noticed_cons]
    rintro (⟨_, hfalse⟩ | hlater)
    · exact absurd hfalse (by decide)
    · exact noticed_nil _ hlater
  refine ⟨hundisturbed, fun hreports => ?_⟩
  obtain ⟨⟨response, hok, _⟩, _⟩ := (send_streaming_outcome hundisturbed).2 hquiet
  obtain ⟨e, herror⟩ := hreports.1.mpr hexceeds
  rw [hok] at herror
  cases herror

end Orangutan.Http
