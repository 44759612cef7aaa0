import Orangutan.Provider.AnthropicStreams
import Orangutan.Storage.JsonText

/-!
# The stream decoder agrees with the response decoder

Every canonical stream of a body gives the response that the body itself is decoded to, and the
deltas that the sink hears add up to the contents of its blocks.
-/

namespace Orangutan.Provider

set_option autoImplicit false

open Orangutan.Core Orangutan.Storage

def SinkEvent.textPart : SinkEvent → Option Bytes
  | .textDelta piece => some piece
  | _ => none

def SinkEvent.thinkingPart : SinkEvent → Option Bytes
  | .thinkingDelta piece => some piece
  | _ => none

def SinkEvent.inputPart (id : Bytes) : SinkEvent → Option Bytes
  | .toolDelta toolId piece => if toolId = id then some piece else none
  | _ => none

def textOf : Content → Option Bytes
  | .text t => some t
  | _ => none

def thinkingOf : Content → Option Bytes
  | .thinking t _ => some t
  | _ => none

def inputOf (id : Bytes) : Content → Option Bytes
  | .toolUse toolId _ printed => if toolId = id then some printed else none
  | _ => none

/-- The deltas of a sink add up to the blocks; a tool input may have been serialized differently. -/
structure AddsUp (codec : JsonCodec) (heard : List SinkEvent) (blocks : List Content) : Prop where
  texts : (heard.filterMap SinkEvent.textPart).flatten = (blocks.filterMap textOf).flatten
  thinking : (heard.filterMap SinkEvent.thinkingPart).flatten =
    (blocks.filterMap thinkingOf).flatten
  inputs : ∀ id, ∃ serialized, (heard.filterMap (SinkEvent.inputPart id)).flatten =
    serialized.flatten ∧
    List.Forall₂ (Serializes codec) serialized (blocks.filterMap (inputOf id))

namespace AddsUp

variable {codec : JsonCodec}

theorem nil : AddsUp codec [] [] := ⟨rfl, rfl, fun _ => ⟨[], rfl, .nil⟩⟩

/-- The end of the stream adds nothing. -/
theorem done {heard : List SinkEvent} {blocks : List Content} (h : AddsUp codec heard blocks)
    (reason : StopReason) :
    AddsUp codec (heard ++ [.done reason]) blocks := by
  refine ⟨?_, ?_, fun id => ?_⟩
  · rw [← h.texts, List.filterMap_append, List.flatten_append]
    exact List.append_nil _
  · rw [← h.thinking, List.filterMap_append, List.flatten_append]
    exact List.append_nil _
  · obtain ⟨serialized, hflat, hserialized⟩ := h.inputs id
    refine ⟨serialized, ?_, hserialized⟩
    rw [← hflat, List.filterMap_append, List.flatten_append]
    exact List.append_nil _

theorem append {first second : List SinkEvent} {blocks rest : List Content}
    (h : AddsUp codec first blocks) (h' : AddsUp codec second rest) :
    AddsUp codec (first ++ second) (blocks ++ rest) := by
  refine ⟨?_, ?_, fun id => ?_⟩
  · rw [List.filterMap_append, List.flatten_append, h.texts, h'.texts, List.filterMap_append,
      List.flatten_append]
  · rw [List.filterMap_append, List.flatten_append, h.thinking, h'.thinking, List.filterMap_append,
      List.flatten_append]
  · obtain ⟨serialized, hflat, hserialized⟩ := h.inputs id
    obtain ⟨later, hlater, hrest⟩ := h'.inputs id
    refine ⟨serialized ++ later, ?_, ?_⟩
    · rw [List.filterMap_append, List.flatten_append, hflat, hlater, List.flatten_append]
    · rw [List.filterMap_append]
      exact List.rel_append hserialized hrest

-- A part of the callbacks of one kind is all of their pieces, or nothing.
theorem parts_all {callback : Bytes → SinkEvent} {part : SinkEvent → Option Bytes}
    (h : ∀ piece, part (callback piece) = some piece) (pieces : List Bytes) :
    (pieces.map callback).filterMap part = pieces := by
  have hsame : part ∘ callback = some := funext h
  rw [List.filterMap_map, hsame, List.filterMap_some]

theorem parts_none {callback : Bytes → SinkEvent} {part : SinkEvent → Option Bytes}
    (h : ∀ piece, part (callback piece) = none) (pieces : List Bytes) :
      (pieces.map callback).filterMap part = [] := by
  rw [List.filterMap_map, List.filterMap_eq_nil_iff]
  exact fun piece _ => h piece

theorem of_text (pieces : List Bytes) :
    AddsUp codec (pieces.map .textDelta) [.text pieces.flatten] := by
  refine ⟨?_, ?_, fun id => ⟨[], ?_, .nil⟩⟩
  · rw [parts_all fun _ => rfl]
    exact (List.append_nil _).symm
  · rw [parts_none fun _ => rfl]
    rfl
  · rw [parts_none fun _ => rfl]

theorem of_thinking (pieces : List Bytes) (signature : Option Bytes) :
    AddsUp codec (pieces.map .thinkingDelta) [.thinking pieces.flatten signature] := by
  refine ⟨?_, ?_, fun id => ⟨[], ?_, .nil⟩⟩
  · rw [parts_none fun _ => rfl]
    rfl
  · rw [parts_all fun _ => rfl]
    exact (List.append_nil _).symm
  · rw [parts_none fun _ => rfl]

theorem of_toolUse (id name : Bytes) {printed : Bytes} {pieces : List Bytes}
    (h : Serializes codec pieces.flatten printed) :
    AddsUp codec (.toolStart id name :: pieces.map (.toolDelta id)) [.toolUse id name printed] := by
  have hstart {part : SinkEvent → Option Bytes} (hnone : part (.toolStart id name) = none) :
      (SinkEvent.toolStart id name :: pieces.map (.toolDelta id)).filterMap part =
        (pieces.map (.toolDelta id)).filterMap part := List.filterMap_cons_none hnone
  refine ⟨?_, ?_, fun other => ?_⟩
  · rw [hstart rfl, parts_none fun _ => rfl]
    rfl
  · rw [hstart rfl, parts_none fun _ => rfl]
    rfl
  · rw [hstart rfl]
    by_cases hid : id = other
    · subst hid
      refine ⟨[pieces.flatten], ?_, ?_⟩
      · rw [parts_all fun _ => if_pos rfl]
        exact (List.append_nil _).symm
      · have hinput : [Content.toolUse id name printed].filterMap (inputOf id) = [printed] := by
          simp [inputOf]
        rw [hinput]
        exact .cons h .nil
    · refine ⟨[], ?_, ?_⟩
      · rw [parts_none fun _ => if_neg hid]
      · have hinput : [Content.toolUse id name printed].filterMap (inputOf other) = [] := by
          simp [inputOf, hid]
        rw [hinput]
        exact .nil

theorem of_heard {blocks : List Content} {heard : List (List SinkEvent)}
    (h : List.Forall₂ (Heard codec) blocks heard) :
    AddsUp codec heard.flatten blocks := by
  induction h with
  | nil => exact nil
  | @cons content events _ _ hblock _ ih =>
    have hone : AddsUp codec events [content] := by
      cases hblock with
      | text pieces => exact of_text pieces
      | thinking pieces signature => exact of_thinking pieces signature
      | toolUse id name printed pieces hprinted => exact of_toolUse id name hprinted
    exact hone.append ih

end AddsUp

theorem AnthropicSseDecoder.result_stopReason {d : AnthropicSseDecoder} {response : Response}
    (h : d.result = .ok response) :
    response.stopReason = d.stopReason := by
  unfold AnthropicSseDecoder.result at h
  split at h
  · cases h
  · split at h
    · cases h
      rfl
    · cases h

/-- Thinking signatures are absent or not empty. -/
def SignaturesKept (body : SqlJson) : Prop :=
  ∀ content, body.lastMember (text "content") = some (.array content) → ∀ block ∈ content,
    block.lastMember (text "type") = some (.text (text "thinking")) →
      block.lastMember (text "signature") ≠ some (.text [])

theorem decoded_stopReason {codec : JsonCodec} {target : ModelTarget} {body : SqlJson}
    {response : Response} (h : anthropicResponse codec target body = .ok response) :
    ∃ reason, body.lastMember (text "stop_reason") = some (.text reason) ∧
      response.stopReason = anthropicStopReason reason := by
  obtain ⟨items, -, h⟩ := bind_eq_ok.mp h
  obtain ⟨blocks, -, h⟩ := bind_eq_ok.mp h
  obtain ⟨reason, hreason, h⟩ := bind_eq_ok.mp h
  obtain ⟨usage, -, h⟩ := bind_eq_ok.mp h
  obtain ⟨model, -, h⟩ := bind_eq_ok.mp h
  cases h
  exact ⟨reason, requiredString_ok hreason, rfl⟩

/-- The two decoders agree on a body and its streams when its stop reason is not empty, and only
then: the stream decoder reads an empty one as none and keeps its own. -/
theorem anthropic_stream_agrees {codec : JsonCodec} {target : ModelTarget} {bodyJson : Bytes}
    {body : SqlJson} {response : Response} {events : List (Bytes × Bytes)}
    (hparse : codec.parse bodyJson = .ok body)
    (hdecoded : decodeAnthropicResponse codec target bodyJson = .ok response)
    (hkept : SignaturesKept body) (hpresents : Presents codec body events) :
    let d := ({ target } : AnthropicSseDecoder).consumeAll codec events
    (d.result = .ok response ∧ AddsUp codec d.sink response.blocks ∧
      ∃ heard, List.Forall₂ (Heard codec) response.blocks heard ∧
        d.sink = heard.flatten ++ [SinkEvent.done response.stopReason]) ↔
      body.lastMember (text "stop_reason") ≠ some (.text []) := by
  have hresponse : anthropicResponse codec target body = .ok response := by
    obtain ⟨parsed, hparsed, h⟩ := bind_eq_ok.mp hdecoded
    rw [parseBodyJson, parseJsonObject, hparse] at hparsed
    dsimp only at hparsed
    split at hparsed
    · cases hparsed
    · rename_i found hfound
      cases hparsed
      split at hfound
      · cases hfound
        exact h
      · cases hfound
  obtain ⟨reason, hmember, hreason⟩ := decoded_stopReason hresponse
  have hread : stringOrEmpty body "stop_reason" = reason := by rw [stringOrEmpty, hmember]
  obtain ⟨heard, hheard, hend⟩ :=
    @AnthropicSseDecoder.consumeAll_presents codec target body response events hresponse
      hpresents hkept
  intro d
  have hd : d = ({ target } : AnthropicSseDecoder).consumeAll codec events := rfl
  rw [hd, hend, hmember]
  constructor
  · rintro ⟨hresult, -⟩ hempty
    obtain rfl : reason = [] := SqlJson.text.inj (Option.some.inj hempty)
    have hsame := AnthropicSseDecoder.result_stopReason hresult
    rw [hreason, AnthropicSseDecoder.streamedReason, if_pos hread] at hsame
    have hsame : StopReason.error = StopReason.endTurn := hsame
    cases hsame
  · intro hstop
    have hne : stringOrEmpty body "stop_reason" ≠ [] := by
      rw [hread]
      exact fun h => hstop (h ▸ rfl)
    have hstreamed : AnthropicSseDecoder.streamedReason body .endTurn = response.stopReason := by
      rw [AnthropicSseDecoder.streamedReason, if_neg hne, hread, hreason]
    rw [hstreamed]
    exact ⟨rfl, (AddsUp.of_heard hheard).done response.stopReason, heard, hheard, rfl⟩

-- A message with a text that is cut in three and a tool that is called without input.
section Sample

def member (key : String) (value : Json) : Bytes × Json := (text key, value)

def word (s : String) : Json := .str (text s)

/-- A parser of compact texts. The sample prints the empty object only. -/
def compactCodec : JsonCodec where
  parse document := (serializedParser.parse document).mapError .parseError
  dump := fun _ => text "\x7b\x7d"

theorem compactCodec_parse (j : Json) : compactCodec.parse j.dump = .ok (.ofJson j) := by
  show (readJson j.dump).mapError JsonException.parseError = _
  rw [readJson_dump]
  rfl

def sampleTarget : ModelTarget := { profile := [], model := [] }

def sampleUsage : Json := .obj [member "input_tokens" (.num 3), member "output_tokens" (.num 2)]

def sampleText : Json := .obj [member "text" (word "hi"), member "type" (word "text")]

def sampleTool : Json :=
  .obj [member "id" (word "t"), member "input" (.obj []), member "name" (word "n"),
    member "type" (word "tool_use")]

def sampleBody (stopReason : String) (content : List Json) : Json :=
  .obj [member "content" (.arr content), member "model" (word "m"),
    member "stop_reason" (word stopReason), member "usage" sampleUsage]

def sampleEvent (name : String) (fields : List (Bytes × Json)) : Bytes × Bytes :=
    (text name, (Json.obj fields).dump)

theorem carries_sample (name : String) (fields : List (Bytes × Json)) :
    Carries compactCodec (sampleEvent name fields) name (.ofJson (.obj fields)) :=
  ⟨rfl, compactCodec_parse (.obj fields), rfl⟩

def sampleFirst : Bytes × Bytes :=
  sampleEvent "message_start"
    [member "message" (.obj [member "model" (word "m"), member "usage" sampleUsage])]

def sampleStart (block : Json) : Bytes × Bytes :=
    sampleEvent "content_block_start" [member "content_block" block]

def sampleDelta (piece : String) : Bytes × Bytes :=
  sampleEvent "content_block_delta"
    [member "delta" (.obj [member "text" (word piece), member "type" (word "text_delta")])]

def sampleStop : Bytes × Bytes := sampleEvent "content_block_stop" []

def sampleLast (stopReason : String) : Bytes × Bytes :=
  sampleEvent "message_delta"
    [member "delta" (.obj [member "stop_reason" (word stopReason)]),
      member "usage" (.obj [member "output_tokens" (.num 2)])]

def sampleStream : List (Bytes × Bytes) :=
  [sampleFirst, sampleStart sampleText, sampleDelta "h", sampleEvent "ping" [], sampleDelta "",
    sampleDelta "i", sampleStop, sampleStart sampleTool, sampleStop, sampleLast "tool_use",
    sampleEvent "message_stop" []]

def sampleResponse (stopReason : StopReason) (blocks : List Content) : Response :=
  { blocks, stopReason, usage := { inputTokens := 3, outputTokens := 2 },
    modelUsed := some (text "m") }

theorem sample_ends (stopReason : String) (content : List Json) :
    PresentsEnd compactCodec (.ofJson (sampleBody stopReason content)) (sampleLast stopReason) :=
  ⟨_, _, _, carries_sample _ _, rfl, rfl, rfl, rfl⟩

theorem sample_starts (stopReason : String) (content : List Json) :
    PresentsStart compactCodec (.ofJson (sampleBody stopReason content)) sampleFirst :=
  ⟨_, _, carries_sample _ _, rfl, rfl, fun key hkey => (by
    simp only [List.mem_cons, List.not_mem_nil, or_false] at hkey
    obtain rfl | rfl | rfl := hkey <;> rfl)⟩

theorem carries_sampleDelta (piece : String) :
    CarriesDelta compactCodec (sampleDelta piece) (.text (text piece)) :=
  ⟨_, _, carries_sample _ _, rfl, rfl, rfl⟩

theorem sampleStream_presents :
    Presents compactCodec (.ofJson (sampleBody "tool_use" [sampleText, sampleTool]))
      sampleStream := by
  refine ⟨_, sampleFirst, [[sampleStart sampleText, sampleDelta "h", sampleDelta "",
    sampleDelta "i", sampleStop], [sampleStart sampleTool, sampleStop]], sampleLast "tool_use",
    sampleEvent "message_stop" [], _, rfl, ?_, sample_starts _ _, ?_, sample_ends _ _,
    carries_sample _ _⟩
  · rfl
  · refine .cons ?_ (.cons ?_ .nil)
    · exact ⟨_, [sampleDelta "h", sampleDelta "", sampleDelta "i"], _, _, _, _, _, rfl,
        carries_sample _ _, rfl, fun _ _ => rfl,
        .cons (carries_sampleDelta _)
        (.cons (carries_sampleDelta _) (.cons (carries_sampleDelta _) .nil)),
        .text [text "h", text "", text "i"] rfl rfl, carries_sample _ _⟩
    · exact ⟨_, [], _, _, _, _, _, rfl, carries_sample _ _, rfl, fun _ _ => rfl, .nil,
        .toolUse [] _ rfl rfl ⟨.object [], compactCodec_parse (.obj []), rfl, rfl⟩,
          carries_sample _ _⟩

theorem sample_decoded :
    decodeAnthropicResponse compactCodec sampleTarget
      (sampleBody "tool_use" [sampleText, sampleTool]).dump =
      .ok (sampleResponse .toolUse [.text (text "hi"),
        .toolUse (text "t") (text "n") (text "\x7b\x7d")]) := by
  have hbody : parseBodyJson sampleTarget compactCodec
    (sampleBody "tool_use" [sampleText, sampleTool]).dump =
      .ok (.ofJson (sampleBody "tool_use" [sampleText, sampleTool])) := by
    rw [parseBodyJson, parseJsonObject, compactCodec_parse]
    rfl
  rw [decodeAnthropicResponse, hbody]
  rfl

theorem anthropic_stream_agrees_sample :
    let response := sampleResponse .toolUse [.text (text "hi"),
      .toolUse (text "t") (text "n") (text "\x7b\x7d")]
    let d := ({ target := sampleTarget } : AnthropicSseDecoder).consumeAll compactCodec sampleStream
    d.result = .ok response ∧ AddsUp compactCodec d.sink response.blocks ∧
      ∃ heard, List.Forall₂ (Heard compactCodec) response.blocks heard ∧
        d.sink = heard.flatten ++ [SinkEvent.done response.stopReason] := by
  refine (anthropic_stream_agrees (compactCodec_parse _) sample_decoded ?_
    sampleStream_presents).mpr ?_
  · intro content hcontent block hblock hkind
    cases hcontent
    simp only [SqlJson.ofItems, List.mem_cons, List.not_mem_nil, or_false] at hblock
    obtain rfl | rfl := hblock
    · have hword : text "text" = text "thinking" := SqlJson.text.inj (Option.some.inj hkind)
      exact absurd hword (by decide)
    · have hword : text "tool_use" = text "thinking" := SqlJson.text.inj (Option.some.inj hkind)
      exact absurd hword (by decide)
  · intro h
    cases h

def sampleUnstopped : List (Bytes × Bytes) :=
    [sampleFirst, sampleLast "", sampleEvent "message_stop" []]

/-- A body with an empty stop reason is an error, its stream a finished turn. -/
theorem empty_stop_reason_disagrees :
    ∃ codec target bodyJson body response events, codec.parse bodyJson = .ok body ∧
      decodeAnthropicResponse codec target bodyJson = .ok response ∧ SignaturesKept body ∧
        Presents codec body events ∧
      (({ target } : AnthropicSseDecoder).consumeAll codec events).result ≠ .ok response := by
  refine ⟨compactCodec, sampleTarget, (sampleBody "" []).dump, .ofJson (sampleBody "" []),
    sampleResponse .error [], sampleUnstopped, compactCodec_parse _, ?_, ?_, ?_, ?_⟩
  · have hbody : parseBodyJson sampleTarget compactCodec (sampleBody "" []).dump =
        .ok (.ofJson (sampleBody "" [])) := by
      rw [parseBodyJson, parseJsonObject, compactCodec_parse]
      rfl
    rw [decodeAnthropicResponse, hbody]
    rfl
  · intro content hcontent block hblock
    cases hcontent
    cases hblock
  · exact ⟨[], sampleFirst, [], sampleLast "", sampleEvent "message_stop" [], _, rfl, rfl,
      sample_starts _ _, .nil, sample_ends _ _, carries_sample _ _⟩
  · have hend : (({ target := sampleTarget } : AnthropicSseDecoder).consumeAll compactCodec
      sampleUnstopped).stopReason =
        .endTurn := by decide +kernel
    intro h
    have hsame := AnthropicSseDecoder.result_stopReason h
    rw [hend] at hsame
    cases hsame

end Sample

end Orangutan.Provider
