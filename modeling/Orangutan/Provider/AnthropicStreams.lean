import Orangutan.Provider.ProtocolResponse

/-!
# Streams of a response

A response body can be presented as a stream of events in many ways: its texts are cut anywhere,
and pings stand anywhere. The stream decoder makes the same response of each.
-/

namespace Orangutan.Provider

set_option autoImplicit false

open Orangutan.Core Orangutan.Storage

/-- What one delta of a block adds. -/
inductive Delta
  | text (piece : Bytes)
  | thinking (piece : Bytes)
  | signature (piece : Bytes)
  | inputJson (piece : Bytes)

namespace Delta

def type : Delta → Bytes
  | text _ => Core.text "text_delta"
  | thinking _ => Core.text "thinking_delta"
  | signature _ => Core.text "signature_delta"
  | inputJson _ => Core.text "input_json_delta"

def key : Delta → String
  | text _ => "text"
  | thinking _ => "thinking"
  | signature _ => "signature"
  | inputJson _ => "partial_json"

def piece : Delta → Bytes
  | text p => p
  | thinking p => p
  | signature p => p
  | inputJson p => p

def thinkingPart : Delta → Option Bytes
  | thinking p => some p
  | _ => none

def signaturePart : Delta → Option Bytes
  | signature p => some p
  | _ => none

end Delta

section Presentations

variable (codec : JsonCodec)

/-- An event of this name whose data is read as this object. -/
def Carries (event : Bytes × Bytes) (name : String) (payload : SqlJson) : Prop :=
  event.1 = text name ∧ codec.parse event.2 = .ok payload ∧ payload.isObject = true

def CarriesDelta (event : Bytes × Bytes) (δ : Delta) : Prop :=
  ∃ payload delta, Carries codec event "content_block_delta" payload ∧
    objectMember payload "delta" = some delta ∧
    stringOrEmpty delta "type" = δ.type ∧ stringOrEmpty delta δ.key = δ.piece

/-- A text of an object that is printed like this. No text stands for the empty object. -/
def Serializes (t printed : Bytes) : Prop :=
  ∃ v, codec.parse (if t = [] then text "\x7b\x7d" else t) = .ok v ∧ v.isObject = true ∧
    codec.dump v = printed

/-- The deltas that make up a content block. -/
inductive Delivers (block : SqlJson) : List Delta → Prop
  | text (pieces : List Bytes) (h : block.lastMember (text "type") = some (.text (text "text")))
      (ht : block.lastMember (text "text") = some (.text pieces.flatten)) :
        Delivers block (pieces.map .text)
  | thinking (deltas : List Delta) (h : block.lastMember (text "type") =
      some (.text (text "thinking")))
      (kinds : ∀ δ ∈ deltas, δ.thinkingPart.isSome = true ∨ δ.signaturePart.isSome = true)
      (ht : block.lastMember (text "thinking") =
        some (.text (deltas.filterMap Delta.thinkingPart).flatten))
      (hs : match block.lastMember (text "signature") with
        | some (.text s) => (deltas.filterMap Delta.signaturePart).flatten = s
        | _ => deltas.filterMap Delta.signaturePart = []) : Delivers block deltas
  | toolUse (pieces : List Bytes) (input : SqlJson) (h : block.lastMember (text "type") =
      some (.text (text "tool_use")))
      (hi : objectMember block "input" = some input)
        (ht : Serializes codec pieces.flatten (codec.dump input)) :
      Delivers block (pieces.map .inputJson)

/-- The events of one content block. -/
def PresentsBlock (block : SqlJson) (events : List (Bytes × Bytes)) : Prop :=
  ∃ start deltas stop opening closing header δs, events = start :: (deltas ++ [stop]) ∧
    Carries codec start "content_block_start" opening ∧
      objectMember opening "content_block" = some header ∧
    (∀ key ∈ ["type", "id", "name"], stringOrEmpty header key = stringOrEmpty block key) ∧
    List.Forall₂ (CarriesDelta codec) deltas δs ∧ Delivers codec block δs ∧
    Carries codec stop "content_block_stop" closing

def tokens (object : SqlJson) (key : String) : UInt64 :=
  match objectMember object "usage" with
  | none => 0
  | some usage => u64OrZero usage key

/-- The stream begins with the model and the usage, which has no final output tokens yet. -/
def PresentsStart (body : SqlJson) (event : Bytes × Bytes) : Prop :=
  ∃ payload message, Carries codec event "message_start" payload ∧
    objectMember payload "message" = some message ∧
    stringOrEmpty message "model" = stringOrEmpty body "model" ∧
    ∀ key ∈ ["input_tokens", "cache_creation_input_tokens", "cache_read_input_tokens"],
      tokens message key = tokens body key

/-- The stream ends with the stop reason and the output tokens. -/
def PresentsEnd (body : SqlJson) (event : Bytes × Bytes) : Prop :=
  ∃ payload delta usage, Carries codec event "message_delta" payload ∧
    objectMember payload "delta" = some delta ∧
    stringOrEmpty delta "stop_reason" = stringOrEmpty body "stop_reason" ∧
      objectMember payload "usage" = some usage ∧
    u64OrZero usage "output_tokens" = tokens body "output_tokens"

/-- A canonical stream of a response body. -/
def Presents (body : SqlJson) (events : List (Bytes × Bytes)) : Prop :=
  ∃ content first blocks last stop closing,
    body.lastMember (text "content") = some (.array content) ∧
    events.filter (fun event => event.1 ≠ text "ping") = first :: (blocks.flatten ++ [last, stop]) ∧
    PresentsStart codec body first ∧ List.Forall₂ (PresentsBlock codec) content blocks ∧
    PresentsEnd codec body last ∧ Carries codec stop "message_stop" closing

/-- The callbacks of one block. -/
inductive Heard : Content → List SinkEvent → Prop
  | text (pieces : List Bytes) : Heard (.text pieces.flatten) (pieces.map .textDelta)
  | thinking (pieces : List Bytes) (signature : Option Bytes) :
      Heard (.thinking pieces.flatten signature) (pieces.map .thinkingDelta)
  | toolUse (id name printed : Bytes) (pieces : List Bytes)
      (h : Serializes codec pieces.flatten printed) :
      Heard (.toolUse id name printed) (.toolStart id name :: pieces.map (.toolDelta id))

end Presentations

theorem anthropicUsage_eq {target : ModelTarget} {body : SqlJson} {usage : Usage}
    (h : anthropicUsage target body = .ok usage) :
    usage =
      { inputTokens := tokens body "input_tokens"
        outputTokens := tokens body "output_tokens"
        cacheCreationTokens := tokens body "cache_creation_input_tokens"
        cacheReadTokens := tokens body "cache_read_input_tokens" } := by
  unfold anthropicUsage at h
  unfold tokens objectMember
  split at h
  · rename_i hmember
    cases h
    rw [hmember]
    rfl
  · rename_i hmember
    cases h
    rw [hmember]
    rfl
  · rename_i object _ hmember
    by_cases hobject : object.isObject = true
    · rw [if_neg (not_not.mpr hobject)] at h
      obtain ⟨inputTokens, hinput, h⟩ := bind_eq_ok.mp h
      obtain ⟨outputTokens, houtput, h⟩ := bind_eq_ok.mp h
      obtain ⟨cacheCreationTokens, hcreation, h⟩ := bind_eq_ok.mp h
      obtain ⟨cacheReadTokens, hread, h⟩ := bind_eq_ok.mp h
      cases h
      have hfound : (some object).filter SqlJson.isObject = some object := by
        rw [Option.filter_some, if_pos hobject]
      rw [hmember, hfound]
      dsimp only
      rw [u64OrZero_of_optional hinput, u64OrZero_of_optional houtput,
        u64OrZero_of_optional hcreation, u64OrZero_of_optional hread]
    · rw [if_pos hobject] at h
      cases h

namespace AnthropicSseDecoder

variable {codec : JsonCodec}

theorem consume_carries {d : AnthropicSseDecoder} {event : Bytes × Bytes} {name : String}
    {payload : SqlJson} (h : Carries codec event name payload) (herror : d.error = none)
    (hname : text name ≠ text "ping") :
    d.consume codec event.1 event.2 = d.dispatch codec (text name) payload := by
  obtain ⟨hevent, hparse, hobject⟩ := h
  rw [consume, herror, hevent]
  simp only [Option.isSome_none, Bool.false_eq_true, if_false, if_neg hname, hparse,
    hobject, if_true]

/-- What the decoder does with a delta in an open block. -/
def takeDelta (d : AnthropicSseDecoder) : Delta → AnthropicSseDecoder
  | .text t =>
    ({ d with block := { d.block with text := d.block.text ++ t } } : AnthropicSseDecoder).call
      (if d.block.kind = .thinking then .thinkingDelta t else .textDelta t)
  | .thinking t =>
    ({ d with block := { d.block with text := d.block.text ++ t } } : AnthropicSseDecoder).call
      (.thinkingDelta t)
  | .signature s => { d with block :=
      { d.block with signature := some (d.block.signature.getD [] ++ s) } }
  | .inputJson t =>
    ({ d with block := { d.block with toolInput := d.block.toolInput ++ t } } :
      AnthropicSseDecoder).call
      (.toolDelta d.block.toolId t)

theorem consume_delta {d : AnthropicSseDecoder} {event : Bytes × Bytes} {δ : Delta}
    (h : CarriesDelta codec event δ) (herror : d.error = none) (hkind : d.block.kind ≠ .none) :
    d.consume codec event.1 event.2 = d.takeDelta δ := by
  obtain ⟨payload, delta, hcarries, hdelta, htype, hpiece⟩ := h
  rw [consume_carries hcarries herror (by decide), dispatch, if_neg (by decide), if_neg (by decide),
    if_pos rfl, contentBlockDelta, if_neg hkind, hdelta]
  dsimp only
  cases δ with
  | text t =>
    have htype' : stringOrEmpty delta "type" = text "text_delta" := htype
    have hpiece' : stringOrEmpty delta "text" = t := hpiece
    rw [htype', if_pos rfl, hpiece']
    rfl
  | thinking t =>
    have htype' : stringOrEmpty delta "type" = text "thinking_delta" := htype
    have hpiece' : stringOrEmpty delta "thinking" = t := hpiece
    rw [htype', if_neg (by decide), if_pos rfl, hpiece']
    rfl
  | signature s =>
    have htype' : stringOrEmpty delta "type" = text "signature_delta" := htype
    have hpiece' : stringOrEmpty delta "signature" = s := hpiece
    rw [htype', if_neg (by decide), if_neg (by decide), if_pos rfl, hpiece']
    rfl
  | inputJson t =>
    have htype' : stringOrEmpty delta "type" = text "input_json_delta" := htype
    have hpiece' : stringOrEmpty delta "partial_json" = t := hpiece
    rw [htype', if_neg (by decide), if_neg (by decide), if_neg (by decide), if_pos rfl, hpiece']
    rfl

theorem takeDelta_error (d : AnthropicSseDecoder) (δ : Delta) :
    (d.takeDelta δ).error = d.error := by
  cases δ <;> rfl

theorem takeDelta_kind (d : AnthropicSseDecoder) (δ : Delta) :
    (d.takeDelta δ).block.kind = d.block.kind := by
  cases δ <;> rfl

theorem consumeAll_deltas {deltas : List (Bytes × Bytes)} {δs : List Delta}
    (h : List.Forall₂ (CarriesDelta codec) deltas δs) {d : AnthropicSseDecoder}
      (herror : d.error = none)
    (hkind : d.block.kind ≠ .none) : d.consumeAll codec deltas = δs.foldl takeDelta d := by
  induction h generalizing d with
  | nil => rfl
  | @cons event δ events δs hδ _ ih =>
    have hnext : d.consumeAll codec (event :: events) =
        (d.takeDelta δ).consumeAll codec events := by
      rw [consumeAll, List.foldl_cons, consume_delta hδ herror hkind]
      rfl
    rw [hnext, List.foldl_cons]
    exact ih (by rw [takeDelta_error, herror]) (by rw [takeDelta_kind]; exact hkind)

theorem foldl_text (pieces : List Bytes) {d : AnthropicSseDecoder} (hkind : d.block.kind = .text) :
    (pieces.map Delta.text).foldl takeDelta d =
      { d with block := { d.block with
        text := d.block.text ++ pieces.flatten }, sink := d.sink ++ pieces.map .textDelta } := by
  induction pieces generalizing d with
  | nil => simp
  | cons piece rest ih =>
    rw [List.map_cons, List.foldl_cons, ih (by rw [takeDelta_kind, hkind])]
    simp [takeDelta, call, hkind]

theorem foldl_inputJson (pieces : List Bytes) (d : AnthropicSseDecoder) :
    (pieces.map Delta.inputJson).foldl takeDelta d =
      { d with
        block := { d.block with toolInput := d.block.toolInput ++ pieces.flatten }
        sink := d.sink ++ pieces.map (.toolDelta d.block.toolId) } := by
  induction pieces generalizing d with
  | nil => simp
  | cons piece rest ih =>
    rw [List.map_cons, List.foldl_cons, ih]
    simp [takeDelta, call]

/-- The signature that the pieces add up to: none without a piece. -/
def addSignature (signature : Option Bytes) (pieces : List Bytes) : Option Bytes :=
  if pieces = [] then signature else some (signature.getD [] ++ pieces.flatten)

theorem foldl_thinking {δs : List Delta}
    (kinds : ∀ δ ∈ δs, δ.thinkingPart.isSome = true ∨ δ.signaturePart.isSome = true)
    (d : AnthropicSseDecoder) :
    δs.foldl takeDelta d =
      { d with
        block := { d.block with
          text := d.block.text ++ (δs.filterMap Delta.thinkingPart).flatten
          signature := addSignature d.block.signature (δs.filterMap Delta.signaturePart) }
        sink := d.sink ++ (δs.filterMap Delta.thinkingPart).map .thinkingDelta } := by
  induction δs generalizing d with
  | nil => simp [addSignature]
  | cons δ rest ih =>
    have hδ := kinds δ List.mem_cons_self
    rw [List.foldl_cons, ih fun δ' h => kinds δ' (List.mem_cons_of_mem δ h)]
    cases δ with
    | text t => simp [Delta.thinkingPart, Delta.signaturePart] at hδ
    | thinking t => simp [takeDelta, call, Delta.thinkingPart, Delta.signaturePart,
        List.filterMap_cons]
    | signature s =>
      by_cases hnone : rest.filterMap Delta.signaturePart = []
      · simp [takeDelta, Delta.thinkingPart, Delta.signaturePart, addSignature, hnone,
          List.filterMap_cons]
      · simp [takeDelta, Delta.thinkingPart, Delta.signaturePart, addSignature, hnone,
          List.filterMap_cons]
    | inputJson t => simp [Delta.thinkingPart, Delta.signaturePart] at hδ

theorem addSignature_delivered {block : SqlJson} {pieces : List Bytes}
    (h : match block.lastMember (text "signature") with
      | some (.text s) => pieces.flatten = s
      | _ => pieces = [])
    (hkept : block.lastMember (text "signature") ≠ some (.text [])) :
    addSignature none pieces = nonEmpty (stringOrEmpty block "signature") := by
  unfold stringOrEmpty
  generalize block.lastMember (text "signature") = member at h hkept ⊢
  rcases member with _ | value
  · obtain rfl : pieces = [] := h
    rfl
  · cases value with
    | text s =>
      have hs : s ≠ [] := fun hs => hkept (by rw [hs])
      have hpieces : pieces ≠ [] := by
        rintro rfl
        exact hs h.symm
      rw [addSignature, if_neg hpieces, nonEmpty, if_neg hs, h]
      rfl
    | _ =>
      obtain rfl : pieces = [] := h
      rfl

-- What the response decoder makes of a block is given by its members.
theorem isObject_of_lastMember {object value : SqlJson} {key : Bytes}
    (h : object.lastMember key = some value) :
    object.isObject = true := by
  cases object <;> first | rfl | cases h

section Decoded

variable {target : ModelTarget} {block : SqlJson} {index : Nat} {content : Content} {t : Bytes}

theorem decoded_text (hkind : block.lastMember (text "type") = some (.text (text "text")))
    (ht : block.lastMember (text "text") = some (.text t))
    (h : anthropicContentBlock codec target block index = .ok content) : content = .text t := by
  rw [anthropicContentBlock, if_neg (not_not.mpr (isObject_of_lastMember hkind)), requiredString,
    hkind] at h
  dsimp only at h
  rw [ok_bind, if_pos rfl, requiredString, ht] at h
  cases h
  rfl

theorem decoded_thinking (hkind : block.lastMember (text "type") = some (.text (text "thinking")))
    (ht : block.lastMember (text "thinking") = some (.text t))
    (h : anthropicContentBlock codec target block index = .ok content) :
    content = .thinking t (nonEmpty (stringOrEmpty block "signature")) := by
  rw [anthropicContentBlock, if_neg (not_not.mpr (isObject_of_lastMember hkind)), requiredString,
    hkind] at h
  dsimp only at h
  rw [ok_bind, if_neg (by decide), if_pos rfl, requiredString, ht] at h
  dsimp only at h
  rw [ok_bind] at h
  obtain ⟨signature, hsignature, h⟩ := bind_eq_ok.mp h
  cases h
  rw [stringOrEmpty_of_optional hsignature]

theorem decoded_toolUse {input : SqlJson}
    (hkind : block.lastMember (text "type") = some (.text (text "tool_use")))
    (hinput : objectMember block "input" = some input)
    (h : anthropicContentBlock codec target block index = .ok content) :
    content = .toolUse (stringOrEmpty block "id") (stringOrEmpty block "name")
      (codec.dump input) := by
  rw [anthropicContentBlock, if_neg (not_not.mpr (isObject_of_lastMember hkind)), requiredString,
    hkind] at h
  dsimp only at h
  rw [ok_bind, if_neg (by decide), if_neg (by decide), if_pos rfl] at h
  obtain ⟨id, hid, h⟩ := bind_eq_ok.mp h
  obtain ⟨name, hname, h⟩ := bind_eq_ok.mp h
  rw [hinput] at h
  cases h
  rw [stringOrEmpty_of_required hid, stringOrEmpty_of_required hname]

end Decoded

/-- A decoder between two blocks. -/
structure Between (d : AnthropicSseDecoder) : Prop where
  error : d.error = none
  block : d.block = {}

/-- The decoder has made this content of a block. -/
def Makes (codec : JsonCodec) (d d' : AnthropicSseDecoder) (content : Content) : Prop :=
  ∃ heard, Heard codec content heard ∧
    d' = { d with blocks := d.blocks ++ [content], sink := d.sink ++ heard, block := {} }

theorem consumeAll_append (d : AnthropicSseDecoder) (first second : List (Bytes × Bytes)) :
    d.consumeAll codec (first ++ second) = (d.consumeAll codec first).consumeAll codec second :=
  List.foldl_append

theorem consumeAll_cons (d : AnthropicSseDecoder) (event : Bytes × Bytes)
    (rest : List (Bytes × Bytes)) :
    d.consumeAll codec (event :: rest) = (d.consume codec event.1 event.2).consumeAll codec rest :=
      rfl

theorem finalizeOpenBlock_toolUse {d : AnthropicSseDecoder} {printed : Bytes}
    (hkind : d.block.kind = .toolUse) (h : Serializes codec d.block.toolInput printed) :
    d.finalizeOpenBlock codec =
      { d with
        blocks := d.blocks ++ [.toolUse d.block.toolId d.block.toolName printed],
        block := {} } := by
  obtain ⟨input, hparse, hobject, rfl⟩ := h
  rw [finalizeOpenBlock, hkind]
  dsimp only
  rw [hparse]
  dsimp only
  rw [if_pos hobject]

theorem makes_block {target : ModelTarget} {d : AnthropicSseDecoder} {block : SqlJson} {index : Nat}
    {content : Content} {events : List (Bytes × Bytes)} (hd : Between d)
    (hpresents : PresentsBlock codec block events)
    (hdecoded : anthropicContentBlock codec target block index = .ok content)
    (hsignature : block.lastMember (text "type") = some (.text (text "thinking")) →
      block.lastMember (text "signature") ≠ some (.text [])) :
    Makes codec d (d.consumeAll codec events) content := by
  obtain ⟨start, deltas, stop, opening, closing, header, δs, rfl, hstart, hheader, hkeys, hdeltas,
    hdelivers, hstop⟩ := hpresents
  have hopened : d.consume codec start.1 start.2 = d.contentBlockStart opening := by
    rw [consume_carries hstart hd.error (by decide), dispatch, if_neg (by decide), if_pos rfl]
  have htype := hkeys "type" (by simp)
  rw [consumeAll_cons, consumeAll_append, hopened, contentBlockStart, hd.block,
    if_neg (by simp), hheader]
  dsimp only
  rw [htype]
  have hclosed {e : AnthropicSseDecoder} (he : e.error = none) (hkind : e.block.kind ≠ .none) :
      e.consumeAll codec [stop] = e.finalizeOpenBlock codec := by
    rw [consumeAll_cons, consume_carries hstop he (by decide), dispatch, if_neg (by decide),
      if_neg (by decide), if_neg (by decide), if_pos rfl, contentBlockStop, if_neg hkind]
    rfl
  cases hdelivers with
  | text pieces hkind htext =>
    have hword : stringOrEmpty block "type" = text "text" := by rw [stringOrEmpty, hkind]
    rw [hword, if_pos rfl, consumeAll_deltas hdeltas (by exact hd.error) (by simp),
      foldl_text pieces (by rfl), hclosed (by exact hd.error) (by simp),
      decoded_text hkind htext hdecoded]
    exact ⟨_, .text pieces, by simp [finalizeOpenBlock]⟩
  | thinking δs hkind kinds htext hsig =>
    have hword : stringOrEmpty block "type" = text "thinking" := by rw [stringOrEmpty, hkind]
    have hsame := addSignature_delivered hsig (hsignature hkind)
    rw [hword, if_neg (by decide), if_pos rfl,
      consumeAll_deltas hdeltas (by exact hd.error) (by simp), foldl_thinking kinds,
      hclosed (by exact hd.error) (by simp), decoded_thinking hkind htext hdecoded]
    refine ⟨_, .thinking _ _, ?_⟩
    simp [finalizeOpenBlock, hsame]
  | toolUse pieces input hkind hinput hserial =>
    have hword : stringOrEmpty block "type" = text "tool_use" := by rw [stringOrEmpty, hkind]
    have hid := hkeys "id" (by simp)
    have hname := hkeys "name" (by simp)
    rw [hword, if_neg (by decide), if_neg (by decide), if_pos rfl, hid, hname,
      consumeAll_deltas hdeltas (by exact hd.error) (by simp [call]), foldl_inputJson,
      hclosed (by exact hd.error) (by simp [call]), decoded_toolUse hkind hinput hdecoded]
    refine ⟨_, .toolUse _ _ _ pieces hserial, ?_⟩
    rw [finalizeOpenBlock_toolUse (by rfl) (by exact hserial)]
    simp [call]

/-- The blocks of a body, one after another. -/
theorem makes_blocks {target : ModelTarget} {content : List SqlJson}
    {streams : List (List (Bytes × Bytes))}
    (hpresents : List.Forall₂ (PresentsBlock codec) content streams) {d : AnthropicSseDecoder}
    {index : Nat} {blocks : List Content} (hd : Between d)
    (hdecoded : anthropicContentBlocks codec target index content = .ok blocks)
    (hkept : ∀ block ∈ content, block.lastMember (text "type") = some (.text (text "thinking")) →
      block.lastMember (text "signature") ≠ some (.text [])) :
    ∃ heard, List.Forall₂ (Heard codec) blocks heard ∧
      d.consumeAll codec streams.flatten =
        { d with blocks := d.blocks ++ blocks, sink := d.sink ++ heard.flatten } := by
  induction hpresents generalizing d index blocks with
  | nil =>
    cases hdecoded
    exact ⟨[], .nil, by simp [consumeAll]⟩
  | @cons block stream rest streams hblock _ ih =>
    obtain ⟨made, hmade, h⟩ := bind_eq_ok.mp hdecoded
    obtain ⟨others, hothers, h⟩ := bind_eq_ok.mp h
    cases h
    obtain ⟨heard, hheard, hnext⟩ := makes_block hd hblock hmade (hkept block List.mem_cons_self)
    rw [List.flatten_cons, consumeAll_append, hnext]
    obtain ⟨later, hlater, hlast⟩ :=
      ih (d := { d with blocks := d.blocks ++ [made], sink := d.sink ++ heard, block := {} })
      ⟨hd.error, rfl⟩ hothers fun block h => hkept block (List.mem_cons_of_mem _ h)
    refine ⟨heard :: later, .cons hheard hlater, ?_⟩
    rw [hlast, List.flatten_cons]
    simp [hd.block]

theorem consumeAll_ping (d : AnthropicSseDecoder) (events : List (Bytes × Bytes)) :
    d.consumeAll codec (events.filter fun event => event.1 ≠ text "ping") =
      d.consumeAll codec events := by
  induction events generalizing d with
  | nil => rfl
  | cons event rest ih =>
    by_cases hping : event.1 = text "ping"
    · have hsame : d.consume codec event.1 event.2 = d := by
        rw [consume, if_pos hping, ite_self]
      rw [List.filter_cons_of_neg (by simpa using hping), ih, consumeAll_cons, hsame]
    · rw [List.filter_cons_of_pos (by simpa using hping), consumeAll_cons, consumeAll_cons, ih]

theorem consume_start {target : ModelTarget} {body : SqlJson} {event : Bytes × Bytes}
    (h : PresentsStart codec body event) :
    ∃ early, ({ target } : AnthropicSseDecoder).consume codec event.1 event.2 =
      { target
        model := nonEmpty (stringOrEmpty body "model")
        usage :=
          { inputTokens := tokens body "input_tokens"
            outputTokens := early
            cacheCreationTokens := tokens body "cache_creation_input_tokens"
            cacheReadTokens := tokens body "cache_read_input_tokens" } } := by
  obtain ⟨payload, message, hcarries, hmessage, hmodel, htokens⟩ := h
  refine ⟨tokens message "output_tokens", ?_⟩
  rw [consume_carries hcarries rfl (by decide), dispatch, if_pos rfl, messageStart, hmessage,
    ← hmodel, ← htokens "input_tokens" (by simp), ← htokens "cache_creation_input_tokens" (by simp),
    ← htokens "cache_read_input_tokens" (by simp)]
  dsimp only
  unfold tokens nonEmpty
  by_cases hnamed : stringOrEmpty message "model" = []
  · rw [if_pos hnamed, if_pos hnamed]
    cases objectMember message "usage" <;> rfl
  · rw [if_neg hnamed, if_neg hnamed]
    cases objectMember message "usage" <;> rfl

/-- The stop reason after the stream of a body: an empty one leaves that from before. -/
def streamedReason (body : SqlJson) (before : StopReason) : StopReason :=
  if stringOrEmpty body "stop_reason" = [] then before
  else anthropicStopReason (stringOrEmpty body "stop_reason")

theorem consume_end {body : SqlJson} {event : Bytes × Bytes} (h : PresentsEnd codec body event)
    {d : AnthropicSseDecoder} (herror : d.error = none) :
    d.consume codec event.1 event.2 =
      { d with
        stopReason := streamedReason body d.stopReason
        usage := { d.usage with outputTokens := tokens body "output_tokens" } } := by
  obtain ⟨payload, delta, usage, hcarries, hdelta, hreason, husage, htokens⟩ := h
  have hdecided : (deltaStopReason payload).getD d.stopReason =
      streamedReason body d.stopReason := by
    rw [deltaStopReason, hdelta]
    dsimp only
    rw [hreason, streamedReason]
    split <;> rfl
  rw [consume_carries hcarries herror (by decide), dispatch, if_neg (by decide), if_neg (by decide),
    if_neg (by decide), if_neg (by decide), if_pos rfl, messageDelta, husage, hdecided, ← htokens]

theorem consume_message_stop {event : Bytes × Bytes} {closing : SqlJson}
    (h : Carries codec event "message_stop" closing) {d : AnthropicSseDecoder} (hd : Between d) :
    d.consume codec event.1 event.2 =
      { d with sawMessageStop := true, sink := d.sink ++ [.done d.stopReason] } := by
  rw [consume_carries h hd.error (by decide), dispatch, if_neg (by decide), if_neg (by decide),
    if_neg (by decide), if_neg (by decide), if_neg (by decide), if_pos rfl, messageStop, hd.block,
    if_neg (by simp)]
  rfl

/-- The decoder at the end of a stream, with what the sink heard of each block. -/
theorem consumeAll_presents {target : ModelTarget} {body : SqlJson} {response : Response}
    {events : List (Bytes × Bytes)} (hdecoded : anthropicResponse codec target body = .ok response)
    (hpresents : Presents codec body events)
    (hkept : ∀ content, body.lastMember (text "content") = some (.array content) →
    ∀ block ∈ content, block.lastMember (text "type") = some (.text (text "thinking")) →
    block.lastMember (text "signature") ≠ some (.text [])) :
    ∃ heard, List.Forall₂ (Heard codec) response.blocks heard ∧
      ({ target } : AnthropicSseDecoder).consumeAll codec events =
        { target
          sink := heard.flatten ++ [.done (streamedReason body .endTurn)]
          blocks := response.blocks
          usage := response.usage
          stopReason := streamedReason body .endTurn
          model := response.modelUsed
          sawMessageStop := true } := by
  obtain ⟨content, first, streams, last, stop, closing, hcontent, hevents, hfirst, hstreams, hlast,
    hclosing⟩ := hpresents
  obtain ⟨items, hitems, h⟩ := bind_eq_ok.mp hdecoded
  obtain ⟨blocks, hblocks, h⟩ := bind_eq_ok.mp h
  obtain ⟨reason, hreason, h⟩ := bind_eq_ok.mp h
  obtain ⟨usage, husage, h⟩ := bind_eq_ok.mp h
  obtain ⟨model, hmodel, h⟩ := bind_eq_ok.mp h
  cases h
  have hsame : items = content := by
    rw [requiredArray, hcontent] at hitems
    cases hitems
    rfl
  subst hsame
  rw [anthropicUsage_eq husage, ← stringOrEmpty_of_optional hmodel]
  obtain ⟨early, hstarted⟩ := @consume_start codec target body first hfirst
  rw [← consumeAll_ping, hevents, consumeAll_cons, hstarted, consumeAll_append]
  have hbetween (usage : Usage) (model : Option Bytes) : Between { target, model, usage } :=
    ⟨rfl, rfl⟩
  obtain ⟨heard, hheard, hmade⟩ :=
    makes_blocks hstreams (hbetween _ _) hblocks (hkept items hcontent)
  refine ⟨heard, hheard, ?_⟩
  rw [hmade, consumeAll_cons, consume_end hlast (by rfl), consumeAll_cons,
    consume_message_stop hclosing]
  · simp [consumeAll]
  · exact ⟨rfl, rfl⟩

end AnthropicSseDecoder

end Orangutan.Provider
