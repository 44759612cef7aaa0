import Orangutan.Provider.ProtocolRequest
import Orangutan.Storage.JsonText

/-!
# Blocks on the wire

An accepted block, encoded and decoded again, is the same block. Prompt caching changes where the
system text stands and where a breakpoint stands, and nothing else of a body.
-/

namespace Orangutan.Provider

set_option autoImplicit false

open Orangutan.Core Orangutan.Storage

/-- A value that the parser built, or below one. -/
inductive JsonCodec.Built (codec : JsonCodec) : SqlJson → Prop
  | parsed {document : Bytes} {value : SqlJson} (h : codec.parse document = .ok value) :
      Built codec value
  | item {items : List SqlJson} {value : SqlJson} (h : Built codec (.array items))
      (hitem : value ∈ items) : Built codec value
  | member {fields : Fields} {field : Bytes × SqlJson} (h : Built codec (.object fields))
      (hfield : field ∈ fields) :
      Built codec field.2

/-- What was parsed and is printed is parsed as the same value. -/
def JsonCodec.RoundTrips (codec : JsonCodec) : Prop :=
  ∀ value, codec.Built value → codec.parse (codec.dump value) = .ok value

section Blocks

variable {codec : JsonCodec} {target : ModelTarget}

theorem mem_of_lastMember {object value : SqlJson} {key : Bytes}
    (h : object.lastMember key = some value) :
    ∃ fields, object = .object fields ∧ (key, value) ∈ fields := by
  cases object with
  | object fields =>
    obtain ⟨field, hfind, rfl⟩ := Option.map_eq_some_iff.mp h
    have hkey : field.1 = key := by simpa using List.find?_some hfind
    exact ⟨fields, rfl, List.mem_reverse.mp (hkey ▸ List.mem_of_find?_eq_some hfind)⟩
  | _ => cases h

theorem JsonCodec.Built.lastMember {object value : SqlJson} {key : Bytes}
    (hbuilt : codec.Built object) (h : object.lastMember key = some value) : codec.Built value := by
  obtain ⟨fields, rfl, hfield⟩ := mem_of_lastMember h
  exact hbuilt.member hfield

/-- The three kinds of accepted blocks. -/
inductive Accepts (codec : JsonCodec) : SqlJson → Content → Prop
  | text {block : SqlJson} {t : Bytes} (htype : block.lastMember (text "type") =
      some (.text (text "text")))
      (ht : block.lastMember (text "text") = some (.text t)) : Accepts codec block (.text t)
  | thinking {block : SqlJson} {thinking signature : Bytes}
      (htype : block.lastMember (text "type") = some (.text (text "thinking")))
      (hthinking : block.lastMember (text "thinking") = some (.text thinking))
      (hsignature : ∀ target field, optionalString target block "signature" field = .ok signature) :
      Accepts codec block (.thinking thinking (nonEmpty signature))
  | toolUse {block input : SqlJson} {id name : Bytes}
      (htype : block.lastMember (text "type") = some (.text (text "tool_use")))
      (hid : block.lastMember (text "id") = some (.text id))
        (hname : block.lastMember (text "name") = some (.text name))
      (hinput : objectMember block "input" = some input) :
        Accepts codec block (.toolUse id name (codec.dump input))

theorem isObject_of_lastMember {object value : SqlJson} {key : Bytes}
    (h : object.lastMember key = some value) :
    object.isObject = true := by
  obtain ⟨fields, rfl, -⟩ := mem_of_lastMember h
  rfl

theorem requiredString_of_lastMember {object : SqlJson} {key : String} {t : Bytes} (field : Bytes)
    (h : object.lastMember (text key) = some (.text t)) : requiredString target object key field =
      .ok t := by
  rw [requiredString, h]

/-- Where a string is accepted does not matter. -/
theorem optionalString_anywhere {object : SqlJson} {key : String} {field t : Bytes}
    (h : optionalString target object key field = .ok t) (target' : ModelTarget) (field' : Bytes) :
    optionalString target' object key field' = .ok t := by
  unfold optionalString at h ⊢
  rcases hmember : object.lastMember (text key) with _ | value
  · rw [hmember] at h
    exact h
  · rw [hmember] at h
    cases value with
    | null => exact h
    | text s => exact h
    | _ => cases h

theorem accepts_iff {block : SqlJson} {index : Nat} {content : Content} :
    anthropicContentBlock codec target block index = .ok content ↔ Accepts codec block content := by
  have hthinking : text "thinking" ≠ text "text" := by decide
  have htool : text "tool_use" ≠ text "text" ∧ text "tool_use" ≠ text "thinking" := by decide
  constructor
  · intro h
    unfold anthropicContentBlock at h
    split at h
    · cases h
    · obtain ⟨type, htype, h⟩ := bind_eq_ok.mp h
      have htype := requiredString_ok htype
      by_cases ht : type = text "text"
      · rw [if_pos ht] at h
        obtain ⟨t, ht', h⟩ := bind_eq_ok.mp h
        cases h
        exact .text (ht ▸ htype) (requiredString_ok ht')
      rw [if_neg ht] at h
      by_cases hth : type = text "thinking"
      · rw [if_pos hth] at h
        obtain ⟨thinking, hthinking', h⟩ := bind_eq_ok.mp h
        obtain ⟨signature, hsignature, h⟩ := bind_eq_ok.mp h
        cases h
        exact .thinking (hth ▸ htype) (requiredString_ok hthinking') fun _ _ =>
          optionalString_anywhere hsignature _ _
      rw [if_neg hth] at h
      by_cases htl : type = text "tool_use"
      · rw [if_pos htl] at h
        obtain ⟨id, hid, h⟩ := bind_eq_ok.mp h
        obtain ⟨name, hname, h⟩ := bind_eq_ok.mp h
        rcases hinput : objectMember block "input" with _ | input
        · rw [hinput] at h
          cases h
        · rw [hinput] at h
          cases h
          exact .toolUse (htl ▸ htype) (requiredString_ok hid) (requiredString_ok hname) hinput
      · rw [if_neg htl] at h
        cases h
  · intro h
    cases h with
    | text htype ht =>
      rw [anthropicContentBlock, if_neg (not_not.mpr (isObject_of_lastMember htype)),
        requiredString_of_lastMember _ htype, ok_bind, if_pos rfl,
        requiredString_of_lastMember _ ht]
      rfl
    | thinking htype hthinking' hsignature =>
      rw [anthropicContentBlock, if_neg (not_not.mpr (isObject_of_lastMember htype)),
        requiredString_of_lastMember _ htype, ok_bind, if_neg hthinking, if_pos rfl,
        requiredString_of_lastMember _ hthinking', ok_bind, hsignature]
      rfl
    | toolUse htype hid hname hinput =>
      rw [anthropicContentBlock, if_neg (not_not.mpr (isObject_of_lastMember htype)),
        requiredString_of_lastMember _ htype, ok_bind, if_neg htool.1, if_neg htool.2, if_pos rfl,
        requiredString_of_lastMember _ hid, ok_bind, requiredString_of_lastMember _ hname,
        ok_bind, hinput]
      rfl

/-- An accepted block of the library is encoded, and the encoding is accepted as the same block. -/
theorem encode_accepted (hround : codec.RoundTrips) {block : SqlJson} {content : Content}
    (hbuilt : codec.Built block) (h : Accepts codec block content) (target' : ModelTarget)
    (role : Role) :
    ∃ wire, encodeContentBlock codec target' content role = .ok wire ∧
      Accepts codec wire content := by
  cases h with
  | @text t htype ht => exact ⟨textBlock t, rfl, .text rfl rfl⟩
  | @thinking thinking signature htype hthinking hsignature =>
    rcases signature with _ | ⟨c, signature⟩
    · exact ⟨_, rfl, .thinking rfl rfl fun _ _ => rfl⟩
    · exact ⟨_, rfl, .thinking rfl rfl fun _ _ => rfl⟩
  | @toolUse input id name htype hid hname hinput =>
    obtain ⟨hmember, hobject⟩ := Option.filter_eq_some_iff.mp hinput
    have hparse := hround input (hbuilt.lastMember hmember)
    have hencode : toolInputJson codec target' id name (codec.dump input) = .ok input := by
      rw [toolInputJson, parseObjectDocument, parseJsonDocument, hparse, ok_bind, if_pos hobject]
    refine ⟨_, by rw [encodeContentBlock, hencode]; rfl, .toolUse rfl rfl rfl ?_⟩
    exact Option.filter_eq_some_iff.mpr ⟨rfl, hobject⟩

/-- The blocks of an accepted response were below its body. -/
theorem decoded_blocks {bodyJson : Bytes} {response : Response}
    (h : decodeAnthropicResponse codec target bodyJson = .ok response) :
    ∃ items, (∀ item ∈ items, codec.Built item) ∧
      anthropicContentBlocks codec target 0 items = .ok response.blocks := by
  obtain ⟨body, hbody, h⟩ := bind_eq_ok.mp h
  have hbuilt : codec.Built body := by
    unfold parseBodyJson parseJsonObject at hbody
    rcases hparse : codec.parse bodyJson with (detail | _) | parsed
    · rw [hparse] at hbody
      cases hbody
    · rw [hparse] at hbody
      cases hbody
    · rw [hparse] at hbody
      by_cases hobject : parsed.isObject = true
      · simp only [hobject, if_true] at hbody
        cases hbody
        exact .parsed hparse
      · simp [hobject] at hbody
  obtain ⟨items, hitems, h⟩ := bind_eq_ok.mp h
  obtain ⟨blocks, hblocks, h⟩ := bind_eq_ok.mp h
  obtain ⟨stopReason, -, h⟩ := bind_eq_ok.mp h
  obtain ⟨usage, -, h⟩ := bind_eq_ok.mp h
  obtain ⟨model, -, h⟩ := bind_eq_ok.mp h
  cases h
  refine ⟨items, fun item hitem => ?_, hblocks⟩
  unfold requiredArray at hitems
  rcases hmember : body.lastMember (text "content") with _ | value
  · rw [hmember] at hitems
    cases hitems
  · rw [hmember] at hitems
    cases value with
    | array found =>
      cases hitems
      exact (hbuilt.lastMember hmember).item hitem
    | _ => cases hitems

theorem encode_decoded (hround : codec.RoundTrips) {items : List SqlJson} {index : Nat}
    {blocks : List Content} (hbuilt : ∀ item ∈ items, codec.Built item)
    (h : anthropicContentBlocks codec target index items = .ok blocks) (target' : ModelTarget)
    (role : Role) : ∃ wires, encodeContentBlocks codec target' role blocks = .ok wires ∧
      ∀ index', anthropicContentBlocks codec target index' wires = .ok blocks := by
  induction items generalizing index blocks with
  | nil =>
    cases h
    exact ⟨[], rfl, fun _ => rfl⟩
  | cons item rest ih =>
    obtain ⟨content, hcontent, h⟩ := bind_eq_ok.mp h
    obtain ⟨others, hothers, h⟩ := bind_eq_ok.mp h
    cases h
    obtain ⟨wire, hwire, haccepts⟩ :=
      encode_accepted hround (hbuilt item List.mem_cons_self) (accepts_iff.mp hcontent) target' role
    obtain ⟨wires, hwires, hagain⟩ :=
      ih (fun item hitem => hbuilt item (List.mem_cons_of_mem _ hitem)) hothers
    refine ⟨wire :: wires, ?_, fun index' => ?_⟩
    · rw [encodeContentBlocks, hwire, ok_bind, hwires]
      rfl
    · rw [anthropicContentBlocks, accepts_iff.mpr haccepts, ok_bind, hagain]
      rfl

theorem encodeMessages_cons_system {body : Fields} {message : Message} {rest : List Message}
    (hrole : message.role = .system) :
    encodeMessages codec target body (message :: rest) =
      appendAnthropicSystemText target body message >>= fun appended =>
        encodeMessages codec target appended rest := by
  rw [encodeMessages, if_pos hrole]

theorem encodeMessages_cons_wire {body : Fields} {message : Message} {rest : List Message}
    (hrole : message.role ≠ .system) :
    encodeMessages codec target body (message :: rest) =
      anthropicMessageJson codec target message >>= fun encoded =>
        encodeMessages codec target body rest >>= fun others =>
          pure (others.1, encoded :: others.2) := by
  rw [encodeMessages, if_neg hrole]

/-- A message of the conversation is encoded at its place among those that are not lifted. -/
theorem encodeMessages_at {body : Fields} {before after : List Message} {message : Message}
    {encoded : Fields × List SqlJson} (hrole : message.role ≠ .system)
    (h : encodeMessages codec target body (before ++ message :: after) = .ok encoded) :
    ∃ wires wire wires', encoded.2 = wires ++ wire :: wires' ∧
      wires.length = before.countP (fun message => message.role ≠ .system) ∧
      anthropicMessageJson codec target message = .ok wire := by
  induction before generalizing body encoded with
  | nil =>
    rw [List.nil_append, encodeMessages_cons_wire hrole] at h
    obtain ⟨wire, hwire, h⟩ := bind_eq_ok.mp h
    obtain ⟨others, -, h⟩ := bind_eq_ok.mp h
    cases h
    exact ⟨[], wire, others.2, rfl, rfl, hwire⟩
  | cons first before ih =>
    by_cases hfirst : first.role = .system
    · rw [List.cons_append, encodeMessages_cons_system hfirst] at h
      obtain ⟨appended, -, h⟩ := bind_eq_ok.mp h
      obtain ⟨wires, wire, wires', heq, hlength, hwire⟩ := ih h
      exact ⟨wires, wire, wires', heq,
        by rw [hlength, List.countP_cons_of_neg (by simpa using hfirst)], hwire⟩
    · rw [List.cons_append, encodeMessages_cons_wire hfirst] at h
      obtain ⟨skipped, -, h⟩ := bind_eq_ok.mp h
      obtain ⟨others, hothers, h⟩ := bind_eq_ok.mp h
      cases h
      obtain ⟨wires, wire, wires', heq, hlength, hwire⟩ := ih hothers
      refine ⟨skipped :: wires, wire, wires', by rw [heq]; rfl, ?_, hwire⟩
      rw [List.length_cons, hlength, List.countP_cons_of_pos (by simpa using hfirst)]

/-- The messages of an accepted request. -/
theorem anthropicBody_messages {cache : Bool} {request : Request} {fields : Fields}
    (h : anthropicBody codec target cache request = .ok fields) : ∃ maxTokens encoded,
      encodeMessages codec target (bodyHead target cache request maxTokens) request.messages =
        .ok encoded ∧
      (SqlJson.object fields).lastMember (text "messages") = some (.array encoded.2) := by
  unfold anthropicBody at h
  split at h
  · cases h
  · rcases hmax : request.maxTokens with _ | maxTokens
    · rw [hmax] at h
      cases h
    · rw [hmax] at h
      obtain ⟨encoded, hencoded, h⟩ := bind_eq_ok.mp h
      obtain ⟨tools, -, h⟩ := bind_eq_ok.mp h
      cases h
      refine ⟨maxTokens, encoded, hencoded, ?_⟩
      by_cases hnone : tools.isEmpty = true
      · rw [if_pos hnone, List.append_nil, SqlJson.lastMember, List.reverse_append]
        rfl
      · rw [if_neg hnone, SqlJson.lastMember, List.reverse_append, List.reverse_append]
        rfl

/-- A system array as the string of its texts. -/
def joinTexts : SqlJson → SqlJson
  | .array blocks => .text (blocks.flatMap fun block => stringOrEmpty block "text")
  | value => value

def eraseMember (key : Bytes) : SqlJson → SqlJson
  | .object fields => .object (fields.filter fun field => field.1 ≠ key)
  | value => value

def eraseBreakpoints : SqlJson → SqlJson
  | .array tools => .array (tools.map (eraseMember cacheControl.1))
  | value => value

def uncachedMember (field : Bytes × SqlJson) : Bytes × SqlJson :=
  (field.1, if field.1 = systemKey then joinTexts field.2
    else if field.1 = text "tools" then eraseBreakpoints field.2 else field.2)

/-- The body without its breakpoints. -/
def uncached (body : Fields) : Fields := body.map uncachedMember

theorem uncached_setField (key : Bytes) (value : SqlJson) (body : Fields) :
    uncached (SqlJson.setField key value body) =
      SqlJson.setField key (uncachedMember (key, value)).2 (uncached body) := by
  induction body with
  | nil => rfl
  | cons field rest ih =>
    have hcons : uncached (field :: rest) = uncachedMember field :: uncached rest := List.map_cons
    rw [hcons, SqlJson.setField, SqlJson.setField]
    by_cases hkey : field.1 = key
    · have hkey' : (uncachedMember field).1 = key := hkey
      rw [if_pos hkey, if_pos hkey']
      rfl
    · have hkey' : ¬(uncachedMember field).1 = key := hkey
      rw [if_neg hkey, if_neg hkey', ← ih]
      rfl

theorem systemMember_uncached (body : Fields) :
    systemMember (uncached body) = (systemMember body).map joinTexts := by
  have hkeys : ((fun field : Bytes × SqlJson => decide (field.1 = systemKey)) ∘ uncachedMember) =
      fun field => decide (field.1 = systemKey) := rfl
  rw [systemMember, systemMember, uncached, List.find?_map, hkeys]
  rcases hfind : body.find? fun field => field.1 = systemKey with _ | field
  · rw [hfind]
    rfl
  · have hkey : field.1 = systemKey := by simpa using List.find?_some hfind
    rw [hfind]
    exact congrArg some (if_pos hkey)

theorem joinTexts_snoc (blocks : List SqlJson) (t : Bytes) :
    joinTexts (.array (blocks ++ [textBlock t])) =
      .text (blocks.flatMap (fun block => stringOrEmpty block "text") ++ t) := by
  rw [joinTexts, List.flatMap_append, List.flatMap_singleton]
  rfl

/-- Lifted text is appended to the string as it is to the array. -/
theorem append_uncached (body : Fields) (message : Message) :
    appendAnthropicSystemText target (uncached body) message =
      (appendAnthropicSystemText target body message).map uncached := by
  have hset : ∀ value, uncached (SqlJson.setField systemKey value body) =
      SqlJson.setField systemKey (joinTexts value) (uncached body) :=
    fun value => uncached_setField systemKey value body
  unfold appendAnthropicSystemText
  rcases systemParts target [] message.blocks with e | parts
  · rfl
  · rw [ok_bind, ok_bind]
    by_cases hempty : parts.isEmpty = true
    · rw [if_pos hempty, if_pos hempty]
      rfl
    · rw [if_neg hempty, if_neg hempty, systemMember_uncached]
      rcases systemMember body with _ | system
      · exact congrArg Except.ok (hset (.text parts)).symm
      · cases system with
        | array blocks =>
          refine congrArg Except.ok ?_
          rw [hset, joinTexts_snoc, List.append_assoc]
        | text system =>
            exact congrArg Except.ok (hset (.text (system ++ text "\n\n" ++ parts))).symm
        | _ => rfl

theorem encodeMessages_uncached (body : Fields) (messages : List Message) :
    encodeMessages codec target (uncached body) messages =
      (encodeMessages codec target body messages).map fun encoded =>
        (uncached encoded.1, encoded.2) := by
  induction messages generalizing body with
  | nil => rfl
  | cons message rest ih =>
    by_cases hrole : message.role = .system
    · rw [encodeMessages_cons_system hrole, encodeMessages_cons_system hrole, append_uncached]
      rcases appendAnthropicSystemText target body message with e | appended
      · rfl
      · exact ih appended
    · rw [encodeMessages_cons_wire hrole, encodeMessages_cons_wire hrole, ih]
      rcases anthropicMessageJson codec target message with e | wire
      · rfl
      · rcases encodeMessages codec target body rest with e | others
        · rfl
        · rfl

theorem bodyHead_uncached (request : Request) (maxTokens : UInt32) :
    uncached (bodyHead target true request maxTokens) =
      bodyHead target false request maxTokens := by
  unfold bodyHead
  rcases promptText request with _ | prompt
  · rcases request.toolChoice with _ | choice
    · rfl
    · rfl
  · have hsystem : uncachedMember (systemKey, systemPrefix true prompt) =
        (systemKey, systemPrefix false prompt) := by
      rw [uncachedMember, if_pos rfl]
      exact congrArg (fun t => (systemKey, SqlJson.text t)) (List.append_nil prompt)
    rcases request.toolChoice with _ | choice
    · exact congrArg (fun system => [entry "model" _, entry "max_tokens" _, entry "stream" _] ++
        [system] ++
        [entry "thinking" _] ++ []) hsystem
    · exact congrArg (fun system => [entry "model" _, entry "max_tokens" _, entry "stream" _] ++
        [system] ++
        [entry "thinking" _] ++ [entry "tool_choice" _]) hsystem

/-- No tool has a breakpoint of its own. -/
theorem tools_plain {tools : List ToolDef} {wires : List SqlJson}
    (h : anthropicToolsJson codec target tools = .ok wires) :
    ∀ wire ∈ wires, eraseMember cacheControl.1 wire = wire ∧
      eraseMember cacheControl.1 (wire.setMember cacheControl.1 cacheControl.2) = wire := by
  induction tools generalizing wires with
  | nil =>
    cases h
    simp
  | cons tool rest ih =>
    obtain ⟨schema, -, h⟩ := bind_eq_ok.mp h
    obtain ⟨others, hothers, h⟩ := bind_eq_ok.mp h
    cases h
    intro wire hwire
    rcases List.mem_cons.mp hwire with rfl | hlater
    · exact ⟨rfl, rfl⟩
    · exact ih hothers wire hlater

theorem eraseBreakpoints_markLast {wires : List SqlJson}
    (h : ∀ wire ∈ wires, eraseMember cacheControl.1 wire = wire ∧
    eraseMember cacheControl.1 (wire.setMember cacheControl.1 cacheControl.2) = wire) :
    (markLast wires).map (eraseMember cacheControl.1) = wires := by
  induction wires with
  | nil => rfl
  | cons wire rest ih =>
    obtain ⟨hplain, hmarked⟩ := h wire List.mem_cons_self
    cases rest with
    | nil => rw [markLast, List.map_singleton, hmarked]
    | cons next rest =>
      rw [markLast, List.map_cons, hplain,
        ih fun wire hwire => h wire (List.mem_cons_of_mem _ hwire)]
      simp

theorem uncached_body (request : Request) :
    (anthropicBody codec target true request).map uncached =
      anthropicBody codec target false request := by
  unfold anthropicBody
  split
  · rfl
  · rcases request.maxTokens with _ | maxTokens
    · rfl
    · dsimp only
      rw [← bodyHead_uncached, encodeMessages_uncached]
      rcases encodeMessages codec target (bodyHead target true request maxTokens)
        request.messages with e | encoded
      · rfl
      · rcases htools : anthropicToolsJson codec target request.tools with e | tools
        · rfl
        · have hplain := tools_plain htools
          refine congrArg Except.ok ?_
          rw [uncached, List.map_append, List.map_append]
          refine congrArg (uncached encoded.1 ++ [entry "messages" (.array encoded.2)] ++ ·) ?_
          by_cases hnone : tools.isEmpty = true
          · rw [if_pos hnone, if_pos hnone]
            rfl
          · rw [if_neg hnone, if_neg hnone, Bool.true_and, Bool.false_and]
            refine congrArg (fun wires => [entry "tools" (.array wires)]) ?_
            by_cases hmark : (promptText request).isNone = true
            · rw [if_pos hmark]
              exact eraseBreakpoints_markLast hplain
            · rw [if_neg hmark]
              exact (List.map_congr_left fun wire hwire => (hplain wire hwire).1).trans
                (List.map_id tools)

theorem uncached_uncached (body : Fields) : uncached (uncached body) = uncached body := by
  have hmember : ∀ field, uncachedMember (uncachedMember field) = uncachedMember field := by
    rintro ⟨key, value⟩
    unfold uncachedMember
    dsimp only
    by_cases hsystem : key = systemKey
    · rw [if_pos hsystem, if_pos hsystem]
      cases value <;> rfl
    · rw [if_neg hsystem, if_neg hsystem]
      by_cases htools : key = text "tools"
      · rw [if_pos htools, if_pos htools]
        cases value with
        | array tools =>
          rw [eraseBreakpoints, eraseBreakpoints, List.map_map]
          refine congrArg (fun tools => (key, SqlJson.array tools))
            (List.map_congr_left fun tool _ => ?_)
          cases tool with
          | object fields => exact congrArg SqlJson.object (by rw [List.filter_filter]; simp)
          | _ => rfl
        | _ => rfl
      · rw [if_neg htools, if_neg htools]
  rw [uncached, uncached, List.map_map]
  exact List.map_congr_left fun field _ => hmember field

/-- The body of a request without a cache hint. -/
theorem uncached_requestBody (request : Request) :
    (anthropicRequestBody codec target request).map uncached =
    anthropicRequestBody codec target { request with cache := none } := by
  have hoff : anthropicRequestBody codec target { request with cache := none } =
    anthropicBody codec target false request := rfl
  rw [hoff, anthropicRequestBody]
  rcases usePromptCache request target with _ | _
  · rw [← uncached_body]
    rcases anthropicBody codec target true request with e | body
    · rfl
    · exact congrArg Except.ok (uncached_uncached body)
  · exact uncached_body request

end Blocks

/-- Assistant blocks survive the wire, and prompt caching leaves no other trace in a body. -/
theorem anthropic_wire (codec : JsonCodec) (hround : codec.RoundTrips) (target : ModelTarget) :
    (∀ bodyJson response, decodeAnthropicResponse codec target bodyJson = .ok response →
      ∀ (target' : ModelTarget) (createdAt : Option TimePoint), ∃ wire content,
        anthropicMessageJson codec target' ⟨.assistant, response.blocks, createdAt⟩ = .ok wire ∧
        wire.lastMember (text "content") = some (.array content) ∧
        anthropicContentBlocks codec target 0 content = .ok response.blocks ∧
        ∀ request fields before after,
          request.messages = before ++ ⟨.assistant, response.blocks, createdAt⟩ :: after →
          anthropicRequestBody codec target' request = .ok fields →
            ∃ wires wires', (SqlJson.object fields).lastMember (text "messages") =
              some (.array (wires ++ wire :: wires')) ∧
              wires.length = before.countP fun message => message.role ≠ .system) ∧
    (∀ request, (anthropicRequestBody codec target request).map uncached =
      anthropicRequestBody codec target { request with cache := none }) := by
  refine ⟨?_, uncached_requestBody⟩
  intro bodyJson response hdecoded target' createdAt
  obtain ⟨items, hbuilt, hblocks⟩ := decoded_blocks hdecoded
  obtain ⟨content, hcontent, hagain⟩ := encode_decoded hround hbuilt hblocks target' .assistant
  have hwire : anthropicMessageJson codec target' ⟨.assistant, response.blocks, createdAt⟩ =
      .ok (.object [entry "role" (literal "assistant"), entry "content" (.array content)]) := by
    rw [anthropicMessageJson, hcontent]
    rfl
  refine ⟨_, content, hwire, rfl, hagain 0, ?_⟩
  intro request fields before after hmessages hbody
  obtain ⟨maxTokens, encoded, hencoded, hmember⟩ := anthropicBody_messages hbody
  rw [hmessages] at hencoded
  have hrole : (⟨.assistant, response.blocks, createdAt⟩ : Message).role ≠ .system :=
    fun h => by cases h
  obtain ⟨wires, wire, wires', heq, hlength, hencode⟩ := encodeMessages_at hrole hencoded
  obtain rfl := Except.ok.inj (hwire.symm.trans hencode)
  exact ⟨wires, wires', by rw [hmember, heq], hlength⟩

-- A library that reads and prints compact texts of numbers without sign or fraction.
section Sample

mutual

def toJson : SqlJson → Option Json
  | .null => some .null
  | .boolean b => some (.bool b)
  | .integer (.ofNat n) => some (.num n)
  | .integer (.negSucc _) => none
  | .real _ => none
  | .text s => some (.str s)
  | .array items => (toItems items).map .arr
  | .object fields => (toFields fields).map .obj

def toItems : List SqlJson → Option (List Json)
  | [] => some []
  | item :: rest =>
    match toJson item, toItems rest with
    | some j, some js => some (j :: js)
    | _, _ => none

def toFields : List (Bytes × SqlJson) → Option (List (Bytes × Json))
  | [] => some []
  | (key, value) :: rest =>
    match toJson value, toFields rest with
    | some j, some js => some ((key, j) :: js)
    | _, _ => none

end

theorem toItems_cons {item : SqlJson} {rest : List SqlJson} {js : List Json}
    (h : toItems (item :: rest) = some js) :
    ∃ j others, toJson item = some j ∧ toItems rest = some others ∧ js = j :: others := by
  rw [toItems] at h
  rcases hitem : toJson item with _ | j
  · rw [hitem] at h
    cases h
  · rcases hrest : toItems rest with _ | others
    · rw [hitem, hrest] at h
      cases h
    · rw [hitem, hrest] at h
      exact ⟨j, others, rfl, rfl, (Option.some.inj h).symm⟩

theorem toFields_cons {key : Bytes} {value : SqlJson} {rest : List (Bytes × SqlJson)}
    {js : List (Bytes × Json)} (h : toFields ((key, value) :: rest) = some js) :
    ∃ j others, toJson value = some j ∧ toFields rest = some others ∧ js = (key, j) :: others := by
  rw [toFields] at h
  rcases hvalue : toJson value with _ | j
  · rw [hvalue] at h
    cases h
  · rcases hrest : toFields rest with _ | others
    · rw [hvalue, hrest] at h
      cases h
    · rw [hvalue, hrest] at h
      exact ⟨j, others, rfl, rfl, (Option.some.inj h).symm⟩

mutual

theorem ofJson_toJson : ∀ (value : SqlJson) (j : Json), toJson value = some j → .ofJson j = value
  | .null, j, h => by cases h; rfl
  | .boolean b, j, h => by cases h; rfl
  | .integer (.ofNat n), j, h => by cases h; rfl
  | .integer (.negSucc _), j, h => by cases h
  | .real _, j, h => by cases h
  | .text s, j, h => by cases h; rfl
  | .array items, j, h => by
    obtain ⟨js, hitems, rfl⟩ := Option.map_eq_some_iff.mp (by rw [toJson] at h; exact h)
    exact congrArg SqlJson.array (ofItems_toItems items js hitems)
  | .object fields, j, h => by
    obtain ⟨js, hfields, rfl⟩ := Option.map_eq_some_iff.mp (by rw [toJson] at h; exact h)
    exact congrArg SqlJson.object (ofFields_toFields fields js hfields)

theorem ofItems_toItems : ∀ (items : List SqlJson) (js : List Json), toItems items = some js →
    SqlJson.ofItems js = items
  | [], js, h => by cases h; rfl
  | item :: rest, js, h => by
    obtain ⟨j, others, hitem, hrest, rfl⟩ := toItems_cons h
    rw [SqlJson.ofItems, ofJson_toJson item j hitem, ofItems_toItems rest others hrest]

theorem ofFields_toFields : ∀ (fields : List (Bytes × SqlJson)) (js : List (Bytes × Json)),
    toFields fields = some js →
    SqlJson.ofFields js = fields
  | [], js, h => by cases h; rfl
  | (key, value) :: rest, js, h => by
    obtain ⟨j, others, hvalue, hrest, rfl⟩ := toFields_cons h
    rw [SqlJson.ofFields, ofJson_toJson value j hvalue, ofFields_toFields rest others hrest]

end

theorem toItems_item {items : List SqlJson} {js : List Json} (h : toItems items = some js)
    {item : SqlJson} (hitem : item ∈ items) :
    ∃ j, toJson item = some j := by
  induction items generalizing js with
  | nil => cases hitem
  | cons first rest ih =>
    obtain ⟨j, others, hfirst, hrest, -⟩ := toItems_cons h
    rcases List.mem_cons.mp hitem with rfl | hlater
    · exact ⟨j, hfirst⟩
    · exact ih hrest hlater

theorem toFields_field {fields : Fields} {js : List (Bytes × Json)} (h : toFields fields = some js)
    {field : Bytes × SqlJson} (hfield : field ∈ fields) : ∃ j, toJson field.2 = some j := by
  induction fields generalizing js with
  | nil => cases hfield
  | cons first rest ih =>
    obtain ⟨j, others, hfirst, hrest, -⟩ := toFields_cons h
    rcases List.mem_cons.mp hfield with rfl | hlater
    · exact ⟨j, hfirst⟩
    · exact ih hrest hlater

def serialParse (document : Bytes) : Except JsonException SqlJson :=
  match readJson document with
  | .error detail => .error (.parseError detail)
  | .ok value => if (toJson value).isSome then .ok value else .error .other

def serialCodec : JsonCodec where
  parse := serialParse
  dump value := ((toJson value).map Json.dump).getD []

theorem serialParse_dump (j : Json) (h : (toJson (.ofJson j)).isSome = true) :
    serialParse j.dump = .ok (.ofJson j) := by
  rw [serialParse, readJson_dump]
  exact if_pos h

theorem built_serial {value : SqlJson} (h : serialCodec.Built value) :
    ∃ j, toJson value = some j := by
  induction h with
  | @parsed document value hparse =>
    change serialParse document = .ok value at hparse
    unfold serialParse at hparse
    rcases hread : readJson document with detail | found
    · rw [hread] at hparse
      cases hparse
    · rw [hread] at hparse
      dsimp only at hparse
      by_cases hsome : (toJson found).isSome = true
      · rw [if_pos hsome] at hparse
        cases hparse
        exact Option.isSome_iff_exists.mp hsome
      · rw [if_neg hsome] at hparse
        cases hparse
  | item _ hitem ih =>
    obtain ⟨j, hj⟩ := ih
    rw [toJson] at hj
    obtain ⟨js, hjs, -⟩ := Option.map_eq_some_iff.mp hj
    exact toItems_item hjs hitem
  | member _ hfield ih =>
    obtain ⟨j, hj⟩ := ih
    rw [toJson] at hj
    obtain ⟨js, hjs, -⟩ := Option.map_eq_some_iff.mp hj
    exact toFields_field hjs hfield

theorem serialCodec_roundTrips : serialCodec.RoundTrips := by
  intro value hbuilt
  obtain ⟨j, hj⟩ := built_serial hbuilt
  have hvalue := ofJson_toJson value j hj
  have hdump : serialCodec.dump value = j.dump := by
    change ((toJson value).map Json.dump).getD [] = j.dump
    rw [hj]
    rfl
  rw [hdump]
  have hparse := serialParse_dump j (by rw [hvalue, hj]; rfl)
  rw [hvalue] at hparse
  exact hparse

def sampleReply : Json :=
  .obj
    [(text "content", .arr [.obj [(text "id", .str (text "t")), (text "input", .obj []),
    (text "name", .str (text "n")), (text "type", .str (text "tool_use"))]]),
    (text "stop_reason", .str (text "tool_use"))]

def sampleReplyTarget : ModelTarget := { profile := text "p", model := text "m" }

theorem sampleReply_decoded :
    decodeAnthropicResponse serialCodec sampleReplyTarget sampleReply.dump =
    .ok
      { blocks := [.toolUse (text "t") (text "n") (text "\x7b\x7d")], stopReason := .toolUse } := by
  have hparse : serialCodec.parse sampleReply.dump = .ok (.ofJson sampleReply) :=
    serialParse_dump sampleReply rfl
  rw [decodeAnthropicResponse, parseBodyJson, parseJsonObject, hparse]
  rfl

/-- A tool call is sent back as it came. -/
theorem anthropic_wire_tool : ∃ wire content,
    anthropicMessageJson serialCodec sampleReplyTarget
      ⟨.assistant, [.toolUse (text "t") (text "n") (text "\x7b\x7d")], none⟩ = .ok wire ∧
    wire.lastMember (text "content") = some (.array content) ∧
    anthropicContentBlocks serialCodec sampleReplyTarget 0 content =
      .ok [.toolUse (text "t") (text "n") (text "\x7b\x7d")] := by
  obtain ⟨hblocks, -⟩ := anthropic_wire serialCodec serialCodec_roundTrips sampleReplyTarget
  obtain ⟨wire, content, hwire, hcontent, hagain, -⟩ :=
    hblocks sampleReply.dump _ sampleReply_decoded sampleReplyTarget none
  exact ⟨wire, content, hwire, hcontent, hagain⟩

end Sample

end Orangutan.Provider
