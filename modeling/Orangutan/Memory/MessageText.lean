import Orangutan.Memory.Session
import Orangutan.Storage.JsonText

/-!
# Messages read from rows

A row holds the JSON text of a message. What the store wrote is read as the message that
was written; a message that cannot be written stops the whole batch.
-/

namespace Orangutan.Memory.Session

set_option autoImplicit false

open Orangutan.Core Orangutan.Core.Str Orangutan.Storage

def messageParseError (reason : Bytes) : Error :=
  (Error.parsing "memory session message JSON is malformed").note "reason" reason

def requiredString (object : SqlJson) (key : String) (context : Bytes) : Result Bytes :=
  match object.lastMember (text key) with
  | some (.text t) => .ok t
  | _ => .error (messageParseError (context ++ text ": expected string " ++ text key))

def optionalString (object : SqlJson) (key : String) (context : Bytes) : Result (Option Bytes) :=
  match object.lastMember (text key) with
  | none => .ok none
  | some (.text t) => .ok (some t)
  | some _ => .error (messageParseError (context ++ text ": expected string " ++ text key))

def requiredBool (object : SqlJson) (key : String) (context : Bytes) : Result Bool :=
  match object.lastMember (text key) with
  | some (.boolean b) => .ok b
  | _ => .error (messageParseError (context ++ text ": expected boolean " ++ text key))

def contentFromJson (value : SqlJson) (index : Nat) : Result Content :=
  if value.isObject then do
    let context := text "content[" ++ decimal index ++ text "]"
    let type ← requiredString value "type" context
    if type = text "text" then do
      let t ← requiredString value "text" context
      .ok (.text t)
    else if type = text "thinking" then do
      let thinking ← requiredString value "thinking" context
      let signature ← optionalString value "signature" context
      .ok (.thinking thinking signature)
    else if type = text "image" then do
      let media ← requiredString value "media_type" context
      let data ← requiredString value "data_base64" context
      .ok (.image media data)
    else if type = text "tool_use" then do
      let id ← requiredString value "id" context
      let name ← requiredString value "name" context
      let inputJson ← requiredString value "input_json" context
      .ok (.toolUse id name inputJson)
    else if type = text "tool_result" then do
      let toolUseId ← requiredString value "tool_use_id" context
      let output ← requiredString value "output" context
      let dataJson ← optionalString value "data_json" context
      let isError ← requiredBool value "is_error" context
      .ok (.toolResult toolUseId output dataJson isError)
    else .error ((messageParseError (text "unknown content block type")).note "type" type)
  else .error ((messageParseError (text "content block is not an object")).note "index"
    (decimal index))

/-- The blocks from an index on. -/
def blocksFromJson : Nat → List SqlJson → Result (List Content)
  | _, [] => .ok []
  | i, value :: rest => do
    let block ← contentFromJson value i
    let others ← blocksFromJson (i + 1) rest
    .ok (block :: others)

/-- The number is cut to 32 bits before the comparison. -/
def supportedVersion : Option SqlJson → Bool
  | some (.integer version) => Int32.ofInt version = 1
  | _ => false

def withSequence {α : Type} (record : SessionMessageRecord) : Result α → Result α :=
  Except.mapError (·.note "sequence" (decimal record.sequence))

/-- The creation time of the row stands beside the record. -/
def messageFromJson (parser : JsonParser) (record : SessionMessageRecord) (createdAt : Bytes) :
    Result Message :=
  match parser.parse record.contentJson with
  | .error detail => .error ((messageParseError (text "invalid JSON")).note "detail" detail)
  | .ok parsed =>
    if parsed.isObject = false then
      withSequence record (.error (messageParseError (text "root is not an object")))
    else if supportedVersion (parsed.lastMember (text "version")) = false then
      withSequence record (.error (messageParseError (text "unsupported message JSON version")))
    else
      match parsed.lastMember (text "blocks") with
      | some (.array items) => do
        let blocks ← withSequence record (blocksFromJson 0 items)
        if createdAt = [] then .ok { role := record.role, blocks }
        else do
          let created ← withSequence record (parseIso8601Utc createdAt)
          .ok { role := record.role, blocks, createdAt := some created }
      | _ => withSequence record (.error (messageParseError (text "blocks is not an array")))

/-- Every block is read as the block that was written, with its optional fields. -/
theorem contentFromJson_contentToJson (content : Content) (i : Nat) :
    contentFromJson (.ofJson (contentToJson content)) i = .ok content := by
  cases content with
  | text t => rfl
  | image mediaType dataBase64 => rfl
  | thinking thinking signature => cases signature <;> rfl
  | toolUse id name inputJson => rfl
  | toolResult toolUseId output dataJson isError => cases dataJson <;> rfl

theorem blocksFromJson_blocks (blocks : List Content) (i : Nat) :
    blocksFromJson i (SqlJson.ofItems (blocks.map contentToJson)) = .ok blocks := by
  induction blocks generalizing i with
  | nil => rfl
  | cons block blocks ih =>
    rw [List.map_cons, SqlJson.ofItems, blocksFromJson, contentFromJson_contentToJson, ok_bind,
      ih, ok_bind]

/-- The fixed texts of a message are well formed. -/
theorem fixed_utf8 : ∀ t ∈ [text "type", text "text", text "image", text "media_type",
    text "data_base64", text "thinking", text "signature", text "tool_use", text "id", text "name",
    text "input_json", text "tool_result", text "tool_use_id", text "output", text "is_error",
    text "data_json", text "version", text "blocks", text "created_at"], isValidUtf8 t = true := by
  decide +kernel

theorem putIfPresent_strings {key : String} {value : Option Bytes}
    (hkey : isValidUtf8 (text key) = true) (hvalue : ∀ v ∈ value, isValidUtf8 v = true) :
    Json.FieldStrings (isValidUtf8 · = true) (putIfPresent key value) := by
  cases value with
  | none => trivial
  | some v => exact ⟨hkey, hvalue v rfl, trivial⟩

theorem contentToJson_strings {content : Content} (h : (strings content).all isValidUtf8 = true) :
    (contentToJson content).Strings (isValidUtf8 · = true) := by
  have hall := List.all_eq_true.mp h
  have fixed := fixed_utf8
  cases content with
  | text t => exact ⟨fixed _ (by simp), fixed _ (by simp), fixed _ (by simp),
      hall t (by simp [strings]), trivial⟩
  | image mediaType dataBase64 =>
    exact ⟨fixed _ (by simp), fixed _ (by simp), fixed _ (by simp),
      hall mediaType (by simp [strings]), fixed _ (by simp),
      hall dataBase64 (by simp [strings]), trivial⟩
  | thinking thinking signature =>
    exact ⟨fixed _ (by simp), fixed _ (by simp), fixed _ (by simp),
      hall thinking (by simp [strings]), putIfPresent_strings (fixed _ (by simp)) fun v hv =>
      hall v (by simp [strings, Option.mem_def.mp hv])⟩
  | toolUse id name inputJson =>
    exact ⟨fixed _ (by simp), fixed _ (by simp), fixed _ (by simp), hall id (by simp [strings]),
      fixed _ (by simp), hall name (by simp [strings]), fixed _ (by simp),
        hall inputJson (by simp [strings]), trivial⟩
  | toolResult toolUseId output dataJson isError =>
    exact ⟨fixed _ (by simp), fixed _ (by simp), fixed _ (by simp),
      hall toolUseId (by simp [strings]), fixed _ (by simp), hall output (by simp [strings]),
      fixed _ (by simp), trivial, putIfPresent_strings (fixed _ (by simp)) fun v hv =>
      hall v (by simp [strings, Option.mem_def.mp hv])⟩

theorem blocks_strings {blocks : List Content}
    (h : blocks.all fun block => (strings block).all isValidUtf8) :
    Json.ItemStrings (isValidUtf8 · = true) (blocks.map contentToJson) := by
  induction blocks with
  | nil => trivial
  | cons block blocks ih =>
    rw [List.all_cons, Bool.and_eq_true] at h
    exact ⟨contentToJson_strings h.1, ih h.2⟩

theorem fixedWidth_utf8 (width n : Nat) : isValidUtf8 (fixedWidth width n) = true := by
  apply Json.Serial.utf8.ascii
  intro c hc
  have hdigit := List.all_eq_true.mp (allDigits_fixedWidth width n) c hc
  rw [Bool.and_eq_true, decide_eq_true_eq, decide_eq_true_eq] at hdigit
  exact ⟨UInt8.le_trans (by decide) hdigit.1, UInt8.lt_of_le_of_lt hdigit.2 (by decide)⟩

theorem isoShape_utf8 {year month day hour minute second millisecond : Bytes}
    (h : ∀ t ∈ [year, month, day, hour, minute, second, millisecond], isValidUtf8 t = true) :
    isValidUtf8 (isoShape year month day hour minute second millisecond) = true := by
  have serial := Json.Serial.utf8
  have piece : ∀ {b : UInt8} {t u : Bytes}, 0x20 ≤ b ∧ b < 0x80 → isValidUtf8 t = true →
    isValidUtf8 u = true →
      isValidUtf8 (t ++ b :: u) = true := fun hb ht hu => serial.append _ _ ht (serial.cons hb hu)
  unfold isoShape
  refine piece (by decide) (h _ (by simp))
    (piece (by decide) (h _ (by simp)) (piece (by decide) (h _ (by simp)) ?_))
  refine piece (by decide) (h _ (by simp))
    (piece (by decide) (h _ (by simp)) (piece (by decide) (h _ (by simp)) ?_))
  exact piece (by decide) (h _ (by simp)) rfl

theorem formatIso8601Utc_utf8 (t : TimePoint) : isValidUtf8 (formatIso8601Utc t) = true := by
  apply isoShape_utf8
  intro s hs
  simp only [List.mem_cons, List.not_mem_nil, or_false] at hs
  rcases hs with rfl | rfl | rfl | rfl | rfl | rfl | rfl <;> exact fixedWidth_utf8 _ _

/-- The serializer is given well-formed strings only. -/
theorem messageToJson_strings {m : Message} (h : wellFormed m = true) :
    (messageToJson m).Strings (isValidUtf8 · = true) := by
  have fixed := fixed_utf8
  refine ⟨fixed _ (by simp), trivial, fixed _ (by simp), blocks_strings h,
    putIfPresent_strings (fixed _ (by simp)) fun v hv => ?_⟩
  obtain ⟨t, -, rfl⟩ := Option.map_eq_some_iff.mp hv
  exact formatIso8601Utc_utf8 t

theorem putIfPresent_fits (key : String) (value : Option Bytes) : ∀ field ∈ putIfPresent key value,
    Fits field.2 := by
  cases value with
  | none => exact fun field h => absurd h List.not_mem_nil
  | some v => exact List.forall_mem_singleton.mpr (.str v)

theorem contentToJson_fits (content : Content) : Fits (contentToJson content) := by
  cases content with
  | text t => exact .obj (by simp [Fits.str])
  | image mediaType dataBase64 => exact .obj (by simp [Fits.str])
  | thinking thinking signature =>
    exact .obj (List.forall_mem_append.mpr ⟨by simp [Fits.str], putIfPresent_fits _ _⟩)
  | toolUse id name inputJson => exact .obj (by simp [Fits.str])
  | toolResult toolUseId output dataJson isError =>
    exact .obj (List.forall_mem_append.mpr ⟨by simp [Fits.str, Fits.bool], putIfPresent_fits _ _⟩)

theorem messageToJson_fits (m : Message) : Fits (messageToJson m) := by
  refine .obj (List.forall_mem_append.mpr ⟨List.forall_mem_cons.mpr ⟨.num (by decide), ?_⟩,
    putIfPresent_fits _ _⟩)
  refine List.forall_mem_singleton.mpr (.arr fun item hitem => ?_)
  obtain ⟨block, -, rfl⟩ := List.mem_map.mp hitem
  exact contentToJson_fits block

theorem messageFromJson_messageToJson (parser : JsonParser) {m : Message} (h : wellFormed m = true)
    {record : SessionMessageRecord} (hrole : record.role = m.role)
    (hcontent : record.contentJson = (messageToJson m).dump) (created : CivilTime) :
    messageFromJson parser record created.text =
      .ok { role := m.role, blocks := m.blocks, createdAt := some created.instant } := by
  have hparse : parser.parse record.contentJson = .ok (.ofJson (messageToJson m)) := by
    rw [hcontent]
    exact parser.parse_dump _ (messageToJson_strings h) (messageToJson_fits m)
  have hversion : supportedVersion
      ((SqlJson.ofJson (messageToJson m)).lastMember (text "version")) = true := by
    rw [messageToJson]
    cases m.createdAt <;> rfl
  have hblocks : (SqlJson.ofJson (messageToJson m)).lastMember (text "blocks") =
      some (.array (SqlJson.ofItems (m.blocks.map contentToJson))) := by
    rw [messageToJson]
    cases m.createdAt <;> rfl
  have htext : created.text ≠ [] := by
    intro hnil
    have hlength := created.shape.length
    rw [hnil] at hlength
    cases hlength
  rw [messageFromJson, hparse]
  dsimp only
  rw [if_neg (by rw [messageToJson]; exact Bool.noConfusion), hversion, if_neg (by decide), hblocks]
  dsimp only
  rw [blocksFromJson_blocks, withSequence, Except.mapError, ok_bind, if_neg htext,
    created.parse_text]
  rw [hrole]
  rfl

theorem encodeMessages_error (i : Nat) {messages : List Message}
    (h : ∃ m ∈ messages, wellFormed m = false) :
    ∃ e, encodeMessages i messages = .error e := by
  induction messages generalizing i with
  | nil =>
    obtain ⟨m, hm, -⟩ := h
    cases hm
  | cons message messages ih =>
    rw [encodeMessages]
    split
    · next hmessage =>
      obtain ⟨m, hm, hbad⟩ := h
      rcases List.mem_cons.mp hm with rfl | hm
      · rw [hmessage] at hbad
        cases hbad
      · obtain ⟨e, he⟩ := ih (i + 1) ⟨m, hm, hbad⟩
        exact ⟨e, by rw [he, error_bind]⟩
    · exact ⟨_, rfl⟩

theorem appendAll_unwritable (reader : JsonReader) (fault : Faults) (db : SessionDb)
    (key : SessionKey) {messages : List Message} (h : ∃ m ∈ messages, wellFormed m = false)
    (expected : Option ContextSnapshot) (checkpoint : WorkingContext) :
    ∃ e, appendAll reader fault db key messages expected checkpoint = (.error e, db) := by
  obtain ⟨e, he⟩ := encodeMessages_error 0 h
  rw [appendAll]
  cases validateKey key with
  | error e' => exact ⟨e', rfl⟩
  | ok u => exact ⟨e, by rw [ok_bind, he, error_bind]⟩

/-- A stored message is read as the message it was written from, and a batch with a message
that has a broken string is refused as a whole. -/
theorem message_round_trip (parser : JsonParser) :
    (∀ m : Message, wellFormed m = true →
      ∀ (record : SessionMessageRecord) (created : CivilTime), record.role = m.role →
        record.contentJson = (messageToJson m).dump →
        messageFromJson parser record created.text =
          .ok { role := m.role, blocks := m.blocks, createdAt := some created.instant }) ∧
    ∀ (reader : JsonReader) (fault : Faults) (db : SessionDb) (key : SessionKey)
      (messages : List Message)
      (expected : Option ContextSnapshot) (checkpoint : WorkingContext),
        (∃ m ∈ messages, wellFormed m = false) →
        ∃ e, appendAll reader fault db key messages expected checkpoint = (.error e, db) :=
  ⟨fun _ h _ created hrole hcontent =>
      messageFromJson_messageToJson parser h hrole hcontent created,
      fun reader fault db key _ expected checkpoint h =>
      appendAll_unwritable reader fault db key h expected checkpoint⟩

-- A result without data beside a signed thought with an empty text.
def sampleMessage : Message :=
  { role := .assistant
    blocks := [.thinking [] (some (text "sig")), .toolResult (text "t1") (text "a\"b") none false] }

def sampleTime : CivilTime :=
    ⟨2026, 2, 28, 23, 59, 59, 7, by decide, by decide, by decide, by decide, by decide, by decide⟩

theorem message_round_trip_sample :
    messageFromJson serializedParser
        { sessionId := text "s", agentKey := text "a", role := .assistant, sequence := 3,
          contentJson := (messageToJson sampleMessage).dump } sampleTime.text =
      .ok
        { role := .assistant, blocks := sampleMessage.blocks,
          createdAt := some sampleTime.instant } :=
  (message_round_trip serializedParser).1 sampleMessage (by decide +kernel) _ sampleTime rfl rfl

end Orangutan.Memory.Session
