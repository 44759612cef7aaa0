import Orangutan.Agent.Inbox
import Orangutan.Bootstrap.Operations

/-!
# Reading a session inbox

`inbox_reader` of a turn hands over the pending messages that the turn has not shown
yet, two at most and bounded in bytes. Every message that a team admits can be handed
over alone, so a read never fails and never stalls.
-/

namespace Orangutan.Bootstrap

set_option autoImplicit false

open Orangutan.Core Orangutan.Core.Str Orangutan.Agent Orangutan.Tool

def InboxMessage.valid (message : InboxMessage) : Bool :=
  !(message.id.isEmpty || decide (128 < message.id.length) || !isValidUtf8 message.id ||
    decide (8192 < message.text.length) || decide (128 < message.sender.length) ||
    !isValidUtf8 message.text || !isValidUtf8 message.sender)

def InboxMessage.value (message : InboxMessage) : Json :=
  .obj [
    (Core.text "data", .str message.text),
    (Core.text "id", .str message.id),
    (Core.text "sender", .str message.sender)]

def encodeInbox (messages : List InboxMessage) : Bytes :=
  (Json.arr (messages.map InboxMessage.value)).dump

/-- The loop of `inbox_reader` over the pending messages. `messages` were taken by
this read, `ids` were shown by the turn. -/
def gatherInbox : List InboxMessage → List InboxMessage → List Bytes →
    Result (List InboxMessage × List Bytes)
  | [], messages, ids => .ok (messages, ids)
  | message :: rest, messages, ids =>
    if ids.contains message.id then gatherInbox rest messages ids
    else if !message.valid then .error (.invalidArgument "invalid session inbox message")
    else if 30000 < (encodeInbox (messages ++ [message])).length then
      if (messages ++ [message]).length == 1 then
        .error (.invalidArgument "encoded inbox message exceeds the byte bound")
      else .ok (messages, ids)
    else if (messages ++ [message]).length == 2 then
      .ok (messages ++ [message], ids ++ [message.id])
    else gatherInbox rest (messages ++ [message]) (ids ++ [message.id])

/-- `inbox_reader` with the pending messages of the session: the text, and the
identities shown so far. -/
def inboxReader (pending : List InboxMessage) (ids : List Bytes) : Result (Bytes × List Bytes) :=
  match gatherInbox pending [] ids with
  | .error e => .error e
  | .ok (messages, ids) => .ok (if messages.isEmpty then [] else encodeInbox messages, ids)

/-- The pending messages that a turn has not shown. -/
def unshown (pending : List InboxMessage) (ids : List Bytes) : List InboxMessage :=
  pending.filter fun m => !ids.contains m.id

/-- The message passes the reader's checks when it is handed over alone. -/
structure InboxMessage.Readable (message : InboxMessage) : Prop where
  valid : message.valid = true
  size : (encodeInbox [message]).length ≤ 30000

theorem unshown_push {pending : List InboxMessage} {ids : List Bytes} {id : Bytes}
    (h : id ∉ pending.map (·.id)) : unshown pending (ids ++ [id]) = unshown pending ids := by
  refine List.filter_congr fun m hm => ?_
  have hne : m.id ≠ id := fun he => h (he ▸ List.mem_map_of_mem hm)
  simp [hne]

/-- A turn that has shown the front of the pending messages has the rest to show. -/
theorem unshown_append {shown rest : List InboxMessage} (hnd : ((shown ++ rest).map (·.id)).Nodup) :
    unshown (shown ++ rest) (shown.map (·.id)) = rest := by
  have hshown : shown.filter (fun m => !(shown.map (·.id)).contains m.id) = [] := by
    rw [List.filter_eq_nil_iff]
    intro m hm
    have hin : m.id ∈ shown.map (·.id) := List.mem_map_of_mem hm
    rw [List.contains_iff_mem.mpr hin]
    decide
  have hrest : rest.filter (fun m => !(shown.map (·.id)).contains m.id) = rest := by
    rw [List.filter_eq_self]
    intro m hm
    rw [List.map_append] at hnd
    have hout : m.id ∉ shown.map (·.id) := fun hin =>
      (List.nodup_append.mp hnd).2.2 _ hin _ (List.mem_map_of_mem hm) rfl
    rw [Bool.not_eq_true', ← Bool.not_eq_true, List.contains_iff_mem]
    exact hout
  rw [unshown, List.filter_append, hshown, hrest, List.nil_append]

/-- The messages taken continue the unshown ones from their start, and one is taken
when there is any. -/
theorem gatherInbox_spec {pending : List InboxMessage} (hread : ∀ m ∈ pending, m.Readable)
    (hnd : (pending.map (·.id)).Nodup) (messages : List InboxMessage) (hlen : messages.length ≤ 1)
    (ids : List Bytes) :
    ∃ batch, gatherInbox pending messages ids = .ok (messages ++ batch, ids ++ batch.map (·.id)) ∧
      batch <+: unshown pending ids ∧ (messages = [] → unshown pending ids ≠ [] → batch ≠ []) ∧
      (batch ≠ [] → (encodeInbox (messages ++ batch)).length ≤ 30000) := by
  induction pending generalizing messages ids with
  | nil => exact ⟨[], by simp [gatherInbox], List.nil_prefix, fun _ h => absurd rfl h,
      fun h => absurd rfl h⟩
  | cons m rest ih =>
    have hread' : ∀ k ∈ rest, k.Readable := fun k hk => hread k (List.mem_cons_of_mem m hk)
    obtain ⟨hm, hnd'⟩ := List.nodup_cons.mp hnd
    rw [gatherInbox]
    by_cases hshown : ids.contains m.id = true
    · have hskip : unshown (m :: rest) ids = unshown rest ids := by
        simp only [unshown, List.filter_cons, hshown, Bool.not_true, Bool.false_eq_true, if_false]
      rw [if_pos hshown, hskip]
      exact ih hread' hnd' messages hlen ids
    have htake : unshown (m :: rest) ids = m :: unshown rest ids := by
      simp only [unshown, List.filter_cons, hshown, Bool.not_false, if_true]
    rw [if_neg hshown, if_neg (by rw [(hread m List.mem_cons_self).valid]; decide), htake]
    by_cases hbig : 30000 < (encodeInbox (messages ++ [m])).length
    · -- a first message fits, so something was taken before
      have hne : messages ≠ [] := by
        rintro rfl
        have := (hread m List.mem_cons_self).size
        exact absurd hbig (by simpa using this)
      have htwo : ((messages ++ [m]).length == 1) = false := by
        have := List.length_pos_of_ne_nil hne
        simp only [List.length_append, List.length_singleton, beq_eq_false_iff_ne]
        omega
      rw [if_pos hbig, htwo]
      exact ⟨[], by simp, List.nil_prefix, fun h => absurd h hne, fun h => absurd rfl h⟩
    rw [if_neg hbig]
    by_cases hfull : (messages ++ [m]).length == 2
    · rw [if_pos hfull]
      exact ⟨[m], rfl, by simp, fun _ _ => by simp, fun _ => Nat.not_lt.mp hbig⟩
    · have hempty : messages = [] := by
        rw [← List.length_eq_zero_iff]
        simp only [List.length_append, List.length_singleton, beq_iff_eq] at hfull
        omega
      subst hempty
      obtain ⟨batch, hgather, hstart, -, hsize⟩ := ih hread' hnd' [m] (by simp) (ids ++ [m.id])
      rw [if_neg hfull, List.nil_append, hgather]
      refine ⟨m :: batch, by simp, ?_, fun _ _ => by simp, fun _ => ?_⟩
      · rw [unshown_push hm] at hstart
        exact List.cons_prefix_cons.mpr ⟨rfl, hstart⟩
      · by_cases hb : batch = []
        · subst hb
          exact (hread m List.mem_cons_self).size
        · exact hsize hb

theorem dumpString_length (s : Bytes) :
    (Json.dumpString s).length = (Json.escape s).length + 2 := by
  simp [Json.dumpString]

theorem encodeInbox_single_length (message : InboxMessage) :
    (encodeInbox [message]).length =
      (Json.escape message.text).length + (Json.escape message.id).length +
        (Json.escape message.sender).length + 33 := by
  have hdata : (Json.dumpString (text "data")).length = 6 := by decide +kernel
  have hid : (Json.dumpString (text "id")).length = 4 := by decide +kernel
  have hsender : (Json.dumpString (text "sender")).length = 8 := by decide +kernel
  simp only [encodeInbox, InboxMessage.value, List.map_cons, List.map_nil, Json.dump,
    Json.dumpItems, Json.dumpFields, List.length_cons, List.length_append, List.length_nil, hdata,
    hid, hsender, dumpString_length]
  omega

/-- No part of the message holds a control character. -/
structure InboxMessage.Printable (message : InboxMessage) : Prop where
  id : ∀ c ∈ message.id, ¬ c < 0x20
  sender : ∀ c ∈ message.sender, ¬ c < 0x20
  text : ∀ c ∈ message.text, ¬ c < 0x20

/-- Escaping printable text again at most doubles it, which the reader's bound has
room for. -/
theorem readable_of_printable {message : InboxMessage} (hvalid : message.valid = true)
    (h : message.Printable) : message.Readable := by
  refine ⟨hvalid, ?_⟩
  simp only [InboxMessage.valid, Bool.not_eq_true', Bool.or_eq_false_iff,
    decide_eq_false_iff_not] at hvalid
  have htext := Json.escape_length_le h.text
  have hid := Json.escape_length_le h.id
  have hsender := Json.escape_length_le h.sender
  rw [encodeInbox_single_length]
  omega

theorem isValidUtf8_encodeInbox {messages : List InboxMessage}
    (h : ∀ m ∈ messages, m.valid = true) :
    isValidUtf8 (encodeInbox messages) = true := by
  refine Json.Serial.utf8.dump _ ?_
  show Json.ItemStrings _ (messages.map InboxMessage.value)
  induction messages with
  | nil => trivial
  | cons m rest ih =>
    have hm := h m List.mem_cons_self
    simp only [InboxMessage.valid, Bool.not_eq_true', Bool.or_eq_false_iff,
      Bool.not_eq_false'] at hm
    refine ⟨⟨by decide +kernel, ?_, by decide +kernel, ?_, by decide +kernel, ?_, trivial⟩,
      ih fun k hk => h k (List.mem_cons_of_mem m hk)⟩
    · exact hm.1.2
    · exact hm.1.1.1.1.2
    · exact hm.2

/-- What a read of readable messages yields: text within the loop's bound that shows
the next unshown messages. -/
theorem inboxReader_spec {pending : List InboxMessage} (hread : ∀ m ∈ pending, m.Readable)
    (hnd : (pending.map (·.id)).Nodup) (ids : List Bytes) :
    ∃ batch, inboxReader pending ids =
        .ok (if batch.isEmpty then [] else encodeInbox batch, ids ++ batch.map (·.id)) ∧
      batch <+: unshown pending ids ∧ (unshown pending ids ≠ [] → batch ≠ []) ∧
      takeInbox (if batch.isEmpty then [] else encodeInbox batch) =
        .ok (if batch.isEmpty then none else some (inboxMessage (encodeInbox batch))) := by
  obtain ⟨batch, hgather, hstart, hprogress, hsize⟩ :=
    gatherInbox_spec hread hnd [] (by simp) ids
  refine ⟨batch, ?_, hstart, hprogress rfl, ?_⟩
  · simp only [inboxReader, hgather, List.nil_append]
  · cases batch with
    | nil =>
      have hempty : takeInbox [] = _ := takeInbox_ok (Nat.zero_le _) rfl
      simpa only [List.isEmpty_nil, if_true] using hempty
    | cons m rest =>
      have hvalid : ∀ k ∈ m :: rest, k.valid = true := fun k hk =>
        (hread k (List.mem_of_mem_filter (hstart.subset hk))).valid
      have hbound := hsize (by simp)
      rw [List.nil_append] at hbound
      have hne : (encodeInbox (m :: rest)).isEmpty = false := rfl
      rw [List.isEmpty_cons, if_neg (by decide), if_neg (by decide),
        takeInbox_ok (by omega) (isValidUtf8_encodeInbox hvalid), hne, if_neg (by decide)]

end Orangutan.Bootstrap
