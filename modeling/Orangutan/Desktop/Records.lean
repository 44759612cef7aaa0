import Orangutan.Desktop.Model

/-!
# What the records of a state keep

One structure for each collection, stated over the parts of the other collections it refers to. The
schema of a state follows from them.
-/

namespace Orangutan.Desktop

set_option autoImplicit false

/-- The parts of a conversation that other records and the schema refer to. -/
structure Conversation.SameFace (a b : Conversation) : Prop where
  id : a.id = b.id
  connectionId : a.connectionId = b.connectionId
  locator : a.locator = b.locator
  requesterId : a.requesterId = b.requesterId
  sessionId : a.sessionId = b.sessionId
  origin : a.origin = b.origin

theorem Conversation.SameFace.refl (c : Conversation) : c.SameFace c :=
    ⟨rfl, rfl, rfl, rfl, rfl, rfl⟩

/-- No conversation is lost. -/
def Covers (before after : List Conversation) : Prop := ∀ c ∈ before, ∃ c' ∈ after, c'.SameFace c

theorem Covers.map {conversations : List Conversation} {f : Conversation → Conversation}
    (hf : ∀ c, (f c).SameFace c) :
    Covers conversations (conversations.map f) := fun c hc => ⟨f c, List.mem_map_of_mem hc, hf c⟩

theorem Covers.cons (c : Conversation) (conversations : List Conversation) :
    Covers conversations (c :: conversations) :=
  fun c' hc' => ⟨c', List.mem_cons_of_mem c hc', .refl c'⟩

structure ConnectionsOk (connections : List Connection) : Prop where
  ids : (connections.map (·.id)).Nodup
  attempt : ∀ c ∈ connections, 0 ≤ c.attempt

structure ChatsOk (connections : List JsString) (conversations : List Conversation)
    (selectedId : JsString) : Prop where
  ids : (conversations.map (·.id)).Nodup
  selected : ∃ c ∈ conversations, c.id = selectedId
  key : ∀ c ∈ conversations, c.id = conversationKey c.connectionId c.locator
  channel : ∀ c ∈ conversations, c.origin = .channel → c.connectionId ∈ connections
  own : ∀ c ∈ conversations, c.origin = .desktop → c.connectionId = desktop
  unread : ∀ c ∈ conversations, 0 ≤ c.unread

/-- An approval belongs to the current attempt, and only an approved one lets a task run. -/
structure ApprovalOk (t : Task) : Prop where
  id : ∀ a, t.approval = some a → a.id = approvalId t.id t.attempt
  runs : t.status = .queued ∨ t.status = .running → ∀ a, t.approval = some a → a.status = .approved

structure TasksOk (conversations : List Conversation) (tasks : List Task) : Prop where
  ids : (tasks.map (·.id)).Nodup
  owned : ∀ t ∈ tasks, ∃ c ∈ conversations,
    c.id = t.conversationId ∧ c.requesterId = t.requesterId ∧ c.sessionId = t.sessionId
  attempt : ∀ t ∈ tasks, 0 < t.attempt
  step : ∀ t ∈ tasks, 0 ≤ t.step
  single : ∀ t ∈ tasks, ∀ u ∈ tasks, t.conversationId = u.conversationId → active t.status = true →
    active u.status = true → t = u
  approval : ∀ t ∈ tasks, ApprovalOk t

/-- Seeded messages have no colon in their names. -/
structure MessagesOk (conversations : List Conversation) (taskIds : List JsString)
    (messages : List Message) : Prop where
  ids : (messages.map (·.id)).Nodup
  home : ∀ m ∈ messages, ∃ c ∈ conversations, c.id = m.conversationId
  named : ∀ m ∈ messages, 0x3A ∉ m.id ∨
    ∃ t ∈ taskIds, m.id = userMessageId t ∨ ∃ attempt, m.id = replyId t attempt

structure NotesOk (notes : List Note) : Prop where
  ids : (notes.map (·.id)).Nodup
  scope : ∀ n ∈ notes, n.scope = .shared ↔ n.ownerId = none

structure NoticesOk (notifications : List Notification) : Prop where
  ids : (notifications.map (·.id)).Nodup
  keys : (notifications.map (·.eventKey)).Nodup
  named : ∀ n ∈ notifications, n.id = n.eventKey ∨ 0x3A ∉ n.id

structure Inv (s : AppState) : Prop where
  connections : ConnectionsOk s.connections
  chats : ChatsOk (s.connections.map (·.id)) s.conversations s.selectedId
  tasks : TasksOk s.conversations s.tasks
  messages : MessagesOk s.conversations (s.tasks.map (·.id)) s.messages
  notes : NotesOk s.notes
  notifications : NoticesOk s.notifications

theorem distinct_of_nodup {ids : List JsString} (h : ids.Nodup) : distinct ids = true := by
  unfold distinct
  rw [h.dedup, beq_self_eq_true]

theorem unique_of_nodup {α β : Type} {f : α → β} {l : List α} (h : (l.map f).Nodup) {a b : α}
    (ha : a ∈ l) (hb : b ∈ l) (he : f a = f b) : a = b := List.inj_on_of_nodup_map h ha hb he

/-- With distinct names every lookup finds the record. -/
theorem find_of_mem {α : Type} {f : α → JsString} {l : List α} (h : (l.map f).Nodup) {a : α}
    (ha : a ∈ l) :
    l.find? (fun b => f b == f a) = some a := by
  cases hfind : l.find? fun b => f b == f a with
  | none => exact absurd (List.find?_eq_none.mp hfind a ha) (by simp)
  | some b =>
    have hname : f b = f a := by simpa using List.find?_some hfind
    rw [unique_of_nodup h (List.mem_of_find?_eq_some hfind) ha hname]

theorem name_of_find {α : Type} {f : α → JsString} {l : List α} {id : JsString} {a : α}
    (h : l.find? (fun b => f b == id) = some a) : a ∈ l ∧ f a = id :=
  ⟨List.mem_of_find?_eq_some h, by simpa using List.find?_some h⟩

theorem conversationAt_of_mem {s : AppState} (h : (s.conversations.map (·.id)).Nodup)
    {c : Conversation} (hc : c ∈ s.conversations) : conversationAt s c.id = some c := by
  unfold conversationAt
  refine find_of_mem (f := fun c : Conversation => c.id) ?_ (List.mem_reverse.mpr hc)
  rw [List.map_reverse]
  exact List.nodup_reverse.mpr h

/-- A state with sound records passes the schema. -/
theorem Inv.schema {s : AppState} (h : Inv s) : stateSchema s = true := by
  have hat : ∀ {c : Conversation}, c ∈ s.conversations → conversationAt s c.id = some c :=
    conversationAt_of_mem h.chats.ids
  have hrange : s.inRange = true := by
    unfold AppState.inRange
    simp only [Bool.and_eq_true, List.all_eq_true, decide_eq_true_eq]
    exact ⟨⟨h.connections.attempt, h.chats.unread⟩,
      fun t ht => ⟨h.tasks.attempt t ht, h.tasks.step t ht⟩⟩
  have hselected : (conversationAt s s.selectedId).isSome = true := by
    obtain ⟨c, hc, hid⟩ := h.chats.selected
    rw [← hid, hat hc]
    rfl
  unfold stateSchema
  rw [hrange, distinct_of_nodup h.connections.ids, distinct_of_nodup h.chats.ids,
    distinct_of_nodup h.messages.ids, distinct_of_nodup h.tasks.ids, distinct_of_nodup h.notes.ids,
    distinct_of_nodup h.notifications.ids, hselected]
  simp only [Bool.true_and, Bool.and_eq_true, List.all_eq_true]
  refine ⟨⟨⟨fun c hc => ?_, fun m hm => ?_⟩, fun t ht => ?_⟩, fun n hn => ?_⟩
  · refine ⟨⟨by simpa using h.chats.key c hc, ?_⟩, ?_⟩
    · cases horigin : c.origin with
      | desktop => rfl
      | channel =>
          simpa [List.contains_iff_mem] using List.mem_map.mp (h.chats.channel c hc horigin)
    · cases horigin : c.origin with
      | channel => rfl
      | desktop => simpa [desktop] using h.chats.own c hc horigin
  · obtain ⟨c, hc, hid⟩ := h.messages.home m hm
    rw [← hid, hat hc]
    rfl
  · obtain ⟨c, hc, hid, hrequester, hsession⟩ := h.tasks.owned t ht
    rw [← hid, hat hc]
    simp [hrequester, hsession]
  · have hscope := h.notes.scope n hn
    cases howner : n.ownerId with
    | none => simp [hscope.mpr howner]
    | some owner =>
      cases hkind : n.scope with
      | personal => rfl
      | shared => rw [hscope.mp hkind] at howner; cases howner

theorem ChatsOk.map {connections : List JsString} {conversations : List Conversation}
    {selectedId : JsString} (h : ChatsOk connections conversations selectedId)
    {f : Conversation → Conversation} (hf : ∀ c, (f c).SameFace c)
    (hunread : ∀ c, 0 ≤ c.unread → 0 ≤ (f c).unread) :
    ChatsOk connections (conversations.map f) selectedId := by
  have hids : (conversations.map f).map (·.id) = conversations.map (·.id) := by
    rw [List.map_map]
    exact List.map_congr_left fun c _ => (hf c).id
  refine ⟨hids ▸ h.ids, ?_, ?_, ?_, ?_, ?_⟩
  · obtain ⟨c, hc, hid⟩ := h.selected
    exact ⟨f c, List.mem_map_of_mem hc, (hf c).id.trans hid⟩
  all_goals
    intro c' hc'
    obtain ⟨c, hc, rfl⟩ := List.mem_map.mp hc'
  · rw [(hf c).id, (hf c).connectionId, (hf c).locator]
    exact h.key c hc
  · rw [(hf c).origin, (hf c).connectionId]
    exact h.channel c hc
  · rw [(hf c).origin, (hf c).connectionId]
    exact h.own c hc
  · exact hunread c (h.unread c hc)

theorem TasksOk.covers {before after : List Conversation} {tasks : List Task}
    (h : TasksOk before tasks) (hcovers : Covers before after) : TasksOk after tasks :=
  { h with
    owned := fun t ht => by
      obtain ⟨c, hc, hid, hrequester, hsession⟩ := h.owned t ht
      obtain ⟨c', hc', hface⟩ := hcovers c hc
      exact ⟨c', hc', hface.id.trans hid, hface.requesterId.trans hrequester,
        hface.sessionId.trans hsession⟩ }

theorem MessagesOk.covers {before after : List Conversation} {taskIds : List JsString}
    {messages : List Message} (h : MessagesOk before taskIds messages)
    (hcovers : Covers before after) : MessagesOk after taskIds messages :=
  { h with
    home := fun m hm => by
      obtain ⟨c, hc, hid⟩ := h.home m hm
      obtain ⟨c', hc', hface⟩ := hcovers c hc
      exact ⟨c', hc', hface.id.trans hid⟩ }

/-- The conversations are rewritten one by one. -/
theorem Inv.mapConversations {s : AppState} (h : Inv s) {f : Conversation → Conversation}
    (hf : ∀ c, (f c).SameFace c) (hunread : ∀ c, 0 ≤ c.unread → 0 ≤ (f c).unread) :
    Inv { s with conversations := s.conversations.map f } :=
  { connections := h.connections
    chats := h.chats.map hf hunread
    tasks := h.tasks.covers (.map hf)
    messages := h.messages.covers (.map hf)
    notes := h.notes
    notifications := h.notifications }

end Orangutan.Desktop
