import Orangutan.Desktop.Storage
import Orangutan.Desktop.Transitions
import Orangutan.Lib.Runs

/-!
# Runs of the desktop

The records are sound from the first start on. What an event does to a task is one of the ways of
`TaskStep`, which decides who may approve and who may complete it.
-/

namespace Orangutan.Desktop

set_option autoImplicit false

open Orangutan.Lib Relation

/-- Seeds that agree after a projection have the properties it shows. -/
theorem forall_projected {α β : Type} (l l' : List α) (f : α → β) (Q : β → Prop)
    (h : l.map f = l'.map f) (hQ : ∀ b ∈ l'.map f, Q b) : ∀ a ∈ l, Q (f a) := by
  intro a ha
  refine hQ (f a) ?_
  rw [← h]
  exact List.mem_map_of_mem ha

/-- A seed shows only its times of the moment it was made. -/
theorem forall_seed {α β : Type} (g : AppState → List α) (now : Int) (f : α → β) (Q : β → Prop)
    (h : (g (createInitialState now)).map f = (g (createInitialState 0)).map f)
    (hQ : ∀ b ∈ (g (createInitialState 0)).map f, Q b) : ∀ a ∈ g (createInitialState now),
      Q (f a) :=
  forall_projected _ _ f Q h hQ

theorem tasks_initial (now : Int) :
    TasksOk (createInitialState now).conversations (createInitialState now).tasks := by
  have hids : (createInitialState now).tasks.map (·.id) = (createInitialState 0).tasks.map (·.id) :=
    rfl
  have hnodup : ((createInitialState now).tasks.map (·.id)).Nodup := by
    rw [hids]
    decide +kernel
  refine ⟨hnodup, ?_, ?_, ?_, ?_, ?_⟩
  · exact forall_seed (·.tasks) now (fun t : Task => (t.conversationId, t.requesterId, t.sessionId))
      (fun p => ∃ c ∈ Fixtures.conversations, c.id = p.1 ∧ c.requesterId = p.2.1 ∧
        c.sessionId = p.2.2) rfl
      (by decide +kernel)
  · exact forall_seed (·.tasks) now (fun t : Task => t.attempt)
      (fun n => 0 < n) rfl (by decide +kernel)
  · exact forall_seed (·.tasks) now (fun t : Task => t.step)
      (fun n => 0 ≤ n) rfl (by decide +kernel)
  · let key : Task → JsString × JsString × Status := fun t => (t.id, t.conversationId, t.status)
    have hpairs := forall_seed (·.tasks) now key
      (fun p => ∀ q ∈ (createInitialState 0).tasks.map key,
        p.2.1 = q.2.1 → active p.2.2 = true → active q.2.2 = true →
          p.1 = q.1) rfl (by decide +kernel)
    have hkeys : (createInitialState now).tasks.map key = (createInitialState 0).tasks.map key :=
      rfl
    intro t ht u hu hconv hat hau
    have hkey : key u ∈ (createInitialState 0).tasks.map key := hkeys ▸ List.mem_map_of_mem hu
    exact unique_of_nodup hnodup ht hu (hpairs t ht (key u) hkey hconv hat hau)
  · have happroval := forall_seed (·.tasks) now
      (fun t : Task => (t.id, t.attempt, t.status, t.approval))
      (fun p => p.2.2.2.all (fun a => a.id == approvalId p.1 p.2.1) = true ∧
        (p.2.2.1 = .queued ∨ p.2.2.1 = .running →
          p.2.2.2.all (fun a => a.status == .approved) = true)) rfl
      (by decide +kernel)
    intro t ht
    obtain ⟨hid, hruns⟩ := happroval t ht
    exact ⟨fun a ha => by simpa [ha] using hid,
      fun hstatus a ha => by simpa [ha] using hruns hstatus⟩

theorem messages_initial (now : Int) : MessagesOk (createInitialState now).conversations
    ((createInitialState now).tasks.map (·.id)) (createInitialState now).messages := by
  have hids : (createInitialState now).messages.map (·.id) =
    (createInitialState 0).messages.map (·.id) := rfl
  refine ⟨?_, ?_, fun m hm => .inl ?_⟩
  · rw [hids]
    decide +kernel
  · exact forall_seed (·.messages) now (fun m : Message => m.conversationId)
      (fun id => ∃ c ∈ Fixtures.conversations, c.id = id) rfl (by decide +kernel)
  · exact forall_seed (·.messages) now (fun m : Message => m.id)
      (fun id => 0x3A ∉ id) rfl (by decide +kernel) m hm

theorem notes_initial (now : Int) : NotesOk (createInitialState now).notes := by
  have hids : (createInitialState now).notes.map (·.id) = (createInitialState 0).notes.map (·.id) :=
    rfl
  refine ⟨?_, ?_⟩
  · rw [hids]
    decide +kernel
  · exact forall_seed (·.notes) now (fun n : Note => (n.scope, n.ownerId)) (fun p => p.1 = .shared ↔
      p.2 = none)
      rfl (by decide +kernel)

theorem notifications_initial (now : Int) : NoticesOk (createInitialState now).notifications := by
  have hids : (createInitialState now).notifications.map (·.id) =
    (createInitialState 0).notifications.map (·.id) := rfl
  have hkeys : (createInitialState now).notifications.map (·.eventKey) =
      (createInitialState 0).notifications.map (·.eventKey) := rfl
  refine ⟨?_, ?_, fun n hn => .inr ?_⟩
  · rw [hids]
    decide +kernel
  · rw [hkeys]
    decide +kernel
  · exact forall_seed (·.notifications) now (fun n : Notification => n.id) (fun id => 0x3A ∉ id) rfl
      (by decide +kernel) n hn

theorem inv_initial (now : Int) : Inv (createInitialState now) where
  connections := by
    change ConnectionsOk Fixtures.connections
    exact ⟨by decide +kernel, by decide +kernel⟩
  chats := by
    change ChatsOk (Fixtures.connections.map (·.id)) Fixtures.conversations home
    exact ⟨by decide +kernel, by decide +kernel, by decide +kernel, by decide +kernel,
      by decide +kernel, by decide +kernel⟩
  tasks := tasks_initial now
  messages := messages_initial now
  notes := notes_initial now
  notifications := notifications_initial now

theorem inv_reachable {s : AppState} (h : Reachable s) : Inv s := by
  obtain ⟨now, hrun⟩ := h
  refine run_invariant (I := Inv) (fun a b ha hstep => ?_) hrun (inv_initial now)
  obtain ⟨e, happly⟩ := hstep
  obtain ⟨s', hs', hout⟩ := outcome_apply ha e
  rw [happly] at hs'
  obtain rfl := Option.some.inj hs'
  exact hout.inv

variable {s s' : AppState} {e : Event} {t t' : Task}

theorem inv_apply (h : Inv s) (happly : apply s e = some s') : Inv s' ∧
    TasksMoved s e s'.tasks := by
  obtain ⟨s'', hs'', hout⟩ := outcome_apply h e
  rw [happly] at hs''
  obtain rfl := Option.some.inj hs''
  exact ⟨hout.inv, hout.tasks⟩

/-- Where a task after an event comes from. -/
theorem moved_task (h : TasksMoved s e s'.tasks) (ht' : t' ∈ s'.tasks) :
    t' ∈ s.tasks ∨ (∃ t ∈ s.tasks, TaskStep s t e t') ∨ (t'.status = .queued ∧ t'.approval = none) ∨
      e = .recover ∧ ∃ t ∈ s.tasks, t' = recoverTask t := by
  generalize s'.tasks = tasks at h ht'
  cases h with
  | same => exact .inl ht'
  | one t u ht hstep =>
    rcases mem_replaced ht' with rfl | hold
    · exact .inr (.inl ⟨t, ht, hstep⟩)
    · exact .inl hold.1
  | sent u hfresh hstatus happroval =>
    rcases List.mem_cons.mp ht' with rfl | hold
    · exact .inr (.inr (.inl ⟨hstatus, happroval⟩))
    · exact .inl hold
  | recovered hevent =>
    obtain ⟨t, ht, rfl⟩ := List.mem_map.mp ht'
    exact .inr (.inr (.inr ⟨hevent, t, ht, rfl⟩))

/-- A file operation passes its gate by an approval of the attempt or by the permission. -/
theorem gate_passed {c : Conversation} (horigin : c.origin = .desktop) (hkind : t.kind = .file)
    (hlate : 5 ≤ t.step + 1) (hgate : gate s (tick t) c = none) : t.approval.isSome = true ∨
    s.settings.permission = .allow := by
  unfold gate at hgate
  split at hgate
  · split at hgate
    · cases hgate
    · cases hgate
    · next hallow => exact .inr (by simpa [horigin] using hallow)
  · next hguard =>
    have hstep : (tick t).step ≥ 3 := le_trans (by decide) hlate
    have hkind : (tick t).kind = .file := hkind
    have happroval : ¬ (tick t).approval.isNone = true :=
      fun hnone => hguard (by simp [hkind, hnone, hstep])
    exact .inl (Option.isSome_iff_ne_none.mpr (by simpa [tick] using happroval))

/-- What lets a file task of a desktop conversation be completed. -/
def Permitted (s : AppState) (t : Task) : Prop :=
  (∃ a, t.approval = some a ∧ a.id = approvalId t.id t.attempt ∧ a.status = .approved) ∨
    s.settings.permission = .allow

theorem completed_permitted (h : Inv s) (happly : apply s e = some s') (ht' : t' ∈ s'.tasks)
    (hkind : t'.kind = .file) (hdone : t'.status = .completed)
    (hown : canControl s t'.conversationId = true) :
    (∃ t ∈ s.tasks, t.id = t'.id ∧ t.attempt = t'.attempt ∧ t.status = .completed) ∨
      Permitted s t' := by
  rcases moved_task (inv_apply h happly).2 ht' with hold | ⟨t, ht, hstep⟩ | ⟨hqueued, -⟩ | ⟨-,
    t, ht, rfl⟩
  · exact .inl ⟨t', hold, rfl, rfl, hdone⟩
  · right
    cases hstep with
    | completed c now hticks members artifact hpass hlate =>
      obtain ⟨c', hc', hown⟩ := List.any_eq_true.mp hown
      simp only [Bool.and_eq_true, beq_iff_eq] at hown
      obtain rfl : c' = c := unique_of_nodup h.chats.ids hc' hticks.conversation
        (hown.1.trans hticks.home.symm)
      rcases gate_passed (t := t) hown.2 hkind hlate hpass with happroval | hallow
      · obtain ⟨a, ha⟩ := Option.isSome_iff_exists.mp happroval
        have hok := h.tasks.approval t ht
        exact .inl ⟨a, ha, hok.id a ha, hok.runs hticks.status a ha⟩
      · exact .inr hallow
    | ticked c now hticks status members hunfinished =>
      rcases hunfinished with hrunning | hfailed
      · cases hrunning.symm.trans hdone
      · cases hfailed.symm.trans hdone
    | _ => cases hdone
  · rw [hqueued] at hdone
    cases hdone
  · refine .inl ⟨t, ht, rfl, rfl, ?_⟩
    unfold recoverTask at hdone
    dsimp only at hdone
    split at hdone
    · cases hdone
    · exact hdone

/-- An approval is given only by the command for it. -/
theorem approved_by_command (h : Inv s) (happly : apply s e = some s') (ht' : t' ∈ s'.tasks)
    {a : TaskApproval} (ha : t'.approval = some a) (happroved : a.status = .approved) :
    (∃ t ∈ s.tasks, t.id = t'.id ∧ t.approval = some a) ∨
      e = .command (.approve t'.id a.id) ∧ canControl s t'.conversationId = true := by
  rcases moved_task (inv_apply h happly).2 ht' with hold | ⟨t, ht, hstep⟩ | ⟨-, hnone⟩ | ⟨-,
    t, ht, rfl⟩
  · exact .inl ⟨t', hold, rfl, ha⟩
  · cases hstep with
    | stopped =>
      obtain ⟨b, hb, rfl⟩ := Option.map_eq_some_iff.mp ha
      split at happroved
      · cases happroved
      · next hstatus => exact .inl ⟨t, ht, rfl, by rw [if_neg hstatus]; exact hb⟩
    | retried => cases ha
    | approved b hown =>
      obtain rfl := Option.some.inj ha
      exact .inr ⟨rfl, hown⟩
    | rejected =>
      obtain rfl := Option.some.inj ha
      cases happroved
    | awaits =>
      obtain rfl := Option.some.inj ha
      cases happroved
    | cancelled => exact .inl ⟨t, ht, rfl, ha⟩
    | ticked => exact .inl ⟨t, ht, rfl, ha⟩
    | completed => exact .inl ⟨t, ht, rfl, ha⟩
  · rw [hnone] at ha
    cases ha
  · obtain ⟨b, hb, rfl⟩ := Option.map_eq_some_iff.mp ha
    split at happroved
    · cases happroved
    · next hstatus => exact .inl ⟨t, ht, rfl, by rw [if_neg hstatus]; exact hb⟩

/-- An answer to an earlier attempt finds nothing to answer. -/
theorem stale_approve (h : Inv s) (ht : t ∈ s.tasks) {attempt : Int} (hpos : 0 < attempt)
    (hstale : attempt ≠ t.attempt) :
    command s (.approve t.id (approvalId t.id attempt)) = s := by
  change onTask s t.id (fun task => approve s task (approvalId t.id attempt)) = s
  unfold onTask
  rw [find_of_mem (f := fun t : Task => t.id) h.tasks.ids ht]
  dsimp only
  split
  · have hnone : answerable t (approvalId t.id attempt) = none := by
      cases hanswer : answerable t (approvalId t.id attempt) with
      | none => rfl
      | some a =>
        obtain ⟨-, happroval, hid, -⟩ := answerable_spec hanswer
        have hcurrent := (h.tasks.approval t ht).id a happroval
        exact absurd (approvalId_injective hpos (h.tasks.attempt t ht)
          (hid.symm.trans hcurrent)) hstale
    unfold approve
    rw [hnone]
  · rfl

theorem filter_map_frame {α : Type} {p : α → Bool} {g : α → α} {l : List α}
    (hkeep : ∀ a ∈ l, p (g a) = p a) (hframe : ∀ a ∈ l, p a = true → g a = a) :
    (l.map g).filter p = l.filter p := by
  rw [List.filter_map]
  have hp : l.filter (p ∘ g) = l.filter p := List.filter_congr hkeep
  rw [hp]
  exact (List.map_congr_left fun a ha => hframe a (List.mem_filter.mp ha).1
    (List.mem_filter.mp ha).2).trans (List.map_id _)

theorem messages_onTask {taskId : JsString} {f : Task → AppState}
    (hf : ∀ t, (f t).messages = s.messages) :
    (onTask s taskId f).messages = s.messages := by
  unfold onTask
  split
  · rfl
  · split
    · exact hf _
    · rfl

theorem messages_taskNotice (s : AppState) (task : Task) (kind : NotificationKind) :
    (taskNotice s task kind).messages = s.messages := by
  unfold taskNotice notify
  split <;> rfl

theorem messages_select (s : AppState) (id : JsString) : (select s id).messages = s.messages := by
  unfold select
  split <;> rfl

theorem messages_newConversation (s : AppState) (locator : JsString) :
    (newConversation s locator).messages = s.messages := by
  unfold newConversation
  dsimp only
  split <;> rfl

theorem messages_rename (s : AppState) (conversationId text : JsString) :
    (rename s conversationId text).messages = s.messages := by
  unfold rename
  dsimp only
  split <;> rfl

theorem messages_draft (s : AppState) (conversationId text : JsString) :
    (draft s conversationId text).messages = s.messages := by
  unfold draft
  split <;> rfl

theorem messages_noteSave (s : AppState) (note : Note) :
    (noteSave s note).messages = s.messages := by
  unfold noteSave
  split
  · rfl
  · split <;> rfl

/-- A command writes at most one message, in a conversation of the desktop. -/
theorem messages_command (s : AppState) (a : Command) : (command s a).messages = s.messages ∨
    ∃ m : Message, (command s a).messages = s.messages ++ [m] ∧
      canControl s m.conversationId = true := by
  cases a with
  | send conversationId text id now =>
    change (send s conversationId text id now).messages = _ ∨ ∃ m,
      (send s conversationId text id now).messages = _ ∧ _
    unfold send
    dsimp only
    split
    · exact .inl rfl
    · split
      · exact .inl rfl
      · next hguard =>
        obtain ⟨⟨hcontrol, -⟩, -⟩ : (canControl s _ = true ∧ _) ∧ _ := by
          simpa only [Bool.or_eq_true, not_or, Bool.not_eq_true', Bool.not_eq_false] using hguard
        exact .inr ⟨_, rfl, hcontrol⟩
  | stop taskId now =>
    refine .inl (messages_onTask fun t => ?_)
    unfold stop
    split <;> rfl
  | retry taskId now =>
    refine .inl (messages_onTask fun t => ?_)
    unfold retry
    split <;> rfl
  | approve taskId id =>
    refine .inl (messages_onTask fun t => ?_)
    unfold approve
    split
    · rfl
    · split <;> rfl
  | reject taskId id =>
    refine .inl (messages_onTask fun t => ?_)
    unfold reject
    split
    · rfl
    · exact messages_taskNotice _ _ _
  | select id => exact .inl (messages_select s id)
  | new id now => exact .inl (messages_newConversation s id)
  | rename conversationId name => exact .inl (messages_rename s conversationId name)
  | draft conversationId text => exact .inl (messages_draft s conversationId text)
  | noteSave note => exact .inl (messages_noteSave s note)
  | settings value => exact .inl rfl
  | connect id account simulateFailure => exact .inl rfl
  | disconnect id account simulateFailure => exact .inl rfl
  | noteDelete id => exact .inl rfl
  | readNotification id => exact .inl rfl

theorem not_own_channel (h : Inv s) {c : Conversation} (hc : c ∈ s.conversations)
    (hchannel : c.origin = .channel) {id : JsString} (hown : canControl s id = true) :
    id ≠ c.id := by
  rintro rfl
  obtain ⟨c', hc', hown⟩ := List.any_eq_true.mp hown
  simp only [Bool.and_eq_true, beq_iff_eq] at hown
  obtain rfl := unique_of_nodup h.chats.ids hc' hc hown.1
  cases hown.2.symm.trans hchannel

/-- The tasks and messages of one conversation. -/
def tasksOf (s : AppState) (id : JsString) : List Task := s.tasks.filter fun t =>
    t.conversationId == id

def messagesOf (s : AppState) (id : JsString) : List Message := s.messages.filter fun m =>
    m.conversationId == id

theorem command_messagesOf (h : Inv s) (a : Command) {c : Conversation} (hc : c ∈ s.conversations)
    (hchannel : c.origin = .channel) : messagesOf (command s a) c.id = messagesOf s c.id := by
  unfold messagesOf
  rcases messages_command s a with hsame | ⟨m, happend, hown⟩
  · rw [hsame]
  · have hother := not_own_channel h hc hchannel hown
    rw [happend, List.filter_append]
    simp [hother]

theorem TaskStep.command_own {a : Command} (h : TaskStep s t (.command a) t') :
    canControl s t.conversationId = true := by
  cases h with
  | stopped now hown => exact hown
  | retried now hown => exact hown
  | approved a hown => exact hown
  | rejected a hown => exact hown

theorem command_tasksOf (h : Inv s) (a : Command) {c : Conversation} (hc : c ∈ s.conversations)
    (hchannel : c.origin = .channel) : tasksOf (command s a) c.id = tasksOf s c.id := by
  unfold tasksOf
  have hmoved : TasksMoved s (.command a) (command s a).tasks := (inv_apply h rfl).2
  generalize (command s a).tasks = tasks at hmoved
  cases hmoved with
  | same => rfl
  | one t t' ht hstep =>
    have hother := not_own_channel h hc hchannel hstep.command_own
    have hit : ∀ u ∈ s.tasks, (u.id == t'.id) = true → u = t := fun u hu he =>
      unique_of_nodup h.tasks.ids hu ht ((beq_iff_eq.mp he).trans hstep.same.id)
    refine filter_map_frame (fun u hu => ?_) fun u hu hmine => ?_
    · split
      · next he => rw [hit u hu he, hstep.same.conversationId]
      · rfl
    · split
      · next he =>
        rw [hit u hu he, beq_iff_eq] at hmine
        exact absurd hmine hother
      · rfl
  | sent t hfresh hstatus happroval hown => simp [not_own_channel h hc hchannel hown]
  | recovered hevent => cases hevent

theorem advanceDemo_stale (h : Inv s) (ht : t ∈ s.tasks) {attempt : Int}
    (hstale : attempt ≠ t.attempt) (now : Int) :
    advanceDemo s t.id attempt now = some s := by
  unfold advanceDemo
  rw [find_of_mem (f := fun t : Task => t.id) h.tasks.ids ht]
  simp [Ne.symm hstale]

theorem settleConnection_stale (h : Inv s) {c : Connection} (hc : c ∈ s.connections) {attempt : Int}
    (hstale : attempt ≠ c.attempt) : settleConnection s c.id attempt = s := by
  unfold settleConnection
  rw [find_of_mem (f := fun c : Connection => c.id) h.connections.ids hc]
  simp [Ne.symm hstale]

/-- Whatever was saved of a reachable state is loaded again. -/
theorem load_saved (h : Inv s) {accepts : Bool} {item stored : Item}
    (hsave : saveState accepts item s = (true, stored)) (now : Int) :
    loadState (some stored) now = ⟨recover s, none, false⟩ := by
  unfold saveState at hsave
  split at hsave
  · obtain rfl := (Prod.mk.inj hsave).2
    unfold loadState
    dsimp only
    rw [if_pos h.schema]
  · cases hsave

theorem desktop_state (s : AppState) (hr : Reachable s) :
    stateSchema s = true ∧
      (∀ accepts item stored now, saveState accepts item s = (true, stored) →
        loadState (some stored) now = ⟨recover s, none, false⟩) ∧
      (∀ t ∈ s.tasks, ∀ u ∈ s.tasks, t.conversationId = u.conversationId → active t.status = true →
        active u.status = true → t = u) ∧
      (s.notifications.map (·.eventKey)).Nodup ∧
      (∀ a, ∀ c ∈ s.conversations, c.origin = .channel →
        tasksOf (command s a) c.id = tasksOf s c.id ∧
          messagesOf (command s a) c.id = messagesOf s c.id) ∧
      (∀ t ∈ s.tasks, ∀ attempt, attempt ≠ t.attempt → ∀ now,
        advanceDemo s t.id attempt now = some s) ∧
      (∀ c ∈ s.connections, ∀ attempt, attempt ≠ c.attempt → settleConnection s c.id attempt = s) ∧
      (∀ s', ReflTransGen Step s s' → ∀ t ∈ s.tasks, ∀ a, t.approval = some a → ∀ t' ∈ s'.tasks,
        t'.id = t.id →
        t.attempt < t'.attempt → command s' (.approve t'.id a.id) = s') ∧
      ∀ e, ∃ s', apply s e = some s' ∧ ∀ t' ∈ s'.tasks,
        (t'.kind = .file → t'.status = .completed → canControl s t'.conversationId = true →
          (∃ t ∈ s.tasks, t.id = t'.id ∧ t.attempt = t'.attempt ∧ t.status = .completed) ∨
            Permitted s t') ∧
        ∀ a, t'.approval = some a → a.id = approvalId t'.id t'.attempt ∧ (a.status = .approved →
          (∃ t ∈ s.tasks, t.id = t'.id ∧ t.approval = some a) ∨
            e = .command (.approve t'.id a.id) ∧ canControl s t'.conversationId = true) := by
  have h := inv_reachable hr
  refine ⟨h.schema, fun accepts item stored now hsave => load_saved h hsave now, h.tasks.single,
    h.notifications.keys, fun a c hc hchannel =>
    ⟨command_tasksOf h a hc hchannel, command_messagesOf h a hc hchannel⟩,
    fun t ht attempt hstale now => advanceDemo_stale h ht hstale now, fun c hc attempt hstale =>
    settleConnection_stale h hc hstale, fun s' hrun t ht a ha t' ht' hid hlater => ?_, fun e => ?_⟩
  · obtain ⟨now, hstart⟩ := hr
    have h' : Inv s' := inv_reachable ⟨now, hstart.trans hrun⟩
    rw [(h.tasks.approval t ht).id a ha, ← hid]
    exact stale_approve h' ht' (h.tasks.attempt t ht) (ne_of_lt hlater)
  · obtain ⟨s', happly, hout⟩ := outcome_apply h e
    exact ⟨s', happly, fun t' ht' =>
      ⟨fun hkind hdone hown => completed_permitted h happly ht' hkind hdone hown,
      fun a ha => ⟨(hout.inv.tasks.approval t' ht').id a ha, approved_by_command h happly ht' ha⟩⟩⟩

/-- The first state after one message. -/
theorem desktop_state_sent :
    (∃ e, apply (createInitialState 0) e =
      some (send (createInitialState 0) home (js "hi") (js "u1") 1)) ∧
      stateSchema (send (createInitialState 0) home (js "hi") (js "u1") 1) = true := by
  have hstep : Step (createInitialState 0)
      (send (createInitialState 0) home (js "hi") (js "u1") 1) :=
    ⟨.command (.send home (js "hi") (js "u1") 1), rfl⟩
  exact ⟨hstep, (desktop_state _ ⟨0, .single hstep⟩).1⟩

end Orangutan.Desktop
