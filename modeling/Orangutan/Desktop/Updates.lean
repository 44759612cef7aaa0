import Orangutan.Desktop.Records

/-!
# Updates keep the records

How the steps of the state machine change each collection. A task changes only in the ways of
`TaskStep`; the other collections have one lemma for each kind of change.
-/

namespace Orangutan.Desktop

set_option autoImplicit false

/-- The state that a tick starts from when the task itself may go on. -/
structure Ticks (s : AppState) (t : Task) (c : Conversation) : Prop where
  status : t.status = .queued ∨ t.status = .running
  conversation : c ∈ s.conversations
  home : c.id = t.conversationId

/-- What one event does to one task. -/
inductive TaskStep (s : AppState) (t : Task) : Event → Task → Prop
  | stopped (now : Int) (own : canControl s t.conversationId = true)
      (status : active t.status = true) :
      TaskStep s t (.command (.stop t.id now))
        { t with
          status := .cancelling
          approval := t.approval.map fun a => if a.status = .pending then
            { a with status := .cancelled } else a }
  | retried (now : Int) (own : canControl s t.conversationId = true)
      (idle : ∀ u ∈ s.tasks, u.conversationId = t.conversationId → active u.status = false) :
      TaskStep s t (.command (.retry t.id now))
        { t with
          attempt := t.attempt + 1
          step := 0
          createdAt := now
          status := .queued
          shouldFail := false
          history := t.history ++ [(t.attempt, t.status)]
          approval := none
          artifact := none
          members := t.members.map fun m => { m with state := .waiting, result := [] } }
  | approved (a : TaskApproval) (own : canControl s t.conversationId = true)
      (answer : answerable t a.id = some a) :
      TaskStep s t (.command (.approve t.id a.id)) { t with
        status := .running, approval := some { a with status := .approved } }
  | rejected (a : TaskApproval) (own : canControl s t.conversationId = true)
      (answer : answerable t a.id = some a) :
      TaskStep s t (.command (.reject t.id a.id)) { t with
        status := .failed, approval := some { a with status := .rejected } }
  | cancelled (now : Int) (members : List Member) :
      TaskStep s t (.advanceDemo t.id t.attempt now) { t with status := .cancelled, members }
  | ticked (c : Conversation) (now : Int) (tick : Ticks s t c) (status : Status)
      (members : List Member)
      (unfinished : status = .running ∨ status = .failed) :
      TaskStep s t (.advanceDemo t.id t.attempt now) { t with status, step := t.step + 1, members }
  | awaits (c : Conversation) (now : Int) (tick : Ticks s t c) (members : List Member)
      (target : JsString) :
      TaskStep s t (.advanceDemo t.id t.attempt now)
        { t with
          status := .awaitingApproval
          step := t.step + 1
          members
          approval := some ⟨approvalId t.id t.attempt, .pending, target⟩ }
  | completed (c : Conversation) (now : Int) (ticks : Ticks s t c) (members : List Member)
      (artifact : Option Artifact)
      (pass : gate s (tick t) c = none) (late : 5 ≤ t.step + 1) :
      TaskStep s t (.advanceDemo t.id t.attempt now) { t with
        status := .completed, step := t.step + 1, members, artifact }

/-- What no event on a task changes. -/
structure Task.Same (a b : Task) : Prop where
  id : a.id = b.id
  conversationId : a.conversationId = b.conversationId
  requesterId : a.requesterId = b.requesterId
  sessionId : a.sessionId = b.sessionId
  kind : a.kind = b.kind

variable {s : AppState} {e : Event} {t t' : Task}

theorem TaskStep.same (h : TaskStep s t e t') : t'.Same t := by
  cases h <;> exact ⟨rfl, rfl, rfl, rfl, rfl⟩

theorem answerable_spec {id : JsString} {a : TaskApproval} (h : answerable t id = some a) :
    t.status = .awaitingApproval ∧ t.approval = some a ∧ a.id = id ∧ a.status = .pending := by
  unfold answerable at h
  split at h
  · cases h
  · next hstatus =>
    obtain ⟨happroval, htest⟩ := Option.filter_eq_some_iff.mp h
    simp only [Bool.and_eq_true, beq_iff_eq] at htest
    exact ⟨by simpa using hstatus, happroval, htest.1, htest.2⟩

theorem active_tick {c : Conversation} (h : Ticks s t c) : active t.status = true := by
  rcases h.status with h | h <;> rw [h] <;> rfl

/-- A task becomes active only by a retry, in a conversation that is idle. -/
theorem TaskStep.active (h : TaskStep s t e t') (hactive : active t'.status = true) :
    active t.status = true ∨ ∀ u ∈ s.tasks, u.conversationId = t.conversationId →
      active u.status = false := by
  cases h with
  | stopped now hown hstatus => exact .inl hstatus
  | retried now hown hidle => exact .inr hidle
  | approved a hown hanswer =>
    rw [(answerable_spec hanswer).1]
    exact .inl rfl
  | rejected a => cases hactive
  | cancelled => cases hactive
  | ticked c now htick => exact .inl (active_tick htick)
  | awaits c now htick => exact .inl (active_tick htick)
  | completed => cases hactive

theorem TaskStep.attempt (h : TaskStep s t e t') : t.attempt ≤ t'.attempt := by
  cases h <;> first | exact le_refl _ | exact Int.le_of_lt (Int.lt_succ _)

theorem TaskStep.step (h : TaskStep s t e t') (hstep : 0 ≤ t.step) : 0 ≤ t'.step := by
  cases h <;> first | exact hstep | exact le_refl _ | exact Int.add_nonneg hstep (by decide)

theorem TaskStep.approval (h : TaskStep s t e t') (ht : ApprovalOk t) : ApprovalOk t' := by
  cases h with
  | stopped now =>
    refine ⟨fun a ha => ?_, fun hruns => by rcases hruns with h | h <;> cases h⟩
    obtain ⟨b, hb, rfl⟩ := Option.map_eq_some_iff.mp ha
    split <;> exact ht.id b hb
  | retried now => exact ⟨fun a ha => (by cases ha), fun _ a ha => (by cases ha)⟩
  | approved a hown hanswer =>
    obtain ⟨-, happroval, -, -⟩ := answerable_spec hanswer
    refine ⟨fun b hb => ?_, fun _ b hb => ?_⟩ <;> obtain rfl := Option.some.inj hb
    · exact ht.id a happroval
    · rfl
  | rejected a hown hanswer =>
    obtain ⟨-, happroval, -, -⟩ := answerable_spec hanswer
    refine ⟨fun b hb => ?_, fun hruns => by rcases hruns with h | h <;> cases h⟩
    obtain rfl := Option.some.inj hb
    exact ht.id a happroval
  | cancelled => exact ⟨ht.id, fun hruns => by rcases hruns with h | h <;> cases h⟩
  | ticked c now htick => exact ⟨ht.id, fun _ => ht.runs htick.status⟩
  | awaits c now htick =>
    refine ⟨fun a ha => ?_, fun hruns => by rcases hruns with h | h <;> cases h⟩
    obtain rfl := Option.some.inj ha
    rfl
  | completed => exact ⟨ht.id, fun hruns => by rcases hruns with h | h <;> cases h⟩

/-- The map of `updateTask`. -/
def replaced (tasks : List Task) (task : Task) : List Task := tasks.map fun t => if t.id == task.id
    then task else t

theorem ids_replaced (tasks : List Task) (task : Task) :
    (replaced tasks task).map (·.id) = tasks.map (·.id) := by
  unfold replaced
  rw [List.map_map]
  refine List.map_congr_left fun t _ => ?_
  simp only [Function.comp_apply]
  split
  · next he => simpa using (beq_iff_eq.mp he).symm
  · rfl

theorem mem_replaced {tasks : List Task} {task : Task} (h : t ∈ replaced tasks task) :
    t = task ∨ t ∈ tasks ∧ t.id ≠ task.id := by
  obtain ⟨u, hu, rfl⟩ := List.mem_map.mp h
  split
  · exact .inl rfl
  · next hne => exact .inr ⟨hu, by simpa using hne⟩

theorem TasksOk.replaced {conversations : List Conversation} (h : TasksOk conversations s.tasks)
    (ht : t ∈ s.tasks) (hstep : TaskStep s t e t') :
    TasksOk conversations (Desktop.replaced s.tasks t') := by
  have hsame := hstep.same
  have hold : ∀ {u}, u ∈ s.tasks ∧ u.id ≠ t'.id → u ∈ s.tasks ∧ u ≠ t := fun hu =>
    ⟨hu.1, fun he => hu.2 (by rw [he, hsame.id])⟩
  refine ⟨(ids_replaced s.tasks t').symm ▸ h.ids, fun u hu => ?_, fun u hu => ?_, fun u hu => ?_,
    fun u hu v hv hconv hau hav => ?_, fun u hu => ?_⟩
  · rcases mem_replaced hu with rfl | hu
    · rw [hsame.conversationId, hsame.requesterId, hsame.sessionId]
      exact h.owned t ht
    · exact h.owned u hu.1
  · rcases mem_replaced hu with rfl | hu
    · exact lt_of_lt_of_le (h.attempt t ht) hstep.attempt
    · exact h.attempt u hu.1
  · rcases mem_replaced hu with rfl | hu
    · exact hstep.step (h.step t ht)
    · exact h.step u hu.1
  · -- an active task beside an active `t'` was active beside `t`, or there was none
    have hbeside : ∀ {u}, u ∈ s.tasks ∧ u ≠ t → active u.status = true → active t'.status = true →
        u.conversationId ≠ t.conversationId := by
      intro u hu hau hat hconv
      rcases hstep.active hat with hat | hidle
      · exact hu.2 (h.single u hu.1 t ht hconv hau hat)
      · rw [hidle u hu.1 hconv] at hau
        cases hau
    rcases mem_replaced hu with rfl | hu <;> rcases mem_replaced hv with rfl | hv
    · rfl
    · exact absurd (hconv.symm.trans hsame.conversationId) (hbeside (hold hv) hav hau)
    · exact absurd (hconv.trans hsame.conversationId) (hbeside (hold hu) hau hav)
    · exact h.single u hu.1 v hv.1 hconv hau hav
  · rcases mem_replaced hu with rfl | hu
    · exact hstep.approval (h.approval t ht)
    · exact h.approval u hu.1

theorem Inv.updateTask (h : Inv s) (ht : t ∈ s.tasks) (hstep : TaskStep s t e t') :
    Inv (updateTask s t') :=
  { connections := h.connections
    chats := h.chats
    tasks := h.tasks.replaced ht hstep
    messages := (ids_replaced s.tasks t').symm ▸ h.messages
    notes := h.notes
    notifications := h.notifications }

theorem colon_attemptKey (id : JsString) (attempt : Int) : 0x3A ∈ attemptKey id attempt :=
  List.mem_append_left _ (List.mem_append_right _ (by decide))

theorem colon_noticeKey (id : JsString) (attempt : Int) (kind : NotificationKind) :
    0x3A ∈ noticeKey id attempt kind :=
  List.mem_append_left _ (List.mem_append_left _ (colon_attemptKey id attempt))

theorem colon_userMessageId (id : JsString) : 0x3A ∈ userMessageId id :=
    List.mem_append_right _ (by decide)

theorem userMessageId_injective {a b : JsString} (h : userMessageId a = userMessageId b) : a = b :=
    List.append_cancel_right h

theorem userMessageId_ne_replyId (a b : JsString) (attempt : Int) :
    userMessageId a ≠ replyId b attempt := by
  intro h
  have hlast := congrArg List.getLast? h
  unfold userMessageId replyId at hlast
  rw [List.getLast?_append_of_ne_nil _ (by decide),
    List.getLast?_append_of_ne_nil _ (by decide)] at hlast
  exact absurd hlast (by decide)

theorem approvalId_injective {id : JsString} {m n : Int} (hm : 0 < m) (hn : 0 < n)
    (h : approvalId id m = approvalId id n) :
    m = n := by
  unfold approvalId attemptKey at h
  exact JsString.ofInt_injective hm hn (List.append_cancel_left (List.append_cancel_right h))

theorem inv_notify (h : Inv s) {n : Notification} (hkey : n.id = n.eventKey)
    (hcolon : 0x3A ∈ n.id) : Inv (notify s n) := by
  unfold notify
  split
  · exact h
  next hguard =>
  have hnew : ∀ m ∈ s.notifications, m.eventKey ≠ n.eventKey := by
    intro m hm he
    refine hguard (Bool.or_eq_true _ _ |>.mpr (.inr (List.any_eq_true.mpr ⟨m, hm, ?_⟩)))
    simpa using he
  refine { h with notifications := ⟨List.nodup_cons.mpr ⟨fun hmem => ?_, h.notifications.ids⟩,
    List.nodup_cons.mpr ⟨fun hmem => ?_, h.notifications.keys⟩, fun m hm => ?_⟩ }
  · obtain ⟨m, hm, hid⟩ := List.mem_map.mp hmem
    rcases h.notifications.named m hm with hname | hplain
    · exact hnew m hm (hname.symm.trans (hid.trans hkey))
    · exact hplain (hid.symm ▸ hcolon)
  · obtain ⟨m, hm, he⟩ := List.mem_map.mp hmem
    exact hnew m hm he
  · rcases List.mem_cons.mp hm with rfl | hm
    · exact .inl hkey
    · exact h.notifications.named m hm

theorem tasks_notify (s : AppState) (n : Notification) : (notify s n).tasks = s.tasks := by
  unfold notify
  split <;> rfl

theorem inv_taskNotice (h : Inv s) (task : Task) (kind : NotificationKind) :
    Inv (taskNotice s task kind) :=
  inv_notify h rfl (colon_noticeKey _ _ _)

theorem tasks_taskNotice (s : AppState) (task : Task) (kind : NotificationKind) :
    (taskNotice s task kind).tasks = s.tasks :=
  tasks_notify s _

theorem MessagesOk.map {conversations : List Conversation} {taskIds : List JsString}
    {messages : List Message} (h : MessagesOk conversations taskIds messages)
    {f : Message → Message} (hid : ∀ m, (f m).id = m.id)
    (hhome : ∀ m, (f m).conversationId = m.conversationId ∨ ∃ c ∈ conversations,
    c.id = (f m).conversationId) :
    MessagesOk conversations taskIds (messages.map f) := by
  have hids : (messages.map f).map (·.id) = messages.map (·.id) := by
    rw [List.map_map]
    exact List.map_congr_left fun m _ => hid m
  refine ⟨hids ▸ h.ids, fun m' hm' => ?_, fun m' hm' => ?_⟩ <;> obtain ⟨m, hm, rfl⟩ :=
    List.mem_map.mp hm'
  · rcases hhome m with hsame | hnew
    · rw [hsame]
      exact h.home m hm
    · exact hnew
  · rw [hid]
    exact h.named m hm

theorem MessagesOk.append {conversations : List Conversation} {taskIds : List JsString}
    {messages : List Message} (h : MessagesOk conversations taskIds messages) {m : Message}
    (hfresh : ∀ m' ∈ messages, m'.id ≠ m.id) (hhome : ∃ c ∈ conversations, c.id = m.conversationId)
    (hnamed : ∃ t ∈ taskIds, m.id = userMessageId t ∨ ∃ attempt, m.id = replyId t attempt) :
    MessagesOk conversations taskIds (messages ++ [m]) := by
  refine ⟨?_, fun m' hm' => ?_, fun m' hm' => ?_⟩
  · rw [List.map_append]
    refine List.nodup_append.mpr ⟨h.ids, List.nodup_singleton _, fun id hid id' hid' => ?_⟩
    obtain ⟨m', hm', rfl⟩ := List.mem_map.mp hid
    obtain rfl := List.mem_singleton.mp hid'
    exact hfresh m' hm'
  all_goals rcases List.mem_append.mp hm' with hold | hnew
  · exact h.home m' hold
  · obtain rfl := List.mem_singleton.mp hnew
    exact hhome
  · exact h.named m' hold
  · obtain rfl := List.mem_singleton.mp hnew
    exact .inr hnamed

theorem MessagesOk.grow {conversations : List Conversation} {taskIds : List JsString}
    {messages : List Message} (h : MessagesOk conversations taskIds messages) (id : JsString) :
    MessagesOk conversations (id :: taskIds) messages :=
  { h with
    named := fun m hm => by
      rcases h.named m hm with hplain | ⟨t, ht, hname⟩
      · exact .inl hplain
      · exact .inr ⟨t, List.mem_cons_of_mem id ht, hname⟩ }

/-- No message has the name of the first message of a new task. -/
theorem MessagesOk.fresh {conversations : List Conversation} {taskIds : List JsString}
    {messages : List Message} (h : MessagesOk conversations taskIds messages) {id : JsString}
    (hid : id ∉ taskIds) :
    ∀ m ∈ messages, m.id ≠ userMessageId id := by
  intro m hm he
  rcases h.named m hm with hplain | ⟨t, ht, hname | ⟨attempt, hname⟩⟩
  · exact hplain (he ▸ colon_userMessageId id)
  · exact hid (userMessageId_injective (he.symm.trans hname) ▸ ht)
  · exact userMessageId_ne_replyId id t attempt (he.symm.trans hname)

end Orangutan.Desktop
