import Orangutan.Desktop.Updates

/-!
# Transitions

Every event leads to a state with sound records, and moves the tasks in one of four ways.
-/

namespace Orangutan.Desktop

set_option autoImplicit false

/-- What an event does to the list of tasks. -/
inductive TasksMoved (s : AppState) (e : Event) : List Task → Prop
  | same : TasksMoved s e s.tasks
  | one (t t' : Task) (mem : t ∈ s.tasks) (step : TaskStep s t e t') :
      TasksMoved s e (replaced s.tasks t')
  | sent (t : Task) (fresh : t.id ∉ s.tasks.map (·.id)) (status : t.status = .queued)
      (approval : t.approval = none)
      (own : canControl s t.conversationId = true) : TasksMoved s e (t :: s.tasks)
  | recovered (event : e = .recover) : TasksMoved s e (s.tasks.map recoverTask)

structure Outcome (s : AppState) (e : Event) (s' : AppState) : Prop where
  inv : Inv s'
  tasks : TasksMoved s e s'.tasks

variable {s : AppState} {e : Event} {t t' : Task}

/-- The tasks stay. -/
theorem Outcome.idle {s' : AppState} (h : Inv s') (htasks : s'.tasks = s.tasks) : Outcome s e s' :=
  ⟨h, htasks ▸ .same⟩

theorem Outcome.update (h : Inv s) (ht : t ∈ s.tasks) (hstep : TaskStep s t e t') :
    Outcome s e (updateTask s t') :=
  ⟨h.updateTask ht hstep, .one t t' ht hstep⟩

theorem Outcome.notice {s' : AppState} (h : Outcome s e s') (task : Task)
    (kind : NotificationKind) :
    Outcome s e (taskNotice s' task kind) :=
  ⟨inv_taskNotice h.inv task kind, (tasks_taskNotice s' task kind).symm ▸ h.tasks⟩

theorem outcome_select (h : Inv s) (id : JsString) : Outcome s e (select s id) := by
  unfold select
  split
  · exact .idle h rfl
  next hany =>
  have hf : ∀ c : Conversation, (if c.id == id then { c with unread := 0 } else c).SameFace c := by
    intro c
    split <;> exact ⟨rfl, rfl, rfl, rfl, rfl, rfl⟩
  have hmap := h.mapConversations hf fun c hc => by split <;> first | exact le_refl _ | exact hc
  refine .idle { hmap with chats := { hmap.chats with selected := ?_ } } rfl
  have hfound : s.conversations.any (fun c => c.id == id) = true := by simpa using hany
  obtain ⟨c, hc, hid⟩ := List.any_eq_true.mp hfound
  exact ⟨_, List.mem_map_of_mem hc, (hf c).id.trans (by simpa using hid)⟩

theorem outcome_newConversation (h : Inv s) (locator : JsString) :
    Outcome s e (newConversation s locator) := by
  unfold newConversation
  dsimp only
  split
  · exact .idle h rfl
  next hany =>
  have hfresh : conversationKey desktop locator ∉ s.conversations.map (·.id) := by
    intro hmem
    obtain ⟨c, hc, hid⟩ := List.mem_map.mp hmem
    exact hany (List.any_eq_true.mpr ⟨c, hc, by simpa using hid⟩)
  have hcons := Covers.cons
    { id := conversationKey desktop locator, connectionId := desktop, locator,
      requesterId := requesterKey desktop (js "you"), sessionId := locator,
      name := say s.settings.language (js "新的对话") (js "New conversation"),
      origin := .desktop, unread := 0 } s.conversations
  refine .idle { h with
    chats := ?_, tasks := h.tasks.covers hcons, messages := h.messages.covers hcons } rfl
  refine ⟨List.nodup_cons.mpr ⟨hfresh, h.chats.ids⟩, ⟨_, List.mem_cons_self, rfl⟩, ?_, ?_, ?_, ?_⟩
  all_goals
    intro c hc
    rcases List.mem_cons.mp hc with rfl | hc
  · rfl
  · exact h.chats.key c hc
  · exact fun horigin => (by cases horigin)
  · exact h.chats.channel c hc
  · exact fun _ => rfl
  · exact h.chats.own c hc
  · exact le_refl _
  · exact h.chats.unread c hc

theorem outcome_rename (h : Inv s) (conversationId text : JsString) :
    Outcome s e (rename s conversationId text) := by
  unfold rename
  dsimp only
  split
  · exact .idle h rfl
  · refine .idle (h.mapConversations (fun c => ?_) fun c hc => ?_) rfl
    · split <;> exact ⟨rfl, rfl, rfl, rfl, rfl, rfl⟩
    · split <;> exact hc

theorem outcome_draft (h : Inv s) (conversationId text : JsString) :
    Outcome s e (draft s conversationId text) := by
  unfold draft
  split
  · exact .idle { h with } rfl
  · exact .idle h rfl

theorem outcome_send (h : Inv s) (conversationId input id : JsString) (now : Int) :
    Outcome s e (send s conversationId input id now) := by
  unfold send
  dsimp only
  split
  · exact .idle h rfl
  next c hfind =>
  split
  · exact .idle h rfl
  next hguard =>
  obtain ⟨hc, -⟩ := name_of_find (f := fun c : Conversation => c.id) hfind
  obtain ⟨⟨hcontrol, -⟩, htasks⟩ : (canControl s c.id = true ∧ _) ∧ _ := by
    simpa only [Bool.or_eq_true, not_or, Bool.not_eq_true', Bool.not_eq_false] using hguard
  have hnone : ∀ t ∈ s.tasks, t.id ≠ id ∧ (t.conversationId = c.id → active t.status = false) := by
    intro t ht
    have hno := fun htest => htasks (List.any_eq_true.mpr ⟨t, ht, htest⟩)
    refine ⟨fun he => hno (by simp [he]), fun he => ?_⟩
    by_contra hactive
    exact hno (by simp [he, hactive])
  have hid : id ∉ s.tasks.map (·.id) := by
    intro hmem
    obtain ⟨t, ht, he⟩ := List.mem_map.mp hmem
    exact (hnone t ht).1 he
  have hface : ∀ v : Conversation,
    (if v.id == c.id && v.customName != some true && !s.messages.any (·.conversationId == c.id)
      then { v with name := input.trim.take 20 } else v).SameFace v := by
    intro v
    split <;> exact ⟨rfl, rfl, rfl, rfl, rfl, rfl⟩
  have hmap := h.mapConversations hface fun v hv => by split <;> exact hv
  have hcovers : Covers s.conversations _ := Covers.map hface
  obtain ⟨c', hc', hsame⟩ := hcovers c hc
  refine ⟨{ hmap with tasks := ?_, messages := ?_ }, .sent _ hid rfl rfl hcontrol⟩
  · refine ⟨List.nodup_cons.mpr ⟨hid, h.tasks.ids⟩, ?_, ?_, ?_, ?_, ?_⟩
    · intro t ht
      rcases List.mem_cons.mp ht with rfl | ht
      · exact ⟨c', hc', hsame.id, hsame.requesterId, hsame.sessionId⟩
      · exact hmap.tasks.owned t ht
    · intro t ht
      rcases List.mem_cons.mp ht with rfl | ht
      · exact Int.one_pos
      · exact h.tasks.attempt t ht
    · intro t ht
      rcases List.mem_cons.mp ht with rfl | ht
      · exact le_refl _
      · exact h.tasks.step t ht
    · intro t ht u hu hconv hat hau
      rcases List.mem_cons.mp ht with rfl | ht <;> rcases List.mem_cons.mp hu with rfl | hu
      · rfl
      · rw [(hnone u hu).2 hconv.symm] at hau
        cases hau
      · rw [(hnone t ht).2 hconv] at hat
        cases hat
      · exact h.tasks.single t ht u hu hconv hat hau
    · intro t ht
      rcases List.mem_cons.mp ht with rfl | ht
      · exact ⟨fun a ha => (by cases ha), fun _ a ha => (by cases ha)⟩
      · exact h.tasks.approval t ht
  · exact (hmap.messages.grow id).append (hmap.messages.fresh hid) ⟨c', hc', hsame.id⟩
      ⟨id, List.mem_cons_self, .inl rfl⟩

theorem outcome_onTask (h : Inv s) {taskId : JsString} {f : Task → AppState}
    (hf : ∀ t ∈ s.tasks, t.id = taskId → canControl s t.conversationId = true → Outcome s e (f t)) :
    Outcome s e (onTask s taskId f) := by
  unfold onTask
  split
  · exact .idle h rfl
  next t hfind =>
  obtain ⟨ht, hid⟩ := name_of_find (f := fun t : Task => t.id) hfind
  split
  · next hcontrol => exact hf t ht hid hcontrol
  · exact .idle h rfl

theorem outcome_stop (h : Inv s) (ht : t ∈ s.tasks) (hown : canControl s t.conversationId = true)
    (now : Int) : Outcome s (.command (.stop t.id now)) (stop s t) := by
  unfold stop
  split
  · exact .idle h rfl
  next hguard =>
  have hactive : active t.status = true := by
    by_contra hidle
    exact hguard (by simp [hidle])
  exact .update h ht (.stopped now hown hactive)

theorem outcome_retry (h : Inv s) (ht : t ∈ s.tasks) (hown : canControl s t.conversationId = true)
    (now : Int) :
    Outcome s (.command (.retry t.id now)) (retry s t now) := by
  unfold retry
  split
  · exact .idle h rfl
  next hguard =>
  refine .update h ht (.retried now hown fun u hu hconv => ?_)
  by_contra hactive
  have hactive : active u.status = true := by simpa using hactive
  exact hguard (Bool.or_eq_true _ _ |>.mpr
    (.inr (List.any_eq_true.mpr ⟨u, hu, by simp [hconv, hactive]⟩)))

theorem outcome_approve (h : Inv s) (ht : t ∈ s.tasks) (hown : canControl s t.conversationId = true)
    (id : JsString) :
    Outcome s (.command (.approve t.id id)) (approve s t id) := by
  unfold approve
  split
  · exact .idle h rfl
  next a hanswer =>
  split
  · exact .idle h rfl
  · obtain rfl := (answerable_spec hanswer).2.2.1
    exact .update h ht (.approved a hown hanswer)

theorem outcome_reject (h : Inv s) (ht : t ∈ s.tasks) (hown : canControl s t.conversationId = true)
    (id : JsString) :
    Outcome s (.command (.reject t.id id)) (reject s t id) := by
  unfold reject
  split
  · exact .idle h rfl
  next a hanswer =>
  obtain rfl := (answerable_spec hanswer).2.2.1
  exact (Outcome.update h ht (.rejected a hown hanswer)).notice t .failed

/-- Connections change under their names. -/
theorem inv_connections (h : Inv s) {f : Connection → Connection} (hid : ∀ c, (f c).id = c.id)
    (hattempt : ∀ c, 0 ≤ c.attempt → 0 ≤ (f c).attempt) :
      Inv { s with connections := s.connections.map f } := by
  have hids : (s.connections.map f).map (·.id) = s.connections.map (·.id) := by
    rw [List.map_map]
    exact List.map_congr_left fun c _ => hid c
  refine { h with
    connections := ⟨hids ▸ h.connections.ids, fun c' hc' => ?_⟩, chats := hids.symm ▸ h.chats }
  obtain ⟨c, hc, rfl⟩ := List.mem_map.mp hc'
  exact hattempt c (h.connections.attempt c hc)

theorem outcome_setConnection (h : Inv s) (id : JsString) (status : ConnectionStatus)
    (account : Option JsString) (simulateFailure : Option Bool) :
    Outcome s e (setConnection s id status account simulateFailure) := by
  refine .idle (inv_connections h (fun c => ?_) fun c hc => ?_) rfl
  · split <;> rfl
  · split
    · exact Int.add_nonneg hc (by decide)
    · exact hc

theorem outcome_noteSave (h : Inv s) (note : Note) : Outcome s e (noteSave s note) := by
  unfold noteSave
  split
  · exact .idle h rfl
  next old hfind =>
  split
  · exact .idle h rfl
  next hguard =>
  obtain ⟨hold, hid⟩ := name_of_find (f := fun n : Note => n.id) hfind
  simp only [Bool.or_eq_true, not_or, bne_iff_ne, ne_eq, not_not] at hguard
  obtain ⟨⟨⟨hscope, howner⟩, -⟩, -⟩ := hguard
  have hids : (s.notes.map fun n => if n.id == old.id then note else n).map (·.id) =
      s.notes.map (·.id) := by
    rw [List.map_map]
    refine List.map_congr_left fun n _ => ?_
    simp only [Function.comp_apply]
    split
    · next he => rw [beq_iff_eq.mp he, hid]
    · rfl
  refine .idle { h with notes := ⟨hids ▸ h.notes.ids, fun n' hn' => ?_⟩ } rfl
  obtain ⟨n, hn, rfl⟩ := List.mem_map.mp hn'
  split
  · rw [← hscope, ← howner]
    exact h.notes.scope old hold
  · exact h.notes.scope n hn

theorem inv_noteDelete (h : Inv s) (id : JsString) :
    Inv { s with notes := s.notes.filter (·.id != id) } :=
  { h with
    notes := ⟨((List.filter_sublist).map _).nodup h.notes.ids,
      fun n hn => h.notes.scope n (List.mem_filter.mp hn).1⟩ }

theorem inv_readNotification (h : Inv s) (id : JsString) :
    Inv { s with notifications := s.notifications.map fun n => if n.id == id
      then { n with read := true } else n } := by
  have hsame : ∀ (f : Notification → JsString), (∀ n b, f { n with read := b } = f n) →
      (s.notifications.map fun n => if n.id == id then { n with read := true } else n).map f =
        s.notifications.map f := by
    intro f hf
    rw [List.map_map]
    refine List.map_congr_left fun n _ => ?_
    simp only [Function.comp_apply]
    split
    · exact hf n true
    · rfl
  refine { h with notifications := ⟨(hsame (·.id) fun _ _ => rfl) ▸ h.notifications.ids,
    (hsame (·.eventKey) fun _ _ => rfl) ▸ h.notifications.keys, fun n' hn' => ?_⟩ }
  obtain ⟨n, hn, rfl⟩ := List.mem_map.mp hn'
  split <;> exact h.notifications.named n hn

theorem outcome_command (h : Inv s) (a : Command) : Outcome s (.command a) (command s a) := by
  cases a with
  | select id => exact outcome_select h id
  | new id now => exact outcome_newConversation h id
  | rename conversationId name => exact outcome_rename h conversationId name
  | draft conversationId text => exact outcome_draft h conversationId text
  | send conversationId text id now => exact outcome_send h conversationId text id now
  | stop taskId now => exact outcome_onTask h fun t ht hid hown => hid ▸ outcome_stop h ht hown now
  | retry taskId now => exact outcome_onTask h fun t ht hid hown =>
      hid ▸ outcome_retry h ht hown now
  | approve taskId id => exact outcome_onTask h fun t ht hid hown =>
      hid ▸ outcome_approve h ht hown id
  | reject taskId id => exact outcome_onTask h fun t ht hid hown =>
      hid ▸ outcome_reject h ht hown id
  | settings value => exact .idle { h with } rfl
  | connect id account simulateFailure => exact outcome_setConnection h id _ account simulateFailure
  | disconnect id account simulateFailure =>
      exact outcome_setConnection h id _ account simulateFailure
  | noteSave note => exact outcome_noteSave h note
  | noteDelete id => exact .idle (inv_noteDelete h id) rfl
  | readNotification id => exact .idle (inv_readNotification h id) rfl

theorem outcome_settleConnection (h : Inv s) (id : JsString) (attempt : Int) :
    Outcome s e (settleConnection s id attempt) := by
  unfold settleConnection
  split
  · exact .idle h rfl
  split
  · exact .idle h rfl
  next c hfind hguard =>
  have hnext : ∀ status, Inv { s with connections := s.connections.map fun v => if v.id == id
      then { v with status } else v } :=
    fun status => inv_connections h (fun v => by split <;> rfl) fun v hv => by split <;> exact hv
  dsimp only
  split
  · refine .idle (inv_notify (hnext .error) rfl ?_) (tasks_notify _ _)
    exact List.mem_append_left _ (colon_attemptKey _ _)
  · exact .idle (hnext .connected) rfl

theorem active_recoverTask (t : Task) : active (recoverTask t).status = false := by
  unfold recoverTask
  dsimp only
  split
  · rfl
  · next h => simpa using h

theorem approval_recoverTask (h : ApprovalOk t) : ApprovalOk (recoverTask t) := by
  refine ⟨fun a ha => ?_, fun hruns => ?_⟩
  · obtain ⟨b, hb, rfl⟩ := Option.map_eq_some_iff.mp ha
    split <;> exact h.id b hb
  · have hidle := active_recoverTask t
    rcases hruns with hruns | hruns <;> rw [hruns] at hidle <;> cases hidle

theorem outcome_recover (h : Inv s) : Outcome s .recover (recover s) := by
  have hids : (s.tasks.map recoverTask).map (·.id) = s.tasks.map (·.id) := by
    rw [List.map_map]
    rfl
  have hconnections := inv_connections h (f :=
    fun c => { c with status := .disconnected, attempt := c.attempt + 1 })
    (fun _ => rfl) fun c hc => Int.add_nonneg hc (by decide)
  have hmessages := h.messages.map (f := fun m => if m.state = .streaming then
    { m with state := .interrupted } else m)
    (fun m => by split <;> rfl) fun m => .inl (by split <;> rfl)
  refine ⟨{ hconnections with tasks := ?_, messages := hids.symm ▸ hmessages }, .recovered rfl⟩
  refine ⟨hids ▸ h.tasks.ids, ?_, ?_, ?_, ?_, ?_⟩
  all_goals
    intro t' ht'
    obtain ⟨t, ht, rfl⟩ := List.mem_map.mp ht'
  · exact h.tasks.owned t ht
  · exact h.tasks.attempt t ht
  · exact h.tasks.step t ht
  · intro u _ _ hactive
    rw [active_recoverTask] at hactive
    cases hactive
  · exact approval_recoverTask (h.tasks.approval t ht)

theorem replaced_replaced (tasks : List Task) (hid : t'.id = t.id) :
    replaced (replaced tasks t) t' = replaced tasks t' := by
  unfold replaced
  rw [List.map_map]
  refine List.map_congr_left fun u _ => ?_
  simp only [Function.comp_apply, hid]
  by_cases hu : (u.id == t.id) = true
  · rw [if_pos hu, if_pos (beq_self_eq_true _), if_pos hu]
  · rw [if_neg hu, if_neg hu]

/-- The messages with the current reply, which replaces an earlier part of itself. -/
theorem messages_reply {conversations : List Conversation} {taskIds : List JsString}
    {messages : List Message} (h : MessagesOk conversations taskIds messages) {m : Message}
    {id : JsString} {attempt : Int} (hid : id ∈ taskIds) (hname : m.id = replyId id attempt)
    (hhome : ∃ c ∈ conversations, c.id = m.conversationId) :
    MessagesOk conversations taskIds
      (if (messages.find? (·.id == replyId id attempt)).isSome then
        messages.map fun m' => if m'.id == replyId id attempt then m else m'
      else messages ++ [m]) := by
  split
  · refine h.map (fun m' => ?_) fun m' => ?_
    · split
      · next he => rw [hname, beq_iff_eq.mp he]
      · rfl
    · split
      · exact .inr hhome
      · exact .inl rfl
  · next hnone =>
    refine h.append (fun m' hm' he => hnone ?_) hhome ⟨id, hid, .inr ⟨attempt, hname⟩⟩
    rw [List.find?_isSome]
    exact ⟨m', hm', by simp [he, hname]⟩

theorem inv_remember (h : Inv s) (task : Task) (c : Conversation) (now : Int) :
    Inv (remember s task c now) := by
  unfold remember
  dsimp only
  split
  · next hguard =>
    simp only [Bool.and_eq_true, Bool.not_eq_true', List.any_eq_false] at hguard
    refine { h with notes := ⟨?_, fun n hn => ?_⟩ }
    · rw [List.map_append]
      refine List.nodup_append.mpr ⟨h.notes.ids, List.nodup_singleton _, fun id hid id' hid' => ?_⟩
      obtain ⟨n, hn, rfl⟩ := List.mem_map.mp hid
      obtain rfl := List.mem_singleton.mp hid'
      simpa using hguard.2 n hn
    · rcases List.mem_append.mp hn with hn | hn
      · exact h.notes.scope n hn
      · obtain rfl := List.mem_singleton.mp hn
        exact ⟨fun hc => (by cases hc), fun hc => (by cases hc)⟩
  · exact h

theorem tasks_remember (s : AppState) (task : Task) (c : Conversation) (now : Int) :
    (remember s task c now).tasks = s.tasks := by
  unfold remember
  dsimp only
  split <;> rfl

theorem outcome_reply (h : Inv s) (ht : t ∈ s.tasks) {c : Conversation} (hticks : Ticks s t c)
    (hpass : gate s (tick t) c = none) (hlate : 5 ≤ t.step + 1) (now : Int) :
    Outcome s (.advanceDemo t.id t.attempt now) (reply s (tick t) c now) := by
  have hid : t.id ∈ s.tasks.map (·.id) := List.mem_map_of_mem ht
  have hmessages : ∀ t', TaskStep s t (.advanceDemo t.id t.attempt now) t' → ∀ tasks,
    tasks = replaced s.tasks t' →
      ∀ m : Message, m.id = replyId t.id t.attempt → m.conversationId = c.id → Inv { s with
        tasks
        messages := if (s.messages.find? (·.id == replyId t.id t.attempt)).isSome then
            s.messages.map fun m' => if m'.id == replyId t.id t.attempt then m else m'
          else s.messages ++ [m] } := by
    rintro t' hstep _ rfl m hname hconv
    have hupdate := h.updateTask ht hstep
    exact { hupdate with
      messages := (ids_replaced s.tasks t').symm ▸
        messages_reply h.messages hid hname ⟨c, hticks.conversation, hconv.symm⟩ }
  unfold reply
  dsimp only
  split
  · have hstep : TaskStep s t (.advanceDemo t.id t.attempt now) (tick t) :=
      .ticked c now hticks .running _ (.inl rfl)
    exact ⟨hmessages _ hstep _ rfl _ rfl rfl, .one t _ ht hstep⟩
  · generalize responseFor (tick t) s.settings.memory = fullText
    have hstep : TaskStep s t (.advanceDemo t.id t.attempt now) (completeTask (tick t) fullText) :=
      .completed c now hticks _ _ hpass hlate
    have htwice : replaced (replaced s.tasks (tick t)) (completeTask (tick t) fullText) =
        replaced s.tasks (completeTask (tick t) fullText) := replaced_replaced s.tasks rfl
    have hmap := fun m hname hconv => (hmessages _ hstep _ htwice m hname hconv).mapConversations
      (f := fun v => if v.id == c.id && c.id != s.selectedId
        then { v with unread := v.unread + 1 } else v)
      (fun v => by split <;> exact ⟨rfl, rfl, rfl, rfl, rfl, rfl⟩)
      fun v hv => by split <;> first | exact Int.add_nonneg hv (by decide) | exact hv
    refine Outcome.notice ⟨inv_remember (hmap _ rfl rfl) _ _ _, ?_⟩ _ _
    rw [tasks_remember]
    change TasksMoved s _ (replaced (replaced s.tasks (tick t)) (completeTask (tick t) fullText))
    rw [htwice]
    exact .one t _ ht hstep

theorem outcome_cancelTask (h : Inv s) (ht : t ∈ s.tasks) (now : Int) :
    Outcome s (.advanceDemo t.id t.attempt now) (cancelTask s t) := by
  have hupdate := Outcome.update h ht (.cancelled now
    (t.members.map fun m => if m.state = .done ∨ m.state = .failed then m
      else { m with state := .stopped }))
  refine ⟨{ hupdate.inv with messages := hupdate.inv.messages.map (fun m => ?_) fun m => .inl ?_ },
    hupdate.tasks⟩
  all_goals split <;> rfl

theorem outcome_gate (h : Inv s) (ht : t ∈ s.tasks) {c : Conversation} (hticks : Ticks s t c)
    (now : Int) {s' : AppState} (hgate : gate s (tick t) c = some s') :
    Outcome s (.advanceDemo t.id t.attempt now) s' := by
  unfold gate at hgate
  split at hgate
  · split at hgate
    · obtain rfl := Option.some.inj hgate
      exact (Outcome.update h ht (.ticked c now hticks .failed _ (.inr rfl))).notice _ _
    · obtain rfl := Option.some.inj hgate
      exact (Outcome.update h ht (.awaits c now hticks _ _)).notice _ _
    · cases hgate
  · cases hgate

/-- The lookups of a tick succeed, and the state it leads to is sound. -/
theorem outcome_advanceDemo (h : Inv s) (taskId : JsString) (attempt now : Int) :
    ∃ s', advanceDemo s taskId attempt now = some s' ∧
      Outcome s (.advanceDemo taskId attempt now) s' := by
  unfold advanceDemo
  split
  · exact ⟨s, rfl, .idle h rfl⟩
  next t hfind =>
  obtain ⟨ht, rfl⟩ := name_of_find (f := fun t : Task => t.id) hfind
  split
  · exact ⟨s, rfl, .idle h rfl⟩
  next hguard =>
  simp only [Bool.or_eq_true, not_or, bne_iff_ne, ne_eq, not_not, Bool.not_eq_true',
    Bool.not_eq_false, beq_iff_eq] at hguard
  obtain ⟨⟨rfl, hactive⟩, hawaiting⟩ := hguard
  obtain ⟨c, hc, hhome, -⟩ := h.tasks.owned t ht
  have hlookup : s.conversations.find? (·.id == t.conversationId) = some c :=
    hhome ▸ find_of_mem (f := fun c : Conversation => c.id) h.chats.ids hc
  rw [hlookup]
  dsimp only
  split
  · exact ⟨s, rfl, .idle h rfl⟩
  split
  · exact ⟨_, rfl, outcome_cancelTask h ht now⟩
  next hcancelling =>
  have hticks : Ticks s t c := by
    refine ⟨?_, hc, hhome⟩
    cases hstatus : t.status with
    | queued => exact .inl rfl
    | running => exact .inr rfl
    | awaitingApproval => exact absurd hstatus hawaiting
    | cancelling => rw [hstatus] at hcancelling; exact absurd rfl hcancelling
    | _ => rw [hstatus] at hactive; cases hactive
  split
  · next next hgate => exact ⟨next, rfl, outcome_gate h ht hticks now hgate⟩
  next hgate =>
  split
  · exact ⟨_, rfl, (Outcome.update h ht (.ticked c now hticks .failed _ (.inr rfl))).notice _ _⟩
  split
  · exact ⟨_, rfl, .update h ht (.ticked c now hticks .running _ (.inl rfl))⟩
  · next hstep => exact ⟨_, rfl, outcome_reply h ht hticks hgate (Int.not_lt.mp hstep) now⟩

theorem outcome_apply (h : Inv s) (e : Event) : ∃ s', apply s e = some s' ∧ Outcome s e s' := by
  cases e with
  | command a => exact ⟨_, rfl, outcome_command h a⟩
  | advanceDemo taskId attempt now => exact outcome_advanceDemo h taskId attempt now
  | settleConnection id attempt => exact ⟨_, rfl, outcome_settleConnection h id attempt⟩
  | recover => exact ⟨_, rfl, outcome_recover h⟩

end Orangutan.Desktop
