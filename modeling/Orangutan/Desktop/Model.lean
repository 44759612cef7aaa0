import Orangutan.Desktop.Fixtures

/-!
# The desktop state machine

Commands of the user, the steps of the demo timer, the end of a connection attempt and the recovery
of a loaded state. A string that only names itself is built where the source builds it.
-/

namespace Orangutan.Desktop

set_option autoImplicit false

def active (status : Status) : Bool :=
  status == .queued || status == .running || status == .awaitingApproval || status == .cancelling

def canControl (state : AppState) (conversationId : JsString) : Bool :=
  state.conversations.any fun c => c.id == conversationId && c.origin == .desktop

def say (language : Language) (zh en : JsString) : JsString := if language == .zh then zh else en

/-- `Partial` settings: an absent key changes nothing. -/
structure SettingsValue where
  language : Option Language := none
  theme : Option Theme := none
  notifications : Option Bool := none
  memory : Option Bool := none
  model : Option Model := none
  permission : Option Permission := none

inductive Command
  | select (id : JsString)
  | new (id : JsString) (now : Int)
  | rename (conversationId name : JsString)
  | draft (conversationId text : JsString)
  | send (conversationId text id : JsString) (now : Int)
  | stop (taskId : JsString) (now : Int)
  | retry (taskId : JsString) (now : Int)
  | approve (taskId approvalId : JsString)
  | reject (taskId approvalId : JsString)
  | settings (value : SettingsValue)
  | connect (connectionId : JsString) (account : Option JsString) (simulateFailure : Option Bool)
  | disconnect (connectionId : JsString) (account : Option JsString) (simulateFailure : Option Bool)
  | noteSave (note : Note)
  | noteDelete (id : JsString)
  | readNotification (id : JsString)

def NotificationKind.name : NotificationKind → JsString
  | .completed => js "completed"
  | .failed => js "failed"
  | .approval => js "approval"
  | .connection => js "connection"

/-- What every identity of one attempt begins with. -/
def attemptKey (id : JsString) (attempt : Int) : JsString := id ++ js ":" ++ JsString.ofInt attempt

def userMessageId (taskId : JsString) : JsString := taskId ++ js ":user"

def replyId (taskId : JsString) (attempt : Int) : JsString :=
    attemptKey taskId attempt ++ js ":reply"

def approvalId (taskId : JsString) (attempt : Int) : JsString :=
    attemptKey taskId attempt ++ js ":approval"

def noticeKey (taskId : JsString) (attempt : Int) (kind : NotificationKind) : JsString :=
  attemptKey taskId attempt ++ js ":" ++ kind.name

def connectionErrorKey (connectionId : JsString) (attempt : Int) : JsString :=
    attemptKey connectionId attempt ++ js ":error"

def memoryNoteId (taskId : JsString) : JsString := taskId ++ js ":memory"

def notify (state : AppState) (notification : Notification) : AppState :=
  if !state.settings.notifications || state.notifications.any (·.eventKey == notification.eventKey)
    then state
  else { state with notifications := notification :: state.notifications }

def noticeDetail (language : Language) : NotificationKind → JsString
  | .completed => say language (js "已完成，成果准备好了") (js "Finished. Your results are ready.")
  | .failed => say language (js "任务遇到了问题") (js "This task needs attention.")
  | .approval => say language (js "有一个操作需要确认") (js "An action needs your approval.")
  | .connection => say language (js "连接状态已更新") (js "Connection updated.")

def taskNotice (state : AppState) (task : Task) (kind : NotificationKind) : AppState :=
  notify state
    { id := noticeKey task.id task.attempt kind
      eventKey := noticeKey task.id task.attempt kind
      kind
      read := false
      conversationId := some task.conversationId
      taskId := some task.id
      title := task.title
      detail := noticeDetail task.language kind }

def updateTask (state : AppState) (task : Task) : AppState :=
  { state with tasks := state.tasks.map fun t => if t.id == task.id then task else t }

/-- Assignment to a key of `drafts`. -/
def setDraft (drafts : List (JsString × JsString)) (key text : JsString) :
    List (JsString × JsString) :=
  if drafts.any (·.1 == key) then drafts.map fun d => if d.1 == key then (key, text) else d
    else drafts ++ [(key, text)]

def select (state : AppState) (id : JsString) : AppState :=
  if !state.conversations.any (·.id == id) then state
  else
    { state with
      selectedId := id
      conversations := state.conversations.map fun c => if c.id == id
        then { c with unread := 0 } else c }

def newConversation (state : AppState) (locator : JsString) : AppState :=
  let id := conversationKey desktop locator
  if state.conversations.any (·.id == id) then state
  else
    { state with
      selectedId := id
      conversations :=
        { id
          connectionId := desktop
          locator
          requesterId := requesterKey desktop (js "you")
          sessionId := locator
          name := say state.settings.language (js "新的对话") (js "New conversation")
          origin := .desktop
          unread := 0 } :: state.conversations }

def rename (state : AppState) (conversationId text : JsString) : AppState :=
  let name := text.trim
  if !canControl state conversationId || name.isEmpty || name.length > 80 then state
  else
    { state with
      conversations := state.conversations.map fun c =>
        if c.id == conversationId then { c with name, customName := some true } else c }

def draft (state : AppState) (conversationId text : JsString) : AppState :=
  if canControl state conversationId
    then { state with drafts := setDraft state.drafts conversationId text } else state

def filePattern : List JsString :=
  [js "写", js "文件", js "整理", js "修改", js "write", js "file", js "edit", js "organize"]

def teamPattern : List JsString :=
  [js "计划", js "旅行", js "对比", js "调研", js "小队", js "比较", js "plan", js "research", js "team",
    js "compare", js "trip"]

def failPattern : List JsString := [js "失败", js "故障", js "fail", js "error"]

def memoryCue : List JsString :=
  [js "记住", js "remember", js "我喜欢", js "我偏好", js "我习惯", js "I prefer", js "I like"]

def kindOf (text : JsString) : TaskKind :=
  if text.test filePattern then .file else if text.test teamPattern then .team else .chat

def teamMembers (lang : Language) : List Member :=
  [⟨js "explorer", js "Scout", say lang (js "资料搜集") (js "Explore"), .waiting, []⟩,
    ⟨js "planner", js "Moss", say lang (js "分析与规划") (js "Make a plan"), .waiting, []⟩,
    ⟨js "reviewer", js "Fern", say lang (js "检查与汇总") (js "Review"), .waiting, []⟩]

/-- The task of a message that was sent. -/
def sentTask (lang : Language) (c : Conversation) (text id : JsString) (now : Int) : Task :=
  { id
    conversationId := c.id
    requesterId := c.requesterId
    sessionId := c.sessionId
    title := text.take 60
    kind := kindOf text
    status := .queued
    step := 0
    attempt := 1
    createdAt := now
    language := lang
    shouldFail := text.test failPattern
    history := []
    members := if kindOf text = .team then teamMembers lang else []
    approval := none
    artifact := none }

def send (state : AppState) (conversationId input id : JsString) (now : Int) : AppState :=
  let text := input.trim
  match state.conversations.find? (·.id == conversationId) with
  | none => state
  | some c =>
    if !canControl state c.id || text.isEmpty ||
        state.tasks.any (fun t => t.id == id || t.conversationId == c.id && active t.status)
          then state
    else
      { state with
        tasks := sentTask state.settings.language c text id now :: state.tasks
        drafts := setDraft state.drafts c.id []
        conversations := state.conversations.map fun v =>
          if v.id == c.id && v.customName != some true &&
            !state.messages.any (·.conversationId == c.id) then
            { v with name := text.take 20 }
          else v
        messages := state.messages ++
          [{ id := userMessageId id
             conversationId := c.id
             sessionId := c.sessionId
             role := .user
             text
             createdAt := now
             state := .complete }] }

def stop (state : AppState) (task : Task) : AppState :=
  if !active task.status || task.status == .cancelling then state
  else
    updateTask state
      { task with
        status := .cancelling
        approval := task.approval.map fun a => if a.status = .pending
          then { a with status := .cancelled } else a }

def retry (state : AppState) (task : Task) (now : Int) : AppState :=
  if !(task.status == .failed || task.status == .cancelled || task.status == .interrupted) ||
      state.tasks.any (fun t => t.conversationId == task.conversationId && active t.status)
        then state
  else
    updateTask state
      { task with
        attempt := task.attempt + 1
        step := 0
        createdAt := now
        status := .queued
        shouldFail := false
        history := task.history ++ [(task.attempt, task.status)]
        approval := none
        artifact := none
        members := task.members.map fun m => { m with state := .waiting, result := [] } }

/-- The approval that `approve` and `reject` may answer. -/
def answerable (task : Task) (id : JsString) : Option TaskApproval :=
  if task.status != .awaitingApproval then none
  else task.approval.filter fun a => a.id == id && a.status == .pending

def approve (state : AppState) (task : Task) (id : JsString) : AppState :=
  match answerable task id with
  | none => state
  | some a =>
    if state.settings.permission == .deny then state
    else updateTask state { task with
      status := .running, approval := some { a with status := .approved } }

def reject (state : AppState) (task : Task) (id : JsString) : AppState :=
  match answerable task id with
  | none => state
  | some a =>
    taskNotice (updateTask state { task with
      status := .failed, approval := some { a with status := .rejected } }) task .failed

/-- The common guard of the commands on a task. -/
def onTask (state : AppState) (taskId : JsString) (f : Task → AppState) : AppState :=
  match state.tasks.find? (·.id == taskId) with
  | none => state
  | some task => if canControl state task.conversationId then f task else state

def SettingsValue.over (value : SettingsValue) (s : Settings) : Settings :=
  { language := value.language.getD s.language
    theme := value.theme.getD s.theme
    notifications := value.notifications.getD s.notifications
    memory := value.memory.getD s.memory
    model := value.model.getD s.model
    permission := value.permission.getD s.permission }

def setConnection (state : AppState) (id : JsString) (status : ConnectionStatus)
    (account : Option JsString) (simulateFailure : Option Bool) : AppState :=
  { state with
    connections := state.connections.map fun c =>
      if c.id == id then
        { c with
          status
          attempt := c.attempt + 1
          account := account.getD c.account
          simulateFailure := simulateFailure.getD c.simulateFailure }
      else c }

def noteSave (state : AppState) (note : Note) : AppState :=
  match state.notes.find? (·.id == note.id) with
  | none => state
  | some old =>
    if old.scope != note.scope || old.ownerId != note.ownerId || note.title.trim.isEmpty ||
      note.body.trim.isEmpty then state
    else { state with notes := state.notes.map fun n => if n.id == old.id then note else n }

def command (state : AppState) : Command → AppState
  | .select id => select state id
  | .new id _ => newConversation state id
  | .rename conversationId name => rename state conversationId name
  | .draft conversationId text => draft state conversationId text
  | .send conversationId text id now => send state conversationId text id now
  | .stop taskId _ => onTask state taskId (stop state)
  | .retry taskId now => onTask state taskId fun task => retry state task now
  | .approve taskId id => onTask state taskId fun task => approve state task id
  | .reject taskId id => onTask state taskId fun task => reject state task id
  | .settings value => { state with settings := value.over state.settings }
  | .connect id account simulateFailure =>
      setConnection state id .connecting account simulateFailure
  | .disconnect id account simulateFailure =>
      setConnection state id .disconnected account simulateFailure
  | .noteSave note => noteSave state note
  | .noteDelete id => { state with notes := state.notes.filter (·.id != id) }
  | .readNotification id =>
    { state with notifications := state.notifications.map fun n => if n.id == id
      then { n with read := true } else n }

def responseFor (task : Task) (memoryEnabled : Bool) : JsString :=
  if task.kind == .chat && task.title.test memoryCue then
    if memoryEnabled then
      say task.language
        (js "好的，这条信息会作为你的个人偏好保留。你可以在「记忆」中查看、修改或删除它，其他联系人的偏好仍然分别保存。")
        (js
          "I’ll keep this as a personal preference. You can review, edit or remove it in Memory. Other people’s preferences stay separate.")
    else
      say task.language (js "自动记忆目前已关闭。这条信息会留在本次对话中，不会新增长期记忆。")
        (js
          "Auto memory is currently off. This stays in our conversation without creating a new long-term note.")
  else
    match task.kind with
    | .file =>
      say task.language
        (js
          "已经整理好一份清晰的文件方案。\n\n- **工作资料**：项目文档、会议笔记与参考内容\n- **生活记录**：旅行计划、阅读摘录与灵感\n- **待处理**：尚未归类的文件，留待你确认\n\n右侧可以查看方案和变更预览。原始资料会保留，方便回看。")
        (js
          "Your file plan is ready.\n\n- **Work**: project documents, meeting notes and references\n- **Life**: travel plans, reading notes and ideas\n- **To sort**: anything that still needs your decision\n\nOpen the artifact to review the plan. Original materials are kept for reference.")
    | .team =>
      say task.language
        (js
          "小队已经把这件事梳理好了。\n\nScout 整理了相关资料，Moss 对比了可选方案，Fern 完成了交叉检查。\n\n**建议先从最重要的一步开始**，把需要进一步确认的事项留在清单里。详细方案已放在右侧，随时可以继续讨论。")
        (js
          "The team has put a plan together.\n\nScout gathered the references, Moss compared the options, and Fern checked the result.\n\n**Start with the most important next step**, and keep open questions in the checklist. Your plan is ready to review on the right.")
    | .chat =>
      say task.language
        (js "我在。可以把想法、资料或者手头的事情直接告诉我。\n\n我们可以先理清目标，再一起把下一步做具体。如果需要多人分工，我会组织小队，并把过程和结果留在这里。")
        (js
          "I’m here. Bring an idea, a document, or whatever is on your mind.\n\nWe can work out the goal and make the next step concrete. When a task benefits from a team, I’ll bring in a few helpers and keep the progress here.")

/-- The work of one tick on a task that is neither awaiting nor cancelling. -/
def tick (old : Task) : Task :=
  let step := old.step + 1
  { old with
    status := .running
    step
    members := old.members.mapIdx fun i m =>
      { m with
        state := if step > i + 3 then .done else if step ≥ min (i + 1) 2 then .working else .waiting
        result :=
          if step > i + 3 then say old.language (js "已整理并核对，结果交给主助手。")
            (js "Checked and passed back to your assistant.")
          else [] } }

def cancelTask (state : AppState) (old : Task) : AppState :=
  { updateTask state
      { old with
        status := .cancelled
        members := old.members.map fun m => if m.state = .done ∨ m.state = .failed then m
          else { m with state := .stopped } } with
    messages := state.messages.map fun m =>
      if m.id == replyId old.id old.attempt then { m with state := .interrupted } else m }

def failTask (task : Task) : Task :=
  { task with
    status := .failed
    members := task.members.mapIdx fun i m =>
      if i = 0 then
        { m with
          state := .failed
          result := say task.language (js "示例资料暂时不可用。")
            (js "The sample reference is temporarily unavailable.") }
      else { m with state := .stopped } }

def awaitApproval (task : Task) : Task :=
  { task with
    status := .awaitingApproval
    approval := some ⟨approvalId task.id task.attempt, .pending,
      js "workspace/notes/organization.md"⟩ }

def artifactOf (task : Task) (fullText : JsString) : Option Artifact :=
  match task.kind with
  | .chat => none
  | kind => some
    { name := if kind = .file then js "organization.md" else js "thoughtful-plan.md"
      kind := .markdown
      body := js "# " ++ task.title ++ js "\n\n" ++ fullText ++ js "\n\n---\n\n" ++
        say task.language
          (js "## 下一步\n\n- [ ] 确认优先事项\n- [ ] 补充需要的资料\n- [ ] 开始第一步\n\n> 来源：Orangutan 演示工作区。")
          (js
            "## Next steps\n\n- [ ] Confirm priorities\n- [ ] Add the missing references\n- [ ] Take the first step\n\n> Source: Orangutan demo workspace.") }

def completeTask (task : Task) (fullText : JsString) : Task :=
  { task with
    status := .completed
    members := task.members.map fun m => { m with state := .done }
    artifact := artifactOf task fullText }

/-- A note about a preference the user stated. -/
def remember (state : AppState) (task : Task) (c : Conversation) (now : Int) : AppState :=
  let userText : JsString :=
    ((state.messages.find? (·.id == userMessageId task.id)).map (·.text)).getD []
  if state.settings.memory && userText.test memoryCue &&
    !state.notes.any (·.id == memoryNoteId task.id) then
    { state with
      notes := state.notes ++
        [{ id := memoryNoteId task.id
           scope := .personal
           ownerId := some c.requesterId
           title := userText.take 30
           body := userText
           source := c.name
           updatedAt := now }] }
  else state

/-- The next part of the reply, and the end of the task with its last part. -/
def reply (state : AppState) (task : Task) (c : Conversation) (now : Int) : AppState :=
  let next := updateTask state task
  let id := replyId task.id task.attempt
  let existing := state.messages.find? (·.id == id)
  let fullText := responseFor task state.settings.memory
  let text := fullText.take (((existing.map (·.text.length)).getD 0) + 60)
  let done := text.length == fullText.length
  let reply : Message :=
    { id
      conversationId := c.id
      sessionId := task.sessionId
      role := .assistant
      text
      createdAt := (existing.map (·.createdAt)).getD now
      state := if done then .complete else .streaming }
  let next :=
    { next with
      messages :=
        if existing.isSome then next.messages.map fun m => if m.id == id then reply else m
          else next.messages ++ [reply] }
  if !done then next
  else
    let task := completeTask task fullText
    let next := updateTask next task
    let next :=
      { next with
        conversations := next.conversations.map fun v =>
          if v.id == c.id && c.id != next.selectedId then { v with unread := v.unread + 1 } else v }
    taskNotice (remember next task c now) task .completed

/-- The file operation of a task needs a permission or an approval. -/
def gate (state : AppState) (task : Task) (c : Conversation) : Option AppState :=
  if task.kind == .file && task.approval.isNone && task.step ≥ 3 then
    match if c.origin == .desktop then state.settings.permission else .ask with
    | .deny => some (taskNotice (updateTask state { task with status := .failed }) task .failed)
    | .ask =>
        some (taskNotice (updateTask state (awaitApproval task)) (awaitApproval task) .approval)
    | .allow => none
  else none

/-- One tick of a task. Without the conversation of the task the lookup of its origin fails: no
state. -/
def advanceDemo (state : AppState) (taskId : JsString) (attempt now : Int) : Option AppState :=
  match state.tasks.find? (·.id == taskId) with
  | none => some state
  | some old =>
    if old.attempt != attempt || !active old.status || old.status == .awaitingApproval
      then some state
    else
      match state.conversations.find? (·.id == old.conversationId) with
      | none => none
      | some c =>
        if c.origin == .channel && !state.connections.any
          (fun v => v.id == c.connectionId && v.status == .connected) then
          some state
        else if old.status == .cancelling then some (cancelTask state old)
        else
          let task := tick old
          match gate state task c with
          | some next => some next
          | none =>
            if task.shouldFail && task.step ≥ 4 then
              some (taskNotice (updateTask state (failTask task)) (failTask task) .failed)
            else if task.step < 5 then some (updateTask state task)
            else some (reply state task c now)

def settleConnection (state : AppState) (id : JsString) (attempt : Int) : AppState :=
  match state.connections.find? (·.id == id) with
  | none => state
  | some c =>
    if c.attempt != attempt || c.status != .connecting then state
    else
      let next :=
        { state with
          connections := state.connections.map fun v =>
            if v.id == id then { v with status := if c.simulateFailure then .error else .connected }
              else v }
      if c.simulateFailure then
        notify next
          { id := connectionErrorKey id attempt
            eventKey := connectionErrorKey id attempt
            kind := .connection
            conversationId := none
            taskId := none
            read := false
            title := c.name
            detail := say state.settings.language (js "示例连接失败，请检查配置后重试。")
              (js "Sample connection failed. Check the configuration and try again.") }
      else next

def recoverTask (t : Task) : Task :=
  { t with
    status := if active t.status then .interrupted else t.status
    members := t.members.map fun m =>
      if t.status ≠ .completed ∧ (m.state = .working ∨ m.state = .waiting)
        then { m with state := .stopped } else m
    approval := t.approval.map fun a => if a.status = .pending
      then { a with status := .expired } else a }

def recover (state : AppState) : AppState :=
  { state with
    connections := state.connections.map fun c =>
      { c with status := .disconnected, attempt := c.attempt + 1 }
    tasks := state.tasks.map recoverTask
    messages := state.messages.map fun m => if m.state = .streaming
      then { m with state := .interrupted } else m }

inductive Event
  | command (action : Command)
  | advanceDemo (taskId : JsString) (attempt now : Int)
  | settleConnection (id : JsString) (attempt : Int)
  | recover

def apply (state : AppState) : Event → Option AppState
  | .command action => some (command state action)
  | .advanceDemo taskId attempt now => advanceDemo state taskId attempt now
  | .settleConnection id attempt => some (settleConnection state id attempt)
  | .recover => some (recover state)

def Step (s t : AppState) : Prop := ∃ e, apply s e = some t

/-- The states that follow a first start. -/
def Reachable (s : AppState) : Prop := ∃ now, Relation.ReflTransGen Step (createInitialState now) s

end Orangutan.Desktop
