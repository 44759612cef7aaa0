import Orangutan.Desktop.Schema

/-!
# The state of a first start
-/

namespace Orangutan.Desktop

set_option autoImplicit false

def desktop : JsString := js "desktop"

def home : JsString := conversationKey desktop (js "home")

namespace Fixtures

def «local» : JsString := conversationKey desktop (js "reading")

def telegram : JsString := conversationKey (js "telegram-main") (js "xu-ning")

def qq : JsString := conversationKey (js "qq-main") (js "zhou-ran")

def qqOther : JsString := conversationKey (js "qq-studio") (js "zhou-ran")

def feishu : JsString := conversationKey (js "feishu-main") (js "lin-xiao")

def conversation (connectionId locator name : JsString) (unread : Int) : Conversation :=
  { id := conversationKey connectionId locator
    connectionId
    locator
    name
    requesterId := requesterKey connectionId (if connectionId == desktop then js "you" else locator)
    sessionId := connectionId ++ js ":" ++ locator
    origin := if connectionId == desktop then .desktop else .channel
    unread }

def homeConversation : Conversation := conversation desktop (js "home") (js "和 Orangutan 聊聊") 0

def conversations : List Conversation :=
  [homeConversation,
    conversation desktop (js "reading") (js "我的阅读角落") 0,
    conversation (js "telegram-main") (js "xu-ning") (js "许宁") 1,
    conversation (js "qq-main") (js "zhou-ran") (js "周然") 2,
    conversation (js "qq-studio") (js "zhou-ran") (js "周然 · 工作") 0,
    conversation (js "feishu-main") (js "lin-xiao") (js "林晓") 0]

/-- The conversation of a key; the keys asked for below are all there. -/
def conversationOf (cid : JsString) : Conversation :=
    (conversations.find? (·.id == cid)).getD homeConversation

def task (now : Int) (id cid title : JsString) (status : Status) (kind : TaskKind) : Task :=
  { id
    conversationId := cid
    requesterId := (conversationOf cid).requesterId
    sessionId := (conversationOf cid).sessionId
    title
    status
    kind
    attempt := 1
    step := if status = .completed then 10 else 0
    createdAt := now - 900000
    language := .zh
    shouldFail := false
    history := []
    members :=
      if kind = .team then
        [⟨js "explorer", js "Scout", js "资料搜集", .done, js "整理了 6 份参考资料。"⟩,
          ⟨js "planner", js "Moss", js "分析与规划", if status = .completed then .done else .working,
            js "对比时间与路线，保留两个方案。"⟩,
          ⟨js "reviewer", js "Fern", js "检查与汇总", if status = .completed then .done else .waiting,
            js "完成了交叉检查。"⟩]
      else []
    approval := none
    artifact := none }

def reading (now : Int) : Task :=
  { task now (js "reading-plan") «local» (js "给阅读留一点时间") .completed .file with
    artifact := some
      { name := js "a-small-reading-plan.md"
        kind := .markdown
        body :=
          js
          "# 给阅读留一点时间\n\n不需要读得很快，只需要留一点固定的时间。\n\n## 这个月，读两本就好\n\n| 书目 | 适合的时刻 | 节奏 |\n| --- | --- | --- |\n| 《看不见的城市》 | 睡前，放下手机以后 | 每天一座城 |\n| 《植物知道生命的答案》 | 周末的午后 | 每周两章 |\n\n## 一个小小的习惯\n\n- [ ] 把正在读的书放在触手可及的地方\n- [ ] 读到喜欢的一句，就记下来\n- [ ] 周日花十分钟回看摘录\n\n> 不用急着读完。遇到喜欢的一页，多停留一会儿。\n\n来源：演示工作区 · 个人阅读笔记。" } }

def travel (now : Int) : Task :=
  { task now (js "weekend-plan") telegram (js "找一个周末可以散步的地方") .completed .team with
    artifact := some
      { name := js "a-slower-weekend.md"
        kind := .markdown
        body :=
          js
          "# 把周末过慢一点\n\n## 推荐：沿河走一走\n\n上午出发，带上水和一本书。不赶路，也不安排太多目的地。\n\n1. 10:00 · 河边步道，散步 40 分钟\n2. 11:00 · 找一家有阳光的咖啡店\n3. 14:00 · 附近的独立书店，随意逛逛\n\n## 出门前\n\n- [ ] 确认当天的天气\n- [ ] 带一件薄外套\n\n> Scout 整理地点，Moss 规划节奏，Fern 检查了路线。\n\n来源：演示资料，不是实时地点或天气查询。" } }

def files (now : Int) : Task :=
  { task now (js "qq-files") qq (js "整理一下共享资料里的会议笔记") .awaitingApproval .file with
    step := 3
    approval := some ⟨js "qq-files:1:approval", .pending, js "workspace/notes/meeting-summary.md"⟩ }

def research (now : Int) : Task :=
  let research := task now (js "studio-notes") qqOther (js "对比两种工作记录方式") .queued .team
  { research with members := research.members.map fun m => { m with
    state := .waiting, result := [] } }

def review (now : Int) : Task :=
  let review := task now (js "feishu-review") feishu (js "看看这份活动安排还有什么遗漏") .failed .team
  { review with
    shouldFail := true
    members := review.members.modifyHead fun m =>
      { m with state := .failed, result := js "示例参考文件暂时不可用。" } }

def message (now : Int) (id cid : JsString) (role : Role) (text : JsString) : Message :=
  { id, conversationId := cid, sessionId := (conversationOf cid).sessionId, role, text,
    createdAt := now - 800000, state := .complete }

def messages (now : Int) : List Message :=
  [message now (js "read-user") «local» .user
      (js "想重新开始读书，但不想把它变成另一项任务。帮我安排得轻松一点。"),
    message now (js "read-assistant") «local» .assistant
      (js "那我们就从每天十分钟开始。\n\n选了两本适合慢慢读的书，也留了一些完全不用安排的空白。阅读计划已经整理好，可以在右侧看看。"),
    message now (js "tg-user") telegram .user
      (js "周末想出去走走，别太赶，帮我看看有什么轻松一点的安排。"),
    message now (js "tg-assistant") telegram .assistant
      (js "小队给你整理了一份慢节奏的周末安排。\n\n沿河散步、喝杯咖啡，再去附近的书店看看。具体路线和出门前的清单都在方案里。"),
    message now (js "qq-user") qq .user
      (js "共享文件夹里有几份会议记录，可以整理成一份吗？"),
    message now (js "qq-assistant") qq .assistant
      (js "已经看过示例资料，准备写入一份合并后的会议笔记。\n\n这个操作需要在 QQ 中确认，原始记录会保留。"),
    message now (js "qq-other-user") qqOther .user
      (js "帮我比较日记式和任务式两种工作记录方式。"),
    message now (js "qq-other-assistant") qqOther .assistant
      (js "我会让小队比较两种方式，看看各自适合什么样的记录场景。"),
    message now (js "fs-user") feishu .user
      (js "帮我检查一下周五活动安排，尤其是物料和时间。"),
    message now (js "fs-assistant") feishu .assistant
      (js "一份示例参考文件暂时不可用，检查尚未完成。可以在飞书会话中补充资料后重新发起。")]

def notes (now : Int) : List Note :=
  [⟨js "shared-workspace", .shared, none, js "让资料各归其位",
      js "工作资料放在 workspace/projects，阅读与灵感放在 workspace/notes。整理时保留原始文件，先展示方案，再执行变更。",
      js "共享工作区约定", now - 86400000⟩,
    ⟨js "shared-style", .shared, none, js "说清楚，少一点术语",
      js "公共文档使用简洁的语言。先说明结论，再给出必要的依据；不确定的内容明确标注。",
      js "公共写作约定", now - 172800000⟩,
    ⟨js "your-reading", .personal, some (requesterKey (js "desktop") (js "you")), js "阅读是一段留白",
      js "希望阅读安排轻松一些，每天十分钟即可，不把读书变成需要打卡的任务。",
      js "我的阅读角落", now - 800000⟩,
    ⟨js "tg-preference", .personal, some (requesterKey (js "telegram-main") (js "xu-ning")),
      js "周末喜欢慢一点", js "许宁偏好轻松的步行路线、独立书店和安静的咖啡店。一天不安排超过三个地点。", js "许宁 · Telegram", now - 600000⟩,
    ⟨js "qq-preference", .personal, some (requesterKey (js "qq-main") (js "zhou-ran")),
      js "会议笔记保留行动项", js "周然希望会议汇总包含明确的行动项、负责人和待确认的问题。", js "周然 · QQ", now - 500000⟩]

def connections : List Connection :=
  [⟨js "telegram-main", .telegram, js "Telegram", js "@orangutan_demo", .connecting, 1, false⟩,
    ⟨js "qq-main", .qq, js "QQ", js "Orangutan · 日常", .connecting, 1, false⟩,
    ⟨js "feishu-main", .feishu, js "飞书", js "Orangutan · 工作空间", .disconnected, 0, false⟩,
    ⟨js "qq-studio", .qq, js "QQ · 工作", js "Orangutan · 工作", .disconnected, 0, false⟩]

def notifications (now : Int) : List Notification :=
  [⟨js "seed-approval", js "qq-files:1:approval", some qq, some (files now).id, .approval, false,
    (files now).title, js "请在 QQ 中确认文件操作"⟩,
    ⟨js "seed-complete", js "weekend-plan:1:completed", some telegram, some (travel now).id,
    .completed, false, (travel now).title, js "小队已完成，结果已回到 Telegram 会话"⟩]

end Fixtures

open Fixtures in
def createInitialState (now : Int) : AppState :=
  { settings :=
      { language := .zh, theme := .system, notifications := true, memory := true,
        model := .claudeSonnet, permission := .ask }
    selectedId := home
    drafts := []
    conversations
    connections
    tasks := [files now, travel now, reading now, research now, review now]
    messages := messages now
    notes := notes now
    notifications := notifications now }

end Orangutan.Desktop
