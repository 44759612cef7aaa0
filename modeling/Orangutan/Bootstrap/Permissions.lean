import Orangutan.Config.Rules
import Orangutan.Permission.Tokens
import Orangutan.Tool.ApprovalResolution

/-!
# The lifetime of an approval

A configured rule becomes a runtime rule, its limits reach the prompt, and an operator's approval
turns them into an expiry on the 64-bit clock of nanoseconds. The seconds that the parser admits
reach far beyond that clock.
-/

namespace Orangutan.Bootstrap

set_option autoImplicit false

open Orangutan.Core Orangutan.Permission Orangutan.Config Orangutan.Tool

/-- What RE2 says about a pattern, and what the compiled pattern matches. -/
structure Regex where
  error : Bytes → Option Bytes
  accepts : Bytes → Bytes → Bool

def compilePattern (re : Regex) (pattern : Bytes) : Result InputPattern :=
  match re.error pattern with
  | some detail => .error ((Error.invalidArgument "invalid regex").note "regex_error" detail)
  | none => .ok { pattern, accepts := re.accepts pattern }

def materializePattern (re : Regex) : Option Bytes → Result (Option InputPattern)
  | some pattern => (compilePattern re pattern).map some
  | none => .ok none

/-- The body of the loop over the configured rules. -/
def materializeRule (re : Regex) (rule : PermissionRuleConfig) : Result Rule := do
  let inputPattern ← materializePattern re rule.inputPattern
  let runtimeRule : Rule :=
    { verdict := rule.verdict, toolPattern := rule.toolPattern, capability := rule.capability,
      inputPattern }
  let runtimeRule := match rule.replayMax with
    | some replayMax => { runtimeRule with replayMax }
    | none => runtimeRule
  return match rule.approvalTtlSeconds with
    | some approvalTtl => { runtimeRule with approvalTtl }
    | none => runtimeRule

def baselineRule (verdict : Verdict) (capability : Capability) : Rule :=
  { verdict, toolPattern := text "*", capability := some capability }

def defaultRules : Mode → List Rule
  | .strict => []
  | .default =>
    [baselineRule .deny .runtimeLoader, baselineRule .deny .deletePath,
      baselineRule .allow .readFile, baselineRule .ask .writeFile, baselineRule .ask .editFile,
      baselineRule .ask .spawnSubprocess, baselineRule .ask .egressHttp]
  | .permissive => [baselineRule .deny .runtimeLoader, baselineRule .deny .deletePath]
  | .sandboxed => [baselineRule .allow .readFile]

def materializePermissions (re : Regex) (mode : Mode) (global : List PermissionRuleConfig) :
    Result (List Rule) := do
  let rules ← global.mapM (materializeRule re)
  return defaultRules mode ++ rules

theorem materializeRule_limits {re : Regex} {config : PermissionRuleConfig} {rule : Rule}
    (h : materializeRule re config = .ok rule) :
    rule.verdict = config.verdict ∧ rule.replayMax = config.replayMax.getD 8 ∧
      rule.approvalTtl = config.approvalTtlSeconds.getD 3600 := by
  unfold materializeRule at h
  obtain ⟨inputPattern, -, h⟩ := bind_ok h
  cases h
  cases config.replayMax <;> cases config.approvalTtlSeconds <;> exact ⟨rfl, rfl, rfl⟩

theorem mapM_ok {α β : Type} {f : α → Result β} {l : List α} {out : List β} (h : l.mapM f = .ok out)
    {a : α} (ha : a ∈ l) :
    ∃ b ∈ out, f a = .ok b := by
  induction l generalizing out with
  | nil => cases ha
  | cons c l ih =>
    rw [List.mapM_cons] at h
    obtain ⟨b, hb, h⟩ := bind_ok h
    obtain ⟨rest, hrest, h⟩ := bind_ok h
    cases h
    rcases List.mem_cons.mp ha with rfl | ha
    · exact ⟨b, List.mem_cons_self, hb⟩
    · obtain ⟨b', hb', hf⟩ := ih hrest ha
      exact ⟨b', List.mem_cons_of_mem b hb', hf⟩

theorem mem_materializePermissions {re : Regex} {mode : Mode} {global : List PermissionRuleConfig}
    {rules : List Rule} (h : materializePermissions re mode global = .ok rules)
    {config : PermissionRuleConfig} (hconfig : config ∈ global) :
    ∃ rule ∈ rules, materializeRule re config = .ok rule := by
  unfold materializePermissions at h
  obtain ⟨own, hown, h⟩ := bind_ok h
  cases h
  obtain ⟨rule, hmem, hrule⟩ := mapM_ok hown hconfig
  exact ⟨rule, List.mem_append_right _ hmem, hrule⟩

/-- The start of the year 2100, in nanoseconds since 1970. -/
def year2100 : Time := 4102444800 * 1000000000

/-- The exact instant at which a lifetime ends. -/
def expiry (now : Time) (ttl : Int) : Int := now + ttl * 1000000000

/-- Neither the conversion of the seconds nor the sum overflows. -/
def ExpiryFits (now : Time) (ttl : Int) : Prop := InInt64 (ttl * 1000000000) ∧
    InInt64 (expiry now ttl)

variable {now ttl : Int}

theorem expiryFits_iff (hnow : 0 ≤ now) (httl : 1 ≤ ttl) : ExpiryFits now ttl ↔
    expiry now ttl < 2 ^ 63 := by
  unfold ExpiryFits InInt64 expiry
  constructor
  · exact fun h => h.2.2
  · intro h
    refine ⟨⟨?_, ?_⟩, ?_, h⟩ <;> omega

theorem addSeconds_of_fits (h : ExpiryFits now ttl) : addSeconds now ttl = expiry now ttl := by
  have hid : ∀ n : Int, InInt64 n → wrapInt64 n = n := by
    intro n hn
    obtain ⟨hlow, hhigh⟩ := hn
    unfold wrapInt64
    exact Int.bmod_eq_of_le (by omega) (by omega)
  unfold addSeconds
  rw [hid _ h.1]
  exact hid _ h.2

/-- The end of the clock. -/
def lastInstant : Int := 2 ^ 63 - 1

theorem inInt64_lastInstant : InInt64 lastInstant := by
  unfold InInt64 lastInstant
  decide

theorem le_lastInstant (h : InInt64 now) : now ≤ lastInstant := Int.le_sub_one_of_lt h.2

theorem lastInstant_lt {n : Int} : lastInstant < n ↔ 2 ^ 63 ≤ n := by
  unfold lastInstant
  constructor <;> intro h <;> omega

/-- The ask of a call, put to an operator. -/
structure Prompted (request : AskRequest) (broker : ApprovalBroker) (ask : HookDecision) :
    Prop where
  broker : request.broker = some broker
  token : request.token = none
  answer : ∃ bus, request.bus = some bus ∧ bus.permissionAskRendered request.payload = .ok ask
  trace : ask.trace ≠ []
  proceed : ask.kind = .proceed
  reason : operatorReason ask ≠ []

/-- What the operator's approval issues. -/
def issuedToken (nonce : Bytes) (request : AskRequest) (broker : ApprovalBroker) : ApprovalToken :=
  broker.authority.issue
    { toolName := request.toolName, input := request.input, identity := request.identity,
      ttl := request.decision.approvalTtl } nonce request.now

/-- The ask ends approved, and the token it issues verifies until the lifetime is over. -/
structure Honoured (nonce : Bytes) (request : AskRequest) (broker : ApprovalBroker) : Prop where
  approved : (resolveAsk nonce request).resolution.state = .approved
  issued : (resolveAsk nonce request).tokenOutput = request.tokenOutput.map fun _ =>
    issuedToken nonce request broker
  verifies : ∀ t : Time, request.now ≤ t → InInt64 t →
    (broker.authority.verify (issuedToken nonce request broker) request.toolName request.input
      request.identity t = .ok () ↔
      t < expiry request.now request.decision.approvalTtl)

section Resolution

variable {nonce : Bytes} {request : AskRequest} {broker : ApprovalBroker} {ask : HookDecision}

theorem verify_issued (t : Time) :
    broker.authority.verify (issuedToken nonce request broker) request.toolName request.input
      request.identity t = .ok () ↔
      t < addSeconds request.now request.decision.approvalTtl := by
  rw [ApprovalAuthority.verify_ok]
  exact ⟨fun h => h.1, fun h => ⟨h, rfl, rfl, rfl, rfl⟩⟩

/-- The grant the operator's approval makes. -/
def grantOf (request : AskRequest) : ApprovalGrant :=
  { toolName := request.toolName
    input := request.input
    identity := request.identity
    ttl := request.decision.approvalTtl
    replayMax := request.decision.replayMax }

theorem resolveAsk_prompted (h : Prompted request broker ask) :
    (resolveAsk nonce request).resolution.state =
        (checkToken request (broker.approve (grantOf request) nonce request.now).2
          (broker.approve (grantOf request) nonce request.now).1).1.state ∧
      (resolveAsk nonce request).tokenOutput = request.tokenOutput.map fun _ =>
        issuedToken nonce request broker := by
  obtain ⟨bus, hbus, hanswer⟩ := h.answer
  unfold resolveAsk
  rw [h.broker, h.token, hbus]
  dsimp only
  rw [hanswer]
  dsimp only
  rw [if_neg h.trace, h.proceed]
  dsimp only
  rw [if_neg h.reason]
  exact ⟨rfl, rfl⟩

/-- The broker accepts the fresh token while it verifies. -/
theorem approved_iff (h : Prompted request broker ask) (hreplay : 1 ≤ request.decision.replayMax) :
    (resolveAsk nonce request).resolution.state = .approved ↔
      request.now < addSeconds request.now request.decision.approvalTtl := by
  have hissued : _ ↔ _ := @verify_issued nonce request broker request.now
  rw [(resolveAsk_prompted h).1, ← hissued]
  have hcheck : ((broker.approve (grantOf request) nonce request.now).2.check
      (broker.approve (grantOf request) nonce request.now).1 request.toolName request.input
        request.identity
        request.now).1 = .ok () ↔
      broker.authority.verify (issuedToken nonce request broker) request.toolName request.input
        request.identity
        request.now = .ok () := by
    rw [ApprovalBroker.check_ok]
    constructor
    · exact fun h => h.1
    · intro hverify
      refine ⟨hverify, _, ApprovalBroker.approve_lookup (grantOf request) nonce request.now, ?_⟩
      exact Nat.one_le_iff_ne_zero.mp hreplay
  rw [← hcheck]
  unfold checkToken
  split
  · next hok => simp [hok]
  · next e broker' herror => simp [herror, rejected]

/-- A lifetime is honoured exactly if its end is an instant of the clock. -/
theorem honoured_iff (h : Prompted request broker ask) (hnow : 0 ≤ request.now)
    (hclock : InInt64 request.now) (hreplay : 1 ≤ request.decision.replayMax)
    (httl : 1 ≤ request.decision.approvalTtl) :
    Honoured nonce request broker ↔ expiry request.now request.decision.approvalTtl < 2 ^ 63 := by
  constructor
  · intro hhonoured
    by_contra hbeyond
    -- the last instant of the clock lies before the end, and at or after whatever was computed
    have hbefore := lastInstant_lt.mpr (not_lt.mp hbeyond)
    have hverify :=
      (hhonoured.verifies lastInstant (le_lastInstant hclock) inInt64_lastInstant).mpr hbefore
    have hcomputed : InInt64 (addSeconds request.now request.decision.approvalTtl) :=
      inInt64_wrapInt64 _
    exact not_lt.mpr (le_lastInstant hcomputed) ((verify_issued _).mp hverify)
  · intro hfits
    have hsum := addSeconds_of_fits ((expiryFits_iff hnow httl).mpr hfits)
    refine ⟨?_, (resolveAsk_prompted h).2, fun t _ _ => ?_⟩
    · rw [approved_iff h hreplay, hsum]
      unfold expiry
      have hpos : 0 < request.decision.approvalTtl * 1000000000 := by omega
      exact lt_add_of_pos_right request.now hpos
    · rw [verify_issued, hsum]

end Resolution

/-- The lifetime that a configured ask rule promises. -/
def lifetime (config : PermissionRuleConfig) : Int := config.approvalTtlSeconds.getD 3600

theorem approval_lifetime (host : Host) (re : Regex) (strict : Bool) (value : Value) (path : Bytes)
    (mode : Mode) (config : PermissionRuleConfig) (warnings : List Bytes)
    (global : List PermissionRuleConfig) (rules : List Rule)
    (hparse : parseRule host strict .ask value path = .ok (config, warnings))
    (hconfig : config ∈ global) (hrules : materializePermissions re mode global = .ok rules)
    (hreplay : 1 ≤ config.replayMax.getD 8) (httl : 1 ≤ lifetime config) :
    ∃ rule ∈ rules, rule.verdict = .ask ∧ rule.replayMax = config.replayMax.getD 8 ∧
      rule.approvalTtl = lifetime config ∧
      ∀ nonce request broker ask, Prompted request broker ask →
        request.decision.replayMax = rule.replayMax →
        request.decision.approvalTtl = rule.approvalTtl → 0 ≤ request.now → request.now < year2100 →
        (Honoured nonce request broker ∧ ExpiryFits request.now (lifetime config) ↔
            expiry request.now (lifetime config) < 2 ^ 63) ∧
          (Honoured nonce request broker ↔ expiry request.now (lifetime config) < 2 ^ 63) := by
  obtain ⟨rule, hmem, hrule⟩ := mem_materializePermissions hrules hconfig
  obtain ⟨hverdict, hreplayMax, happrovalTtl⟩ := materializeRule_limits hrule
  refine ⟨rule, hmem, hverdict.trans (parseRule_limits hparse).1, hreplayMax, happrovalTtl,
    fun nonce request broker ask hprompt huses hseconds hnow hyear => ?_⟩
  have hseconds : request.decision.approvalTtl = lifetime config := hseconds.trans happrovalTtl
  have hclock : InInt64 request.now := by
    refine ⟨le_trans (by decide) hnow, lt_trans hyear ?_⟩
    unfold year2100
    decide
  have hhonoured : Honoured nonce request broker ↔ _ :=
    honoured_iff hprompt hnow hclock (huses ▸ hreplayMax ▸ hreplay) (hseconds ▸ httl)
  rw [hseconds] at hhonoured
  exact ⟨⟨fun h => hhonoured.mp h.1, fun h => ⟨hhonoured.mpr h, (expiryFits_iff hnow httl).mpr h⟩⟩,
    hhonoured⟩

namespace LifetimeSample

def host : Host where
  getenv _ := none
  regexError _ := none

def re : Regex where
  error _ := none
  accepts _ _ := false

def rule (seconds : UInt64) : Value :=
  .object [(text "tool_pattern", .string (text "FileWrite")),
    (text "approval_ttl_seconds", .unsigned seconds)]

def config (seconds : Int) : PermissionRuleConfig :=
  { verdict := .ask, toolPattern := text "FileWrite", approvalTtlSeconds := some seconds }

def answer : HookDecision :=
    { reason := text "yes", trace := [{ sinkId := text "console", reason := text "yes" }] }

def broker : ApprovalBroker := { authority := ApprovalBroker.Sample.authority }

/-- A call in November 2023. -/
def request (seconds : Int) : AskRequest where
  toolName := text "FileWrite"
  input := text "/tmp/a"
  identity := text "alice"
  decision := { verdict := .ask, reason := text "rule #0 (ask: FileWrite)", approvalTtl := seconds }
  now := 1700000000 * 1000000000
  broker := some broker
  token := none
  tokenOutput := none
  bus := some ⟨fun _ => .ok {}, fun _ => .ok answer⟩
  payload := ⟨text "FileWrite", text "/tmp/a", ⟨[], [], text "alice"⟩, [], 8, seconds,
    1700000000 * 1000000000, none⟩

theorem prompted (seconds : Int) : Prompted (request seconds) broker answer :=
  ⟨rfl, rfl, ⟨_, rfl, rfl⟩, by decide, rfl, by decide⟩

end LifetimeSample

/-- One hour is honoured. -/
theorem approval_lifetime_hour :
    Honoured (ApprovalBroker.Sample.nonce 1)
      (LifetimeSample.request 3600) LifetimeSample.broker := by
  have hparse : parseRule LifetimeSample.host true .ask (LifetimeSample.rule 3600)
    (text "$.permissions.ask[0]") =
      .ok (LifetimeSample.config 3600, []) := rfl
  obtain ⟨rule, hrule, -, hreplay, httl, h⟩ :=
    approval_lifetime LifetimeSample.host LifetimeSample.re true
    (LifetimeSample.rule 3600) (text "$.permissions.ask[0]") .strict (LifetimeSample.config 3600) []
    [LifetimeSample.config 3600] _ hparse (List.mem_singleton_self _) rfl (by decide) (by decide)
  refine (h (ApprovalBroker.Sample.nonce 1) (LifetimeSample.request 3600) LifetimeSample.broker
    LifetimeSample.answer
    (LifetimeSample.prompted 3600) hreplay.symm httl.symm (by decide) (by decide)).2.mpr ?_
  decide

/-- The largest lifetime that is parsed: the approval is refused when the operator has granted it.
-/
theorem approval_lifetime_largest :
    parseRule LifetimeSample.host true .ask (LifetimeSample.rule 9223372036854775807)
      (text "$.permissions.ask[0]") =
        .ok (LifetimeSample.config 9223372036854775807, []) ∧
      Prompted (LifetimeSample.request 9223372036854775807) LifetimeSample.broker
        LifetimeSample.answer ∧
      (resolveAsk (ApprovalBroker.Sample.nonce 1)
        (LifetimeSample.request 9223372036854775807)).resolution.state = .rejected := by
  refine ⟨rfl, LifetimeSample.prompted _, ?_⟩
  decide +kernel

end Orangutan.Bootstrap
