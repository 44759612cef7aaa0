import Orangutan.Tool.Registry

/-!
# Complete mediation

An executor runs at most once in a dispatch, directly after the one audit row of the
dispatch was stored, and only for a call that passed every stage.
-/

namespace Orangutan.Tool

set_option autoImplicit false

open Orangutan.Core Orangutan.Permission

def DispatchStep.isRecorded : DispatchStep → Bool
  | recorded _ _ => true
  | _ => false

def DispatchStep.isExecuted : DispatchStep → Bool
  | executed _ => true
  | _ => false

/-- What the sinks of `tool_before` answer; without a bus the call proceeds. -/
def hookAnswer (name inputJson : Bytes) (ctx : DispatchContext) : Result HookDecision :=
  match ctx.bus with
  | none => .ok {}
  | some bus => bus.toolBefore (buildBeforePayload name inputJson ctx)

/-- The input after the hook; a rewrite without an input has none. -/
def finalInput (inputJson : Bytes) (hook : HookDecision) : Option Bytes :=
  if hook.kind = .rewrite then hook.rewrittenInputJson else some inputJson

/-- What the rules say of a call, over every declared capability. -/
def callVerdict (rules : List Rule) (mode : Mode) (entry : ToolEntry) (name input : Bytes) :
    Verdict :=
  ((requirements entry.requiredCapabilities).map fun c => ruling rules name input c mode).foldl
    Verdict.meet .allow

/-- The meet over the caller's policy and the parent's. -/
def policyVerdict (entry : ToolEntry) (name input : Bytes) (ctx : DispatchContext) : Verdict :=
  match ctx.parentPolicy with
  | some parent =>
    (callVerdict parent.rules parent.mode entry name input).meet
      (callVerdict ctx.rules ctx.mode entry name input)
  | none => callVerdict ctx.rules ctx.mode entry name input

/-- An allowed call is asked for when that is required. -/
def Verdict.tighten (required : Bool) (v : Verdict) : Verdict :=
  if required && decide (v = .allow) then .ask else v

/-- The verdict on a call after the hook and the path have tightened it. -/
def tightenedVerdict (entry : ToolEntry) (name input : Bytes) (hook : HookDecision)
    (resolution : PathResolutionReport) (ctx : DispatchContext) : Verdict :=
  Verdict.tighten resolution.requiresApproval
    (Verdict.tighten (decide (hook.kind = .requireApproval)) (policyVerdict entry name input ctx))

/-- The broker of the context accepted a token that is bound to the call: the caller's
own, or one that an operator's approval issued for it. -/
def TokenAccepted (env : DispatchEnv) (name input : Bytes) (now : Time)
    (ctx : DispatchContext) : Prop :=
  ∃ (start broker : ApprovalBroker) (token : ApprovalToken),
    ctx.approvalBroker = some start ∧
    (broker.check token name input ctx.identity now).1 = .ok () ∧
    token.toolName = name ∧ token.identity = ctx.identity ∧
    token.inputHash = broker.authority.inputHash input ∧ now < token.expiresAt ∧
    ((ctx.approvalToken = some token ∧ broker = start) ∨
      (ctx.approvalToken = none ∧ ∃ (ttl : Int) (replayMax : Nat),
        (token, broker) = start.approve
          { toolName := name, input, identity := ctx.identity, ttl, replayMax } env.nonce now))

/-- The call has passed every stage of the dispatch. -/
structure Mediated (env : DispatchEnv) (registry : Registry) (name inputJson : Bytes)
    (ctx : DispatchContext) (call : PreparedCall) (entry : ToolEntry) (hook : HookDecision)
    (input : Bytes) : Prop where
  selected : ∀ tools, ctx.activeTools = some tools → name ∈ tools
  registered : registry.lookup name = some entry
  answered : hookAnswer name inputJson ctx = .ok hook
  not_vetoed : hook.kind ≠ .veto
  not_escalated : hook.kind = .requireApproval → entry.policy = .permissioned
  final : finalInput inputJson hook = some input
  prepared : entry.prepare input = .ok call
  executor : call.execute.isSome
  locked : (acquirePathLock env entry (.ok call) ctx).1 = .ok ()
  resolved : (resolvePrepared env call ctx).error = none
  authorized : entry.policy = .runtime ∨
    tightenedVerdict entry name input hook (resolvePrepared env call ctx) ctx = .allow ∨
    (tightenedVerdict entry name input hook (resolvePrepared env call ctx) ctx = .ask ∧
      TokenAccepted env name input (acquirePathLock env entry (.ok call) ctx).2.1.now ctx)

variable {env : DispatchEnv} {entry : ToolEntry} {name inputJson input : Bytes}
  {ctx : DispatchContext}
  {before : BeforeOutcome} {call : PreparedCall}

theorem consumeBefore_open {policy : DispatchPolicy} {answer : Result HookDecision}
    (herror : (consumeBefore policy answer).blockingPublishError = none)
    (hopen : (consumeBefore policy answer).hookBlocked = false) :
    ∃ hook, answer = .ok hook ∧ hook.kind ≠ .veto ∧
      (hook.kind = .requireApproval → policy = .permissioned) ∧
      finalInput inputJson hook =
        some ((consumeBefore policy answer).rewrittenInput.getD inputJson) ∧
      (consumeBefore policy answer).hookDecision = hook := by
  cases answer with
  | error e => cases herror
  | ok hook =>
    refine ⟨hook, rfl, ?_⟩
    unfold finalInput
    cases hkind : hook.kind with
    | proceed => simp [consumeBefore, hkind]
    | veto => simp [consumeBefore, hkind] at hopen
    | rewrite =>
      cases hinput : hook.rewrittenInputJson with
      | none => simp [consumeBefore, hkind, hinput] at hopen
      | some rewritten => simp [consumeBefore, hkind, hinput]
    | requireApproval =>
      cases policy with
      | permissioned => simp [consumeBefore, hkind]
      | runtime => simp [consumeBefore, hkind] at hopen

/-- A hook that does not end the call has answered, and fixes the final input. -/
theorem runBefore_open (herror : (runBefore entry name inputJson ctx).1.blockingPublishError = none)
    (hopen : (runBefore entry name inputJson ctx).1.hookBlocked = false) :
    ∃ hook, hookAnswer name inputJson ctx = .ok hook ∧ hook.kind ≠ .veto ∧
      (hook.kind = .requireApproval → entry.policy = .permissioned) ∧
      finalInput inputJson hook =
        some ((runBefore entry name inputJson ctx).1.rewrittenInput.getD inputJson) ∧
      (runBefore entry name inputJson ctx).1.hookDecision = hook := by
  unfold runBefore hookAnswer at *
  cases hbus : ctx.bus with
  | none => exact ⟨{}, rfl, by decide, fun h => (by cases h), rfl, rfl⟩
  | some bus =>
    rw [hbus] at herror hopen
    exact consumeBefore_open herror hopen

theorem prepareCall_ok (herror : before.blockingPublishError = none)
    (hopen : before.hookBlocked = false) (h : (prepareCall entry before input).1 = .ok call) :
    entry.prepare input = .ok call ∧ call.execute.isSome := by
  unfold prepareCall at h
  rw [herror, hopen] at h
  cases hprepared : entry.prepare input with
  | error e =>
    rw [hprepared] at h
    cases h
  | ok made =>
    simp only [hprepared, Option.isNone_none, Bool.not_false, Bool.and_self, if_true] at h
    split at h
    · cases h
    next hexecute =>
    split at h
    · cases h
    · cases h
      exact ⟨rfl, Option.isSome_iff_ne_none.mpr (by simpa using hexecute)⟩

theorem evaluate_callVerdict (rules : List Rule) (mode : Mode) :
    (evaluate rules name input entry.requiredCapabilities mode).verdict =
      callVerdict rules mode entry name input :=
  evaluate_verdict ..

theorem requireApprovalDecision_verdict (decision : Decision) (hook : HookDecision) :
    (requireApprovalDecision decision hook).verdict = Verdict.tighten true decision.verdict := by
  unfold requireApprovalDecision Verdict.tighten
  cases h : decision.verdict <;> simp [h]

theorem requireWorkspaceOverrideApproval_verdict (decision : Decision) :
    (requireWorkspaceOverrideApproval decision).verdict =
      Verdict.tighten true decision.verdict := by
  unfold requireWorkspaceOverrideApproval Verdict.tighten
  cases h : decision.verdict <;> simp [h]

theorem Verdict.tighten_false (v : Verdict) : Verdict.tighten false v = v := rfl

/-- Hook and path tighten whatever the policies have decided. -/
theorem tightenings_verdict (decision : Decision) (hook : HookDecision) (required : Bool) :
    (if required then requireWorkspaceOverrideApproval
        (if hook.kind = .requireApproval then requireApprovalDecision decision hook else decision)
      else if hook.kind = .requireApproval then requireApprovalDecision decision hook
        else decision).verdict =
      Verdict.tighten required
        (Verdict.tighten (decide (hook.kind = .requireApproval)) decision.verdict) := by
  have hhook : (if hook.kind = .requireApproval then requireApprovalDecision decision hook
    else decision).verdict =
      Verdict.tighten (decide (hook.kind = .requireApproval)) decision.verdict := by
    split
    · next hkind => rw [requireApprovalDecision_verdict, decide_eq_true hkind]
    · next hkind => rw [decide_eq_false hkind, Verdict.tighten_false]
  cases required with
  | true => rw [if_pos rfl, requireWorkspaceOverrideApproval_verdict, hhook]
  | false => rw [if_neg (by decide), hhook, Verdict.tighten_false]

/-- The decision of a permissioned call carries the tightened meet. -/
theorem dispatchDecision_verdict (hpolicy : entry.policy = .permissioned)
    (resolution : PathResolutionReport) :
    (dispatchDecision entry name input before resolution ctx).verdict =
      tightenedVerdict entry name input before.hookDecision resolution ctx := by
  unfold dispatchDecision tightenedVerdict policyVerdict
  simp only [hpolicy, if_true]
  rw [tightenings_verdict]
  cases ctx.parentPolicy with
  | none => rw [evaluate_callVerdict]
  | some parent => rw [intersect_verdict, evaluate_callVerdict, evaluate_callVerdict]

theorem settleAsk_approved {decision : Decision} {resolution : PathResolutionReport}
    (h : (settleAsk env name input decision resolution ctx).resolution.state = .approved) :
    TokenAccepted env name input ctx.now ctx := by
  unfold settleAsk at h
  split at h
  · obtain ⟨broker, token, hcheck, hown⟩ := resolveAsk_approved h
    obtain ⟨hlt, htool, hidentity, hhash, -⟩ :=
      ApprovalAuthority.verify_ok.mp (ApprovalBroker.check_ok.mp hcheck).1
    rcases hown with ⟨hbroker, htoken⟩ | ⟨start, hbroker, htoken, hissued⟩
    · exact ⟨broker, broker, token, hbroker, hcheck, htool, hidentity, hhash.symm, hlt,
        .inl ⟨htoken, rfl⟩⟩
    · exact ⟨start, broker, token, hbroker, hcheck, htool, hidentity, hhash.symm, hlt,
        .inr ⟨htoken, _, _, hissued⟩⟩
  · cases h

/-- A part of the log with neither a row nor an execution. -/
def Quiet (steps : List DispatchStep) : Prop := ∀ step ∈ steps, step.isRecorded = false ∧
    step.isExecuted = false

/-- The log of a call that ran: the execution directly follows the only row, which is
about the call. -/
def RanAfterRow (env : DispatchEnv) (name input : Bytes) (ctx : DispatchContext)
    (call : PreparedCall) (steps : List DispatchStep) : Prop :=
  ∃ (front : List DispatchStep) (event : AuditEvent) (back : List DispatchStep),
    steps = front ++ [DispatchStep.recorded event (.ok ()), .executed call] ++ back ∧
    Quiet front ∧ Quiet back ∧
    event.toolName = name ∧ event.identity = ctx.identity ∧
      event.inputHash = some (env.sha256 input)

theorem Quiet.append {l l' : List DispatchStep} (h : Quiet l) (h' : Quiet l') :
    Quiet (l ++ l') := by
  intro step hstep
  rcases List.mem_append.mp hstep with hstep | hstep
  · exact h step hstep
  · exact h' step hstep

theorem Quiet.nil : Quiet [] := by
  intro step hstep
  cases hstep

theorem Quiet.single {step : DispatchStep} (h : step.isRecorded = false ∧ step.isExecuted = false) :
    Quiet [step] := by
  intro other hother
  rw [List.mem_singleton.mp hother]
  exact h

theorem Quiet.countP_isExecuted {l : List DispatchStep} (h : Quiet l) :
    l.countP DispatchStep.isExecuted = 0 :=
  List.countP_eq_zero.mpr fun step hstep => by simp [(h step hstep).2]

theorem Quiet.countP_isRecorded {l : List DispatchStep} (h : Quiet l) :
    l.countP DispatchStep.isRecorded = 0 :=
  List.countP_eq_zero.mpr fun step hstep => by simp [(h step hstep).1]

theorem RanAfterRow.extend {steps front back : List DispatchStep}
    (h : RanAfterRow env name input ctx call steps) (hfront : Quiet front) (hback : Quiet back) :
    RanAfterRow env name input ctx call (front ++ steps ++ back) := by
  obtain ⟨front', event, back', rfl, hfront', hback', hevent⟩ := h
  exact ⟨front ++ front', event, back' ++ back, by simp only [List.append_assoc],
    hfront.append hfront', hback'.append hback, hevent⟩

theorem RanAfterRow.of_identity {steps : List DispatchStep} {ctx' : DispatchContext}
    (h : RanAfterRow env name input ctx' call steps) (hidentity : ctx'.identity = ctx.identity) :
    RanAfterRow env name input ctx call steps := by
  obtain ⟨front, event, back, hsteps, hfront, hback, hname, hid, hhash⟩ := h
  exact ⟨front, event, back, hsteps, hfront, hback, hname, hid.trans hidentity, hhash⟩

theorem RanAfterRow.countP_isExecuted {steps : List DispatchStep}
    (h : RanAfterRow env name input ctx call steps) :
    steps.countP DispatchStep.isExecuted = 1 := by
  obtain ⟨front, event, back, rfl, hfront, hback, -⟩ := h
  rw [List.countP_append, List.countP_append, hfront.countP_isExecuted, hback.countP_isExecuted]
  rfl

theorem RanAfterRow.countP_isRecorded {steps : List DispatchStep}
    (h : RanAfterRow env name input ctx call steps) :
    steps.countP DispatchStep.isRecorded = 1 := by
  obtain ⟨front, event, back, rfl, hfront, hback, -⟩ := h
  rw [List.countP_append, List.countP_append, hfront.countP_isRecorded, hback.countP_isRecorded]
  rfl

theorem RanAfterRow.only {steps : List DispatchStep} {other : PreparedCall}
    (h : RanAfterRow env name input ctx call steps) (hmem : DispatchStep.executed other ∈ steps) :
      other = call := by
  obtain ⟨front, event, back, rfl, hfront, hback, -⟩ := h
  simp only [List.mem_append, List.mem_cons, List.not_mem_nil, or_false, reduceCtorEq, false_or,
    DispatchStep.executed.injEq] at hmem
  rcases hmem with (hmem | hmem) | hmem
  · cases (hfront _ hmem).2
  · exact hmem
  · cases (hback _ hmem).2

theorem runBefore_quiet : Quiet (runBefore entry name inputJson ctx).2 := by
  unfold runBefore
  cases ctx.bus with
  | none => exact Quiet.nil
  | some bus => exact Quiet.single ⟨rfl, rfl⟩

theorem prepareCall_quiet : Quiet (prepareCall entry before input).2 := by
  unfold prepareCall
  split
  · exact Quiet.single ⟨rfl, rfl⟩
  · exact Quiet.nil

theorem acquirePathLock_quiet (prepared : Result PreparedCall) :
    Quiet (acquirePathLock env entry prepared ctx).2.2 := by
  unfold acquirePathLock
  repeat' split
  all_goals first
    | exact Quiet.nil
    | exact Quiet.single ⟨rfl, rfl⟩

/-- A lock wait changes nothing but the clock sample. -/
theorem acquirePathLock_ctx (prepared : Result PreparedCall) :
    ∃ now, (acquirePathLock env entry prepared ctx).2.1 = { ctx with now } := by
  unfold acquirePathLock
  repeat' split
  all_goals exact ⟨_, rfl⟩

/-- The path of an earlier dispatch plays no part in locking. -/
theorem acquirePathLock_resolvedPath (prepared : Result PreparedCall)
    (path : Option ResolvedToolPath) :
    (acquirePathLock env entry prepared { ctx with resolvedPath := path }).1 =
      (acquirePathLock env entry prepared ctx).1 ∧
    (acquirePathLock env entry prepared { ctx with resolvedPath := path }).2.1.now =
      (acquirePathLock env entry prepared ctx).2.1.now := by
  unfold acquirePathLock
  dsimp only
  repeat' split
  all_goals exact ⟨rfl, rfl⟩

theorem decisionEvent_call (resolution : PathResolutionReport) (decision : Decision)
    (approval : ApprovalResolution) :
    (decisionEvent env name inputJson input before resolution decision approval ctx).toolName =
      name ∧
    (decisionEvent env name inputJson input before resolution decision approval ctx).identity =
      ctx.identity ∧
    (decisionEvent env name inputJson input before resolution decision approval ctx).inputHash =
      some (env.sha256 input) := by
  unfold decisionEvent approvedEvent
  repeat' split
  all_goals exact ⟨rfl, rfl, rfl⟩

/-- What is known of a call when its path has resolved and it runs. -/
def Admitted (env : DispatchEnv) (entry : ToolEntry) (name input : Bytes) (before : BeforeOutcome)
    (call : PreparedCall) (ctx : DispatchContext) : Prop :=
  (resolvePrepared env call ctx).error = none ∧
    (entry.policy = .runtime ∨
      tightenedVerdict entry name input before.hookDecision (resolvePrepared env call ctx) ctx =
        .allow ∨
      (tightenedVerdict entry name input before.hookDecision (resolvePrepared env call ctx) ctx =
        .ask ∧
        TokenAccepted env name input ctx.now ctx))

theorem prompted_quiet (prompted : Bool) :
    Quiet (if prompted then [DispatchStep.prompted] else []) := by
  cases prompted with
  | true => exact Quiet.single ⟨rfl, rfl⟩
  | false => exact Quiet.nil

/-- The verdict that lets the executor run is the tightened meet, or the tool is exempt. -/
theorem admitted_of_run (decision : Decision) (ask : AskOutcome)
    (hdecision : decision = dispatchDecision entry name input before
      (resolvePrepared env call ctx) ctx)
    (hask : ask = settleAsk env name input decision (resolvePrepared env call ctx) ctx)
    (herror : (resolvePrepared env call ctx).error = none)
    (hrun : decision.verdict = .allow ∨
      (decision.verdict = .ask ∧ ask.resolution.state = .approved)) :
    Admitted env entry name input before call ctx := by
  refine ⟨herror, ?_⟩
  cases hpolicy : entry.policy with
  | runtime => exact .inl rfl
  | permissioned =>
    right
    rw [← dispatchDecision_verdict hpolicy, ← hdecision]
    rcases hrun with hallow | ⟨hverdict, happroved⟩
    · exact .inl hallow
    · rw [hask] at happroved
      exact .inr ⟨hverdict, settleAsk_approved happroved⟩

theorem admitCall_log :
    (admitCall env entry name inputJson input before call ctx).2.2.countP DispatchStep.isExecuted =
      0 ∨
    (RanAfterRow env name input ctx call
      (admitCall env entry name inputJson input before call ctx).2.2 ∧
      Admitted env entry name input before call ctx) := by
  unfold admitCall
  extract_lets resolution resolvedCtx decision ask approval askedCtx event run steps
  -- without an execution the log is a prompt and a row
  have hsteps : steps.countP DispatchStep.isExecuted = 0 := by
    rw [List.countP_append, (prompted_quiet ask.prompted).countP_isExecuted]
    rfl
  cases hrecord : env.record event with
  | error e => exact .inl hsteps
  | ok u =>
    cases herror : resolution.error with
    | some e => exact .inl hsteps
    | none =>
      by_cases hrun : run = true
      · right
        rw [if_pos hrun]
        have hlog : steps ++ [DispatchStep.executed call] =
            (if ask.prompted then [DispatchStep.prompted] else []) ++
              [DispatchStep.recorded event (.ok ()), .executed call] ++ [] := by
          rw [List.append_nil, List.append_assoc, hrecord]
          rfl
        refine ⟨⟨_, event, [], hlog, prompted_quiet _, Quiet.nil, decisionEvent_call ..⟩, ?_⟩
        simp only [run, herror, Option.isNone_none, Bool.true_and, Bool.or_eq_true,
          Bool.and_eq_true, decide_eq_true_eq] at hrun
        exact admitted_of_run decision ask rfl rfl herror hrun
      · left
        dsimp only
        rw [if_neg hrun]
        split
        · exact hsteps
        · split
          · exact hsteps
          · exact hsteps

theorem refuseCall_log {event : AuditEvent} {e : Error} :
    (refuseCall env event e ctx).2.2.countP DispatchStep.isExecuted = 0 := rfl

/-- Only an admitted call runs after the lock. -/
theorem concludeCall_log (prepared : Result PreparedCall) (pathLock : Result Unit) :
    (concludeCall env entry name inputJson input before prepared pathLock ctx).2.2.countP
      DispatchStep.isExecuted = 0 ∨
    ∃ call, RanAfterRow env name input ctx call
        (concludeCall env entry name inputJson input before prepared pathLock ctx).2.2 ∧
      pathLock = .ok () ∧ before.blockingPublishError = none ∧ before.hookBlocked = false ∧
        prepared = .ok call ∧
      Admitted env entry name input before call ctx := by
  unfold concludeCall
  split
  · exact .inl rfl
  · exact .inl rfl
  next herror =>
  split
  · exact .inl refuseCall_log
  next hopen =>
  split
  · exact .inl refuseCall_log
  next call =>
  rcases admitCall_log with hquiet | ⟨hran, hadmitted⟩
  · exact .inl hquiet
  · exact .inr ⟨call, hran, rfl, herror, by simpa using hopen, rfl, hadmitted⟩

/-- The log of a dispatch is without execution, or that of one mediated call. -/
theorem dispatch_log (env : DispatchEnv) (registry : Registry) (name inputJson : Bytes)
    (ctx : DispatchContext) :
    (dispatch env registry name inputJson ctx).2.2.countP DispatchStep.isExecuted = 0 ∨
    ∃ (call : PreparedCall) (entry : ToolEntry) (hook : HookDecision) (input : Bytes),
      Mediated env registry name inputJson ctx call entry hook input ∧
      RanAfterRow env name input ctx call (dispatch env registry name inputJson ctx).2.2 := by
  unfold dispatch
  dsimp only
  split
  · exact .inl rfl
  next hselected =>
  split
  · exact .inl rfl
  next entry hentry =>
  generalize hbefore : runBefore entry name inputJson { ctx with resolvedPath := none } = before
  generalize hinput : before.1.rewrittenInput.getD inputJson = input
  generalize hprepared : prepareCall entry before.1 input = prepared
  generalize hlock : acquirePathLock env entry prepared.1 { ctx with resolvedPath := none } = lock
  have hfront : Quiet (before.2 ++ prepared.2 ++ lock.2.2) := by
    rw [← hbefore, ← hprepared, ← hlock]
    exact (runBefore_quiet.append prepareCall_quiet).append (acquirePathLock_quiet _)
  have hback : ∀ result, Quiet (if ctx.bus.isSome then [DispatchStep.completed input result]
      else []) := by
    intro result
    split
    · exact Quiet.single ⟨rfl, rfl⟩
    · exact Quiet.nil
  rcases concludeCall_log prepared.1 lock.1 with
    hnone | ⟨call, hran, hlocked, herror, hopen, hcall, hresolved, hauthorized⟩
  · left
    rw [List.countP_append, List.countP_append, hfront.countP_isExecuted, hnone,
      (hback _).countP_isExecuted]
  right
  rw [← hprepared] at hcall
  obtain ⟨hprepare, hexecutor⟩ := prepareCall_ok herror hopen hcall
  rw [← hbefore] at herror hopen
  obtain ⟨hook, hanswered, hveto, hescalated, hfinal, hhook⟩ := runBefore_open herror hopen
  rw [hbefore] at hfinal hhook
  -- the lock leaves everything but the clock, and it does not look at the resolved path
  rw [hprepared] at hcall
  rw [hcall] at hlock
  obtain ⟨now, hctx⟩ := acquirePathLock_ctx (Except.ok call)
  obtain ⟨hsame, hnow⟩ := acquirePathLock_resolvedPath (Except.ok call) none
  rw [hlock] at hctx hsame hnow
  rw [hctx] at hnow
  rw [hctx, hhook] at hauthorized
  rw [hctx] at hresolved
  refine ⟨call, entry, hook, input, ?_, ?_⟩
  · exact
      { selected := fun tools htools => by simpa [htools] using hselected
        registered := hentry
        answered := hanswered
        not_vetoed := hveto
        not_escalated := hescalated
        final := hinput ▸ hfinal
        prepared := hprepare
        executor := hexecutor
        locked := hsame ▸ hlocked
        resolved := hresolved
        authorized := hnow ▸ hauthorized }
  · exact RanAfterRow.extend (hran.of_identity (by rw [hctx])) hfront (hback _)

/-- Every dispatch, whatever its registry, context, hooks, locks, file system, approvals
and audit store, runs at most one executor, once, and only that of a mediated call,
directly after the only row of the dispatch. -/
theorem complete_mediation (env : DispatchEnv) (registry : Registry) (name inputJson : Bytes)
    (ctx : DispatchContext) :
    (dispatch env registry name inputJson ctx).2.2.countP DispatchStep.isExecuted ≤ 1 ∧
    ∀ call, DispatchStep.executed call ∈ (dispatch env registry name inputJson ctx).2.2 →
      ∃ (entry : ToolEntry) (hook : HookDecision) (input : Bytes),
        Mediated env registry name inputJson ctx call entry hook input ∧
        RanAfterRow env name input ctx call (dispatch env registry name inputJson ctx).2.2 ∧
        (dispatch env registry name inputJson ctx).2.2.countP DispatchStep.isRecorded = 1 := by
  rcases dispatch_log env registry name inputJson ctx with hnone | ⟨ran, entry, hook, input,
    hmediated, hran⟩
  · refine ⟨hnone.trans_le (Nat.zero_le 1), fun call hcall => ?_⟩
    cases List.countP_eq_zero.mp hnone _ hcall rfl
  · refine ⟨hran.countP_isExecuted.le, fun call hcall => ?_⟩
    obtain rfl := hran.only hcall
    exact ⟨entry, hook, input, hmediated, hran, hran.countP_isRecorded⟩

end Orangutan.Tool
