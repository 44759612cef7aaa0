import Orangutan.Agent.Handoff
import Orangutan.Memory.Commits

/-!
# A finished turn can be stored

`run_prompt` loads a snapshot, runs a turn from it and appends the transcript with the
checkpoint of the turn. Unless somebody else wrote to the session, the update accepts that
checkpoint.
-/

namespace Orangutan.Bootstrap

set_option autoImplicit false

open Orangutan.Core Orangutan.Core.Str Orangutan.Storage Orangutan.Memory.Session Orangutan.Agent

/-- No call on the key succeeds. -/
def Untouched (reader : JsonReader) (key : SessionKey) : List StoreCall → SessionDb → Prop
  | [], _ => True
  | call :: rest, db => (key ≠ call.key ∨ ∃ e, (call.run reader db).1 = .error e) ∧
      Untouched reader key rest (call.run reader db).2

variable {reader : JsonReader} {fault : Faults} {db : SessionDb} {key : SessionKey}
  {s : Storage.Session}

theorem Untouched.sameAt {calls : List StoreCall} (h : Untouched reader key calls db) :
    SameAt key db (runCalls reader calls db) := by
  induction calls generalizing db with
  | nil => exact SameAt.refl _ _
  | cons call rest ih =>
    obtain ⟨hcall, hrest⟩ := h
    rcases hcall with hother | ⟨e, he⟩
    · exact (run_other hother).trans (ih hrest)
    · have hsame := ih hrest
      rw [run_error he] at hsame
      rw [runCalls, List.foldl_cons, run_error he]
      exact hsame

theorem encodeMessages_succeeds (i : Nat) {messages : List Message}
    (h : ∀ m ∈ messages, wellFormed m = true) :
    ∃ rows, encodeMessages i messages = .ok rows ∧ ∀ j, validateMessages j rows = .ok () := by
  induction messages generalizing i with
  | nil => exact ⟨[], rfl, fun _ => rfl⟩
  | cons message rest ih =>
    obtain ⟨rows, hrows, hvalid⟩ := ih (i + 1) fun m hm => h m (List.mem_cons_of_mem _ hm)
    refine ⟨{ role := message.role, contentJson := (messageToJson message).dump } :: rows, ?_,
      fun j => ?_⟩
    · rw [encodeMessages, if_pos (h message List.mem_cons_self), hrows]
      rfl
    · rw [validateMessages, if_neg (by rw [messageToJson, Json.dump]; simp),
        if_neg (show ¬text "\x7b\x7d" = [] by decide)]
      exact hvalid (j + 1)

theorem validateKey_memory (h : Storage.validateKey key = .ok ()) :
    Memory.Session.validateKey key = .ok () := by
  unfold Storage.validateKey at h
  unfold Memory.Session.validateKey
  split at h
  · cases h
  next hsession =>
  split at h
  · cases h
  next hagent => rw [if_neg hsession, if_neg hagent]

/-- A commit from the current snapshot with a successor of the stored checkpoint goes
through the store, unless a statement fails. -/
theorem onlyFaults_appendAll {snapshot : ContextSnapshot} {messages : List Message}
    {checkpoint : WorkingContext} (hkey : Storage.validateKey key = .ok ())
    (hdb : Represents db key s) (hcount : snapshot.messageCount = s.messages.length)
    (hrevision : snapshot.checkpoint.revision = s.checkpoint.revision)
    (hutf8 : ∀ m ∈ messages, wellFormed m = true) (hsummary : isValidUtf8 checkpoint.summary = true)
    (hsize : (dumpCheckpoint checkpoint).length ≤ 512 * 1024) (hsome : messages ≠ [])
    (hnext : Successor s.checkpoint checkpoint (s.messages.length + messages.length)) :
    OnlyFaults fault (appendAll reader fault db key messages (some snapshot) checkpoint).1 := by
  obtain ⟨rows, hrows, hvalid⟩ := encodeMessages_succeeds 0 hutf8
  have hlength := encodeMessages_length hrows
  let commit : SessionCommit :=
    { expectedMessages := snapshot.messageCount
      expectedRevision := snapshot.checkpoint.revision
      checkpointJson := dumpCheckpoint checkpoint }
  have hcommit : validateCommit (some commit) = .ok () := by
    have hnonneg := s.revision_nonneg
    simp only [validateCommit, commit]
    rw [if_neg]
    rintro (h | h | h | h)
    · omega
    · omega
    · omega
    · rw [dumpCheckpoint_utf8 hsummary] at h
      cases h
  have htransact : OnlyFaults fault (transact reader fault db key rows (some commit)) := by
    refine onlyFaults_transact (reader.read_checkpoint checkpoint hsummary) hdb hcount
      hrevision ?_ ?_
    · rw [Storage.Session.append, List.length_append, hlength]
      exact hnext
    · rw [Storage.Session.append]
      refine List.append_ne_nil_of_right_ne_nil _ fun hnil => hsome ?_
      rw [hnil] at hlength
      exact List.length_eq_zero_iff.mp hlength.symm
  have happend : OnlyFaults fault (appendMessages reader fault db key rows (some commit)).1 := by
    unfold appendMessages
    rw [hkey, hvalid 0, hcommit]
    rcases htransact with ⟨out, hout⟩ | ⟨step, e, hfault, he⟩
    · exact .inl ⟨out.1, by simp [hout, bind, Except.bind]⟩
    · exact .inr ⟨step, e, hfault, by simp [he, bind, Except.bind]⟩
  unfold appendAll
  rw [validateKey_memory hkey, hrows, encodeCommit, if_pos hsummary]
  rcases happend with ⟨records, hok⟩ | ⟨step, e, hfault, he⟩
  · exact .inl ⟨(), congrArg (Except.map fun _ => ()) hok⟩
  · exact .inr ⟨step, e, hfault, congrArg (Except.map fun _ => ()) he⟩

variable {env : TurnEnv} {loop : Loop} {inputs : RunTurnInputs} {r : RunTurnResult}

/-- The checkpoint of a turn from the stored one may follow it, whatever the turn did. -/
theorem successor_runTurn (hcheckpoint : inputs.checkpoint = s.checkpoint)
    (hend : inputs.historyEnd = s.messages.length) (hturn : (runTurn env loop inputs).1 = .ok r) :
    Successor s.checkpoint r.checkpoint (s.messages.length + r.transcript.length) := by
  rcases runTurn_sound env loop inputs with ⟨e, he⟩ | ⟨tools, haccepted, -, hresult⟩
  · rw [he] at hturn
    cases hturn
  obtain ⟨-, hlow, hhigh, hrevision, hunchanged⟩ := hresult r hturn
  obtain ⟨-, -, hmax⟩ := validOptions_bounds haccepted.options
  rw [hcheckpoint] at hlow hrevision hunchanged
  rw [hend] at hhigh
  refine ⟨hlow, by push_cast; exact hhigh, by omega, fun hsame => hunchanged (by omega), ?_, ?_⟩
  all_goals rcases (runTurn_handoff hturn).1 with hsame | hvalid
  · rw [hsame, hcheckpoint]
    exact s.short
  · exact ((validateContextSummary_ok hvalid).1.trans hmax)
  · rw [hsame, hcheckpoint]
    exact s.summary
  · obtain ⟨-, -, rest, hrest⟩ := validateContextSummary_ok hvalid
    refine .inr ?_
    rw [hrest]
    simp [textLength]

theorem isValidUtf8_runTurn (hturn : (runTurn env loop inputs).1 = .ok r) :
    isValidUtf8 r.checkpoint.summary = true := by
  rcases (runTurn_handoff hturn).1 with hsame | hvalid
  · rcases runTurn_sound env loop inputs with ⟨e, he⟩ | ⟨tools, haccepted, -, -⟩
    · rw [he] at hturn
      cases hturn
    rw [hsame]
    by_cases hempty : inputs.checkpoint.summary = []
    · rw [hempty]
      rfl
    · exact (validateContextSummary_ok (haccepted.valid hempty)).2.1
  · exact (validateContextSummary_ok hvalid).2.1

theorem loadContext_key {snapshot : ContextSnapshot} (h : loadContext db key = .ok snapshot) :
    Storage.validateKey key = .ok () := by
  unfold loadContext getSession at h
  cases hkey : Storage.validateKey key with
  | error e =>
    rw [hkey] at h
    cases h
  | ok u => rfl

/-- A turn that starts from the snapshot of a session and succeeds is stored, unless
somebody else wrote to the session meanwhile, its checkpoint is too large or a statement
fails by itself. -/
theorem turn_is_committable (reader : JsonReader) (fault : Faults)
    (before meanwhile : List StoreCall) (key : SessionKey) (snapshot : ContextSnapshot)
    (env : TurnEnv) (loop : Loop) (inputs : RunTurnInputs) (r : RunTurnResult)
    (hload : loadContext (runCalls reader before {}) key = .ok snapshot)
    (hcheckpoint : inputs.checkpoint = snapshot.checkpoint)
    (hend : inputs.historyEnd = snapshot.messageCount) (hturn : (runTurn env loop inputs).1 = .ok r)
    (hutf8 : ∀ m ∈ r.transcript, wellFormed m = true)
    (hsize : (dumpCheckpoint r.checkpoint).length ≤ 512 * 1024)
    (halone : Untouched reader key meanwhile (runCalls reader before {})) :
    OnlyFaults fault (appendAll reader fault
      (runCalls reader meanwhile (runCalls reader before {})) key
      r.transcript (some snapshot) r.checkpoint).1 := by
  obtain ⟨s, hdb, -⟩ := runCalls_represents reader before (represents_empty key)
  have hkey := loadContext_key hload
  have hsnapshot : ⟨s.checkpoint, s.messages.length⟩ = snapshot :=
    Except.ok.inj ((loadContext_represents hkey hdb).symm.trans hload)
  subst hsnapshot
  exact onlyFaults_appendAll hkey (hdb.congr halone.sameAt) rfl rfl hutf8
    (isValidUtf8_runTurn hturn) hsize
    (runTurn_handoff hturn).2 (successor_runTurn hcheckpoint hend hturn)

/-- The session of the sample turn, before it. -/
def sampleBefore : List StoreCall :=
  [.appendAll sampleKey Agent.Sample.history none {} fun _ => none]

theorem sampleTurn_stored :
    (Agent.Sample.said.all wellFormed && decide ((dumpCheckpoint
      { coveredSequence := 4, revision := 1, summary := Agent.Sample.handoff }).length ≤
        512 * 1024)) = true := by
  decide +kernel

/-- The sample turn, which compacts its history, is stored. -/
theorem turn_is_committable_sample :
    ∃ r, (runTurn Agent.Sample.env Agent.Sample.loop Agent.Sample.inputs).1 = .ok r ∧
    OnlyFaults (fun _ => none)
      (appendAll checkpointReader (fun _ => none) (runCalls checkpointReader sampleBefore {})
      sampleKey r.transcript (some { messageCount := 4 }) r.checkpoint).1 := by
  have hstored := sampleTurn_stored
  simp only [Bool.and_eq_true, List.all_eq_true, decide_eq_true_eq] at hstored
  have hok := Agent.Sample.turn_ok.1
  cases hr : (runTurn Agent.Sample.env Agent.Sample.loop Agent.Sample.inputs).1 with
  | error e =>
    rw [hr] at hok
    cases hok
  | ok r =>
    rw [hr] at hok
    obtain ⟨hsaid, hcheckpoint⟩ := Prod.mk.inj (Option.some.inj hok)
    rw [← hsaid, ← hcheckpoint] at hstored
    exact ⟨r, rfl, turn_is_committable checkpointReader _ sampleBefore [] sampleKey
      { messageCount := 4 } _ _ _ r
      (by decide +kernel) rfl rfl hr hstored.1 hstored.2 trivial⟩

end Orangutan.Bootstrap
