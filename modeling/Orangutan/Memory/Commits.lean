import Orangutan.Memory.Session
import Orangutan.Storage.Appends

/-!
# Compare and swap on sessions

Calls of any number of callers on any keys follow each other in some order. In every state
that they reach, a session can be loaded, its count is what the next commit is compared
with, and a commit from an older snapshot fails.
-/

namespace Orangutan.Memory.Session

set_option autoImplicit false

open Orangutan.Core Orangutan.Core.Str Orangutan.Storage

/-- A plain append of rows, or an append of messages that may carry a checkpoint. -/
inductive StoreCall
  | append (key : SessionKey) (messages : List SessionMessageInput) (fault : Faults)
  | appendAll (key : SessionKey) (messages : List Message) (expected : Option ContextSnapshot)
      (checkpoint : WorkingContext) (fault : Faults)

def StoreCall.key : StoreCall → SessionKey
  | append key _ _ => key
  | appendAll key _ _ _ _ => key

def StoreCall.run (reader : JsonReader) (db : SessionDb) : StoreCall → Result Unit × SessionDb
  | append key messages fault =>
    let appended := appendMessages reader fault db key messages none
    (appended.1.map fun _ => (), appended.2)
  | appendAll key messages expected checkpoint fault =>
    Session.appendAll reader fault db key messages expected checkpoint

def runCalls (reader : JsonReader) (calls : List StoreCall) (db : SessionDb) : SessionDb :=
  calls.foldl (fun db call => (call.run reader db).2) db

/-- What a turn hands over at its end. -/
structure FinishedTurn where
  transcript : List Message
  checkpoint : WorkingContext
  fault : Faults := fun _ => none

/-- The commit of a turn that started from a snapshot. -/
def FinishedTurn.commit (turn : FinishedTurn) (reader : JsonReader) (db : SessionDb)
    (key : SessionKey) (snapshot : ContextSnapshot) : Result Unit × SessionDb :=
  appendAll reader turn.fault db key turn.transcript (some snapshot) turn.checkpoint

variable {reader : JsonReader} {fault : Faults} {db : SessionDb} {key other : SessionKey}
  {s : Storage.Session}
  {messages : List Message} {snapshot : ContextSnapshot} {checkpoint : WorkingContext}

theorem encodeCommit_ok {expected : Option ContextSnapshot} {commit : Option SessionCommit}
    (h : encodeCommit checkpoint expected = .ok commit) :
    (expected = none ∧ commit = none) ∨ ∃ snapshot, expected = some snapshot ∧
      isValidUtf8 checkpoint.summary = true ∧
      commit = some
        { expectedMessages := snapshot.messageCount
          expectedRevision := snapshot.checkpoint.revision
          checkpointJson := dumpCheckpoint checkpoint } := by
  cases expected with
  | none =>
    cases h
    exact .inl ⟨rfl, rfl⟩
  | some snapshot =>
    simp only [encodeCommit] at h
    split at h
    · next hvalid =>
      cases h
      exact .inr ⟨snapshot, rfl, hvalid, rfl⟩
    · cases h

theorem encodeMessages_length {i : Nat} {messages : List Message} {rows : List SessionMessageInput}
    (h : encodeMessages i messages = .ok rows) : rows.length = messages.length := by
  induction messages generalizing i rows with
  | nil =>
    cases h
    rfl
  | cons message rest ih =>
    unfold encodeMessages at h
    split at h
    · obtain ⟨others, hothers, h⟩ := bind_eq_ok.mp h
      cases h
      rw [List.length_cons, List.length_cons, ih hothers]
    · cases h

/-- A call of the store fails before it reaches the repository, or it is one of its calls. -/
theorem appendAll_cases (reader : JsonReader) (fault : Faults) (db : SessionDb) (key : SessionKey)
    (messages : List Message) (expected : Option ContextSnapshot) (checkpoint : WorkingContext) :
    (∃ e, appendAll reader fault db key messages expected checkpoint = (.error e, db)) ∨
    ∃ rows commit, encodeMessages 0 messages = .ok rows ∧
      encodeCommit checkpoint expected = .ok commit ∧
      appendAll reader fault db key messages expected checkpoint =
        ((appendMessages reader fault db key rows commit).1.map fun _ => (),
          (appendMessages reader fault db key rows commit).2) := by
  unfold appendAll
  dsimp only
  split
  · exact .inl ⟨_, rfl⟩
  · next rows commit hencoded =>
    obtain ⟨-, -, hencoded⟩ := bind_eq_ok.mp hencoded
    obtain ⟨encoded, hmessages, hencoded⟩ := bind_eq_ok.mp hencoded
    obtain ⟨committed, hcommit, hencoded⟩ := bind_eq_ok.mp hencoded
    cases hencoded
    exact .inr ⟨rows, commit, hmessages, hcommit, rfl⟩

theorem map_unit_ok {α : Type} {x : Result α} (h : (x.map fun _ => ()) = .ok ()) :
    ∃ a, x = .ok a := by
  cases x with
  | error e => cases h
  | ok a => exact ⟨a, rfl⟩

/-- A commit that succeeds has met its snapshot and stores a successor. -/
theorem appendAll_commit (hdb : Represents db key s)
    (h : (appendAll reader fault db key messages (some snapshot) checkpoint).1 = .ok ()) :
    snapshot.messageCount = s.messages.length ∧
      snapshot.checkpoint.revision = s.checkpoint.revision ∧
    ∃ (rows : List SessionMessageInput)
      (hnext : Successor s.checkpoint checkpoint (s.append rows).messages.length),
        rows.length = messages.length ∧
      Represents (appendAll reader fault db key messages (some snapshot) checkpoint).2 key
        ((s.append rows).commit checkpoint hnext) := by
  rcases appendAll_cases reader fault db key messages (some snapshot) checkpoint with
    ⟨e, hrun⟩ | ⟨rows, commit, hmessages, hcommit, hrun⟩
  · rw [hrun] at h
    cases h
  · rcases encodeCommit_ok hcommit with ⟨hnone, -⟩ | ⟨found, hfound, hvalid, rfl⟩
    · cases hnone
    · cases hfound
      rw [hrun] at h ⊢
      obtain ⟨records, hok⟩ := map_unit_ok h
      obtain ⟨hcount, hrevision, hnext, hafter⟩ :=
        appendMessages_commit (reader.read_checkpoint checkpoint hvalid) hdb hok
      exact ⟨hcount, hrevision, rows, hnext, encodeMessages_length hmessages, hafter⟩

theorem appendMessages_error {rows : List SessionMessageInput} {commit : Option SessionCommit}
    {e : Error} (h : (appendMessages reader fault db key rows commit).1 = .error e) :
    (appendMessages reader fault db key rows commit).2 = db := by
  rcases appendMessages_cases reader fault db key rows commit with ⟨e, hrun⟩ | ⟨-, -,
    hrun⟩ | ⟨records, after, hrun, -⟩
  · rw [hrun]
  · rw [hrun]
  · rw [hrun] at h
    cases h

theorem map_unit_error {α : Type} {x : Result α} {e : Error} (h : (x.map fun _ => ()) = .error e) :
    x = .error e := by
  cases x with
  | error e' =>
    cases h
    rfl
  | ok a => cases h

theorem appendAll_error {expected : Option ContextSnapshot} {e : Error}
    (h : (appendAll reader fault db key messages expected checkpoint).1 = .error e) :
    (appendAll reader fault db key messages expected checkpoint).2 = db := by
  rcases appendAll_cases reader fault db key messages expected checkpoint with
    ⟨e, hrun⟩ | ⟨rows, commit, -, -, hrun⟩
  · rw [hrun]
  · rw [hrun] at h ⊢
    exact appendMessages_error (map_unit_error h)

/-- A call that fails anywhere changes nothing. -/
theorem run_error {call : StoreCall} {e : Error} (h : (call.run reader db).1 = .error e) :
    (call.run reader db).2 = db := by
  cases call with
  | append key messages fault => exact appendMessages_error (map_unit_error h)
  | appendAll key messages expected checkpoint fault => exact appendAll_error h

theorem appendAll_other (hne : other ≠ key) (expected : Option ContextSnapshot) :
    SameAt other db (appendAll reader fault db key messages expected checkpoint).2 := by
  rcases appendAll_cases reader fault db key messages expected checkpoint with
    ⟨e, hrun⟩ | ⟨rows, commit, -, -, hrun⟩
  · rw [hrun]
    exact SameAt.refl _ _
  · rw [hrun]
    exact appendMessages_other hne commit

theorem run_other {call : StoreCall} (hne : other ≠ call.key) :
    SameAt other db (call.run reader db).2 := by
  cases call with
  | append key messages fault => exact appendMessages_other hne none
  | appendAll key messages expected checkpoint fault => exact appendAll_other hne expected

/-- A call takes the session of every key forward, or leaves it. -/
theorem run_represents (call : StoreCall) (hdb : Represents db key s) :
    ∃ t, Represents (call.run reader db).2 key t ∧ s.Before t := by
  by_cases hkey : key = call.key
  swap
  · exact ⟨s, hdb.congr (run_other hkey), .refl s⟩
  cases hresult : (call.run reader db).1 with
  | error e =>
    rw [run_error hresult]
    exact ⟨s, hdb, .refl s⟩
  | ok u =>
    subst hkey
    cases call with
    | append key rows fault =>
      obtain ⟨records, hok⟩ := map_unit_ok hresult
      exact ⟨s.append rows, appendMessages_plain hdb hok, s.before_append rows⟩
    | appendAll key messages expected checkpoint fault =>
      cases expected with
      | some snapshot =>
        obtain ⟨-, -, rows, hnext, -, hafter⟩ := appendAll_commit hdb hresult
        exact ⟨_, hafter, (s.before_append rows).trans ((s.append rows).before_commit hnext)⟩
      | none =>
        rcases appendAll_cases reader fault db key messages none checkpoint with
          ⟨e, hrun⟩ | ⟨rows, commit, -, hcommit, hrun⟩
        · rw [StoreCall.run, hrun] at hresult
          cases hresult
        · cases hcommit
          rw [StoreCall.run, hrun] at hresult ⊢
          obtain ⟨records, hok⟩ := map_unit_ok hresult
          exact ⟨s.append rows, appendMessages_plain hdb hok, s.before_append rows⟩

theorem runCalls_represents (reader : JsonReader) (calls : List StoreCall)
    (hdb : Represents db key s) :
    ∃ t, Represents (runCalls reader calls db) key t ∧ s.Before t := by
  induction calls generalizing db s with
  | nil => exact ⟨s, hdb, .refl s⟩
  | cons call rest ih =>
    obtain ⟨t, hnext, hbefore⟩ := run_represents call hdb
    obtain ⟨u, hend, hafter⟩ := ih hnext
    exact ⟨u, hend, hbefore.trans hafter⟩

/-- The checkpoint that SQL extracts from the row of a session. -/
def storedCheckpoint (db : SessionDb) (key : SessionKey) : WorkingContext where
  coveredSequence := SqlJson.integerOr0 ((db.workingContext key).bind (SqlJson.member coveredKey))
  revision := db.revision key
  summary := SqlJson.textOrEmpty ((db.workingContext key).bind (SqlJson.member summaryKey))

theorem storedCheckpoint_represents (h : Represents db key s) :
    storedCheckpoint db key = s.checkpoint := by
  unfold storedCheckpoint SessionDb.revision SessionDb.workingContext
  cases hrow : db.sessions.lookup key with
  | none =>
    rw [(h.absent hrow).2]
    rfl
  | some metadata =>
    obtain ⟨hcovered, hrevision, hsummary⟩ := (h.metadata metadata hrow).extract
    simp only [Option.bind_some, hcovered, hrevision, hsummary]

theorem textLength_nil : textLength [] = 0 := rfl

theorem admitContext_session (s : Storage.Session) :
    admitContext s.messages.length s.checkpoint = .ok ⟨s.checkpoint, s.messages.length⟩ := by
  unfold admitContext
  rw [if_neg]
  rintro (h | h | h | h | ⟨hpos, hempty⟩)
  · exact absurd s.covered_nonneg (not_le.mpr h)
  · exact absurd s.covered_le (not_le.mpr h)
  · exact absurd s.revision_nonneg (not_le.mpr h)
  · exact absurd s.short (not_le.mpr h)
  · rcases s.summary with hzero | htext
    · exact absurd hzero hpos.ne'
    · rw [hempty, textLength_nil] at htext
      exact absurd htext (lt_irrefl 0)

theorem loadContext_represents (hkey : Storage.validateKey key = .ok ()) (h : Represents db key s) :
    loadContext db key = .ok ⟨s.checkpoint, s.messages.length⟩ := by
  unfold loadContext getSession
  rw [hkey]
  simp only [bind, Except.bind]
  cases hrow : db.sessions.lookup key with
  | none =>
    obtain ⟨hmessages, hcheckpoint⟩ := h.absent hrow
    rw [hmessages, hcheckpoint]
    rfl
  | some metadata =>
    have hmetadata := h.metadata metadata hrow
    simp only [Option.map_some, hmetadata.isObject, if_true, h.length]
    cases hmetadata with
    | blank hblank =>
      rw [hblank]
      rfl
    | stored => exact admitContext_session s

/-- A commit from a snapshot that the session has left fails and changes nothing. -/
theorem commit_stale (turn : FinishedTurn) (hdb : Represents db key s)
    (hstale : snapshot.messageCount ≠ s.messages.length ∨
      snapshot.checkpoint.revision ≠ s.checkpoint.revision) :
    ∃ e, turn.commit reader db key snapshot = (.error e, db) := by
  cases hresult : (turn.commit reader db key snapshot).1 with
  | ok u =>
    obtain ⟨hcount, hrevision, -⟩ := appendAll_commit hdb hresult
    rcases hstale with hstale | hstale
    · exact absurd hcount hstale
    · exact absurd hrevision hstale
  | error e => exact ⟨e, Prod.ext hresult (appendAll_error hresult)⟩

/-- After a commit only one that changed neither count nor revision leaves its snapshot
current. -/
theorem commit_again (first second : FinishedTurn) (middle : List StoreCall)
    (hdb : Represents db key s) (hfirst : (first.commit reader db key snapshot).1 = .ok ())
    (hsecond :
    (second.commit reader (runCalls reader middle (first.commit reader db key snapshot).2) key
    snapshot).1 =
      .ok ()) :
    first.transcript = [] ∧ first.checkpoint.revision = snapshot.checkpoint.revision := by
  obtain ⟨hcount, hrevision, rows, hnext, hrows, hafter⟩ := appendAll_commit hdb hfirst
  obtain ⟨t, hlater, hbefore⟩ := runCalls_represents reader middle hafter
  obtain ⟨hcount', hrevision', -⟩ := appendAll_commit hlater hsecond
  have hmessages := hbefore.messages.length_le
  have hup := hbefore.revision
  have hsucc := hnext.revision
  simp only [Session.commit, Session.append, List.length_append] at hmessages hup hsucc
  refine ⟨List.length_eq_zero_iff.mp ?_, ?_⟩
  · rw [← hrows]
    omega
  · omega

/-- In every state that the calls of all callers reach, and for every key: the messages are
numbered without gap; a call that fails changes nothing, and a commit from a snapshot that
differs from the stored state fails; after a commit that appends messages or raises the
revision, none from the same snapshot succeeds; a commit stores its checkpoint, which takes
coverage and revision forward within the messages and keeps a summary for what it covers;
and the session loads with the count and the revision that the next commit is compared
with. -/
theorem session_compare_and_swap (reader : JsonReader) (calls : List StoreCall) (key : SessionKey) :
    let db := runCalls reader calls {}
    (db.rows key).map (·.sequence) = List.range' 1 (db.rows key).length ∧
    (∀ call e, (StoreCall.run reader db call).1 = .error e →
      (StoreCall.run reader db call).2 = db) ∧
    (∀ turn snapshot, snapshot.messageCount ≠ (db.maxSequence key : Int) ∨
      snapshot.checkpoint.revision ≠ db.revision key →
      ∃ e, FinishedTurn.commit turn reader db key snapshot = (.error e, db)) ∧
    (∀ first second snapshot middle, (FinishedTurn.commit first reader db key snapshot).1 = .ok () →
      (FinishedTurn.commit second reader
        (runCalls reader middle (first.commit reader db key snapshot).2) key snapshot).1 = .ok () →
      first.transcript = [] ∧ first.checkpoint.revision = snapshot.checkpoint.revision) ∧
    (∀ turn snapshot, (FinishedTurn.commit turn reader db key snapshot).1 = .ok () →
      let after := (turn.commit reader db key snapshot).2
      storedCheckpoint after key = turn.checkpoint ∧
      (storedCheckpoint db key).coveredSequence ≤ turn.checkpoint.coveredSequence ∧
      (storedCheckpoint db key).revision ≤ turn.checkpoint.revision ∧
      turn.checkpoint.coveredSequence ≤ after.maxSequence key ∧
      (0 < turn.checkpoint.coveredSequence → turn.checkpoint.summary ≠ [])) ∧
    (Storage.validateKey key = .ok () →
      loadContext db key = .ok ⟨storedCheckpoint db key, db.maxSequence key⟩) := by
  intro db
  obtain ⟨s, hdb, -⟩ := runCalls_represents reader calls (represents_empty key)
  refine ⟨?_, fun call e => run_error, fun turn snapshot hstale => ?_,
    fun first second snapshot middle => ?_, fun turn snapshot hok => ?_, fun hkey => ?_⟩
  · rw [hdb.length]
    exact hdb.sequences
  · rw [hdb.maxSequence, hdb.revision] at hstale
    exact commit_stale turn hdb hstale
  · exact commit_again first second middle hdb
  · obtain ⟨-, -, rows, hnext, -, hafter⟩ := appendAll_commit hdb hok
    refine ⟨storedCheckpoint_represents hafter, ?_, ?_, ?_, fun hpos hempty => ?_⟩
    · rw [storedCheckpoint_represents hdb]
      exact hnext.covered
    · rw [storedCheckpoint_represents hdb]
      exact hnext.revision
    · exact hnext.inside.trans_eq (congrArg Nat.cast hafter.maxSequence.symm)
    · rcases hnext.summary with hzero | htext
      · exact absurd hzero hpos.ne'
      · rw [hempty, textLength_nil] at htext
        exact absurd htext (lt_irrefl 0)
  · rw [loadContext_represents hkey hdb, storedCheckpoint_represents hdb, hdb.maxSequence]

-- A commit that neither appends nor raises the revision leaves the snapshot current, so
-- a turn that appends a message may still commit after it.
def sampleKey : SessionKey := ⟨text "s", text "a"⟩

def sampleDb : SessionDb :=
  runCalls checkpointReader [.appendAll sampleKey [.userText (text "hello")] none {}
    fun _ => none] {}

def idleTurn : FinishedTurn := { transcript := [], checkpoint := {} }

def talkingTurn : FinishedTurn := { transcript := [.userText (text "more")], checkpoint := {} }

/-- Two turns from one snapshot commit although the second of them appends a message. -/
theorem both_turns_commit :
    let snapshot : ContextSnapshot := { messageCount := 1 }
    let after := (idleTurn.commit checkpointReader sampleDb sampleKey snapshot).2
    (loadContext sampleDb sampleKey).map (fun s => (s.messageCount, s.checkpoint)) =
      .ok (snapshot.messageCount, snapshot.checkpoint) ∧
    (idleTurn.commit checkpointReader sampleDb sampleKey snapshot).1 = .ok () ∧
    (talkingTurn.commit checkpointReader after sampleKey snapshot).1 = .ok () ∧
    talkingTurn.transcript.length = 1 := by
  decide +kernel

end Orangutan.Memory.Session
