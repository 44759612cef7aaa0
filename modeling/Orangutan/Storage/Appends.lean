import Orangutan.Storage.SessionRepository

/-!
# Sessions behind the tables

A session is a list of messages and a checkpoint that covers a part of them. The tables
represent one session for every key; a call that succeeds extends the session of its key
and may replace its checkpoint by a successor, and it leaves the others alone.
-/

namespace Orangutan.Storage

set_option autoImplicit false

open Orangutan.Core Orangutan.Core.Str

@[ext] structure Session where
  messages : List SessionMessageInput := []
  checkpoint : WorkingContext := {}
  covered_nonneg : 0 ≤ checkpoint.coveredSequence
  covered_le : checkpoint.coveredSequence ≤ messages.length
  revision_nonneg : 0 ≤ checkpoint.revision
  short : checkpoint.summary.length ≤ 65536
  summary : checkpoint.coveredSequence = 0 ∨ 0 < textLength checkpoint.summary

/-- What may follow a checkpoint when there are so many messages. -/
structure Successor (before after : WorkingContext) (count : Nat) : Prop where
  covered : before.coveredSequence ≤ after.coveredSequence
  inside : after.coveredSequence ≤ count
  revision : before.revision ≤ after.revision
  same : after.revision = before.revision → after = before
  short : after.summary.length ≤ 65536
  summary : after.coveredSequence = 0 ∨ 0 < textLength after.summary

namespace Session

def empty : Session where
  covered_nonneg := le_refl _
  covered_le := le_refl _
  revision_nonneg := le_refl _
  short := by decide
  summary := .inl rfl

def append (s : Session) (more : List SessionMessageInput) : Session :=
  { s with
    messages := s.messages ++ more
    covered_le := s.covered_le.trans (by rw [List.length_append]; omega) }

def commit (s : Session) (checkpoint : WorkingContext)
    (h : Successor s.checkpoint checkpoint s.messages.length) :
    Session where
  messages := s.messages
  checkpoint := checkpoint
  covered_nonneg := s.covered_nonneg.trans h.covered
  covered_le := h.inside
  revision_nonneg := s.revision_nonneg.trans h.revision
  short := h.short
  summary := h.summary

theorem append_nil (s : Session) : s.append [] = s := Session.ext (List.append_nil _) rfl

theorem append_append (s : Session) (more rest : List SessionMessageInput) :
    (s.append more).append rest = s.append (more ++ rest) := Session.ext (List.append_assoc ..) rfl

/-- A session with what it can become. -/
structure Before (s t : Session) : Prop where
  messages : s.messages <+: t.messages
  covered : s.checkpoint.coveredSequence ≤ t.checkpoint.coveredSequence
  revision : s.checkpoint.revision ≤ t.checkpoint.revision

theorem Before.refl (s : Session) : s.Before s := ⟨List.prefix_refl _, le_refl _, le_refl _⟩

theorem Before.trans {s t u : Session} (h : s.Before t) (h' : t.Before u) : s.Before u :=
  ⟨h.messages.trans h'.messages, h.covered.trans h'.covered, h.revision.trans h'.revision⟩

theorem before_append (s : Session) (more : List SessionMessageInput) : s.Before (s.append more) :=
  ⟨List.prefix_append .., le_refl _, le_refl _⟩

theorem before_commit (s : Session) {checkpoint : WorkingContext}
    (h : Successor s.checkpoint checkpoint s.messages.length) : s.Before (s.commit checkpoint h) :=
  ⟨List.prefix_refl _, h.covered, h.revision⟩

end Session

/-- The metadata of a session; before the first commit there is no checkpoint in it. -/
inductive Metadata (checkpoint : WorkingContext) : SqlJson → Prop
  | blank (h : checkpoint = {}) : Metadata checkpoint (.object [])
  | stored : Metadata checkpoint (.object [(contextKey, checkpointValue checkpoint)])

/-- The row of a message at a position. -/
def recordAt (key : SessionKey) (i : Nat) (message : SessionMessageInput) : SessionMessageRecord :=
  { toSessionKey := key, toSessionMessageInput := message, sequence := i + 1 }

structure Represents (db : SessionDb) (key : SessionKey) (s : Session) : Prop where
  rows : db.rows key = s.messages.mapIdx (recordAt key)
  metadata : ∀ metadata, db.sessions.lookup key = some metadata → Metadata s.checkpoint metadata
  absent : db.sessions.lookup key = none → s.messages = [] ∧ s.checkpoint = {}

theorem represents_empty (key : SessionKey) : Represents {} key .empty where
  rows := rfl
  metadata _ h := by cases h
  absent _ := ⟨rfl, rfl⟩

section Represents

variable {db : SessionDb} {key other : SessionKey} {s : Session}

theorem Represents.sequences (h : Represents db key s) :
    (db.rows key).map (·.sequence) = List.range' 1 s.messages.length := by
  rw [h.rows]
  refine List.ext_getElem (by simp) fun i h₁ h₂ => ?_
  simp [recordAt, Nat.add_comm]

theorem Represents.length (h : Represents db key s) : (db.rows key).length = s.messages.length := by
  rw [h.rows, List.length_mapIdx]

theorem foldl_max_range' (m n : Nat) : (List.range' 1 n).foldl max m = max m n := by
  induction n generalizing m with
  | zero => simp
  | succ n ih =>
    rw [List.range'_1_concat, List.foldl_append, ih]
    simp only [List.foldl_cons, List.foldl_nil]
    omega

theorem Represents.maxSequence (h : Represents db key s) :
    db.maxSequence key = s.messages.length := by
  rw [SessionDb.maxSequence, h.sequences, foldl_max_range', Nat.zero_max]

theorem Metadata.isObject {checkpoint : WorkingContext} {metadata : SqlJson}
    (h : Metadata checkpoint metadata) :
    metadata.isObject = true := by
  cases h with
  | blank _ => rfl
  | stored => rfl

/-- What SQL extracts from the metadata. -/
theorem Metadata.extract {checkpoint : WorkingContext} {metadata : SqlJson}
    (h : Metadata checkpoint metadata) :
    SqlJson.integerOr0 ((metadata.member contextKey).bind (SqlJson.member coveredKey)) =
      checkpoint.coveredSequence ∧
    SqlJson.integerOr0 ((metadata.member contextKey).bind (SqlJson.member revisionKey)) =
      checkpoint.revision ∧
    SqlJson.textOrEmpty ((metadata.member contextKey).bind (SqlJson.member summaryKey)) =
      checkpoint.summary := by
  cases h with
  | blank h =>
    subst h
    exact ⟨rfl, rfl, rfl⟩
  | stored => exact ⟨rfl, rfl, rfl⟩

theorem Represents.revision (h : Represents db key s) :
    db.revision key = s.checkpoint.revision := by
  unfold SessionDb.revision SessionDb.workingContext
  cases hrow : db.sessions.lookup key with
  | none =>
    rw [(h.absent hrow).2]
    rfl
  | some metadata => exact (h.metadata metadata hrow).extract.2.1

/-- The parts of the tables for one key agree. -/
structure SameAt (key : SessionKey) (db after : SessionDb) : Prop where
  rows : after.rows key = db.rows key
  lookup : after.sessions.lookup key = db.sessions.lookup key

theorem SameAt.refl (key : SessionKey) (db : SessionDb) : SameAt key db db := ⟨rfl, rfl⟩

theorem SameAt.trans {a b c : SessionDb} (h : SameAt key a b) (h' : SameAt key b c) :
    SameAt key a c :=
  ⟨h'.rows.trans h.rows, h'.lookup.trans h.lookup⟩

theorem Represents.congr (h : Represents db key s) {after : SessionDb}
    (hsame : SameAt key db after) :
    Represents after key s where
  rows := hsame.rows.trans h.rows
  metadata metadata hrow := h.metadata metadata (hsame.lookup ▸ hrow)
  absent hrow := h.absent (hsame.lookup ▸ hrow)

variable (message : SessionMessageInput)

theorem insertMessage_other (hne : other ≠ key) :
    SameAt other db (db.insertMessage key message).2 where
  rows := by
    show (db.messages ++ [_]).filter _ = db.messages.filter _
    rw [List.filter_append, List.filter_cons_of_neg (by simpa using hne.symm), List.filter_nil,
      List.append_nil]
  lookup := by
    show AList.lookup other (if key ∈ db.sessions then db.sessions
      else AList.insert key (.object []) db.sessions) = _
    split
    · rfl
    · exact AList.lookup_insert_ne hne

theorem insertMessage_lookup (db : SessionDb) (key : SessionKey) : ∃ metadata,
    (db.insertMessage key message).2.sessions.lookup key = some metadata ∧
    (db.sessions.lookup key = some metadata ∨
      (db.sessions.lookup key = none ∧ metadata = .object [])) := by
  show ∃ metadata, AList.lookup key
    (if key ∈ db.sessions then db.sessions else AList.insert key (.object []) db.sessions) =
      some metadata ∧ _
  cases hrow : db.sessions.lookup key with
  | some metadata =>
    have hmem : key ∈ db.sessions := AList.lookup_isSome.mp (by rw [hrow]; rfl)
    rw [if_pos hmem]
    exact ⟨metadata, hrow, .inl rfl⟩
  | none =>
    rw [if_neg (AList.lookup_eq_none.mp hrow)]
    exact ⟨.object [], AList.lookup_insert .., .inr ⟨rfl, rfl⟩⟩

theorem insertMessage_represents (h : Represents db key s) :
    Represents (db.insertMessage key message).2 key (s.append [message]) := by
  obtain ⟨metadata, hrow, hbefore⟩ := insertMessage_lookup message db key
  refine ⟨?_, fun found hfound => ?_, fun hnone => ?_⟩
  · show (db.messages ++ [_]).filter _ = (s.messages ++ [message]).mapIdx _
    rw [List.filter_append, List.filter_cons_of_pos (by simp), List.filter_nil, List.mapIdx_concat,
      ← h.rows, h.maxSequence]
    rfl
  · obtain rfl : metadata = found := Option.some.inj (hrow.symm.trans hfound)
    rcases hbefore with hbefore | ⟨hbefore, rfl⟩
    · exact h.metadata _ hbefore
    · exact .blank (h.absent hbefore).2
  · rw [hrow] at hnone
    cases hnone

theorem insertMessages_other (hne : other ≠ key) {fault : Faults} {i : Nat}
    {messages : List SessionMessageInput} {records : List SessionMessageRecord} {after : SessionDb}
    (h : insertMessages fault key i messages db = .ok (records, after)) :
    SameAt other db after := by
  induction messages generalizing i db records with
  | nil =>
    cases h
    exact SameAt.refl _ _
  | cons message rest ih =>
    obtain ⟨-, -, h⟩ := bind_eq_ok.mp h
    obtain ⟨others, hothers, h⟩ := bind_eq_ok.mp h
    cases h
    exact (insertMessage_other message hne).trans (ih hothers)

/-- The messages of a call extend the session, and a first one adds its row. -/
theorem insertMessages_represents {fault : Faults} {i : Nat} {messages : List SessionMessageInput}
    {records : List SessionMessageRecord} {after : SessionDb}
    (h : insertMessages fault key i messages db = .ok (records, after))
      (hdb : Represents db key s) :
    Represents after key (s.append messages) := by
  induction messages generalizing i db s records with
  | nil =>
    cases h
    rwa [Session.append_nil]
  | cons message rest ih =>
    obtain ⟨-, -, h⟩ := bind_eq_ok.mp h
    obtain ⟨others, hothers, h⟩ := bind_eq_ok.mp h
    cases h
    have hnext := ih hothers (insertMessage_represents message hdb)
    rwa [Session.append_append] at hnext

end Represents

section Update

variable {metadata : SqlJson} {before after : WorkingContext} {count : Nat}

/-- On the row of a session with the expected revision, the condition of the update asks
for a successor of its checkpoint. -/
theorem checkpointGuard_iff (h : Metadata before metadata) :
    checkpointGuard metadata (checkpointValue after) count before.revision = true ↔
      Successor before after count := by
  obtain ⟨hcovered, -, hsummary⟩ := h.extract
  unfold checkpointGuard
  simp only [member_covered, member_revision, member_summary, h.isObject, hcovered, hsummary,
    Bool.true_and, Bool.and_eq_true, Bool.or_eq_true, decide_eq_true_eq]
  constructor
  · rintro ⟨⟨⟨hshort, htext⟩, hlow, hhigh⟩, hrevision⟩
    refine ⟨hlow, hhigh, ?_, fun hsame => ?_, hshort, htext⟩
    · rcases hrevision with hlt | ⟨⟨heq, -⟩, -⟩
      · exact hlt.le
      · exact heq.ge
    · rcases hrevision with hlt | ⟨⟨-, hcov⟩, hsum⟩
      · exact absurd hsame hlt.ne'
      · cases after
        cases before
        simp_all
  · intro hnext
    refine ⟨⟨⟨hnext.short, hnext.summary⟩, hnext.covered, hnext.inside⟩, ?_⟩
    rcases hnext.revision.lt_or_eq with hlt | heq
    · exact .inl hlt
    · have hsame := hnext.same heq.symm
      exact .inr ⟨⟨heq.symm, by rw [hsame]⟩, by rw [hsame]⟩

theorem Metadata.setMember (h : Metadata before metadata) :
    Metadata after (metadata.setMember contextKey (checkpointValue after)) := by
  cases h with
  | blank _ => exact .stored
  | stored => exact .stored

end Update

section Transact

variable {reader : JsonReader} {fault : Faults} {db after : SessionDb} {key other : SessionKey}
  {s : Session}
  {messages : List SessionMessageInput} {records : List SessionMessageRecord}
    {commit : SessionCommit}
  {checkpoint : WorkingContext}

theorem updateCheckpoint_other (hne : other ≠ key) {commit : Option SessionCommit}
    (h : updateCheckpoint reader fault db key commit = .ok after) : SameAt other db after := by
  cases commit with
  | none =>
    cases h
    exact SameAt.refl _ _
  | some commit =>
    obtain ⟨-, -, h⟩ := bind_eq_ok.mp h
    split at h
    · cases h
    split at h
    · cases h
    split at h
    · cases h
      exact ⟨rfl, AList.lookup_insert_ne hne⟩
    · cases h

theorem updateCheckpoint_represents
    (hread : reader.read commit.checkpointJson = some (checkpointValue checkpoint))
    (hdb : Represents db key s) (hrevision : commit.expectedRevision = s.checkpoint.revision)
    (h : updateCheckpoint reader fault db key (some commit) = .ok after) :
    ∃ hnext : Successor s.checkpoint checkpoint s.messages.length,
      Represents after key (s.commit checkpoint hnext) := by
  obtain ⟨-, -, h⟩ := bind_eq_ok.mp h
  rw [hread] at h
  dsimp only at h
  cases hrow : db.sessions.lookup key with
  | none =>
    rw [hrow] at h
    cases h
  | some metadata =>
    have hmetadata := hdb.metadata metadata hrow
    rw [hrow, hrevision, hdb.maxSequence] at h
    dsimp only at h
    split at h
    · next hguard =>
      cases h
      refine ⟨(checkpointGuard_iff hmetadata).mp hguard, hdb.rows, fun found hfound => ?_,
        fun hnone => ?_⟩
      · rw [AList.lookup_insert] at hfound
        cases hfound
        exact hmetadata.setMember
      · rw [AList.lookup_insert] at hnone
        cases hnone
    · cases h

theorem checkCommit_ok (hdb : Represents db key s)
    (h : checkCommit fault db key (some commit) = .ok ()) :
    commit.expectedMessages = s.messages.length ∧
      commit.expectedRevision = s.checkpoint.revision := by
  obtain ⟨-, -, h⟩ := bind_eq_ok.mp h
  split at h
  · cases h
  · next hequal =>
    rw [hdb.maxSequence, hdb.revision] at hequal
    push Not at hequal
    exact ⟨hequal.1.symm, hequal.2.symm⟩

/-- What a transaction that commits has gone through. -/
theorem transact_ok {commit : Option SessionCommit}
    (h : transact reader fault db key messages commit = .ok (records, after)) :
    ∃ inserted, checkCommit fault db key commit = .ok () ∧
      insertMessages fault key 0 messages db = .ok (records, inserted) ∧
      updateCheckpoint reader fault inserted key commit = .ok after := by
  obtain ⟨-, -, h⟩ := bind_eq_ok.mp h
  obtain ⟨-, -, h⟩ := bind_eq_ok.mp h
  obtain ⟨⟨⟩, hcheck, h⟩ := bind_eq_ok.mp h
  obtain ⟨-, -, h⟩ := bind_eq_ok.mp h
  obtain ⟨inserted, hinsert, h⟩ := bind_eq_ok.mp h
  obtain ⟨updated, hupdate, h⟩ := bind_eq_ok.mp h
  obtain ⟨-, -, h⟩ := bind_eq_ok.mp h
  cases h
  exact ⟨inserted.2, hcheck, hinsert, hupdate⟩

/-- A call fails and leaves the tables, or it has nothing to do, or its transaction
commits. -/
theorem appendMessages_cases (reader : JsonReader) (fault : Faults) (db : SessionDb)
    (key : SessionKey) (messages : List SessionMessageInput) (commit : Option SessionCommit) :
    (∃ e, appendMessages reader fault db key messages commit = (.error e, db)) ∨
    (messages = [] ∧ commit = none ∧ appendMessages reader fault db key messages commit =
      (.ok [], db)) ∨
    ∃ records after, appendMessages reader fault db key messages commit = (.ok records, after) ∧
      transact reader fault db key messages commit = .ok (records, after) := by
  unfold appendMessages
  split
  · exact .inl ⟨_, rfl⟩
  split
  · next hnothing =>
    rw [Bool.and_eq_true, List.isEmpty_iff, Option.isNone_iff_eq_none] at hnothing
    exact .inr (.inl ⟨hnothing.1, hnothing.2, rfl⟩)
  split
  · exact .inl ⟨_, rfl⟩
  · next records after htransact => exact .inr (.inr ⟨records, after, rfl, htransact⟩)

theorem appendMessages_other (hne : other ≠ key) (commit : Option SessionCommit) :
    SameAt other db (appendMessages reader fault db key messages commit).2 := by
  rcases appendMessages_cases reader fault db key messages commit with
    ⟨e, h⟩ | ⟨-, -, h⟩ | ⟨records, after, h, htransact⟩
  · rw [h]
    exact SameAt.refl _ _
  · rw [h]
    exact SameAt.refl _ _
  · obtain ⟨inserted, -, hinsert, hupdate⟩ := transact_ok htransact
    rw [h]
    exact (insertMessages_other hne hinsert).trans (updateCheckpoint_other hne hupdate)

theorem appendMessages_plain (hdb : Represents db key s)
    (h : (appendMessages reader fault db key messages none).1 = .ok records) :
    Represents (appendMessages reader fault db key messages none).2 key (s.append messages) := by
  rcases appendMessages_cases reader fault db key messages none with
    ⟨e, hrun⟩ | ⟨rfl, -, hrun⟩ | ⟨records, after, hrun, htransact⟩
  · rw [hrun] at h
    cases h
  · rwa [hrun, Session.append_nil]
  · obtain ⟨inserted, -, hinsert, hupdate⟩ := transact_ok htransact
    cases hupdate
    rw [hrun]
    exact insertMessages_represents hinsert hdb

theorem appendMessages_commit
    (hread : reader.read commit.checkpointJson = some (checkpointValue checkpoint))
    (hdb : Represents db key s)
    (h : (appendMessages reader fault db key messages (some commit)).1 = .ok records) :
    commit.expectedMessages = s.messages.length ∧ commit.expectedRevision = s.checkpoint.revision ∧
    ∃ hnext : Successor s.checkpoint checkpoint (s.append messages).messages.length,
      Represents (appendMessages reader fault db key messages (some commit)).2 key
        ((s.append messages).commit checkpoint hnext) := by
  rcases appendMessages_cases reader fault db key messages (some commit) with
    ⟨e, hrun⟩ | ⟨-, hnone, -⟩ | ⟨records, after, hrun, htransact⟩
  · rw [hrun] at h
    cases h
  · cases hnone
  · obtain ⟨inserted, hcheck, hinsert, hupdate⟩ := transact_ok htransact
    obtain ⟨hcount, hrevision⟩ := checkCommit_ok hdb hcheck
    rw [hrun]
    exact ⟨hcount, hrevision,
      updateCheckpoint_represents hread (insertMessages_represents hinsert hdb) hrevision hupdate⟩

/-- The computation succeeds, or a statement failed by itself. -/
def OnlyFaults {α : Type} (fault : Faults) (x : Result α) : Prop :=
  (∃ a, x = .ok a) ∨ ∃ step e, fault step = some e ∧ x = .error e

theorem OnlyFaults.bind {α β : Type} {x : Result α} {f : α → Result β} (hx : OnlyFaults fault x)
    (hf : ∀ a, x = .ok a → OnlyFaults fault (f a)) : OnlyFaults fault (x >>= f) := by
  rcases hx with ⟨a, rfl⟩ | ⟨step, e, hfault, rfl⟩
  · exact hf a rfl
  · exact .inr ⟨step, e, hfault, rfl⟩

theorem onlyFaults_execute (fault : Faults) (step : SqlStep) :
    OnlyFaults fault (execute fault step) := by
  unfold execute
  cases hfault : fault step with
  | none => exact .inl ⟨(), rfl⟩
  | some e => exact .inr ⟨step, e, hfault, rfl⟩

theorem onlyFaults_insertMessages (i : Nat) (messages : List SessionMessageInput) (db : SessionDb) :
    OnlyFaults fault (insertMessages fault key i messages db) := by
  induction messages generalizing i db with
  | nil => exact .inl ⟨_, rfl⟩
  | cons message rest ih =>
    exact (onlyFaults_execute fault _).bind fun _ _ => (ih _ _).bind fun _ _ => .inl ⟨_, rfl⟩

theorem onlyFaults_checkCommit (hdb : Represents db key s)
    (hcount : commit.expectedMessages = s.messages.length)
    (hrevision : commit.expectedRevision = s.checkpoint.revision) :
    OnlyFaults fault (checkCommit fault db key (some commit)) := by
  refine (onlyFaults_execute fault _).bind fun _ _ => ?_
  rw [if_neg (by rw [hdb.maxSequence, hdb.revision, hcount, hrevision]; simp)]
  exact .inl ⟨_, rfl⟩

theorem onlyFaults_updateCheckpoint
    (hread : reader.read commit.checkpointJson = some (checkpointValue checkpoint))
    (hdb : Represents db key s) (hrevision : commit.expectedRevision = s.checkpoint.revision)
    (hnext : Successor s.checkpoint checkpoint s.messages.length) (hsome : s.messages ≠ []) :
    OnlyFaults fault (updateCheckpoint reader fault db key (some commit)) := by
  refine (onlyFaults_execute fault _).bind fun _ _ => ?_
  rw [hread]
  cases hrow : db.sessions.lookup key with
  | none => exact absurd (hdb.absent hrow).1 hsome
  | some metadata =>
    dsimp only
    rw [hrevision, hdb.maxSequence,
      if_pos ((checkpointGuard_iff (hdb.metadata metadata hrow)).mpr hnext)]
    exact .inl ⟨_, rfl⟩

/-- A commit from the current snapshot with a successor of the stored checkpoint goes
through, unless a statement fails. -/
theorem onlyFaults_transact
    (hread : reader.read commit.checkpointJson = some (checkpointValue checkpoint))
    (hdb : Represents db key s) (hcount : commit.expectedMessages = s.messages.length)
    (hrevision : commit.expectedRevision = s.checkpoint.revision)
    (hnext : Successor s.checkpoint checkpoint (s.append messages).messages.length)
    (hsome : (s.append messages).messages ≠ []) :
    OnlyFaults fault (transact reader fault db key messages (some commit)) := by
  refine (onlyFaults_execute fault _).bind fun _ _ =>
    (onlyFaults_execute fault _).bind fun _ _ => ?_
  refine (onlyFaults_checkCommit hdb hcount hrevision).bind fun _ _ =>
    (onlyFaults_execute fault _).bind fun _ _ => ?_
  refine (onlyFaults_insertMessages 0 messages db).bind fun inserted hinserted => ?_
  have hdb' := insertMessages_represents hinserted hdb
  refine (onlyFaults_updateCheckpoint hread hdb' hrevision hnext hsome).bind fun _ _ => ?_
  exact (onlyFaults_execute fault _).bind fun _ _ => .inl ⟨_, rfl⟩

end Transact

end Orangutan.Storage
