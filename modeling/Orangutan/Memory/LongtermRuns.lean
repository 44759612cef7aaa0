import Orangutan.Memory.LongtermImport

/-!
# Runs of the long-term store

Calls follow each other in some order, each with faults of its own. The tables always represent the
notes that the successful calls stand for.
-/

namespace Orangutan.Memory.Longterm

set_option autoImplicit false

open Orangutan.Core Orangutan.Core.Str Orangutan.Storage

/-- A snapshot of a store. -/
structure StoreSnapshot extends Snapshot where
  notes : Notes
  represents : Represents db notes

inductive Call
  | upsert (record : Record)
  | touch (keys : List RecordKey) (readAt : TimePoint)
  | remove (key : RecordKey)
  | importScope (path : Bytes) (source : StoreSnapshot) (sourceScope destinationScope : Bytes)

namespace Call

section run

variable (parser : JsonParser) (tags : TagReader) (fault : Faults)

/-- An upsert returns the stored record. -/
def run (db : LongtermDb) : Call → Result (Option Record) × LongtermDb
  | upsert record => ((Longterm.upsert parser fault record db).1.map some,
      (Longterm.upsert parser fault record db).2)
  | touch keys readAt =>
    ((Longterm.touch fault keys readAt db).1.map fun _ => none,
      (Longterm.touch fault keys readAt db).2)
  | remove key => ((Longterm.remove fault key db).1.map fun _ => none,
      (Longterm.remove fault key db).2)
  | importScope path source sourceScope destinationScope =>
    let done := Longterm.importScope tags fault path source.toSnapshot sourceScope
      destinationScope db
    (done.1.map fun _ => none, done.2)

end run

open scoped Classical in
/-- The effect of a call on the notes. -/
noncomputable def act (notes : Notes) : Call → Notes
  | upsert record => if h : Checked record then notes.save record.key (.ofRecord record h)
      else notes
  | touch keys readAt => notes.readTimes keys readAt
  | remove key => notes.forget key
  | importScope _ source sourceScope destinationScope =>
      notes.adopt source.notes sourceScope destinationScope

/-- An upsert answers with the note as it now is. -/
noncomputable def answer (notes : Notes) (call : Call) : Option Record :=
  match call with
  | upsert record => (call.act notes record.key).map fun note => note.stored record.key
  | _ => none

/-- What a call asks for. -/
def Admissible (notes : Notes) : Call → Prop
  | upsert record => Checked record
  | touch keys _ => ∀ key ∈ keys, validateKey key = .ok ()
  | remove key => validateKey key = .ok ()
  | importScope path source sourceScope destinationScope =>
    (path ≠ [] ∧ 0 ∉ path) ∧ validateRequired sourceScope "scope_key" false = .ok () ∧
      validateRequired destinationScope "scope_key" false = .ok () ∧ source.version = text "1" ∧
      (∀ key : RecordKey, key.scopeKey = destinationScope → notes key = none) ∧
      ∃ key note, key.scopeKey = sourceScope ∧ source.notes key = some note

/-- The scope that a call may write to. -/
def WritesTo (scope : Bytes) : Call → Prop
  | upsert record => record.key.scopeKey = scope
  | touch keys _ => ∃ key ∈ keys, key.scopeKey = scope
  | remove key => key.scopeKey = scope
  | importScope _ _ _ destinationScope => destinationScope = scope

end Call

section Call

variable {parser : JsonParser} {tags : TagReader} {fault : Faults} {db : LongtermDb} {notes : Notes}

theorem map_ok {α β : Type} {x : Result α} {f : α → β} {b : β} : x.map f = .ok b ↔ ∃ a, x = .ok a ∧
    f a = b := by
  cases x with
  | error e => simp [Except.map]
  | ok a => simp [Except.map]

theorem map_isOk {α β : Type} (x : Result α) (f : α → β) : (x.map f).isOk = x.isOk := by
  cases x <;> rfl

theorem importScope_admissible {path : Bytes} {source : Snapshot} {scope destination : Bytes}
    (hok : (importScope tags fault path source scope destination db).1 = .ok ()) :
    (path ≠ [] ∧ 0 ∉ path) ∧ validateRequired scope "scope_key" false = .ok () ∧
      validateRequired destination "scope_key" false = .ok () ∧ source.version = text "1" := by
  obtain ⟨db', hbody⟩ := Lib.atomically_ok.mp hok
  obtain ⟨hpath, hbody⟩ := refuse_ok.mp hbody
  obtain ⟨hscope, hbody⟩ := check_bind_ok.mp hbody
  obtain ⟨hdestination, hbody⟩ := check_bind_ok.mp hbody
  obtain ⟨-, hbody⟩ := check_bind_ok.mp hbody
  obtain ⟨-, hbody⟩ := check_bind_ok.mp hbody
  obtain ⟨-, hbody⟩ := check_bind_ok.mp hbody
  obtain ⟨-, hbody⟩ := check_bind_ok.mp hbody
  obtain ⟨hversion, -⟩ := refuse_ok.mp hbody
  exact ⟨not_or.mp hpath, (check_bind_ok.mp hscope).1, (check_bind_ok.mp hdestination).1,
    not_ne_iff.mp hversion⟩

/-- A call that succeeds was admissible, has its effect, and answers from what it has done. -/
theorem Represents.run (h : Represents db notes) {call : Call} {answer : Option Record}
    (hok : (call.run parser tags fault db).1 = .ok answer) :
    Represents (call.run parser tags fault db).2 (call.act notes) ∧ answer = call.answer notes ∧
      call.Admissible notes := by
  cases call with
  | upsert record =>
    obtain ⟨stored, hstored, rfl⟩ := map_ok.mp hok
    obtain ⟨hchecked, hafter, rfl⟩ := h.upsert hstored
    have hact : (Call.upsert record).act notes =
      notes.save record.key (.ofRecord record hchecked) := dif_pos hchecked
    refine ⟨hact ▸ hafter, ?_, hchecked⟩
    change _ = ((Call.upsert record).act notes record.key).map fun note => note.stored record.key
    rw [hact, Notes.save, Function.update_self]
    rfl
  | touch keys readAt =>
    obtain ⟨_, htouched, rfl⟩ := map_ok.mp hok
    obtain ⟨_, hbody⟩ := Lib.atomically_ok.mp htouched
    exact ⟨h.touch htouched, rfl, validateKeys_ok.mp (check_bind_ok.mp hbody).1⟩
  | remove key =>
    obtain ⟨_, hremoved, rfl⟩ := map_ok.mp hok
    obtain ⟨_, hbody⟩ := Lib.atomically_ok.mp hremoved
    exact ⟨h.remove hremoved, rfl, (check_bind_ok.mp hbody).1⟩
  | importScope path source sourceScope destinationScope =>
    obtain ⟨_, himported, rfl⟩ := map_ok.mp hok
    obtain ⟨hafter, hempty, hsome⟩ := h.importScope source.represents himported
    obtain ⟨hpath, hscope, hdestination, hversion⟩ := importScope_admissible himported
    exact ⟨hafter, rfl, hpath, hscope, hdestination, hversion, hempty, hsome⟩

theorem Represents.run_succeeds (h : Represents db notes) {call : Call}
    (hcall : call.Admissible notes) :
    (call.run parser tags (fun _ => none) db).1.isOk = true := by
  cases call with
  | upsert record => exact (map_isOk _ _).trans (h.upsert_succeeds hcall)
  | touch keys readAt => exact (map_isOk _ _).trans (touch_succeeds hcall readAt db)
  | remove key => exact (map_isOk _ _).trans (remove_succeeds hcall db)
  | importScope path source sourceScope destinationScope =>
    obtain ⟨hpath, hscope, hdestination, hversion, hempty, hsome⟩ := hcall
    exact (map_isOk _ _).trans
      (h.importScope_succeeds source.represents hpath hscope hdestination hversion hempty hsome)

theorem map_error {α β : Type} {x : Result α} {f : α → β} {e : Error} : x.map f = .error e ↔
    x = .error e := by
  cases x with
  | error e' => simp [Except.map]
  | ok a => simp [Except.map]

/-- A call that fails has done nothing. -/
theorem run_failed {call : Call} {e : Error}
    (herror : (call.run parser tags fault db).1 = .error e) :
    (call.run parser tags fault db).2 = db := by
  cases call with
  | upsert record => exact Lib.atomically_failed (map_error.mp herror)
  | touch keys readAt => exact Lib.atomically_failed (map_error.mp herror)
  | remove key => exact Lib.atomically_failed (map_error.mp herror)
  | importScope path source sourceScope destinationScope =>
      exact Lib.atomically_failed (map_error.mp herror)

end Call

/-- A note as it may be found later. -/
structure Note.Follows (note after : Note) : Prop where
  created : after.createdAt = note.createdAt
  updated : note.updatedAt.milliseconds ≤ after.updatedAt.milliseconds
  read : note.lastReadAt.milliseconds ≤ after.lastReadAt.milliseconds

theorem Note.Follows.refl (note : Note) : note.Follows note := ⟨rfl, le_refl _, le_refl _⟩

theorem Note.Follows.trans {a b c : Note} (h : a.Follows b) (h' : b.Follows c) : a.Follows c :=
  ⟨h'.created.trans h.created, h.updated.trans h'.updated, h.read.trans h'.read⟩

theorem Call.act_follows {notes : Notes} {call : Call} (hcall : call.Admissible notes)
    {key : RecordKey} {note : Note} (hnote : notes key = some note) (hkept : call ≠ .remove key) :
    ∃ after, call.act notes key = some after ∧ note.Follows after := by
  cases call with
  | upsert record =>
    have hact : (Call.upsert record).act notes = notes.save record.key (.ofRecord record hcall) :=
      dif_pos hcall
    rw [hact]
    by_cases hkey : key = record.key
    · subst hkey
      refine ⟨_, Function.update_self .., ?_⟩
      rw [hnote]
      exact ⟨rfl, le_later _ _, le_refl _⟩
    · exact ⟨note, (Function.update_of_ne hkey _ _).trans hnote, .refl note⟩
  | touch keys readAt =>
    change ∃ after, (notes key).map _ = _ ∧ _
    rw [hnote, Option.map_some]
    refine ⟨_, rfl, ?_⟩
    split_ifs
    · exact ⟨rfl, le_refl _, le_later _ _⟩
    · exact .refl note
  | remove other =>
    have hne : key ≠ other := fun heq => hkept (by rw [heq])
    exact ⟨note, (Function.update_of_ne hne _ _).trans hnote, .refl note⟩
  | importScope path source sourceScope destinationScope =>
    obtain ⟨_, _, _, _, hempty, _⟩ := hcall
    have hne : key.scopeKey ≠ destinationScope := by
      intro hscope
      rw [hempty key hscope] at hnote
      cases hnote
    exact ⟨note, (if_neg hne).trans hnote, .refl note⟩

theorem Call.act_elsewhere {notes : Notes} {call : Call} {key : RecordKey}
    (hcall : ¬ call.WritesTo key.scopeKey) :
    call.act notes key = notes key := by
  cases call with
  | upsert record =>
    have hne : key ≠ record.key := fun heq => hcall (by rw [heq]; rfl)
    by_cases hchecked : Checked record
    · have hact : (Call.upsert record).act notes =
        notes.save record.key (.ofRecord record hchecked) := dif_pos hchecked
      rw [hact]
      exact Function.update_of_ne hne _ _
    · exact congrFun (dif_neg hchecked) key
  | touch keys readAt =>
    have hnot : key ∉ keys := fun hmem => hcall ⟨key, hmem, rfl⟩
    simp [act, Notes.readTimes, hnot]
  | remove other =>
    have hne : key ≠ other := fun heq => hcall (by rw [heq]; rfl)
    exact Function.update_of_ne hne _ _
  | importScope path source sourceScope destinationScope => exact if_neg fun heq => hcall heq.symm

section Runs

variable (parser : JsonParser) (tags : TagReader)

/-- A call with what fails in it. -/
abbrev Attempt := Faults × Call

def runAll : List Attempt → LongtermDb → List (Attempt × Result (Option Record)) × LongtermDb :=
  Lib.outcomes fun attempt db => attempt.2.run parser tags attempt.1 db

/-- The notes after the calls that succeeded. -/
noncomputable def actAll : List (Attempt × Result (Option Record)) → Notes → Notes :=
  Lib.effects fun attempt notes => attempt.2.act notes

theorem Represents.runAll {db : LongtermDb} {notes : Notes} (h : Represents db notes)
    (calls : List Attempt) :
    Represents (runAll parser tags calls db).2
      (actAll (Longterm.runAll parser tags calls db).1 notes) := by
  refine Lib.outcomes_refine (R := Represents) ?_ ?_ calls h
  · intro attempt db notes answer h hok
    exact (h.run hok).1
  · intro attempt db e herror
    exact run_failed herror

/-- The store that some calls leave, with the notes that they stand for. -/
noncomputable def StoreSnapshot.after (calls : List Attempt) : StoreSnapshot where
  version := text "1"
  db := (Longterm.runAll parser tags calls {}).2
  notes := actAll (Longterm.runAll parser tags calls {}).1 fun _ => none
  represents := represents_empty.runAll parser tags calls

/-- Whatever is called in whatever order and whatever fails, the two tables represent the notes of
the calls that succeeded. A note is read as it was left, a call succeeds when it is admissible
unless something fails in it, and it answers from the notes. -/
theorem longterm_store (calls : List Attempt) :
    let done := runAll parser tags calls {}
    let notes := actAll done.1 fun _ => none
    Represents done.2 notes ∧
    (∀ key, validateKey key = .ok () → get parser (fun _ => none) done.2 key =
      match notes key with
      | some note => .ok (note.stored key)
      | none =>
          .error
          (((Error.notFound "long-term memory record not found").note "scope_key" key.scopeKey).note
          "id"
          key.id)) ∧
    (∀ fault key record, get parser fault done.2 key = .ok record →
      ∃ note, notes key = some note ∧ record = note.stored key) ∧
    (∀ fault (call : Call) answer, (call.run parser tags fault done.2).1 = .ok answer →
      answer = call.answer notes) ∧
    (∀ call : Call, (call.run parser tags (fun _ => none) done.2).1.isOk = true ↔
      call.Admissible notes) := by
  have h := represents_empty.runAll parser tags calls
  refine ⟨h, fun key hkey => h.get_eq hkey, fun fault key record => h.get,
    fun fault call answer hok => (h.run hok).2.1, fun call => ⟨fun hok => ?_, h.run_succeeds⟩⟩
  rcases hrun : (call.run parser tags
    (fun _ => none) (runAll parser tags calls {}).2).1 with e | answer
  · rw [hrun] at hok
    cases hok
  · exact (h.run hrun).2.2

def buildNote : Record where
  key := ⟨text "n1", text "project-a"⟩
  title := text "Build"
  body := text "Run make first."
  tags := [text "make", text "ci"]

def saveBuild : Attempt := (fun _ => none, .upsert buildNote)

/-- The note's store is imported under another scope. -/
noncomputable def importBuild : Attempt := (fun _ => none,
  .importScope (text "a.db") (.after serializedParser storedTags [saveBuild]) (text "project-a")
    (text "project-b"))

theorem longterm_store_imported : ∃ note : Note,
    actAll (runAll serializedParser storedTags [importBuild] {}).1 (fun _ => none) ⟨text "n1",
      text "project-b"⟩ =
      some note ∧ note.stored ⟨text "n1", text "project-b"⟩ =
        { buildNote with key := ⟨text "n1", text "project-b"⟩ } := by
  have hread : (get serializedParser
    (fun _ => none) (runAll serializedParser storedTags [importBuild] {}).2
      ⟨text "n1", text "project-b"⟩).toOption = some { buildNote with key :=
        ⟨text "n1", text "project-b"⟩ } := by
    decide +kernel
  rcases hget : get serializedParser
    (fun _ => none) (runAll serializedParser storedTags [importBuild] {}).2
      ⟨text "n1", text "project-b"⟩ with e | record
  · rw [hget] at hread
    cases hread
  · rw [hget] at hread
    obtain ⟨note, hnote, hstored⟩ :=
      (longterm_store serializedParser storedTags [importBuild]).2.2.1 _ _ _ hget
    exact ⟨note, hnote, hstored.symm.trans (Option.some.inj hread)⟩

/-- A row as it may be found later: times are texts and only go up. -/
structure Columns.Follows (before after : Columns) : Prop where
  created : after.createdAt = before.createdAt
  updated : before.updatedAt ≤ after.updatedAt
  read : before.lastReadAt ≤ after.lastReadAt
  updated_after : after.createdAt ≤ after.updatedAt
  read_after : after.createdAt ≤ after.lastReadAt

theorem format_le {a b : TimePoint} (h : a.milliseconds ≤ b.milliseconds) :
    formatIso8601Utc a ≤ formatIso8601Utc b :=
  List.not_lt.mp fun hlt => absurd ((formatIso8601Utc_lt b a).mp hlt) (not_lt.mpr h)

theorem Note.Follows.columns {note after : Note} (h : note.Follows after) :
    note.columns.Follows after.columns where
  created := congrArg formatIso8601Utc h.created
  updated := format_le h.updated
  read := format_le h.read
  updated_after := format_le after.updated_after
  read_after := format_le after.read_after

/-- While a note is not removed, its birth stays and its other times only grow; and what is done in
other scopes leaves the rows of both tables as they are. -/
theorem longterm_history (before later : List Attempt) :
    let start := (runAll parser tags before {}).2
    let done := runAll parser tags later start
    (∀ key columns, start.records.lookup key = some columns →
      (∀ entry ∈ done.1, entry.2.isOk = true → entry.1.2 ≠ .remove key) →
      ∃ after, done.2.records.lookup key = some after ∧ columns.Follows after) ∧
    (∀ scope, (∀ entry ∈ done.1, entry.2.isOk = true → ¬ entry.1.2.WritesTo scope) →
      ∀ key : RecordKey, key.scopeKey = scope →
        done.2.records.lookup key = start.records.lookup key ∧
        (done.2.fts.filter fun row => row.key = key) = start.fts.filter fun row =>
          row.key = key) := by
  have hstart := represents_empty.runAll parser tags before
  generalize actAll (runAll parser tags before {}).1 (fun _ => none) = notes at hstart
  generalize (runAll parser tags before {}).2 = start at hstart
  refine ⟨fun key columns hcolumns hkept => ?_, fun scope hcalls key hkey => ?_⟩
  · rw [hstart.records] at hcolumns
    obtain ⟨note, hnote, rfl⟩ := Option.map_eq_some_iff.mp hcolumns
    obtain ⟨ends, hends, after, hafter, hfollows⟩ := Lib.outcomes_keep
      (p := fun (attempt : Attempt) (answer : Result (Option Record)) => answer.isOk = true →
        attempt.2 ≠ .remove key)
      (I := fun db => ∃ notes, Represents db notes ∧ ∃ after, notes key = some after ∧
        note.Follows after)
      (fun attempt db answer hcall hinv hok => by
        obtain ⟨notes, h, found, hfound, hfollows⟩ := hinv
        obtain ⟨hafter, _, hadmissible⟩ := h.run hok
        obtain ⟨next, hnext, hnextFollows⟩ := Call.act_follows hadmissible hfound (hcall rfl)
        exact ⟨_, hafter, next, hnext, hfollows.trans hnextFollows⟩)
      (fun _ _ _ herror => run_failed herror) later hkept ⟨notes, hstart, note, hnote, .refl note⟩
    refine ⟨after.columns, ?_, hfollows.columns⟩
    exact (hends.records key).trans (congrArg (Option.map Note.columns) hafter)
  · obtain ⟨ends, hends, hsame⟩ := Lib.outcomes_keep
      (p := fun (attempt : Attempt) (answer : Result (Option Record)) => answer.isOk = true →
        ¬ attempt.2.WritesTo scope)
      (I := fun db => ∃ after, Represents db after ∧ after key = notes key)
      (fun attempt db answer hcall hinv hok => by
        obtain ⟨found, h, hfound⟩ := hinv
        refine ⟨_, (h.run hok).1, (Call.act_elsewhere ?_).trans hfound⟩
        rw [hkey]
        exact hcall rfl)
      (fun _ _ _ herror => run_failed herror) later hcalls ⟨notes, hstart, rfl⟩
    refine ⟨?_, ?_⟩
    · exact (hends.records key).trans ((congrArg _ hsame).trans (hstart.records key).symm)
    · exact (hends.words key).trans ((by rw [hsame] : _ = _).trans (hstart.words key).symm)

/-- The note is marked as read five milliseconds after its birth. -/
theorem longterm_history_touched :
    let start := (runAll serializedParser storedTags [saveBuild] {}).2
    let done := runAll serializedParser storedTags
      [(fun _ => none, .touch [buildNote.key] ⟨5000000⟩)] start
    done.2 ≠ start ∧ ∃ after, done.2.records.lookup buildNote.key = some after ∧
      (columnsOf buildNote).Follows after := by
  refine ⟨fun hsame => ?_, ?_⟩
  · have hread :=
      congrArg (fun db : LongtermDb => (db.records.lookup buildNote.key).map Columns.lastReadAt)
      hsame
    revert hread
    decide +kernel
  · refine (longterm_history serializedParser storedTags [saveBuild]
      [(fun _ => none, .touch [buildNote.key] ⟨5000000⟩)]).1 _ _ (by decide +kernel)
        fun entry hentry _ => ?_
    obtain rfl := List.mem_singleton.mp hentry
    exact fun heq => by cases heq

end Runs

end Orangutan.Memory.Longterm
