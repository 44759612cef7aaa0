import Orangutan.Memory.LongtermNotes

/-!
# Every call does what it stands for

One lemma for each call: when it succeeds, the tables represent the notes after it, and what it
returns is read off these notes.
-/

namespace Orangutan.Memory.Longterm

set_option autoImplicit false

open Orangutan.Core Orangutan.Core.Str Orangutan.Storage

variable {parser : JsonParser} {fault : Faults} {db : LongtermDb} {notes : Notes}

theorem attempt_none (step : Step) : attempt (fun _ => none) step = .ok () := rfl

theorem words_deleteFtsRow (db : LongtermDb) (key other : RecordKey) :
    ((db.deleteFtsRow key).fts.filter fun row => row.key = other) =
      if other = key then [] else db.fts.filter fun row => row.key = other := by
  change ((db.fts.filter _).filter _) = _
  rw [List.filter_filter]
  split_ifs with h
  · subst h
    rw [List.filter_eq_nil_iff]
    intro row _
    simp
  · refine List.filter_congr fun row _ => ?_
    by_cases hrow : row.key = other
    · subst hrow
      simp [h]
    · simp [hrow]

/-- A key gets a note: its row is written, its words are replaced. -/
theorem Represents.write (h : Represents db notes) {key : RecordKey} (note : Note)
    (hid : validateRequired key.id "record_id" false = .ok ()) {fts : List FtsRow}
    (hfts : ∀ other, (fts.filter fun row => row.key = other) =
      if other = key then [note.words key] else db.fts.filter fun row => row.key = other) :
    Represents { records := AList.insert key note.columns db.records, fts }
      (Function.update notes key (some note)) where
  records other := by
    by_cases hother : other = key
    · subst hother
      rw [Function.update_self]
      exact AList.lookup_insert _
    · rw [Function.update_of_ne hother, AList.lookup_insert_ne hother]
      exact h.records other
  words other := by
    rw [hfts]
    by_cases hother : other = key
    · subst hother
      rw [if_pos rfl, Function.update_self]
      rfl
    · rw [if_neg hother, Function.update_of_ne hother]
      exact h.words other
  ids other found hfound := by
    by_cases hother : other = key
    · subst hother
      exact hid
    · rw [Function.update_of_ne hother] at hfound
      exact h.ids other found hfound

theorem Represents.upserted (h : Represents db notes) {key : RecordKey} (note : Note)
    (hid : validateRequired key.id "record_id" false = .ok ()) :
    Represents
      ((LongtermDb.deleteFtsRow { db with records := AList.insert key note.columns db.records }
      key).insertFts
      (note.words key)) (Function.update notes key (some note)) := by
  refine h.write note hid fun other => ?_
  rw [List.filter_append, words_deleteFtsRow]
  have hkey : (note.words key).key = key := rfl
  by_cases hother : other = key
  · subst hother
    simp [hkey]
  · have hnot : ¬ key = other := fun heq => hother heq.symm
    simp [hkey, hother, hnot]

theorem Represents.erased (h : Represents db notes) (key : RecordKey) :
    Represents { db.deleteFtsRow key with records := AList.erase key db.records }
      (notes.forget key) where
  records other := by
    by_cases hother : other = key
    · subst hother
      rw [Notes.forget, Function.update_self, AList.lookup_erase]
      rfl
    · rw [Notes.forget, Function.update_of_ne hother, AList.lookup_erase_ne hother]
      exact h.records other
  words other := by
    refine (words_deleteFtsRow db key other).trans ?_
    by_cases hother : other = key
    · subst hother
      rw [if_pos rfl, Notes.forget, Function.update_self]
      rfl
    · rw [if_neg hother, Notes.forget, Function.update_of_ne hother]
      exact h.words other
  ids other found hfound := by
    by_cases hother : other = key
    · subst hother
      rw [Notes.forget, Function.update_self] at hfound
      cases hfound
    · rw [Notes.forget, Function.update_of_ne hother] at hfound
      exact h.ids other found hfound

/-- Only the row of a key is written, and its words stay. -/
theorem Represents.touched (h : Represents db notes) (key : RecordKey) (readAt : TimePoint) :
    Represents (db.touchRow key (formatIso8601Utc readAt)) (notes.readTimes [key] readAt) := by
  have hkeep : ∀ other, other ≠ key → notes.readTimes [key] readAt other = notes other := by
    intro other hother
    have hnot : other ∉ [key] := by simpa using hother
    simp [Notes.readTimes, hnot]
  rcases hlookup : db.records.lookup key with _ | columns
  · have hnone : notes key = none := by
      have hrow := h.records key
      rw [hlookup] at hrow
      exact Option.map_eq_none_iff.mp hrow.symm
    have hsame : notes.readTimes [key] readAt = notes := by
      funext other
      by_cases hother : other = key
      · subst hother
        simp [Notes.readTimes, hnone]
      · exact hkeep other hother
    rw [LongtermDb.touchRow, hlookup, hsame]
    exact h
  · have hrow := h.records key
    rw [hlookup] at hrow
    obtain ⟨note, hnote, rfl⟩ := Option.map_eq_some_iff.mp hrow.symm
    have hread : notes.readTimes [key] readAt =
        Function.update notes key (some (note.readTime readAt)) := by
      funext other
      by_cases hother : other = key
      · subst hother
        simp [Notes.readTimes, hnote]
      · rw [Function.update_of_ne hother]
        exact hkeep other hother
    have hwords : ∀ other, (db.fts.filter fun row => row.key = other) =
        if other = key then [(note.readTime readAt).words key] else db.fts.filter fun row =>
          row.key = other := by
      intro other
      split_ifs with hother
      · subst hother
        rw [h.words other, hnote]
        rfl
      · rfl
    have hwrite := h.write (note.readTime readAt) (h.ids key note hnote) hwords
    rw [LongtermDb.touchRow, hlookup, hread]
    rw [Note.columns_readTime] at hwrite
    dsimp only
    by_cases hlt : note.columns.lastReadAt < formatIso8601Utc readAt
    · rw [if_pos hlt] at hwrite ⊢
      exact hwrite
    · have hsame : note.readTime readAt = note := by
        have hms : ¬ note.lastReadAt.milliseconds < readAt.milliseconds :=
          fun hms => hlt ((formatIso8601Utc_lt note.lastReadAt readAt).mpr hms)
        exact Note.ext rfl rfl rfl rfl rfl (if_neg hms) rfl rfl rfl rfl
      rw [if_neg hlt, hsame, ← hnote, Function.update_eq_self]
      exact h

theorem savedOver_old (h : Represents db notes) {record : Record} (hchecked : Checked record) :
    (columnsOf record).onConflict (db.records.lookup record.key) =
      ((Note.ofRecord record hchecked).savedOver (notes record.key)).columns := by
  rw [Note.columns_savedOver, h.records]
  rfl

theorem Represents.upsert (h : Represents db notes) {record stored : Record}
    (hok : (upsert parser fault record db).1 = .ok stored) :
    ∃ hchecked : Checked record,
      Represents (Longterm.upsert parser fault record db).2
        (notes.save record.key (.ofRecord record hchecked)) ∧
      stored = ((Note.ofRecord record hchecked).savedOver (notes record.key)).stored
        record.key := by
  obtain ⟨db', hbody⟩ := Lib.atomically_ok.mp hok
  have hafter : (Longterm.upsert parser fault record db).2 = db' := by
    rw [Longterm.upsert, Lib.atomically_of_ok hbody]
  obtain ⟨hvalid, hbody⟩ := check_bind_ok.mp hbody
  obtain ⟨-, hbody⟩ := check_bind_ok.mp hbody
  obtain ⟨-, hbody⟩ := check_bind_ok.mp hbody
  obtain ⟨-, hbody⟩ := check_bind_ok.mp hbody
  have hchecked := validateRecord_ok.mp hvalid
  have hcolumns := savedOver_old h hchecked
  dsimp only at hbody
  rw [hcolumns, Note.columns_allowed] at hbody
  have hread := readRecordRow_note parser record.key
    ((Note.ofRecord record hchecked).savedOver (notes record.key))
  rw [hread, ok_bind] at hbody
  obtain ⟨-, hbody⟩ := check_bind_ok.mp hbody
  obtain ⟨-, hbody⟩ := check_bind_ok.mp hbody
  obtain ⟨-, hbody⟩ := check_bind_ok.mp hbody
  obtain ⟨rfl, rfl⟩ := Prod.mk.inj (Except.ok.inj hbody)
  refine ⟨hchecked, ?_, rfl⟩
  rw [hafter]
  exact h.upserted _ (validateKey_ok.mp hchecked.key).1

theorem Represents.upsert_succeeds (h : Represents db notes) {record : Record}
    (hchecked : Checked record) :
    (Longterm.upsert parser (fun _ => none) record db).1.isOk = true := by
  have hcolumns := savedOver_old h hchecked
  have hread := readRecordRow_note parser record.key
    ((Note.ofRecord record hchecked).savedOver (notes record.key))
  rw [Longterm.upsert, Lib.atomically_isOk, validateRecord_ok.mpr hchecked, ok_bind, attempt_none,
    ok_bind, attempt_none, ok_bind, attempt_none, ok_bind]
  dsimp only
  rw [hcolumns, Note.columns_allowed, if_neg (by decide), hread, ok_bind, attempt_none, ok_bind,
    attempt_none, ok_bind, attempt_none, ok_bind]
  rfl

theorem later_later (a b : TimePoint) : later (later a b) b = later a b := by
  by_cases h : a.milliseconds < b.milliseconds
  · simp [later, h]
  · simp [later, h]

theorem readTime_readTime (note : Note) (readAt : TimePoint) :
    (note.readTime readAt).readTime readAt = note.readTime readAt :=
  Note.ext rfl rfl rfl rfl rfl (later_later _ _) rfl rfl rfl rfl

theorem Notes.readTimes_cons (notes : Notes) (key : RecordKey) (rest : List RecordKey)
    (readAt : TimePoint) :
    (notes.readTimes [key] readAt).readTimes rest readAt =
      notes.readTimes (key :: rest) readAt := by
  funext other
  unfold Notes.readTimes
  rcases hnote : notes other with _ | note
  · rfl
  · by_cases hkey : other = key
    · by_cases hrest : other ∈ rest
      · simp [hkey, hkey ▸ hrest, readTime_readTime]
      · simp [hkey, hkey ▸ hrest]
    · by_cases hrest : other ∈ rest
      · simp [hkey, hrest]
      · simp [hkey, hrest]

theorem Notes.readTimes_nil (notes : Notes) (readAt : TimePoint) :
    notes.readTimes [] readAt = notes := by
  funext other
  simp [Notes.readTimes]

theorem Represents.touchRows (h : Represents db notes) (readAt : TimePoint) {index : Nat}
    {keys : List RecordKey} {db' : LongtermDb}
    (hok : touchRows fault (formatIso8601Utc readAt) index keys db = .ok db') :
    Represents db' (notes.readTimes keys readAt) := by
  induction keys generalizing index db notes with
  | nil =>
    rw [Notes.readTimes_nil]
    cases hok
    exact h
  | cons key rest ih =>
    obtain ⟨-, hok⟩ := check_bind_ok.mp hok
    rw [← Notes.readTimes_cons]
    exact ih (h.touched key readAt) hok

theorem Represents.touch (h : Represents db notes) {keys : List RecordKey} {readAt : TimePoint}
    (hok : (touch fault keys readAt db).1 = .ok ()) :
    Represents (Longterm.touch fault keys readAt db).2 (notes.readTimes keys readAt) := by
  obtain ⟨db', hbody⟩ := Lib.atomically_ok.mp hok
  have hafter : (Longterm.touch fault keys readAt db).2 = db' := by
    rw [Longterm.touch, Lib.atomically_of_ok hbody]
  rw [hafter]
  obtain ⟨-, hbody⟩ := check_bind_ok.mp hbody
  cases keys with
  | nil =>
    rw [Notes.readTimes_nil]
    cases hbody
    exact h
  | cons key rest =>
    rw [if_neg (by simp)] at hbody
    obtain ⟨-, hbody⟩ := check_bind_ok.mp hbody
    obtain ⟨-, hbody⟩ := check_bind_ok.mp hbody
    obtain ⟨written, hrows, hbody⟩ := bind_eq_ok.mp hbody
    obtain ⟨-, hbody⟩ := check_bind_ok.mp hbody
    cases hbody
    exact h.touchRows readAt hrows

theorem validateKeys_ok {keys : List RecordKey} :
    validateKeys keys = .ok () ↔ ∀ key ∈ keys, validateKey key = .ok () := by
  induction keys with
  | nil => simp [validateKeys]
  | cons key rest ih => rw [validateKeys, check_bind_ok, ih, List.forall_mem_cons]

theorem touchRows_succeeds (readAt : Bytes) (index : Nat) (keys : List RecordKey)
    (db : LongtermDb) :
    ∃ db', Longterm.touchRows (fun _ => none) readAt index keys db = .ok db' := by
  induction keys generalizing index db with
  | nil => exact ⟨db, rfl⟩
  | cons key rest ih =>
    rw [Longterm.touchRows, attempt_none, ok_bind]
    exact ih _ _

theorem touch_succeeds {keys : List RecordKey} (hkeys : ∀ key ∈ keys, validateKey key = .ok ())
    (readAt : TimePoint) (db : LongtermDb) :
    (Longterm.touch (fun _ => none) keys readAt db).1.isOk = true := by
  rw [Longterm.touch, Lib.atomically_isOk, validateKeys_ok.mpr hkeys, ok_bind]
  split_ifs with hempty
  · rfl
  · obtain ⟨db', hrows⟩ := touchRows_succeeds (formatIso8601Utc readAt) 0 keys db
    rw [attempt_none, ok_bind, attempt_none, ok_bind, hrows, ok_bind, attempt_none, ok_bind]
    rfl

theorem Represents.remove (h : Represents db notes) {key : RecordKey}
    (hok : (remove fault key db).1 = .ok ()) :
    Represents (Longterm.remove fault key db).2 (notes.forget key) := by
  obtain ⟨db', hbody⟩ := Lib.atomically_ok.mp hok
  have hafter : (Longterm.remove fault key db).2 = db' := by
    rw [Longterm.remove, Lib.atomically_of_ok hbody]
  rw [hafter]
  obtain ⟨-, hbody⟩ := check_bind_ok.mp hbody
  obtain ⟨-, hbody⟩ := check_bind_ok.mp hbody
  obtain ⟨-, hbody⟩ := check_bind_ok.mp hbody
  obtain ⟨-, hbody⟩ := check_bind_ok.mp hbody
  obtain ⟨-, hbody⟩ := check_bind_ok.mp hbody
  obtain ⟨-, hbody⟩ := check_bind_ok.mp hbody
  cases hbody
  exact h.erased key

theorem remove_succeeds {key : RecordKey} (hkey : validateKey key = .ok ()) (db : LongtermDb) :
    (Longterm.remove (fun _ => none) key db).1.isOk = true := by
  rw [Longterm.remove, Lib.atomically_isOk, hkey, ok_bind, attempt_none, ok_bind, attempt_none,
    ok_bind, attempt_none, ok_bind, attempt_none, ok_bind, attempt_none, ok_bind]
  rfl

theorem Represents.get (h : Represents db notes) {key : RecordKey} {record : Record}
    (hok : get parser fault db key = .ok record) : ∃ note, notes key = some note ∧
      record = note.stored key := by
  obtain ⟨-, hok⟩ := check_bind_ok.mp hok
  obtain ⟨-, hok⟩ := check_bind_ok.mp hok
  obtain ⟨-, hok⟩ := check_bind_ok.mp hok
  rw [h.records] at hok
  rcases hnote : notes key with _ | note
  · rw [hnote] at hok
    cases hok
  · rw [hnote, Option.map_some] at hok
    dsimp only at hok
    rw [readRecordRow_note] at hok
    exact ⟨note, rfl, (Except.ok.inj hok).symm⟩

theorem Represents.get_eq (h : Represents db notes) {key : RecordKey}
    (hkey : validateKey key = .ok ()) :
    Longterm.get parser (fun _ => none) db key =
      match notes key with
      | some note => .ok (note.stored key)
      | none =>
          .error
          (((Error.notFound "long-term memory record not found").note "scope_key" key.scopeKey).note
          "id"
          key.id) := by
  rw [Longterm.get, hkey, ok_bind, attempt_none, ok_bind, attempt_none, ok_bind, h.records]
  cases notes key with
  | none => rfl
  | some note => exact readRecordRow_note parser key note

end Orangutan.Memory.Longterm
