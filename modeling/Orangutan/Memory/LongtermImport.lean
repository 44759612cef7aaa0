import Orangutan.Memory.LongtermContract

/-!
# A scope from another store

An import copies the rows of a scope under a new scope and indexes each copy from what it has
written. It goes only where nothing is, and it is all of the scope or nothing.
-/

namespace Orangutan.Memory.Longterm

set_option autoImplicit false

open Orangutan.Core Orangutan.Core.Str Orangutan.Storage

variable {tags : TagReader} {fault : Faults} {db : LongtermDb} {notes : Notes}

theorem ne_nil_of_required {value : Bytes} {field : String} {allowMultiline : Bool}
    (h : validateRequired value field allowMultiline = .ok ()) : value ≠ [] := by
  rintro rfl
  exact absurd (validateRequired_ok.mp h).1 (by decide)

theorem zero_notMem_of_required {value : Bytes} {field : String} {allowMultiline : Bool}
    (h : validateRequired value field allowMultiline = .ok ()) : 0 ∉ value := by
  intro hmem
  have hcontrol := (validateRequired_ok.mp h).2.2
  unfold containsControlChar at hcontrol
  have hzero := List.any_eq_false.mp hcontrol 0 hmem
  cases allowMultiline <;> exact absurd hzero (by decide)

theorem foldl_joined {out : Bytes} (hout : out ≠ []) (values : List Bytes) :
    values.foldl (fun out tag => (if out = [] then out else out ++ [0x20]) ++ tag) out =
      out ++ values.flatMap fun value => 0x20 :: value := by
  induction values generalizing out with
  | nil => simp
  | cons value rest ih =>
    have hnext : (if out = [] then out else out ++ [0x20]) ++ value ≠ [] := by simp [hout]
    rw [List.foldl_cons, ih hnext, if_neg hout, List.flatMap_cons]
    simp

theorem intercalate_cons (separator value : Bytes) (rest : List Bytes) :
    separator.intercalate (value :: rest) = value ++ rest.flatMap fun other =>
      separator ++ other := by
  induction rest generalizing value with
  | nil => simp [List.intercalate]
  | cons next rest ih =>
    have hnext := ih next
    simp only [List.intercalate, List.intersperse_cons_cons, List.flatten_cons] at hnext ⊢
    rw [hnext, List.flatMap_cons]
    simp

/-- The program and the database join tags alike. -/
theorem joinedTags_eq {values : List Bytes} (h : validateStringList values "tag" = .ok ()) :
    joinedTags values = [(0x20 : UInt8)].intercalate values := by
  cases values with
  | nil => rfl
  | cons value rest =>
    have hvalue := ne_nil_of_required ((validateStringList_ok.mp h).1 value List.mem_cons_self)
    have hfirst : joinedTags (value :: rest) =
        rest.foldl (fun out tag => (if out = [] then out else out ++ [0x20]) ++ tag) value := rfl
    rw [hfirst, foldl_joined hvalue, intercalate_cons]
    rfl

/-- A reader of the texts that the store writes. -/
def storedTags : TagReader where
  groupConcat t := (stringListFromJson serializedParser t "tags_json").map
    [(0x20 : UInt8)].intercalate
  groupConcat_list values h := by
    rw [stringListFromJson_list serializedParser _ fun value hmem => (h value hmem).1]
    rfl

theorem groupConcat_note (tags : TagReader) (note : Note) :
    tags.groupConcat note.columns.tagsJson = .ok (joinedTags note.tags) := by
  rw [joinedTags_eq note.tags_ok]
  refine tags.groupConcat_list note.tags fun value hmem => ?_
  have hvalue := (validateStringList_ok.mp note.tags_ok).1 value hmem
  exact ⟨(validateRequired_ok.mp hvalue).2.1, zero_notMem_of_required hvalue⟩

/-- The notes after some rows of another store were copied. -/
def Notes.copied (source : Notes) (destination : Bytes) (rows : List (RecordKey × Columns))
    (notes : Notes) : Notes :=
  rows.foldl (fun notes row => Function.update notes { id := row.1.id, scopeKey := destination }
    (source row.1)) notes

variable {source : Notes} {destination : Bytes}

theorem Represents.importRow (h : Represents db notes) {index : Nat} {key : RecordKey} {note : Note}
    (hid : validateRequired key.id "record_id" false = .ok ()) {db' : LongtermDb}
    (hok : importRow tags fault destination index (key, note.columns) db = .ok db') :
    Represents db' (Function.update notes { id := key.id, scopeKey := destination }
      (some note)) := by
  obtain ⟨-, hok⟩ := check_bind_ok.mp hok
  obtain ⟨-, hok⟩ := check_bind_ok.mp hok
  obtain ⟨-, hok⟩ := check_bind_ok.mp hok
  obtain ⟨hrefused, hok⟩ := refuse_ok.mp hok
  obtain ⟨-, hok⟩ := check_bind_ok.mp hok
  rw [groupConcat_note, ok_bind] at hok
  obtain rfl := Except.ok.inj hok
  generalize hcopy : ({ id := key.id, scopeKey := destination } : RecordKey) = copy at hrefused ⊢
  have hcopyId : validateRequired copy.id "record_id" false = .ok () := by
    rw [← hcopy]
    exact hid
  have hnone : db.records.lookup copy = none := AList.lookup_eq_none.mpr fun hmem =>
    hrefused (.inl hmem)
  have hempty : (db.fts.filter fun row => row.key = copy) = [] := by
    rw [h.words, Option.map_eq_none_iff.mp ((h.records _).symm.trans hnone)]
    rfl
  refine h.write note hcopyId fun other => ?_
  rw [List.filter_append]
  by_cases hother : other = copy
  · subst hother
    rw [hempty, if_pos rfl]
    simp [Note.words, ftsOf, Note.record, Note.columns, columnsOf]
    rfl
  · have hnot : ¬ copy = other := fun heq => hother heq.symm
    simp [hother, hnot]

theorem Represents.importRows (h : Represents db notes) {index : Nat}
    {rows : List (RecordKey × Columns)}
    (hrows : ∀ row ∈ rows, validateRequired row.1.id "record_id" false = .ok () ∧
      ∃ note, source row.1 = some note ∧ row.2 = note.columns) {db' : LongtermDb}
    (hok : importRows tags fault destination index rows db = .ok db') :
    Represents db' (Notes.copied source destination rows notes) := by
  induction rows generalizing index db notes with
  | nil =>
    cases hok
    exact h
  | cons row rest ih =>
    obtain ⟨⟨hid, note, hsource, hcolumns⟩, hrest⟩ := List.forall_mem_cons.mp hrows
    obtain ⟨written, hrow, hlater⟩ := bind_eq_ok.mp hok
    have hpair : row = (row.1, note.columns) := Prod.ext rfl hcolumns
    rw [hpair] at hrow
    have hafter := h.importRow hid hrow
    rw [← hsource] at hafter
    exact ih hafter hrest hlater

theorem Notes.copied_of_notMem {rows : List (RecordKey × Columns)} {key : RecordKey}
    (h : key.scopeKey = destination → ∀ row ∈ rows, row.1.id ≠ key.id) :
    Notes.copied source destination rows notes key = notes key := by
  induction rows generalizing notes with
  | nil => rfl
  | cons row rest ih =>
    have hne : key ≠ { id := row.1.id, scopeKey := destination } := by
      rintro rfl
      exact h rfl row List.mem_cons_self rfl
    refine (ih fun hscope other hmem =>
      h hscope other (List.mem_cons_of_mem _ hmem)).trans ?_
    exact Function.update_of_ne hne _ _

theorem Notes.copied_of_mem {rows : List (RecordKey × Columns)} {row : RecordKey × Columns}
    (hdistinct : (rows.map fun row => row.1.id).Nodup) (hmem : row ∈ rows) :
    Notes.copied source destination rows notes { id := row.1.id, scopeKey := destination } =
      source row.1 := by
  induction rows generalizing notes with
  | nil => cases hmem
  | cons head rest ih =>
    obtain ⟨hfresh, hrest⟩ := List.nodup_cons.mp hdistinct
    rcases List.mem_cons.mp hmem with rfl | hmem
    · have hkept : ∀ other ∈ rest, other.1.id ≠ row.1.id := fun other hother hsame =>
        hfresh (List.mem_map.mpr ⟨other, hother, hsame⟩)
      let start := Function.update notes { id := row.1.id, scopeKey := destination } (source row.1)
      have hsame : Notes.copied source destination rest start
          { id := row.1.id, scopeKey := destination } = _ :=
        Notes.copied_of_notMem fun _ => hkept
      exact hsame.trans (Function.update_self ..)
    · exact ih hrest hmem

theorem mem_scopeRows {db : LongtermDb} {scope : Bytes} {row : RecordKey × Columns} :
    row ∈ scopeRows db scope ↔ db.records.lookup row.1 = some row.2 ∧ row.1.scopeKey = scope := by
  rw [scopeRows, (List.mergeSort_perm _ _).mem_iff, List.mem_filter, Lib.Table.lookup_iff,
    decide_eq_true_eq]
  refine and_congr_left fun _ => ?_
  constructor
  · intro h
    obtain ⟨entry, hentry, rfl⟩ := List.mem_map.mp h
    exact hentry
  · exact fun h => List.mem_map.mpr ⟨_, h, rfl⟩

theorem scopeRows_distinct (db : LongtermDb) (scope : Bytes) :
    ((scopeRows db scope).map fun row => row.1.id).Nodup := by
  have hkeys : ((db.records.entries.map fun row => (row.1, row.2)).map Prod.fst).Nodup := by
    rw [List.map_map]
    exact db.records.nodupKeys
  have hfiltered := hkeys.sublist ((List.filter_sublist (p := fun row : RecordKey × Columns =>
    row.1.scopeKey = scope)).map Prod.fst)
  have hperm := (List.mergeSort_perm ((db.records.entries.map fun row => (row.1, row.2)).filter
    fun row => row.1.scopeKey = scope) fun a b => decide (a.1.id ≤ b.1.id)).map fun row :
      RecordKey × Columns => row.1.id
  refine hperm.nodup_iff.mpr ?_
  refine (List.nodup_map_iff_inj_on (List.Nodup.of_map _ hfiltered)).mpr fun a ha b hb hsame => ?_
  have hscope : ∀ {row}, row ∈ ((db.records.entries.map fun row => (row.1, row.2)).filter
      fun row : RecordKey × Columns => row.1.scopeKey = scope) → row.1.scopeKey = scope :=
    fun h => of_decide_eq_true (List.mem_filter.mp h).2
  refine List.inj_on_of_nodup_map hfiltered ha hb ?_
  have hscopes := (hscope ha).trans (hscope hb).symm
  rcases hka : a.1 with ⟨ida, scopea⟩
  rcases hkb : b.1 with ⟨idb, scopeb⟩
  rw [hka, hkb] at hsame hscopes
  dsimp only at hsame hscopes
  rw [hsame, hscopes]

theorem Represents.scopeRows (h : Represents db notes) {scope : Bytes} {row : RecordKey × Columns}
    (hmem : row ∈ scopeRows db scope) : validateRequired row.1.id "record_id" false = .ok () ∧
      ∃ note, notes row.1 = some note ∧ row.2 = note.columns := by
  have hrow := (mem_scopeRows.mp hmem).1
  rw [h.records] at hrow
  obtain ⟨note, hnote, hcolumns⟩ := Option.map_eq_some_iff.mp hrow
  exact ⟨h.ids _ _ hnote, note, hnote, hcolumns.symm⟩

/-- All rows of a scope, copied where nothing was, are the scope. -/
theorem Represents.copied_scope (hsource : Represents db source) {scope : Bytes}
    (hempty : ∀ key : RecordKey, key.scopeKey = destination → notes key = none) :
    Notes.copied source destination (Longterm.scopeRows db scope) notes =
      notes.adopt source scope destination := by
  funext key
  by_cases hscope : key.scopeKey = destination
  · rw [Notes.adopt, if_pos hscope]
    rcases hnote : source { key with scopeKey := scope } with _ | note
    · rw [Notes.copied_of_notMem fun _ row hmem hid => ?_, hempty key hscope]
      obtain ⟨_, found, hfound, _⟩ := hsource.scopeRows hmem
      have hkey : row.1 = { key with scopeKey := scope } := by
        have hrowscope := (mem_scopeRows.mp hmem).2
        rcases hrow : row.1 with ⟨rowid, rowscope⟩
        rw [hrow] at hid hrowscope
        rw [← hid, ← hrowscope]
      rw [hkey, hnote] at hfound
      cases hfound
    · have hlookup : db.records.lookup { key with scopeKey := scope } = some note.columns := by
        rw [hsource.records, hnote]
        rfl
      have hmem : (({ key with scopeKey := scope } : RecordKey), note.columns) ∈
          Longterm.scopeRows db scope :=
        mem_scopeRows.mpr ⟨hlookup, rfl⟩
      have hkey : ({ id := key.id, scopeKey := destination } : RecordKey) = key := by rw [← hscope]
      rw [← hnote, ← hkey]
      exact Notes.copied_of_mem (scopeRows_distinct db scope) hmem
  · rw [Notes.adopt, if_neg hscope]
    exact Notes.copied_of_notMem fun hsame => absurd hsame hscope

/-- A scope that no row of either table belongs to. -/
theorem Represents.scope_free (h : Represents db notes)
    (hfree : ¬ ((∃ row ∈ db.records.entries, row.1.scopeKey = destination) ∨
      ∃ row ∈ db.fts, row.key.scopeKey = destination)) {key : RecordKey}
        (hkey : key.scopeKey = destination) :
    notes key = none := by
  rcases hnote : notes key with _ | note
  · rfl
  · refine absurd (.inl ⟨⟨key, note.columns⟩, Lib.Table.lookup_iff.mp ?_, hkey⟩) hfree
    rw [h.records, hnote]
    rfl

theorem Represents.importScope (h : Represents db notes) {path : Bytes} {snapshot : Snapshot}
    (hsource : Represents snapshot.db source) {scope : Bytes}
    (hok : (importScope tags fault path snapshot scope destination db).1 = .ok ()) :
    Represents (Longterm.importScope tags fault path snapshot scope destination db).2
        (notes.adopt source scope destination) ∧
      (∀ key : RecordKey, key.scopeKey = destination → notes key = none) ∧
      ∃ key note, key.scopeKey = scope ∧ source key = some note := by
  obtain ⟨db', hbody⟩ := Lib.atomically_ok.mp hok
  have hafter : (Longterm.importScope tags fault path snapshot scope destination db).2 = db' := by
    rw [Longterm.importScope, Lib.atomically_of_ok hbody]
  rw [hafter]
  obtain ⟨-, hbody⟩ := refuse_ok.mp hbody
  obtain ⟨-, hbody⟩ := check_bind_ok.mp hbody
  obtain ⟨-, hbody⟩ := check_bind_ok.mp hbody
  obtain ⟨-, hbody⟩ := check_bind_ok.mp hbody
  obtain ⟨-, hbody⟩ := check_bind_ok.mp hbody
  obtain ⟨-, hbody⟩ := check_bind_ok.mp hbody
  obtain ⟨-, hbody⟩ := check_bind_ok.mp hbody
  obtain ⟨-, hbody⟩ := refuse_ok.mp hbody
  obtain ⟨-, hbody⟩ := check_bind_ok.mp hbody
  obtain ⟨-, hbody⟩ := check_bind_ok.mp hbody
  obtain ⟨-, hbody⟩ := check_bind_ok.mp hbody
  obtain ⟨hfree, hbody⟩ := refuse_ok.mp hbody
  obtain ⟨-, hbody⟩ := check_bind_ok.mp hbody
  obtain ⟨imported, hrows, hbody⟩ := bind_eq_ok.mp hbody
  obtain ⟨-, hbody⟩ := check_bind_ok.mp hbody
  obtain ⟨-, hbody⟩ := check_bind_ok.mp hbody
  obtain ⟨hnone, hbody⟩ := refuse_ok.mp hbody
  obtain ⟨-, hbody⟩ := check_bind_ok.mp hbody
  cases hbody
  have hempty : ∀ key : RecordKey, key.scopeKey = destination → notes key = none :=
    fun _ => h.scope_free hfree
  refine ⟨?_, hempty, ?_⟩
  · rw [← hsource.copied_scope hempty]
    exact h.importRows (fun row hmem => hsource.scopeRows hmem) hrows
  · have hne : Longterm.scopeRows snapshot.db scope ≠ [] := fun hnil => hnone (by rw [hnil]; rfl)
    obtain ⟨row, hmem⟩ := List.exists_mem_of_ne_nil _ hne
    obtain ⟨_, note, hnote, _⟩ := hsource.scopeRows hmem
    exact ⟨row.1, note, (mem_scopeRows.mp hmem).2, hnote⟩

-- Where nothing is in the way, nothing refuses the rows.
theorem Represents.importRow_succeeds (h : Represents db notes) {index : Nat} {key : RecordKey}
    {note : Note} (hfree : notes { id := key.id, scopeKey := destination } = none) :
    ∃ db', Longterm.importRow tags (fun _ => none) destination index (key, note.columns) db =
      .ok db' := by
  have hnone : db.records.lookup { id := key.id, scopeKey := destination } = none := by
    rw [h.records, hfree]
    rfl
  have hallowed : ¬ (({ id := key.id, scopeKey := destination } : RecordKey) ∈ db.records ∨
      (!note.columns.allowed) = true) := by
    rw [note.columns_allowed]
    simpa using AList.lookup_eq_none.mp hnone
  rw [Longterm.importRow, attempt_none, ok_bind, attempt_none, ok_bind, attempt_none, ok_bind]
  dsimp only
  rw [if_neg hallowed, attempt_none, ok_bind, groupConcat_note, ok_bind]
  exact ⟨_, rfl⟩

theorem Represents.importRows_succeeds (h : Represents db notes) {index : Nat}
    {rows : List (RecordKey × Columns)}
    (hrows : ∀ row ∈ rows, validateRequired row.1.id "record_id" false = .ok () ∧
      ∃ note, source row.1 = some note ∧ row.2 = note.columns)
    (hdistinct : (rows.map fun row => row.1.id).Nodup)
    (hfree : ∀ key : RecordKey, key.scopeKey = destination → (∃ row ∈ rows, row.1.id = key.id) →
      notes key = none) :
    ∃ db', Longterm.importRows tags (fun _ => none) destination index rows db = .ok db' := by
  induction rows generalizing index db notes with
  | nil => exact ⟨db, rfl⟩
  | cons row rest ih =>
    obtain ⟨⟨hid, note, _, hcolumns⟩, hrest⟩ := List.forall_mem_cons.mp hrows
    obtain ⟨hfresh, hlater⟩ := List.nodup_cons.mp hdistinct
    have hpair : row = (row.1, note.columns) := Prod.ext rfl hcolumns
    have hslot : notes { id := row.1.id, scopeKey := destination } = none :=
      hfree _ rfl ⟨row, List.mem_cons_self, rfl⟩
    have hwritten : ∃ db', Longterm.importRow tags (fun _ => none) destination index (row.1,
        note.columns) db = .ok db' :=
      h.importRow_succeeds hslot
    obtain ⟨written, hrow⟩ := hwritten
    have hafter := h.importRow hid hrow
    rw [← hpair] at hrow
    rw [Longterm.importRows, hrow, ok_bind]
    refine ih hafter hrest hlater fun key hscope hmem => ?_
    obtain ⟨other, hother, hotherId⟩ := hmem
    have hne : key ≠ { id := row.1.id, scopeKey := destination } := by
      rintro rfl
      exact hfresh (List.mem_map.mpr ⟨other, hother, hotherId⟩)
    rw [Function.update_of_ne hne]
    exact hfree key hscope ⟨other, List.mem_cons_of_mem _ hother, hotherId⟩

theorem Represents.importScope_succeeds (h : Represents db notes) {path : Bytes}
    {snapshot : Snapshot} (hsource : Represents snapshot.db source) {scope : Bytes}
    (hpath : path ≠ [] ∧ 0 ∉ path) (hscope : validateRequired scope "scope_key" false = .ok ())
    (hdestination : validateRequired destination "scope_key" false = .ok ())
    (hversion : snapshot.version = text "1")
    (hempty : ∀ key : RecordKey, key.scopeKey = destination → notes key = none)
    (hsome : ∃ key note, key.scopeKey = scope ∧ source key = some note) :
    (Longterm.importScope tags (fun _ => none) path snapshot scope destination db).1.isOk =
      true := by
  have hrequest : ∀ {t : Bytes}, validateRequired t "scope_key" false = .ok () →
      validateIndexRequest { scopeKey := t } = .ok () := by
    intro t ht
    rw [validateIndexRequest, ht, ok_bind]
    rfl
  have hfree : ¬ ((∃ row ∈ db.records.entries, row.1.scopeKey = destination) ∨
      ∃ row ∈ db.fts, row.key.scopeKey = destination) := by
    rintro (⟨row, hrow, hkey⟩ | ⟨row, hrow, hkey⟩)
    · have hlookup := Lib.Table.lookup_iff.mpr hrow
      rw [h.records, hempty row.1 hkey] at hlookup
      cases hlookup
    · have hwords := h.words row.key
      rw [hempty row.key hkey] at hwords
      have hmem : row ∈ db.fts.filter fun other => other.key = row.key :=
        List.mem_filter.mpr ⟨hrow, by simp⟩
      rw [hwords] at hmem
      cases hmem
  have himported : ∃ db', Longterm.importRows tags (fun _ => none) destination 0
    (Longterm.scopeRows snapshot.db scope) db =
      .ok db' :=
    h.importRows_succeeds (fun row hmem => hsource.scopeRows hmem)
      (scopeRows_distinct snapshot.db scope)
      fun key hkey _ => hempty key hkey
  obtain ⟨imported, hrows⟩ := himported
  have hne : (Longterm.scopeRows snapshot.db scope).isEmpty = false := by
    obtain ⟨key, note, hkey, hnote⟩ := hsome
    rw [List.isEmpty_eq_false_iff_exists_mem]
    refine ⟨(key, note.columns), mem_scopeRows.mpr ⟨?_, hkey⟩⟩
    rw [hsource.records, hnote]
    rfl
  rw [Longterm.importScope, Lib.atomically_isOk, if_neg (by simp [hpath]), hrequest hscope, ok_bind,
    hrequest hdestination, ok_bind, attempt_none, ok_bind, attempt_none, ok_bind, attempt_none,
      ok_bind, attempt_none,
    ok_bind, if_neg (by simp [hversion]), attempt_none, ok_bind, attempt_none, ok_bind,
      attempt_none, ok_bind,
    if_neg hfree, attempt_none, ok_bind]
  dsimp only
  rw [hrows, ok_bind, attempt_none, ok_bind, attempt_none, ok_bind, if_neg (by simp [hne]),
    attempt_none, ok_bind]
  rfl

end Orangutan.Memory.Longterm
