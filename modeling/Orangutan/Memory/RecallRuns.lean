import Orangutan.Memory.IndexPages
import Orangutan.Memory.Recall

/-!
# What a recall returns

A search finds the notes of its scope that match, in the order of their scores and as many as there
is room for. What a recall returns are notes as they were when it looked, with the time at which it
marked them.
-/

namespace Orangutan.Memory.Longterm

set_option autoImplicit false

open Orangutan.Core Orangutan.Core.Str Orangutan.Storage

/-- The runs of word bytes. -/
def words (t : Bytes) : List Bytes := (t.splitOnP fun ch => !wordByte ch).filter (· ≠ [])

theorem words_word {t : Bytes} (h : ∀ ch ∈ t, wordByte ch = true) : words t = if t = [] then []
    else [t] := by
  have hsplit : t.splitOnP (fun ch => !wordByte ch) = [t] :=
    List.splitOnP_eq_singleton fun ch hmem => by simp [h ch hmem]
  rw [words, hsplit]
  by_cases hempty : t = []
  · simp [hempty]
  · simp [hempty]

theorem words_skip {ch : UInt8} (h : wordByte ch = false) (rest : Bytes) :
    words (ch :: rest) = words rest := by
  rw [words, List.splitOnP_cons_eq_if_modifyHead, if_pos (by rw [h]; rfl)]
  simp [words]

theorem words_append {token : Bytes} (htoken : ∀ ch ∈ token, wordByte ch = true) (hne : token ≠ [])
    {ch : UInt8} (h : wordByte ch = false) (rest : Bytes) :
    words (token ++ ch :: rest) = token :: words rest := by
  have hsplit : (token ++ ch :: rest).splitOnP (fun ch => !wordByte ch) = token :: rest.splitOnP
      fun ch => !wordByte ch :=
    List.splitOnP_append_cons_of_forall_mem (fun c hmem => by simp [htoken c hmem]) ch
      (by simp [h]) rest
  rw [words, hsplit, List.filter_cons_of_pos (by simpa using hne)]
  rfl

theorem words_dropWhile (t : Bytes) : words (t.dropWhile fun ch => !wordByte ch) = words t := by
  induction t with
  | nil => rfl
  | cons ch rest ih =>
    cases h : wordByte ch with
    | true => rw [List.dropWhile_cons_of_neg (by simp [h])]
    | false => rw [List.dropWhile_cons_of_pos (by simp [h]), ih, words_skip h]

/-- A run at the front and the words behind it. -/
theorem words_takeWhile {t : Bytes} (h : t.takeWhile wordByte ≠ []) :
    words t = t.takeWhile wordByte :: words (t.dropWhile wordByte) := by
  have htoken : ∀ ch ∈ t.takeWhile wordByte, wordByte ch = true :=
    fun ch hmem => List.mem_takeWhile_imp hmem
  have happ : t.takeWhile wordByte ++ t.dropWhile wordByte = t := List.takeWhile_append_dropWhile
  rcases hrest : t.dropWhile wordByte with _ | ⟨ch, rest⟩
  · rw [hrest, List.append_nil] at happ
    have hwords := words_word htoken
    rw [if_neg h, happ] at hwords
    rw [hwords, happ]
    rfl
  · have hstop : wordByte ch = false := by
      have := List.head_dropWhile_not wordByte (l := t) (by rw [hrest]; simp)
      simpa [hrest] using this
    rw [hrest] at happ
    rw [words_skip hstop, ← words_append htoken h hstop rest, happ]

theorem words_nil_of_takeWhile {t : Bytes}
    (h : (t.dropWhile fun ch => !wordByte ch).takeWhile wordByte = []) :
    words t = [] := by
  rw [← words_dropWhile]
  rcases hrest : t.dropWhile (fun ch => !wordByte ch) with _ | ⟨ch, rest⟩
  · rfl
  · rw [hrest] at h
    have hword : wordByte ch = true := by
      have := List.head_dropWhile_not (fun ch => !wordByte ch) (l := t) (by rw [hrest]; simp)
      simpa [hrest] using this
    rw [List.takeWhile_cons_of_pos hword] at h
    cases h

/-- A word in quotes. -/
def quoted (word : Bytes) : Bytes := 0x22 :: (word ++ [0x22])

theorem quoteFtsToken_word {word : Bytes} (h : ∀ ch ∈ word, wordByte ch = true) :
    quoteFtsToken word = quoted word := by
  have hflat : (word.flatMap fun ch => if ch = 0x22 then [0x22, 0x22] else [ch]) = word := by
    induction word with
    | nil => rfl
    | cons ch rest ih =>
      obtain ⟨hch, hrest⟩ := List.forall_mem_cons.mp h
      have hne : ch ≠ 0x22 := by
        rintro rfl
        cases hch
      rw [List.flatMap_cons, if_neg hne, ih hrest]
      rfl
  rw [quoteFtsToken, hflat, quoted, List.cons_append]

/-- Terms behind what there is. -/
def joinTerms (out : Bytes) : List Bytes → Bytes
  | [] => out
  | word :: rest => joinTerms ((if out = [] then out else out ++ text " OR ") ++ quoted word) rest

theorem ftsQueryFrom_words (terms : Nat) (out rest : Bytes) :
    ftsQueryFrom terms out rest = joinTerms out ((words rest).take terms) := by
  induction terms generalizing out rest with
  | zero => rfl
  | succ terms ih =>
    rw [ftsQueryFrom]
    by_cases hnone : (rest.dropWhile fun ch => !wordByte ch).takeWhile wordByte = []
    · rw [if_pos hnone, words_nil_of_takeWhile hnone]
      rfl
    · rw [if_neg hnone, ih, ← words_dropWhile rest, words_takeWhile hnone, List.take_succ_cons,
        joinTerms, quoteFtsToken_word fun ch hmem => List.mem_takeWhile_imp hmem]

theorem joinTerms_nonempty {out : Bytes} (h : out ≠ []) (terms : List Bytes) :
    joinTerms out terms = out ++ terms.flatMap fun word => text " OR " ++ quoted word := by
  induction terms generalizing out with
  | nil => simp [joinTerms]
  | cons word rest ih =>
    rw [joinTerms, if_neg h, ih (by simp [quoted]), List.flatMap_cons]
    simp only [List.append_assoc]

/-- The expression: the first words, each in quotes of its own, whatever else the text holds. -/
theorem makeFtsQuery_words (t : Bytes) :
    makeFtsQuery t = (text " OR ").intercalate (((words t).take 32).map quoted) := by
  rw [makeFtsQuery, ftsQueryFrom_words]
  rcases (words t).take 32 with _ | ⟨word, rest⟩
  · rfl
  · rw [joinTerms, if_pos rfl, List.nil_append, joinTerms_nonempty (by simp [quoted])]
    induction rest generalizing word with
    | nil => simp
    | cons other rest ih =>
      rw [List.map_cons, List.map_cons, List.intercalate_cons_cons, ← List.map_cons, ← ih,
        List.flatMap_cons]
      simp only [List.append_assoc]

variable {db : LongtermDb} {notes : Notes}

/-- A note as a search ranks it. -/
abbrev Ranked := ℚ × RecordKey × Note

/-- The better first, then the later, then by identity. -/
def Ahead : Ranked → Ranked → Prop :=
  Lib.LexLe (fun row => row.1) (fun x y => y < x) fun a b =>
    ByTime (a.2.1, a.2.2.columns) (b.2.1, b.2.2.columns)

def ScoredAhead : Scored → Scored → Prop :=
  Lib.LexLe (fun row => row.1) (fun x y => y < x) fun a b => ByTime a.2 b.2

theorem rankLe_iff {a b : Scored} : rankLe a b = true ↔ ScoredAhead a b := by
  simp only [rankLe, ScoredAhead, ByTime, Lib.LexLe, Bool.or_eq_true, Bool.and_eq_true,
    decide_eq_true_eq]

theorem searchRows_sorted (ranking : Ranking) (db : LongtermDb) (query : Query) :
    (searchRows ranking db query).Pairwise ScoredAhead := by
  have htrans : ∀ a b c : Scored, rankLe a b = true → rankLe b c = true → rankLe a c = true := by
    intro a b c hab hbc
    exact rankLe_iff.mpr (@Lib.LexLe.trans _ _ (fun row : Scored => row.1) (fun x y => y < x)
      (fun a b => ByTime a.2 b.2)
      (fun _ _ _ h h' => lt_trans h' h) (fun _ _ _ => ByTime.trans) a b c (rankLe_iff.mp hab)
        (rankLe_iff.mp hbc))
  have htotal : ∀ a b : Scored, (rankLe a b || rankLe b a) = true := by
    intro a b
    rw [Bool.or_eq_true, rankLe_iff, rankLe_iff]
    exact Lib.LexLe.total (fun x y => (lt_trichotomy y x).imp id fun h => h.imp Eq.symm id)
      (fun a b : Scored => ByTime.total a.2 b.2) a b
  exact (List.pairwise_mergeSort htrans htotal _).imp rankLe_iff.mp

/-- The words of a note are in the index once. -/
theorem Represents.nodup_fts (h : Represents db notes) : (db.fts.map FtsRow.key).Nodup := by
  rw [List.nodup_iff_count_le_one]
  intro key
  have hcount : (db.fts.map FtsRow.key).count key =
      (db.fts.filter fun row => row.key = key).length := by
    rw [List.count, List.countP_map, List.countP_eq_length_filter]
    rfl
  rw [hcount, h.words key]
  cases notes key with
  | none => exact Nat.zero_le 1
  | some note => exact le_refl 1

theorem Represents.mem_fts (h : Represents db notes) {row : FtsRow} :
    row ∈ db.fts ↔ ∃ note, notes row.key = some note ∧ row = note.words row.key := by
  have hmem : row ∈ db.fts ↔ row ∈ db.fts.filter fun other => other.key = row.key := by
    rw [List.mem_filter]
    exact ⟨fun hrow => ⟨hrow, decide_eq_true rfl⟩, And.left⟩
  rw [hmem, h.words row.key]
  cases notes row.key with
  | none => simp
  | some note => simp

/-- A note that a query matches. -/
def Matches (ranking : Ranking) (db : LongtermDb) (query : Query) (key : RecordKey) (note : Note)
    (score : ℚ) : Prop :=
  ranking.score (makeFtsQuery query.text) db.fts (note.words key) = some score

theorem joinRow_some {ranking : Ranking} {query : Query} {row : FtsRow} {scored : Scored} :
    joinRow ranking db query row = some scored ↔
      ranking.score (makeFtsQuery query.text) db.fts row = some scored.1 ∧ scored.2.1 = row.key ∧
        db.records.lookup row.key = some scored.2.2 ∧ row.key.scopeKey = query.scopeKey ∧
          scored.2.2.shadow = 0 ∧
        (query.kinds = [] ∨ (query.kinds.map RecordKind.name).contains scored.2.2.kind = true) := by
  obtain ⟨score, key, columns⟩ := scored
  unfold joinRow
  rcases ranking.score (makeFtsQuery query.text) db.fts row with _ | found
  · simp
  rcases db.records.lookup row.key with _ | stored
  · simp
  dsimp only
  split_ifs with hcondition
  · rw [Bool.and_eq_true, Bool.and_eq_true, Bool.or_eq_true, decide_eq_true_eq, beq_iff_eq,
      List.isEmpty_iff] at hcondition
    obtain ⟨⟨hscope, hshadow⟩, hkind⟩ := hcondition
    constructor
    · intro heq
      cases heq
      exact ⟨rfl, rfl, rfl, hscope, hshadow, hkind⟩
    · rintro ⟨hscore, hkey, hcolumns, _⟩
      rw [Option.some.inj hscore, Option.some.inj hcolumns, ← hkey]
  · refine iff_of_false (by simp) ?_
    rintro ⟨-, -, hcolumns, hscope, hshadow, hkind⟩
    obtain rfl := Option.some.inj hcolumns
    refine hcondition ?_
    rw [Bool.and_eq_true, Bool.and_eq_true, Bool.or_eq_true, decide_eq_true_eq, beq_iff_eq,
      List.isEmpty_iff]
    exact ⟨⟨hscope, hshadow⟩, hkind⟩

theorem listed_columns {scope : Bytes} {kinds : List RecordKind} {key : RecordKey} {note : Note}
    (hnote : notes key = some note) : Listed scope kinds notes key ↔
      key.scopeKey = scope ∧ note.columns.shadow = 0 ∧
        (kinds = [] ∨ (kinds.map RecordKind.name).contains note.columns.kind = true) := by
  have hshadow : note.columns.shadow = 0 ↔ note.shadow = false := by
    change (if note.shadow then (1 : Int) else 0) = 0 ↔ _
    cases note.shadow <;> decide
  have hkind : (kinds.map RecordKind.name).contains note.columns.kind = true ↔ note.kind ∈ kinds :=
    kinds_contains
  rw [hshadow, hkind]
  constructor
  · rintro ⟨hscope, other, hother, hrest⟩
    obtain rfl := Option.some.inj (hother.symm.trans hnote)
    exact ⟨hscope, hrest⟩
  · rintro ⟨hscope, hrest⟩
    exact ⟨hscope, note, hnote, hrest⟩

theorem Represents.mem_searchRows (h : Represents db notes) {ranking : Ranking} {query : Query}
    {scored : Scored} :
    scored ∈ searchRows ranking db query ↔ ∃ note, notes scored.2.1 = some note ∧
      scored.2.2 = note.columns ∧
      Listed query.scopeKey query.kinds notes scored.2.1 ∧
        Matches ranking db query scored.2.1 note scored.1 := by
  obtain ⟨score, key, columns⟩ := scored
  rw [searchRows, (List.mergeSort_perm _ _).mem_iff, List.mem_filterMap]
  constructor
  · rintro ⟨row, hrow, hjoin⟩
    obtain ⟨hscore, hkey, hlookup, hscope, hshadow, hkind⟩ := joinRow_some.mp hjoin
    obtain ⟨note, hnote, hwords⟩ := h.mem_fts.mp hrow
    dsimp only at hscore hkey hlookup hshadow hkind ⊢
    rw [h.records, hnote, Option.map_some] at hlookup
    obtain rfl := Option.some.inj hlookup
    rw [hkey]
    refine ⟨note, hnote, rfl, (listed_columns hnote).mpr ⟨hscope, hshadow, hkind⟩, ?_⟩
    rw [Matches, ← hwords]
    exact hscore
  · rintro ⟨note, hnote, hcolumns, hlisted, hscore⟩
    dsimp only at hnote hcolumns hlisted hscore
    subst hcolumns
    obtain ⟨hscope, hshadow, hkind⟩ := (listed_columns hnote).mp hlisted
    refine ⟨note.words key, h.mem_fts.mpr ⟨note, hnote, rfl⟩,
      joinRow_some.mpr ⟨hscore, rfl, ?_, hscope, hshadow, hkind⟩⟩
    change db.records.lookup key = _
    rw [h.records, hnote, Option.map_some]

theorem Represents.nodup_searchRows (h : Represents db notes) (ranking : Ranking) (query : Query) :
    ((searchRows ranking db query).map fun row => row.2.1).Nodup := by
  refine (((List.mergeSort_perm _ _).map _).nodup_iff).mpr ?_
  have hsub : ((db.fts.filterMap (joinRow ranking db query)).map fun row => row.2.1).Sublist
      (db.fts.map FtsRow.key) := by
    generalize db.fts = rows
    induction rows with
    | nil => exact List.Sublist.slnil
    | cons row rest ih =>
      rw [List.map_cons]
      rcases hjoin : joinRow ranking db query row with _ | scored
      · rw [List.filterMap_cons_none hjoin]
        exact ih.cons _
      · rw [List.filterMap_cons_some hjoin, List.map_cons, (joinRow_some.mp hjoin).2.1]
        exact ih.cons_cons _
  exact h.nodup_fts.sublist hsub

/-- The notes that a query matches, in the order of a search. -/
structure Ranking.Orders (ranking : Ranking) (db : LongtermDb) (notes : Notes) (query : Query)
    (ranked : List Ranked) :
    Prop where
  distinct : (ranked.map fun row => row.2.1).Nodup
  sorted : ranked.Pairwise Ahead
  complete : ∀ score key note, (score, key, note) ∈ ranked ↔
    notes key = some note ∧ Listed query.scopeKey query.kinds notes key ∧
      Matches ranking db query key note score

def Ranked.scored (row : Ranked) : Scored := (row.1, row.2.1, row.2.2.columns)

theorem Represents.exists_ranked (h : Represents db notes) (ranking : Ranking) (query : Query) :
    ∃ ranked : List Ranked, ranking.Orders db notes query ranked ∧
      searchRows ranking db query = ranked.map Ranked.scored := by
  have hrows : ∀ row ∈ searchRows ranking db query, ∃ ranked : Ranked,
      notes row.2.1 = some ranked.2.2 ∧ ranked.scored = row := by
    intro row hrow
    obtain ⟨note, hnote, hcolumns, _⟩ := h.mem_searchRows.mp hrow
    exact ⟨(row.1, row.2.1, note), hnote, Prod.ext rfl (Prod.ext rfl hcolumns.symm)⟩
  obtain ⟨ranked, hmap, hnotes⟩ : ∃ ranked : List Ranked,
    searchRows ranking db query = ranked.map Ranked.scored ∧
      ∀ row ∈ ranked, notes row.2.1 = some row.2.2 := by
    generalize searchRows ranking db query = rows at hrows
    induction rows with
    | nil => exact ⟨[], rfl, by simp⟩
    | cons row rest ih =>
      obtain ⟨⟨first, hnote, hfirst⟩, hrest⟩ := List.forall_mem_cons.mp hrows
      obtain ⟨ranked, hmap, hnotes⟩ := ih hrest
      refine ⟨first :: ranked, by rw [List.map_cons, hfirst, hmap],
        List.forall_mem_cons.mpr ⟨?_, hnotes⟩⟩
      rw [← hfirst] at hnote
      exact hnote
  refine ⟨ranked, ⟨?_, ?_, ?_⟩, hmap⟩
  · have hdistinct := h.nodup_searchRows ranking query
    rw [hmap, List.map_map] at hdistinct
    exact hdistinct
  · have hsorted := searchRows_sorted ranking db query
    rw [hmap, List.pairwise_map] at hsorted
    exact hsorted
  · intro score key note
    have hmem := @Represents.mem_searchRows _ _ h ranking query (score, key, note.columns)
    constructor
    · intro hranked
      have hnote : notes key = some note := hnotes _ hranked
      have hrow : (score, key, note.columns) ∈ searchRows ranking db query :=
        hmap ▸ List.mem_map_of_mem (f := Ranked.scored) hranked
      obtain ⟨other, hother, -, hlisted, hmatches⟩ := hmem.mp hrow
      obtain rfl := Option.some.inj (hother.symm.trans hnote)
      exact ⟨hnote, hlisted, hmatches⟩
    · rintro ⟨hnote, hlisted, hmatches⟩
      have hrow := hmem.mpr ⟨note, hnote, rfl, hlisted, hmatches⟩
      rw [hmap] at hrow
      obtain ⟨row, hranked, hrow⟩ := List.mem_map.mp hrow
      obtain ⟨rfl, hrest⟩ := Prod.ext_iff.mp hrow
      obtain ⟨rfl, -⟩ := Prod.ext_iff.mp hrest
      obtain rfl : row.2.2 = note := Option.some.inj ((hnotes row hranked).symm.trans hnote)
      exact hranked

section Hits

variable {parser : JsonParser} {ranking : Ranking} {fault : Faults}

def Ranked.hit (row : Ranked) : SearchHit := { record := row.2.2.stored row.2.1, score := row.1 }

theorem readHits_ok {index : Nat} {ranked : List Ranked} {hits : List SearchHit}
    (h : readHits parser fault index (ranked.map Ranked.scored) = .ok hits) :
      hits = ranked.map Ranked.hit := by
  induction ranked generalizing index hits with
  | nil =>
    obtain ⟨-, h⟩ := check_bind_ok.mp h
    exact (Except.ok.inj h).symm
  | cons row rest ih =>
    rw [List.map_cons, readHits, check_bind_ok] at h
    obtain ⟨-, h⟩ := h
    obtain ⟨record, hrecord, h⟩ := bind_eq_ok.mp h
    obtain ⟨others, hothers, h⟩ := bind_eq_ok.mp h
    obtain rfl := Except.ok.inj ((readRecordRow_note parser row.2.1 row.2.2).symm.trans hrecord)
    rw [← Except.ok.inj h, ih hothers]
    rfl

theorem readHits_plain (parser : JsonParser) (index : Nat) (ranked : List Ranked) :
    readHits parser (fun _ => none) index (ranked.map Ranked.scored) =
      .ok (ranked.map Ranked.hit) := by
  induction ranked generalizing index with
  | nil => rfl
  | cons row rest ih =>
    have hrecord : readRecordRow parser row.scored.2.1 row.scored.2.2 =
        .ok (row.2.2.stored row.2.1) :=
      readRecordRow_note parser row.2.1 row.2.2
    rw [List.map_cons, readHits, attempt_none, ok_bind, hrecord, ok_bind, ih, ok_bind]
    rfl

/-- What a request selects among the notes. -/
inductive Selected (ranking : Ranking) (db : LongtermDb) (notes : Notes) (request : RecallRequest) :
    List SearchHit → Prop
  | identity {note : Note} (hid : request.recordId ≠ [])
      (hnote : notes ⟨request.recordId, request.query.scopeKey⟩ = some note)
      (hlisted : Listed request.query.scopeKey request.query.kinds notes ⟨request.recordId,
        request.query.scopeKey⟩) :
      Selected ranking db notes request
        [{ record := note.stored ⟨request.recordId, request.query.scopeKey⟩ }]
  | nothing (hid : request.recordId = []) (hwords : words request.query.text = []) :
      Selected ranking db notes request []
  | matching {ranked : List Ranked} (hid : request.recordId = [])
      (hranked : ranking.Orders db notes request.query ranked) :
      Selected ranking db notes request ((ranked.take request.limit).map Ranked.hit)

theorem makeFtsQuery_nil {t : Bytes} : makeFtsQuery t = [] ↔ words t = [] := by
  rw [makeFtsQuery_words]
  rcases words t with _ | ⟨word, rest⟩
  · simp
  · refine iff_of_false ?_ (by simp)
    rw [List.take_succ_cons, List.map_cons]
    rcases (rest.take 31).map quoted with _ | ⟨other, others⟩
    · simp [quoted]
    · rw [List.intercalate_cons_cons]
      simp [quoted]

theorem shadow_or_kind {note : Note} {scope : Bytes} {kinds : List RecordKind} {key : RecordKey}
    (hnote : notes key = some note) (hscope : key.scopeKey = scope) : Listed scope kinds notes key ↔
      ¬ ((note.stored key).shadow || (!kinds.isEmpty && !kinds.contains (note.stored key).kind)) =
        true := by
  change _ ↔ ¬ (note.shadow || (!kinds.isEmpty && !kinds.contains note.kind)) = true
  rw [Bool.or_eq_true, Bool.and_eq_true, Bool.not_eq_true', Bool.not_eq_true',
    List.isEmpty_eq_false_iff, not_or, not_and_or, Bool.not_eq_true, not_not, Bool.not_eq_false,
    List.contains_iff_mem]
  constructor
  · rintro ⟨-, other, hother, hrest⟩
    obtain rfl := Option.some.inj (hother.symm.trans hnote)
    exact hrest
  · exact fun hrest => ⟨hscope, note, hnote, hrest⟩

theorem Represents.selectHits (h : Represents db notes) {request : RecallRequest}
    {hits : List SearchHit} (hok : selectHits parser ranking fault db request = .ok hits) :
    validateRecallRequest request = .ok () ∧ Selected ranking db notes request hits := by
  obtain ⟨hvalid, hok⟩ := check_bind_ok.mp hok
  refine ⟨hvalid, ?_⟩
  by_cases hid : request.recordId = []
  · rw [if_neg (by simpa using hid)] at hok
    obtain ⟨-, hok⟩ := check_bind_ok.mp hok
    by_cases hnone : makeFtsQuery request.query.text = []
    · rw [if_pos hnone] at hok
      obtain rfl := Except.ok.inj hok
      exact .nothing hid (makeFtsQuery_nil.mp hnone)
    · rw [if_neg hnone] at hok
      obtain ⟨-, hok⟩ := check_bind_ok.mp hok
      obtain ⟨-, hok⟩ := check_bind_ok.mp hok
      obtain ⟨ranked, hranked, hrows⟩ := h.exists_ranked ranking request.query
      rw [hrows, ← List.map_take] at hok
      rw [readHits_ok hok]
      exact .matching hid hranked
  · rw [if_pos hid] at hok
    obtain ⟨record, hget, hok⟩ := bind_eq_ok.mp hok
    obtain ⟨note, hnote, rfl⟩ := h.get hget
    obtain ⟨hlisted, hok⟩ := refuse_ok.mp hok
    obtain rfl := Except.ok.inj hok
    exact .identity hid hnote ((shadow_or_kind hnote rfl).mpr hlisted)

/-- Without faults there is an answer to every valid request, unless it names a note that there is
not. -/
theorem Represents.selectHits_plain (h : Represents db notes) (parser : JsonParser)
    (ranking : Ranking) {request : RecallRequest} (hvalid : validateRecallRequest request = .ok ())
    (hnote : request.recordId ≠ [] →
      Listed request.query.scopeKey request.query.kinds notes ⟨request.recordId,
        request.query.scopeKey⟩) :
    ∃ hits, Longterm.selectHits parser ranking (fun _ => none) db request = .ok hits := by
  rw [Longterm.selectHits, hvalid, ok_bind]
  by_cases hid : request.recordId = []
  · rw [if_neg (by simpa using hid), search]
    rw [validateRecallRequest, if_pos hid] at hvalid
    rw [hvalid, ok_bind]
    obtain ⟨ranked, -, hrows⟩ := h.exists_ranked ranking request.query
    rw [attempt_none, ok_bind, attempt_none, ok_bind, hrows, ← List.map_take, readHits_plain]
    split_ifs
    · exact ⟨_, rfl⟩
    · exact ⟨_, rfl⟩
  · rw [validateRecallRequest, if_neg hid, refuse_ok, check_bind_ok] at hvalid
    have hlisted := hnote hid
    obtain ⟨-, note, hfound, -⟩ := id hlisted
    rw [if_pos hid, h.get_eq hvalid.2.1, hfound, ok_bind,
      if_neg ((shadow_or_kind hfound rfl).mp hlisted)]
    exact ⟨_, rfl⟩

theorem Selected.listed {request : RecallRequest} {hits : List SearchHit}
    (h : Selected ranking db notes request hits) :
    ∀ hit ∈ hits, ∃ note, notes hit.record.key = some note ∧
      hit.record = note.stored hit.record.key ∧
      Listed request.query.scopeKey request.query.kinds notes hit.record.key := by
  cases h with
  | identity hid hnote hlisted =>
    intro hit hmem
    obtain rfl := List.mem_singleton.mp hmem
    exact ⟨_, hnote, rfl, hlisted⟩
  | nothing => simp
  | matching hid hranked =>
    intro hit hmem
    obtain ⟨⟨score, key, note⟩, hrow, rfl⟩ := List.mem_map.mp hmem
    obtain ⟨hnote, hlisted, -⟩ := (hranked.complete score key note).mp (List.mem_of_mem_take hrow)
    exact ⟨note, hnote, rfl, hlisted⟩

end Hits

/-- The time is not in the first, broken millisecond of the clock. -/
def Whole (t : TimePoint) : Prop := -9223372036854775808 ≤ t.milliseconds * 1000000

instance (t : TimePoint) : Decidable (Whole t) := inferInstanceAs (Decidable (_ ≤ _))

theorem Whole.persisted_toInt {t : TimePoint} (h : Whole t) :
    t.persisted.nanoseconds.toInt = t.milliseconds * 1000000 := by
  have hupper : t.milliseconds * 1000000 ≤ t.nanoseconds.toInt := Int.ediv_mul_le _ (by decide)
  have hmax := Int64.toInt_lt t.nanoseconds
  exact Int64.toInt_ofInt_of_le h (by omega)

theorem Whole.persisted_milliseconds {t : TimePoint} (h : Whole t) :
    t.persisted.milliseconds = t.milliseconds := by
  rw [TimePoint.milliseconds, h.persisted_toInt]
  exact Int.mul_ediv_cancel _ (by decide)

theorem Whole.persisted_persisted {t : TimePoint} (h : Whole t) :
    t.persisted.persisted = t.persisted := by
  rw [TimePoint.persisted, h.persisted_milliseconds]
  rfl

/-- The read time that a hit shows is the one that the store keeps. -/
theorem latest_persisted {a now : TimePoint} (ha : Whole a) (hnow : Whole now) :
    latest a.persisted now.persisted = (later a now.persisted).persisted := by
  unfold latest later
  rw [hnow.persisted_milliseconds]
  have hlt : a.persisted.nanoseconds < now.persisted.nanoseconds ↔
      a.milliseconds < now.milliseconds := by
    rw [Int64.lt_iff_toInt_lt, ha.persisted_toInt, hnow.persisted_toInt]
    omega
  by_cases h : a.milliseconds < now.milliseconds
  · rw [if_pos (hlt.mpr h), if_pos h, hnow.persisted_persisted]
  · rw [if_neg fun h' => h (hlt.mp h'), if_neg h]

theorem validateRecallRequest_scope {request : RecallRequest}
    (h : validateRecallRequest request = .ok ()) :
    validateRequired request.query.scopeKey "scope_key" false = .ok () := by
  by_cases hid : request.recordId = []
  · rw [validateRecallRequest, if_pos hid] at h
    exact (check_bind_ok.mp h).1
  · rw [validateRecallRequest, if_neg hid, refuse_ok, check_bind_ok] at h
    exact (validateKey_ok.mp h.2.1).2

section Recall

variable {parser : JsonParser} {ranking : Ranking} {fault : Faults} {request : RecallRequest}
  {now : TimePoint}
  {hits : List SearchHit} {found : LongtermDb} {after : Notes}

theorem Selected.keys_valid (h : Represents db notes)
    (hvalid : validateRecallRequest request = .ok ())
    (hselected : Selected ranking db notes request hits) : ∀ hit ∈ hits,
    validateKey hit.record.key = .ok () := by
  intro hit hmem
  obtain ⟨note, hnote, -, hscope, -⟩ := hselected.listed hit hmem
  exact validateKey_ok.mpr ⟨h.ids _ note hnote, hscope ▸ validateRecallRequest_scope hvalid⟩

theorem map_readAt_key (hits : List SearchHit) (time : TimePoint) :
    ((hits.map fun hit => hit.readAt time).map fun hit => hit.record.key) = hits.map fun hit =>
      hit.record.key := by
  rw [List.map_map]
  rfl

theorem Represents.runRecall (hfound : Represents found notes) (h : Represents db after)
    {result : RecallResult} (hok : (runRecall parser ranking fault now request found db).1 =
    .ok result) :
    (∃ hits, Selected ranking found notes request hits ∧
      result.hits = hits.map fun hit => hit.readAt now.persisted) ∧
      result.text = renderRecallText result.hits ∧ validateRecallRequest request = .ok () ∧
      Represents (runRecall parser ranking fault now request found db).2
        (after.readTimes (result.hits.map fun hit => hit.record.key) now.persisted) := by
  unfold Longterm.runRecall at hok ⊢
  rcases hselect : Longterm.selectHits parser ranking fault found request with e | hits
  · rw [hselect] at hok
    cases hok
  · obtain ⟨hvalid, hselected⟩ := hfound.selectHits hselect
    rw [hselect] at hok
    dsimp only at hok ⊢
    rcases hits with _ | ⟨hit, rest⟩
    · obtain rfl := Except.ok.inj hok
      refine ⟨⟨[], hselected, rfl⟩, rfl, hvalid, ?_⟩
      change Represents db (after.readTimes [] now.persisted)
      rw [Notes.readTimes_nil]
      exact h
    · rw [if_neg (by simp)] at hok ⊢
      obtain ⟨_, htouched, rfl⟩ := map_ok.mp hok
      refine ⟨⟨_, hselected, rfl⟩, rfl, hvalid, ?_⟩
      dsimp only
      rw [map_readAt_key]
      exact h.touch htouched

theorem runRecall_failed {e : Error}
    (herror : (runRecall parser ranking fault now request found db).1 = .error e) :
    (runRecall parser ranking fault now request found db).2 = db := by
  unfold runRecall at herror ⊢
  rcases hselect : Longterm.selectHits parser ranking fault found request with e' | hits
  · rfl
  · rw [hselect] at herror
    dsimp only at herror ⊢
    by_cases hempty : hits.isEmpty = true
    · rw [if_pos hempty] at herror
      cases herror
    · rw [if_neg hempty] at herror ⊢
      exact Lib.atomically_failed (map_error.mp herror)

theorem Represents.runRecall_succeeds (hfound : Represents found notes) (parser : JsonParser)
    (ranking : Ranking) (now : TimePoint) (db : LongtermDb) :
    (Longterm.runRecall parser ranking (fun _ => none) now request found db).1.isOk = true ↔
      validateRecallRequest request = .ok () ∧ (request.recordId ≠ [] →
        Listed request.query.scopeKey request.query.kinds notes ⟨request.recordId,
          request.query.scopeKey⟩) := by
  unfold Longterm.runRecall
  constructor
  · intro hok
    rcases hselect : Longterm.selectHits parser ranking (fun _ => none) found request with e | hits
    · rw [hselect] at hok
      cases hok
    · obtain ⟨hvalid, hselected⟩ := hfound.selectHits hselect
      refine ⟨hvalid, fun hid => ?_⟩
      cases hselected with
      | identity _ _ hlisted => exact hlisted
      | nothing hempty => exact absurd hempty hid
      | matching hempty => exact absurd hempty hid
  · rintro ⟨hvalid, hnote⟩
    obtain ⟨hits, hselect⟩ := hfound.selectHits_plain parser ranking hvalid hnote
    obtain ⟨-, hselected⟩ := hfound.selectHits hselect
    rw [hselect]
    dsimp only
    split_ifs
    · rfl
    · rw [map_isOk]
      refine touch_succeeds (fun key hkey => ?_) _ _
      obtain ⟨hit, hhit, rfl⟩ := List.mem_map.mp hkey
      exact hselected.keys_valid hfound hvalid hit hhit

end Recall

/-- A recall looks after some calls and marks after some more, and anything may fail in it. It marks
all that it returns or fails and changes nothing. What it returns is what the request selects among
the notes at the time it looked: the one note of an identity, or the matching notes of the scope in
the order of their scores, up to the limit, and never a shadow. A returned record that was not
written in between is what the store then holds, read time included. Without faults only a request
that is not valid or that names no note fails. -/
theorem recall_runs (parser : JsonParser) (tags : TagReader) (ranking : Ranking)
    (calls between : List Attempt) (fault : Faults) (now : TimePoint) (request : RecallRequest) :
    let first := runAll parser tags calls {}
    let notes := actAll first.1 fun _ => none
    let second := runAll parser tags between first.2
    let after := actAll second.1 notes
    let done := runRecall parser ranking fault now request first.2 second.2
    (∀ e, done.1 = .error e → done.2 = second.2) ∧
    (∀ result, done.1 = .ok result →
      (∃ hits, Selected ranking first.2 notes request hits ∧
        result.hits = hits.map fun hit => hit.readAt now.persisted) ∧
      result.text = renderRecallText result.hits ∧
      Represents done.2 (after.readTimes (result.hits.map fun hit => hit.record.key)
        now.persisted) ∧
      (Whole now → ∀ hit ∈ result.hits, ∀ note, notes hit.record.key = some note →
        Whole note.lastReadAt →
        after hit.record.key = some note → get parser (fun _ => none) done.2 hit.record.key =
          .ok hit.record)) ∧
    ((runRecall parser ranking (fun _ => none) now request first.2 second.2).1.isOk = true ↔
      validateRecallRequest request = .ok () ∧ (request.recordId ≠ [] →
        Listed request.query.scopeKey request.query.kinds notes ⟨request.recordId,
          request.query.scopeKey⟩)) := by
  have hfound := represents_empty.runAll parser tags calls
  have hafter := hfound.runAll parser tags between
  refine ⟨fun e herror => runRecall_failed herror, fun result hok => ?_,
    hfound.runRecall_succeeds parser ranking now _⟩
  obtain ⟨⟨hits, hselected, hhits⟩, htext, hvalid, hrepresents⟩ := hfound.runRecall hafter hok
  refine ⟨⟨hits, hselected, hhits⟩, htext, hrepresents,
    fun hnow hit hmem note hnote hwhole hkept => ?_⟩
  have hkey := List.mem_map_of_mem (f := fun hit : SearchHit => hit.record.key) hmem
  rw [hhits] at hmem
  obtain ⟨selected, hsel, rfl⟩ := List.mem_map.mp hmem
  obtain ⟨other, hother, hrecord, -⟩ := hselected.listed selected hsel
  have hsame : (selected.readAt now.persisted).record.key = selected.record.key := rfl
  rw [hsame] at hnote hkept hkey ⊢
  obtain rfl : other = note := Option.some.inj (hother.symm.trans hnote)
  rw [hrepresents.get_eq (hselected.keys_valid hfound hvalid selected hsel), Notes.readTimes, hkept,
    Option.map_some, if_pos hkey]
  refine congrArg Except.ok ?_
  rw [SearchHit.readAt, hrecord]
  change { other.stored selected.record.key with
    lastReadAt := (later other.lastReadAt now.persisted).persisted } =
    { other.stored selected.record.key with
      lastReadAt := latest other.lastReadAt.persisted now.persisted }
  rw [latest_persisted hwhole hnow]

theorem buildNote_checked : Checked buildNote where
  key := by decide +kernel
  title := by decide +kernel
  body := by decide +kernel
  importance := by decide +kernel
  updated := by decide
  read := by decide
  tags := by decide +kernel
  linked := by decide +kernel

theorem notes_saveBuild :
    actAll (runAll serializedParser storedTags [saveBuild] {}).1 (fun _ => none) buildNote.key =
    some (.ofRecord buildNote buildNote_checked) := by
  have hok : (saveBuild.2.run serializedParser storedTags saveBuild.1 {}).1.isOk = true := by
    decide +kernel
  change actAll [(saveBuild, (saveBuild.2.run serializedParser storedTags saveBuild.1 {}).1)] _ _ =
    _
  rcases hrun : (saveBuild.2.run serializedParser storedTags saveBuild.1 {}).1 with e | answer
  · rw [hrun] at hok
    cases hok
  · change (Call.upsert buildNote).act (fun _ => none) buildNote.key = _
    have hact : (Call.upsert buildNote).act (fun _ => none) =
        Notes.save (fun _ => none) buildNote.key (.ofRecord buildNote buildNote_checked) :=
          dif_pos buildNote_checked
    rw [hact, Notes.save, Function.update_self]
    rfl

/-- The note is asked for by its identity, five milliseconds after its birth. -/
def recallBuild : Result RecallResult × LongtermDb :=
  runRecall serializedParser ⟨fun _ _ _ => none⟩ (fun _ => none) ⟨5000000⟩
    { query := { scopeKey := text "project-a", text := [] }, limit := 20, recordId := text "n1" }
    (runAll serializedParser storedTags [saveBuild] {}).2
      (runAll serializedParser storedTags [saveBuild] {}).2

/-- It is returned with the time of the recall, and so it is kept. -/
theorem recall_runs_build : ∃ result, recallBuild.1 = .ok result ∧
    result.hits.map SearchHit.record = [{ buildNote with lastReadAt := ⟨5000000⟩ }] ∧
      ∀ hit ∈ result.hits, get serializedParser (fun _ => none) recallBuild.2 hit.record.key =
        .ok hit.record := by
  have hread : recallBuild.1.toOption.map (fun result => result.hits.map SearchHit.record) =
      some [{ buildNote with lastReadAt := ⟨5000000⟩ }] := by decide +kernel
  rcases hrun : recallBuild.1 with e | result
  · rw [hrun] at hread
    cases hread
  · rw [hrun] at hread
    have hrecords : result.hits.map SearchHit.record =
        [{ buildNote with lastReadAt := ⟨5000000⟩ }] :=
      Option.some.inj hread
    refine ⟨result, rfl, hrecords, fun hit hmem => ?_⟩
    have hkey : hit.record.key = buildNote.key := by
      have hmap := List.mem_map_of_mem (f := SearchHit.record) hmem
      rw [hrecords] at hmap
      rw [List.mem_singleton.mp hmap]
    obtain ⟨-, hreturned, -⟩ :=
      recall_runs serializedParser storedTags ⟨fun _ _ _ => none⟩ [saveBuild] []
      (fun _ => none) ⟨5000000⟩
      { query := { scopeKey := text "project-a", text := [] }, limit := 20, recordId := text "n1" }
    obtain ⟨-, -, -, hkept⟩ := hreturned result hrun
    refine hkept (by decide) hit hmem (.ofRecord buildNote buildNote_checked) ?_ (by decide) ?_
    · rw [hkey]
      exact notes_saveBuild
    · rw [hkey]
      exact notes_saveBuild

end Orangutan.Memory.Longterm
