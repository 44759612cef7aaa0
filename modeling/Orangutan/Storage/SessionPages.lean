import Orangutan.Storage.Appends

/-!
# Pages of a session

`load_after` reads the rows behind a position, up to a last one, within a number of rows and
a number of bytes. A page is a beginning of these rows, and it is not empty when the first
of them fits.
-/

namespace Orangutan.Storage

set_option autoImplicit false

open Orangutan.Core Orangutan.Core.Str

/-- What a row costs of a page. -/
def SessionMessageRecord.bytes (row : SessionMessageRecord) : Nat :=
    row.contentJson.length + row.metadataJson.length

def oversizedRow : Error := .invalidArgument "session row exceeds context page budget"

/-- The rows of a statement one after the other, with the number of rows before them and the
bytes that are left. -/
def takeRows (after : Int) : Nat → Nat → List SessionMessageRecord →
    Result (List SessionMessageRecord)
  | _, _, [] => .ok []
  | count, remaining, row :: rest =>
    if remaining < row.bytes then (if count = 0 then .error oversizedRow else .ok [])
    else if (row.sequence : Int) ≠ after + count + 1
      then .error (.storage "session history has a sequence gap")
    else do
      let others ← takeRows after (count + 1) (remaining - row.bytes) rest
      .ok (row :: others)

/-- The rows between two positions, in order. -/
def SessionDb.between (db : SessionDb) (key : SessionKey) (after through : Int) :
    List SessionMessageRecord :=
  ((db.rows key).filter fun row => after < row.sequence && (row.sequence : Int) ≤
    through).insertionSort
    fun a b => a.sequence ≤ b.sequence

/-- The statement and its connection do not fail by themselves here. -/
def loadAfter (db : SessionDb) (key : SessionKey) (after through : Int)
    (maxMessages maxBytes : Nat) :
    Result (List SessionMessageRecord) := do
  validateKey key
  if after < 0 ∨ through < after ∨ maxMessages = 0 ∨ 4096 < maxMessages ∨ maxBytes = 0 ∨
    16 * 1024 * 1024 < maxBytes then
    .error (.invalidArgument "invalid conversation tail limit")
  else takeRows after 0 maxBytes ((db.between key after through).take maxMessages)

/-- Rows that carry the numbers behind a position. -/
def Numbered (first : Nat) (rows : List SessionMessageRecord) : Prop :=
  rows.map (·.sequence) = List.range' first rows.length

theorem Numbered.tail {first : Nat} {row : SessionMessageRecord} {rows : List SessionMessageRecord}
    (h : Numbered first (row :: rows)) : row.sequence = first ∧ Numbered (first + 1) rows := by
  rw [Numbered, List.map_cons, List.length_cons, List.range'_succ] at h
  exact ⟨(List.cons.inj h).1, (List.cons.inj h).2⟩

theorem Numbered.of_prefix {first : Nat} {rows all : List SessionMessageRecord}
    (h : Numbered first all) (hp : rows <+: all) : Numbered first rows := by
  obtain ⟨rest, rfl⟩ := hp
  rw [Numbered, List.map_append, List.length_append, ← List.range'_append_1] at h
  exact (List.append_inj h (by simp)).1

/-- Behind the first row nothing stops a page but the bytes. -/
theorem takeRows_later {after count : Nat} (remaining : Nat) {rows : List SessionMessageRecord}
    (hcount : 0 < count) (h : Numbered (after + count + 1) rows) :
    ∃ page, takeRows after count remaining rows = .ok page ∧ page <+: rows ∧
      ∀ row ∈ page, row.bytes ≤ remaining := by
  induction rows generalizing count remaining with
  | nil => exact ⟨[], rfl, List.prefix_refl _, fun row h => by cases h⟩
  | cons row rows ih =>
    obtain ⟨hsequence, hrest⟩ := h.tail
    rw [takeRows]
    by_cases hbytes : remaining < row.bytes
    · rw [if_pos hbytes, if_neg (by omega)]
      exact ⟨[], rfl, List.nil_prefix, fun row h => by cases h⟩
    · obtain ⟨page, hpage, hprefix, hfits⟩ := ih (remaining - row.bytes) (Nat.succ_pos count) hrest
      rw [if_neg hbytes, if_neg (by omega), hpage]
      refine ⟨row :: page, rfl, List.cons_prefix_cons.mpr ⟨rfl, hprefix⟩, fun other hother => ?_⟩
      rcases List.mem_cons.mp hother with rfl | hother
      · exact Nat.not_lt.mp hbytes
      · exact (hfits other hother).trans (Nat.sub_le _ _)

/-- A page begins with the first row, unless this row alone is too large. -/
theorem takeRows_first {after : Nat} (maxBytes : Nat) {row : SessionMessageRecord}
    {rows : List SessionMessageRecord} (h : Numbered (after + 1) (row :: rows)) :
    (maxBytes < row.bytes ∧ takeRows after 0 maxBytes (row :: rows) = .error oversizedRow) ∨
      ∃ page, takeRows after 0 maxBytes (row :: rows) = .ok (row :: page) ∧
        row :: page <+: row :: rows ∧
        ∀ other ∈ row :: page, other.bytes ≤ maxBytes := by
  obtain ⟨hsequence, hrest⟩ := h.tail
  rw [takeRows]
  by_cases hbytes : maxBytes < row.bytes
  · rw [if_pos hbytes, if_pos rfl]
    exact .inl ⟨hbytes, rfl⟩
  · obtain ⟨page, hpage, hprefix, hfits⟩ := takeRows_later (maxBytes - row.bytes) Nat.one_pos hrest
    rw [if_neg hbytes, if_neg (by omega), hpage]
    refine .inr ⟨page, rfl, List.cons_prefix_cons.mpr ⟨rfl, hprefix⟩, fun other hother => ?_⟩
    rcases List.mem_cons.mp hother with rfl | hother
    · exact Nat.not_lt.mp hbytes
    · exact (hfits other hother).trans (Nat.sub_le _ _)

section Represents

variable {db : SessionDb} {key : SessionKey} {s : Session}

theorem Represents.numbered (h : Represents db key s) : Numbered 1 (db.rows key) := by
  rw [Numbered, h.sequences, h.length]

theorem Numbered.getElem {rows : List SessionMessageRecord} (h : Numbered 1 rows) {i : Nat}
    (hi : i < rows.length) :
    rows[i].sequence = i + 1 := by
  have hget : (rows.map (·.sequence))[i]? = (List.range' 1 rows.length)[i]? := by rw [h]
  rw [List.getElem?_map, List.getElem?_eq_getElem hi, List.getElem?_range' hi] at hget
  have hsequence : rows[i].sequence = 1 + 1 * i := Option.some.inj hget
  omega

/-- The numbered rows between two positions are a piece of the list. -/
theorem filter_numbered {after through : Nat} {rows : List SessionMessageRecord}
    (h : Numbered 1 rows) (hle : after ≤ through) :
    (rows.filter fun row => decide ((after : Int) < row.sequence) &&
      decide ((row.sequence : Int) ≤ through)) =
      (rows.take through).drop after := by
  have hsplit : rows = rows.take after ++
      ((rows.take through).drop after ++ rows.drop through) := by
    rw [← List.append_assoc]
    have hfirst : rows.take after = (rows.take through).take after := by
      rw [List.take_take, Nat.min_eq_left hle]
    rw [hfirst, List.take_append_drop, List.take_append_drop]
  have hbefore : ∀ row ∈ rows.take after, row.sequence ≤ after := by
    intro row hrow
    obtain ⟨i, hi, rfl⟩ := List.mem_take_iff_getElem.mp hrow
    rw [h.getElem]
    omega
  have hinside : ∀ row ∈ (rows.take through).drop after, after < row.sequence ∧
      row.sequence ≤ through := by
    intro row hrow
    obtain ⟨i, hi, rfl⟩ := List.mem_drop_iff_getElem.mp hrow
    rw [List.length_take] at hi
    rw [List.getElem_take, h.getElem]
    omega
  have hbehind : ∀ row ∈ rows.drop through, through < row.sequence := by
    intro row hrow
    obtain ⟨i, hi, rfl⟩ := List.mem_drop_iff_getElem.mp hrow
    rw [h.getElem]
    omega
  conv_lhs => rw [hsplit]
  rw [List.filter_append, List.filter_append, List.filter_eq_nil_iff.mpr, List.filter_eq_self.mpr,
    List.filter_eq_nil_iff.mpr, List.nil_append, List.append_nil]
  · intro row hrow
    have := hbehind row hrow
    simp only [Bool.and_eq_true, decide_eq_true_eq]
    omega
  · intro row hrow
    have := hinside row hrow
    simp only [Bool.and_eq_true, decide_eq_true_eq]
    omega
  · intro row hrow
    have := hbefore row hrow
    simp only [Bool.and_eq_true, decide_eq_true_eq]
    omega

theorem Numbered.sorted {first : Nat} {rows : List SessionMessageRecord} (h : Numbered first rows) :
    rows.Pairwise fun a b => a.sequence ≤ b.sequence := by
  have hlt : (rows.map (·.sequence)).Pairwise (· < ·) := by
    rw [h]
    exact List.pairwise_lt_range' ..
  rw [List.pairwise_map] at hlt
  exact hlt.imp Nat.le_of_lt

theorem Numbered.slice {rows : List SessionMessageRecord} (h : Numbered 1 rows)
    (after through : Nat) :
    Numbered (after + 1) ((rows.take through).drop after) := by
  rw [Numbered]
  refine List.ext_getElem (by simp) fun i h₁ h₂ => ?_
  rw [List.getElem_map, List.getElem_drop, List.getElem_take, h.getElem, List.getElem_range']
  omega

theorem between_numbered {after through : Nat} (h : Represents db key s) (hle : after ≤ through) :
    db.between key after through = ((db.rows key).take through).drop after := by
  rw [SessionDb.between, filter_numbered h.numbered hle]
  exact (h.numbered.slice after through).sorted.insertionSort_eq

end Represents

end Orangutan.Storage
