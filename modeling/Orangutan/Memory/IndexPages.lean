import Orangutan.Core.ScalarValues
import Orangutan.Lib.Pages
import Orangutan.Memory.LongtermIndex
import Orangutan.Memory.LongtermRuns

/-!
# The pages of the index

The texts that the database cuts off show the same cues as the whole ones. A page stays within its
bytes and takes at least one note, so whoever follows the offsets meets every note once, shown or
counted.
-/

namespace Orangutan.Memory.Longterm

set_option autoImplicit false

open Orangutan.Core Orangutan.Core.Str Orangutan.Storage

/-- The entry of a note, with the cues of the whole texts. -/
def cueOf (key : RecordKey) (note : Note) : IndexEntry :=
  { key, kind := note.kind, title := cue note.title 120, summary := cue note.body 240 }

/-- An entry that a page of this size can show. -/
def fitsPage (maxBytes : Nat) (entry : IndexEntry) : Bool :=
  decide ((entryLine entry).length ≤ maxBytes - indexHeader.length - footerReserve)

variable {db : LongtermDb} {notes : Notes}

/-- A note that the index lists. -/
def Listed (scope : Bytes) (kinds : List RecordKind) (notes : Notes) (key : RecordKey) : Prop :=
  key.scopeKey = scope ∧ ∃ note, notes key = some note ∧ note.shadow = false ∧
    (kinds = [] ∨ note.kind ∈ kinds)

theorem RecordKind.name_injective {a b : RecordKind} (h : a.name = b.name) : a = b := by
  have hparse := RecordKind.parse_name a
  rw [h, RecordKind.parse_name] at hparse
  exact (Option.some.inj hparse).symm

theorem kinds_contains {kinds : List RecordKind} {kind : RecordKind} :
    (kinds.map RecordKind.name).contains kind.name = true ↔ kind ∈ kinds := by
  rw [List.contains_iff_mem, List.mem_map]
  exact ⟨fun ⟨other, hmem, hname⟩ => RecordKind.name_injective hname ▸ hmem,
    fun hmem => ⟨kind, hmem, rfl⟩⟩

theorem bytes_lt_trichotomy (x y : Bytes) : x < y ∨ x = y ∨ y < x := by
  by_cases hlt : x < y
  · exact .inl hlt
  · by_cases hgt : y < x
    · exact .inr (.inr hgt)
    · exact .inr (.inl (List.le_antisymm (List.not_lt.mp hgt) (List.not_lt.mp hlt)))

/-- The later first, then by identity. -/
def ByTime : RecordKey × Columns → RecordKey × Columns → Prop :=
  Lib.LexLe (fun row => row.2.updatedAt) (fun x y => y < x) fun a b => a.1.id ≤ b.1.id

/-- The more important first. -/
def ByImportance : RecordKey × Columns → RecordKey × Columns → Prop :=
  Lib.LexLe (fun row => row.2.importance.value) (fun x y => y < x) ByTime

/-- The order of the index: first by kind. -/
def Before : RecordKey × Columns → RecordKey × Columns → Prop :=
  Lib.LexLe (fun row => kindRank row.2.kind) (· < ·) ByImportance

theorem ByTime.trans {a b c : RecordKey × Columns} : ByTime a b → ByTime b c → ByTime a c :=
  @Lib.LexLe.trans _ _ (fun row : RecordKey × Columns => row.2.updatedAt) (fun x y => y < x)
    (fun a b => a.1.id ≤ b.1.id)
    (fun _ _ _ h h' => List.lt_trans h' h) (fun _ _ _ => List.le_trans) a b c

theorem ByImportance.trans {a b c : RecordKey × Columns} : ByImportance a b → ByImportance b c →
    ByImportance a c :=
  @Lib.LexLe.trans _ _ (fun row : RecordKey × Columns => row.2.importance.value)
    (fun x y => y < x) ByTime
    (fun _ _ _ h h' => lt_trans h' h) (fun _ _ _ => ByTime.trans) a b c

theorem Before.trans {a b c : RecordKey × Columns} : Before a b → Before b c → Before a c :=
  @Lib.LexLe.trans _ _ (fun row : RecordKey × Columns => kindRank row.2.kind) (· < ·) ByImportance
    (fun _ _ _ => lt_trans) (fun _ _ _ => ByImportance.trans) a b c

theorem ByTime.total (a b : RecordKey × Columns) : ByTime a b ∨ ByTime b a :=
  Lib.LexLe.total (fun x y => (bytes_lt_trichotomy y x).imp id fun h => h.imp Eq.symm id)
    (fun a b => List.le_total a.1.id b.1.id) a b

theorem ByImportance.total (a b : RecordKey × Columns) : ByImportance a b ∨ ByImportance b a :=
  Lib.LexLe.total (fun x y => (lt_trichotomy y x).imp id fun h => h.imp Eq.symm id) ByTime.total a b

theorem Before.total (a b : RecordKey × Columns) : Before a b ∨ Before b a :=
  Lib.LexLe.total lt_trichotomy ByImportance.total a b

/-- What a page shows of the notes it covers. -/
structure Shows (notes : Notes) (maxBytes : Nat) (part : List RecordKey) (result : IndexResult) :
    Prop where
  text : result.text.length ≤ maxBytes
  entries : result.entries =
    (part.filterMap fun key => (notes key).map (cueOf key)).filter (fitsPage maxBytes)
  counted : result.entries.length + result.omittedCount = part.length

theorem filterMap_some {α β : Type} {f : α → Option β} {l : List α}
    (h : ∀ a ∈ l, (f a).isSome = true) :
    (l.filterMap f).length = l.length ∧ ∀ n, (l.filterMap f).take n = (l.take n).filterMap f := by
  induction l with
  | nil => simp
  | cons a rest ih =>
    obtain ⟨hhead, hrest⟩ := List.forall_mem_cons.mp h
    obtain ⟨b, hb⟩ := Option.isSome_iff_exists.mp hhead
    obtain ⟨hlength, htake⟩ := ih hrest
    rw [List.filterMap_cons, hb]
    refine ⟨by simp [hlength], fun n => ?_⟩
    cases n with
    | zero => rfl
    | succ n => simp [hb, htake]

end Orangutan.Memory.Longterm
