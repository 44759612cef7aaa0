import Mathlib

/-!
# Tables

A hash map is an association list with distinct keys; the order of its entries carries
no meaning. Removing all entries that fail a test is the one operation that the library
of association lists lacks.
-/

namespace Orangutan.Lib

set_option autoImplicit false

abbrev Table (κ ν : Type) := AList fun _ : κ => ν

namespace Table

variable {κ ν : Type} {t : Table κ ν} {k : κ} {v : ν}

/-- `std::erase_if` with the opposite test. -/
def keep (p : κ → ν → Bool) (t : Table κ ν) : Table κ ν :=
  ⟨t.entries.filter fun e => p e.1 e.2, List.NodupKeys.sublist List.filter_sublist t.nodupKeys⟩

theorem lookup_iff [DecidableEq κ] : t.lookup k = some v ↔ ⟨k, v⟩ ∈ t.entries :=
  AList.mem_lookup_iff

theorem lookup_keep [DecidableEq κ] (p : κ → ν → Bool) (t : Table κ ν) (k : κ) :
    (t.keep p).lookup k = (t.lookup k).filter (p k) := by
  refine Option.ext fun v => ?_
  rw [lookup_iff, Option.filter_eq_some_iff, lookup_iff]
  exact List.mem_filter

theorem mem_keys_of_lookup [DecidableEq κ] (h : t.lookup k = some v) : k ∈ t.keys :=
  AList.mem_keys.mpr (AList.lookup_isSome.mp (by rw [h]; rfl))

theorem notMem_keys_of_lookup [DecidableEq κ] (h : t.lookup k = none) : k ∉ t.keys := by
  intro hmem
  have hsome := AList.lookup_isSome.mpr (AList.mem_keys.mp hmem)
  rw [h] at hsome
  cases hsome

theorem length_insert_new [DecidableEq κ] (h : k ∉ t.keys) (v : ν) :
    (AList.insert k v t).keys.length = t.keys.length + 1 := by
  rw [AList.keys_insert, List.length_cons, List.erase_of_not_mem h]

theorem length_insert_old [DecidableEq κ] (h : k ∈ t.keys) (v : ν) :
    (AList.insert k v t).keys.length = t.keys.length := by
  have hpositive := List.length_pos_of_mem h
  rw [AList.keys_insert, List.length_cons, List.length_erase_of_mem h]
  omega

theorem length_erase_of_mem [DecidableEq κ] (h : k ∈ t.keys) :
    (AList.erase k t).keys.length = t.keys.length - 1 := by
  rw [AList.keys_erase, List.length_erase_of_mem h]

theorem exists_lookup [DecidableEq κ] (h : k ∈ t.keys) : ∃ v, t.lookup k = some v :=
  Option.isSome_iff_exists.mp (AList.lookup_isSome.mpr h)

theorem filter_kerase [DecidableEq κ] (q : (Sigma fun _ : κ => ν) → Bool)
    {l : List (Sigma fun _ : κ => ν)} (hl : l.NodupKeys) (k : κ) :
    (l.kerase k).filter q = (l.filter q).kerase k := by
  induction l with
  | nil => rfl
  | cons e l ih =>
    obtain ⟨hnew, hrest⟩ := List.nodupKeys_cons.mp hl
    by_cases hk : k = e.1
    · have hgone : k ∉ (l.filter q).keys :=
        fun hm => hnew (hk ▸ (List.filter_sublist.map _).subset hm)
      rw [List.kerase_cons_eq hk]
      cases hq : q e with
      | true => rw [List.filter_cons_of_pos hq, List.kerase_cons_eq hk]
      | false => rw [List.filter_cons_of_neg (by simp [hq]), List.kerase_of_notMem_keys hgone]
    · rw [List.kerase_cons_ne hk]
      cases hq : q e with
      | true => rw [List.filter_cons_of_pos hq, List.filter_cons_of_pos hq,
          List.kerase_cons_ne hk, ih hrest]
      | false =>
        have hneg : ¬q e = true := by simp [hq]
        rw [List.filter_cons_of_neg hneg, List.filter_cons_of_neg hneg, ih hrest]

/-- An entry that passes the test may be written before or after it. -/
theorem keep_insert [DecidableEq κ] {p : κ → ν → Bool} (hp : p k v = true) (t : Table κ ν) :
    Table.keep p (AList.insert k v t) = AList.insert k v (t.keep p) := by
  refine AList.ext ?_
  show (List.filter (fun e => p e.1 e.2) (⟨k, v⟩ :: t.entries.kerase k)) =
    ⟨k, v⟩ :: (t.keep p).entries.kerase k
  rw [List.filter_cons, if_pos hp, filter_kerase _ t.nodupKeys]
  rfl

/-- A weaker test after a stronger one. -/
theorem keep_keep {p q : κ → ν → Bool} (h : ∀ k v, q k v = true → p k v = true) (t : Table κ ν) :
    (t.keep p).keep q = t.keep q := by
  refine AList.ext ?_
  show (t.entries.filter _).filter _ = t.entries.filter _
  rw [List.filter_filter]
  refine List.filter_congr fun e _ => ?_
  cases hq : q e.1 e.2 with
  | true => rw [h _ _ hq]; rfl
  | false => rfl

theorem keys_keep_sublist (p : κ → ν → Bool) (t : Table κ ν) : (t.keep p).keys.Sublist t.keys :=
  List.filter_sublist.map _

end Table

end Orangutan.Lib
