import Orangutan.Lib.Table

/-!
# Indexed lists

A linked list whose nodes keep their names when they move, with a table from keys to the nodes that
hold them; and lists ordered by the latest occurrence of their members in a log.
-/

namespace Orangutan.Lib

set_option autoImplicit false

structure Node (α : Type) where
  id : Nat
  val : α
  deriving DecidableEq

namespace Node

variable {α : Type}

/-- What an iterator points to; a name that is no longer in the list points nowhere. -/
def deref (l : List (Node α)) (it : Nat) : Option α := (l.find? fun n => n.id == it).map Node.val

def erase (l : List (Node α)) (it : Nat) : List (Node α) := l.filter fun n => n.id != it

/-- Move one node to the front. -/
def splice (l : List (Node α)) (it : Nat) : List (Node α) :=
    (l.filter fun n => n.id == it) ++ erase l it

def values (l : List (Node α)) : List α := l.map Node.val

def ids (l : List (Node α)) : List Nat := l.map Node.id

variable {l : List (Node α)} {it : Nat} {n : Node α}

theorem mem_erase : n ∈ erase l it ↔ n ∈ l ∧ n.id ≠ it := by
  unfold erase
  rw [List.mem_filter, bne_iff_ne]

theorem mem_splice : n ∈ splice l it ↔ n ∈ l := by
  unfold splice
  rw [List.mem_append, List.mem_filter, mem_erase, beq_iff_eq]
  by_cases hn : n.id = it <;> simp [hn]

theorem erase_sublist (l : List (Node α)) (it : Nat) : (erase l it).Sublist l := List.filter_sublist

theorem eq_of_id (h : (ids l).Nodup) {m : Node α} (hn : n ∈ l) (hm : m ∈ l)
    (he : n.id = m.id) : n = m :=
  List.inj_on_of_nodup_map h hn hm he

theorem deref_of_mem (h : (ids l).Nodup) (hn : n ∈ l) : deref l n.id = some n.val := by
  unfold deref
  cases hfind : l.find? fun m => m.id == n.id with
  | none =>
    have hno := List.find?_eq_none.mp hfind n hn
    simp at hno
  | some m =>
    have hid : m.id = n.id := by simpa using List.find?_some hfind
    rw [eq_of_id h hn (List.mem_of_find?_eq_some hfind) hid.symm]
    rfl

theorem mem_of_deref {a : α} (h : deref l it = some a) : ⟨it, a⟩ ∈ l := by
  unfold deref at h
  obtain ⟨m, hfind, rfl⟩ := Option.map_eq_some_iff.mp h
  have hid : m.id = it := by simpa using List.find?_some hfind
  rw [← hid]
  exact List.mem_of_find?_eq_some hfind

/-- The list without one of its nodes is shorter. -/
theorem length_erase_lt (hn : n ∈ l) : (erase l n.id).length < l.length := by
  refine Nat.lt_of_le_of_ne (erase_sublist l n.id).length_le fun he => ?_
  have hsame := (erase_sublist l n.id).eq_of_length he
  rw [← hsame] at hn
  exact (mem_erase.mp hn).2 rfl

theorem filter_id (h : (ids l).Nodup) (hn : n ∈ l) : (l.filter fun m => m.id == n.id) = [n] := by
  induction l with
  | nil => exact absurd hn List.not_mem_nil
  | cons m rest ih =>
    obtain ⟨hnot, hrest⟩ := List.nodup_cons.mp h
    by_cases hm : m = n
    · subst hm
      rw [List.filter_cons_of_pos (by simp), List.filter_eq_nil_iff.mpr fun k hk hid => ?_]
      have hid : k.id = m.id := by simpa using hid
      exact hnot (hid ▸ List.mem_map_of_mem hk)
    · have hn := (List.mem_cons.mp hn).resolve_left (Ne.symm hm)
      have hid : ¬(m.id == n.id) = true :=
        fun hid => hnot ((by simpa using hid : m.id = n.id) ▸ List.mem_map_of_mem hn)
      rw [List.filter_cons, if_neg hid]
      exact ih hrest hn

theorem splice_eq (h : (ids l).Nodup) (hn : n ∈ l) : splice l n.id = n :: erase l n.id := by
  unfold splice
  rw [filter_id h hn]
  rfl

theorem length_splice (h : (ids l).Nodup) (hn : n ∈ l) : (splice l n.id).length ≤ l.length := by
  rw [splice_eq h hn]
  exact length_erase_lt hn

theorem erase_splice (l : List (Node α)) (it : Nat) : erase (splice l it) it = erase l it := by
  have hmoved : (l.filter fun n => n.id == it).filter (fun n => n.id != it) = [] := by
    refine List.filter_eq_nil_iff.mpr fun n hn => ?_
    have hid := (List.mem_filter.mp hn).2
    simpa using hid
  unfold splice erase
  rw [List.filter_append, hmoved, List.nil_append, List.filter_filter]
  simp only [Bool.and_self]

end Node

section Indexed

variable {α κ : Type} [DecidableEq κ]

/-- The table and the list hold the same nodes: a key is mapped to the node that carries it. -/
structure Indexed (key : α → κ) (index : Table κ Nat) (l : List (Node α)) : Prop where
  ids : (Node.ids l).Nodup
  names : ∀ k it, index.lookup k = some it ↔ ∃ n ∈ l, n.id = it ∧ key n.val = k

namespace Indexed

variable {key : α → κ} {index : Table κ Nat} {l : List (Node α)}

theorem empty (key : α → κ) : Indexed key ∅ [] := by
  refine ⟨List.nodup_nil, fun k it => ⟨fun h => ?_, ?_⟩⟩
  · cases h
  · rintro ⟨n, hn, -⟩
    exact absurd hn List.not_mem_nil

theorem lookup_key (h : Indexed key index l) {n : Node α} (hn : n ∈ l) :
    index.lookup (key n.val) = some n.id :=
  (h.names _ _).mpr ⟨n, hn, rfl, rfl⟩

theorem eq_of_key (h : Indexed key index l) {n m : Node α} (hn : n ∈ l) (hm : m ∈ l)
    (he : key n.val = key m.val) : n = m := by
  have hname := h.lookup_key hn
  rw [he, h.lookup_key hm] at hname
  exact Node.eq_of_id h.ids hn hm (Option.some.inj hname).symm

theorem keys_nodup (h : Indexed key index l) : (l.map fun n => key n.val).Nodup :=
  h.ids.of_map _ |>.map_on fun _ hn _ hm he => h.eq_of_key hn hm he

/-- No iterator of the table dangles. -/
theorem deref (h : Indexed key index l) {k : κ} {it : Nat} (hk : index.lookup k = some it) :
    ∃ a, Node.deref l it = some a ∧ ⟨it, a⟩ ∈ l ∧ key a = k := by
  obtain ⟨n, hn, rfl, hkey⟩ := (h.names k it).mp hk
  exact ⟨n.val, Node.deref_of_mem h.ids hn, hn, hkey⟩

theorem length_eq (h : Indexed key index l) : index.keys.length = l.length := by
  have hperm : index.keys.Perm (l.map fun n => key n.val) := by
    refine (List.perm_ext_iff_of_nodup index.keys_nodup h.keys_nodup).mpr fun k => ?_
    constructor
    · intro hk
      obtain ⟨it, hit⟩ := Table.exists_lookup hk
      obtain ⟨n, hn, -, hkey⟩ := (h.names k it).mp hit
      exact List.mem_map.mpr ⟨n, hn, hkey⟩
    · intro hk
      obtain ⟨n, hn, rfl⟩ := List.mem_map.mp hk
      exact Table.mem_keys_of_lookup (h.lookup_key hn)
  rw [hperm.length_eq, List.length_map]

theorem congr {key' : α → κ} (h : Indexed key index l) (hkey : ∀ n ∈ l, key' n.val = key n.val) :
    Indexed key' index l := by
  refine ⟨h.ids, fun k it => (h.names k it).trans ?_⟩
  constructor
  · rintro ⟨n, hn, hid, hk⟩
    exact ⟨n, hn, hid, (hkey n hn).trans hk⟩
  · rintro ⟨n, hn, hid, hk⟩
    exact ⟨n, hn, hid, (hkey n hn).symm.trans hk⟩

theorem splice (h : Indexed key index l) {n : Node α} (hn : n ∈ l) :
    Indexed key index (Node.splice l n.id) := by
  refine ⟨?_, fun k it => (h.names k it).trans ?_⟩
  · rw [Node.splice_eq h.ids hn]
    unfold Node.ids
    rw [List.map_cons, List.nodup_cons]
    refine ⟨fun hmem => ?_, ((Node.erase_sublist l n.id).map _).nodup h.ids⟩
    obtain ⟨m, hm, hid⟩ := List.mem_map.mp hmem
    exact (Node.mem_erase.mp hm).2 hid
  · simp only [Node.mem_splice]

theorem erase (h : Indexed key index l) {n : Node α} (hn : n ∈ l) :
    Indexed key (AList.erase (key n.val) index) (Node.erase l n.id) := by
  refine ⟨((Node.erase_sublist l n.id).map _).nodup h.ids, fun k it => ?_⟩
  by_cases hk : k = key n.val
  · rw [hk, AList.lookup_erase]
    constructor
    · intro hnone
      cases hnone
    · rintro ⟨m, hm, -, hkey⟩
      obtain ⟨hm, hid⟩ := Node.mem_erase.mp hm
      exact absurd (congrArg Node.id (h.eq_of_key hm hn hkey)) hid
  · rw [AList.lookup_erase_ne hk, h.names k it]
    constructor
    · rintro ⟨m, hm, hid, hkey⟩
      refine ⟨m, Node.mem_erase.mpr ⟨hm, fun he => hk ?_⟩, hid, hkey⟩
      rw [← hkey, Node.eq_of_id h.ids hm hn he]
    · rintro ⟨m, hm, hid, hkey⟩
      exact ⟨m, (Node.mem_erase.mp hm).1, hid, hkey⟩

theorem push (h : Indexed key index l) {n : Node α} (hid : n.id ∉ Node.ids l)
    (hkey : index.lookup (key n.val) = none) :
    Indexed key (AList.insert (key n.val) n.id index) (n :: l) := by
  refine ⟨List.nodup_cons.mpr ⟨hid, h.ids⟩, fun k it => ?_⟩
  by_cases hk : k = key n.val
  · rw [hk, AList.lookup_insert]
    constructor
    · intro he
      exact ⟨n, List.mem_cons_self, Option.some.inj he, rfl⟩
    · rintro ⟨m, hm, rfl, he⟩
      rcases List.mem_cons.mp hm with rfl | hm
      · rfl
      · rw [← he, h.lookup_key hm] at hkey
        cases hkey
  · rw [AList.lookup_insert_ne hk, h.names k it]
    constructor
    · rintro ⟨m, hm, he⟩
      exact ⟨m, List.mem_cons_of_mem n hm, he⟩
    · rintro ⟨m, hm, he, hkm⟩
      refine ⟨m, (List.mem_cons.mp hm).resolve_left fun heq => hk ?_, he, hkm⟩
      rw [← hkm, heq]

end Indexed

end Indexed

section Recent

variable {α : Type}

/-- The log has its latest entry in front; the list follows the latest occurrences. -/
def Recent [DecidableEq α] (log l : List α) : Prop := l.Pairwise fun a b =>
    log.idxOf a < log.idxOf b

theorem Recent.sublist [DecidableEq α] {log l l' : List α} (h : Recent log l) (hs : l'.Sublist l) :
    Recent log l' :=
  List.Pairwise.sublist hs h

/-- A use brings its member to the front. -/
theorem Recent.front [DecidableEq α] {log l : List α} {a : α} (h : Recent log l) (ha : a ∉ l) :
    Recent (a :: log) (a :: l) := by
  have hne : ∀ b ∈ l, (a :: log).idxOf b = log.idxOf b + 1 := fun b hb =>
    List.idxOf_cons_ne _ fun he => ha (he ▸ hb)
  refine List.pairwise_cons.mpr ⟨fun b hb => ?_, h.imp_of_mem fun hb hc hlt => ?_⟩
  · rw [hne b hb, List.idxOf_cons_self]
    exact Nat.succ_pos _
  · rw [hne _ hb, hne _ hc]
    exact Nat.succ_lt_succ hlt

/-- The last member that passes a test comes after all others that do. -/
theorem find_last {R : α → α → Prop} {p : α → Bool} {l : List α} {v : α} (hR : l.Pairwise R)
    (h : l.reverse.find? p = some v) :
    v ∈ l ∧ p v = true ∧ ∀ u ∈ l, p u = true → u = v ∨ R u v := by
  obtain ⟨hp, before, after, hsplit, hbefore⟩ := List.find?_eq_some_iff_append.mp h
  have hl : l = after.reverse ++ v :: before.reverse := by
    have hrev := congrArg List.reverse hsplit
    simpa using hrev
  subst hl
  refine ⟨by simp, hp, fun u hu hpu => ?_⟩
  rcases List.mem_append.mp hu with hu | hu
  · exact .inr ((List.pairwise_append.mp hR).2.2 u hu v List.mem_cons_self)
  · rcases List.mem_cons.mp hu with rfl | hu
    · exact .inl rfl
    · have hno := hbefore u (List.mem_reverse.mp hu)
      rw [hpu] at hno
      cases hno

end Recent

end Orangutan.Lib
