import Mathlib

/-!
# Entries of a list by position

A search through a vector yields an iterator: a position and the element there.
Writing through it replaces that element and nothing else.
-/

namespace Orangutan.Lib

set_option autoImplicit false

variable {α β : Type}

/-- `std::ranges::find_if`: the first matching position with its element. -/
def findEntry (p : α → Bool) (l : List α) : Option (Nat × α) :=
  match l.findIdx? p with
  | none => none
  | some i => (l[i]?).map fun a => (i, a)

theorem findEntry_some {p : α → Bool} {l : List α} {i : Nat} {a : α}
    (h : findEntry p l = some (i, a)) : l[i]? = some a ∧ p a = true := by
  unfold findEntry at h
  cases hi : l.findIdx? p with
  | none => simp [hi] at h
  | some k =>
    obtain ⟨hk, hp, -⟩ := List.findIdx?_eq_some_iff_getElem.mp hi
    rw [hi] at h
    simp only [List.getElem?_eq_getElem hk, Option.map_some, Option.some.injEq, Prod.mk.injEq] at h
    obtain ⟨rfl, rfl⟩ := h
    exact ⟨List.getElem?_eq_getElem hk, hp⟩

theorem findEntry_none {p : α → Bool} {l : List α} (h : findEntry p l = none) :
    ∀ a ∈ l, p a = false := by
  unfold findEntry at h
  cases hi : l.findIdx? p with
  | none => exact List.findIdx?_eq_none_iff.mp hi
  | some k =>
    obtain ⟨hk, -, -⟩ := List.findIdx?_eq_some_iff_getElem.mp hi
    simp [hi, List.getElem?_eq_getElem hk] at h

theorem findEntry_isSome {p : α → Bool} {l : List α} {a : α} (ha : a ∈ l) (hp : p a = true) :
    ∃ i b, findEntry p l = some (i, b) := by
  cases h : findEntry p l with
  | none => exact absurd (findEntry_none h a ha) (by simp [hp])
  | some e => exact ⟨e.1, e.2, rfl⟩

theorem getElem?_set_of_some {l : List α} {i j : Nat} {a b : α} (ha : l[i]? = some a) :
    (l.set i b)[j]? = if i = j then some b else l[j]? := by
  have hi : i < l.length := (List.getElem?_eq_some_iff.mp ha).1
  rw [List.getElem?_set]
  simp only [hi, if_true]

/-- The entries of a written list are the new element and old entries elsewhere. -/
theorem getElem?_set_cases {l : List α} {i j : Nat} {a b c : α} (ha : l[i]? = some a)
    (hc : (l.set i b)[j]? = some c) : (j = i ∧ c = b) ∨ (j ≠ i ∧ l[j]? = some c) := by
  rw [getElem?_set_of_some ha] at hc
  split at hc
  · next he => exact .inl ⟨he.symm, (Option.some.inj hc).symm⟩
  · next hne => exact .inr ⟨fun he => hne he.symm, hc⟩

theorem getElem?_set_ne_of_some {l : List α} {i j : Nat} {b c : α} (hne : j ≠ i)
    (hc : l[j]? = some c) : (l.set i b)[j]? = some c := by
  rw [List.getElem?_set_ne (fun he => hne he.symm), hc]

/-- A projection that a write keeps is unchanged along the whole list. -/
theorem map_set_of_eq {f : α → β} {l : List α} {i : Nat} {a b : α} (ha : l[i]? = some a)
    (hf : f b = f a) : (l.set i b).map f = l.map f := by
  rw [List.map_set, hf]
  have hi : (l.map f)[i]? = some (f a) := by rw [List.getElem?_map, ha]; rfl
  obtain ⟨hlt, heq⟩ := List.getElem?_eq_some_iff.mp hi
  rw [← heq, List.set_getElem_self]

/-- How a write moves the count of marked entries. -/
theorem countP_set_add {p : α → Bool} {l : List α} {i : Nat} {a b : α} (ha : l[i]? = some a) :
    (l.set i b).countP p + (p a).toNat = l.countP p + (p b).toNat := by
  obtain ⟨hi, rfl⟩ := List.getElem?_eq_some_iff.mp ha
  rw [List.countP_set hi]
  have hpos : p l[i] = true → 0 < l.countP p := fun h =>
    List.countP_pos_iff.mpr ⟨l[i], List.getElem_mem hi, h⟩
  cases hp : p l[i] <;> cases hq : p b <;> simp_all

/-- Entries with equal distinct labels are the same entry. -/
theorem entry_unique {f : α → β} {l : List α} (hnd : (l.map f).Nodup) {i j : Nat} {a b : α}
    (ha : l[i]? = some a) (hb : l[j]? = some b) (hf : f a = f b) : i = j := by
  have hi : (l.map f)[i]? = some (f a) := by rw [List.getElem?_map, ha]; rfl
  have hj : (l.map f)[j]? = some (f a) := by rw [List.getElem?_map, hb, hf]; rfl
  have hlt : i < (l.map f).length := (List.getElem?_eq_some_iff.mp hi).1
  exact (List.getElem?_inj hlt hnd).mp (hi.trans hj.symm)

/-- Erasing by label takes out one entry, when labels are distinct. -/
theorem perm_cons_filter [DecidableEq β] {f : α → β} {l : List α} (hnd : (l.map f).Nodup) {a : α}
    (ha : a ∈ l) : l.Perm (a :: l.filter fun b => f b ≠ f a) := by
  obtain ⟨front, back, rfl⟩ := List.append_of_mem ha
  rw [List.map_append, List.map_cons, List.nodup_append, List.nodup_cons] at hnd
  obtain ⟨-, ⟨hback, -⟩, hfront⟩ := hnd
  have hkeep : ∀ l' : List α, (∀ b ∈ l', f b ≠ f a) → (l'.filter fun b => f b ≠ f a) = l' :=
      fun l' h =>
    List.filter_eq_self.mpr fun b hb => by simpa using h b hb
  rw [List.filter_append, List.filter_cons_of_neg (by simp),
    hkeep front fun b hb => hfront (f b) (List.mem_map_of_mem hb) (f a) List.mem_cons_self,
    hkeep back fun b hb hq => hback (hq ▸ List.mem_map_of_mem hb)]
  exact List.perm_middle

end Orangutan.Lib
