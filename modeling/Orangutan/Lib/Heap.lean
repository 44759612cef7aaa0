import Mathlib

/-!
# Shared objects behind reference lists

A heap holds objects that several owners reach through references. An object is
never freed: a reference list decides which objects are still in use, and a
weight summed along such a list changes only at the reference that was written.
-/

namespace Orangutan.Lib

set_option autoImplicit false

structure Heap (α : Type) where
  cell : Nat → α
  next : Nat

namespace Heap

variable {α : Type}

def get (h : Heap α) (r : Nat) : α := h.cell r

def set (h : Heap α) (r : Nat) (a : α) : Heap α :=
  { h with cell := Function.update h.cell r a }

/-- The new object is reached through the old value of `next`. -/
def alloc (h : Heap α) (a : α) : Heap α :=
  { cell := Function.update h.cell h.next a, next := h.next + 1 }

@[simp] theorem get_set_self (h : Heap α) (r : Nat) (a : α) : (h.set r a).get r = a := by
  simp [get, set]

@[simp] theorem get_set_ne (h : Heap α) {r k : Nat} (hne : k ≠ r) (a : α) :
    (h.set r a).get k = h.get k := by
  simp [get, set, hne]

theorem get_set (h : Heap α) (r k : Nat) (a : α) :
    (h.set r a).get k = if k = r then a else h.get k := by
  split
  · next he => rw [he, get_set_self]
  · next hne => exact get_set_ne h hne a

@[simp] theorem set_get_self (h : Heap α) (r : Nat) : h.set r (h.get r) = h := by
  simp [set, get]

@[simp] theorem set_set (h : Heap α) (r : Nat) (a b : α) : (h.set r a).set r b = h.set r b := by
  simp [set]

@[simp] theorem next_set (h : Heap α) (r : Nat) (a : α) : (h.set r a).next = h.next := rfl

@[simp] theorem next_alloc (h : Heap α) (a : α) : (h.alloc a).next = h.next + 1 := rfl

@[simp] theorem get_alloc_next (h : Heap α) (a : α) : (h.alloc a).get h.next = a := by
  simp [get, alloc]

theorem get_alloc_of_lt (h : Heap α) {r : Nat} (hr : r < h.next) (a : α) :
    (h.alloc a).get r = h.get r := by
  simp [get, alloc, Nat.ne_of_lt hr]

/-- Total weight of the objects a reference list reaches. -/
def weigh (f : α → Nat) (h : Heap α) (refs : List Nat) : Nat :=
  (refs.map fun r => f (h.get r)).sum

@[simp] theorem weigh_nil (f : α → Nat) (h : Heap α) : weigh f h [] = 0 := rfl

@[simp] theorem weigh_cons (f : α → Nat) (h : Heap α) (r : Nat) (refs : List Nat) :
    weigh f h (r :: refs) = f (h.get r) + weigh f h refs := by
  simp [weigh]

@[simp] theorem weigh_append (f : α → Nat) (h : Heap α) (l₁ l₂ : List Nat) :
    weigh f h (l₁ ++ l₂) = weigh f h l₁ + weigh f h l₂ := by
  simp [weigh]

theorem weigh_congr {f : α → Nat} {h h' : Heap α} {refs : List Nat}
    (he : ∀ r ∈ refs, f (h'.get r) = f (h.get r)) : weigh f h' refs = weigh f h refs := by
  unfold weigh
  rw [List.map_congr_left he]

theorem weigh_set_of_not_mem {f : α → Nat} {h : Heap α} {refs : List Nat} {r : Nat} {a : α}
    (hr : r ∉ refs) : weigh f (h.set r a) refs = weigh f h refs := by
  refine weigh_congr fun k hk => ?_
  have hne : k ≠ r := fun he => hr (he ▸ hk)
  rw [get_set_ne h hne a]

/-- Writing one listed object moves its own weight and nothing else. -/
theorem weigh_set {f : α → Nat} {h : Heap α} {refs : List Nat} {r : Nat} {a : α}
    (hnd : refs.Nodup) (hr : r ∈ refs) :
    weigh f (h.set r a) refs + f (h.get r) = weigh f h refs + f a := by
  obtain ⟨pre, post, rfl⟩ := List.append_of_mem hr
  obtain ⟨-, htail, hdisj⟩ := List.nodup_append.mp hnd
  have hpre : r ∉ pre := fun hm => hdisj r hm r List.mem_cons_self rfl
  have hpost : r ∉ post := (List.nodup_cons.mp htail).1
  simp only [weigh_append, weigh_cons, weigh_set_of_not_mem hpre, weigh_set_of_not_mem hpost,
    get_set_self]
  omega

theorem weigh_alloc {f : α → Nat} {h : Heap α} {refs : List Nat} (a : α)
    (hlt : ∀ r ∈ refs, r < h.next) : weigh f (h.alloc a) refs = weigh f h refs :=
  weigh_congr fun r hr => by rw [get_alloc_of_lt h (hlt r hr)]

theorem weigh_sublist {f : α → Nat} {h : Heap α} {l₁ l₂ : List Nat} (hs : l₁.Sublist l₂) :
    weigh f h l₁ ≤ weigh f h l₂ := by
  induction hs with
  | slnil => exact Nat.le_refl _
  | cons r _ ih => rw [weigh_cons]; omega
  | cons_cons r _ ih => rw [weigh_cons, weigh_cons]; omega

/-- Dropping weightless objects from a reference list keeps its weight. -/
theorem weigh_filter {f : α → Nat} {h : Heap α} {refs : List Nat} {keep : Nat → Bool}
    (hz : ∀ r ∈ refs, keep r = false → f (h.get r) = 0) :
    weigh f h (refs.filter keep) = weigh f h refs := by
  induction refs with
  | nil => rfl
  | cons r refs ih =>
    have ih := ih fun k hk => hz k (List.mem_cons_of_mem r hk)
    cases hk : keep r with
    | true => rw [List.filter_cons_of_pos hk, weigh_cons, weigh_cons, ih]
    | false =>
      rw [List.filter_cons_of_neg (by simp [hk]), weigh_cons, ih, hz r List.mem_cons_self hk,
        Nat.zero_add]

/-- Counting referenced objects is weighing them by an indicator. -/
theorem countP_eq_weigh (p : α → Bool) (h : Heap α) (refs : List Nat) :
    refs.countP (fun r => p (h.get r)) = weigh (fun a => (p a).toNat) h refs := by
  induction refs with
  | nil => rfl
  | cons r refs ih =>
    rw [List.countP_cons, ih, weigh_cons]
    cases p (h.get r) <;> simp [Nat.add_comm]

end Heap

end Orangutan.Lib
