import Orangutan.Core.Error
import Orangutan.Lib.Entries

/-!
# Connection pool

One writer connection and a fixed set of readers. A released connection goes to the
front waiter, whose grant is posted to the executor; the waiter may be cancelled before
the grant runs, and the grant then hands the connection on. Both kinds follow one
scheme, which is written once over the way a kind keeps its free connections. Each
critical section is one step, so any interleaving is a sequence of steps.
-/

namespace Orangutan.Storage

set_option autoImplicit false

open Orangutan.Core

/-- How the pool keeps the free connections of a kind: `σ` is the field of its state and
`γ` names a connection. -/
structure Stock (σ γ : Type) where
  take : σ → Option (γ × σ)
  put : γ → σ → σ
  contents : σ → List γ

/-- `writer_busy`. -/
def writerStock : Stock Bool Unit where
  take busy := if !busy then some ((), true) else none
  put _ _ := false
  contents busy := if busy then [] else [()]

/-- `free_readers`. -/
def readerStock : Stock (List Nat) Nat where
  take
    | [] => none
    | slot :: free => some (slot, free)
  put slot free := free ++ [slot]
  contents free := free

inductive WaiterStatus
  | pending
  | cancelled
  | granted
  deriving DecidableEq

/-- What an acquisition is completed with. -/
inductive Completion (γ : Type)
  | lease (slot : γ)
  | cancelled
  deriving DecidableEq

/-- The part of the pool that belongs to one kind of connection, with all that is under
way: grants and completions on the executor, leases, and connections that a grant hands
back. Acquisitions are numbered as they arrive; `status` is set for those that queue. -/
structure Lane (σ γ : Type) where
  stock : σ
  waiters : List Nat := []
  status : Nat → Option WaiterStatus := fun _ => none
  grants : List (Nat × γ) := []
  returning : List γ := []
  leases : List (Nat × γ) := []
  actions : List (Nat × Completion γ) := []
  completed : List (Nat × Completion γ) := []
  served : List Nat := []
  next : Nat := 0

/-- The steps of the callers and of the executor. An acquisition may be stopped before it
starts, or between that check and the critical section. -/
inductive LaneOp (γ : Type)
  | acquire (stopped cancelled : Bool)
  | cancel (waiter : Nat)
  | runGrant (waiter : Nat)
  | handBack (slot : γ)
  | runAction (call : Nat)
  | release (call : Nat)

namespace Lane

variable {σ γ : Type}

def setStatus (waiter : Nat) (status : WaiterStatus) (l : Lane σ γ) : Lane σ γ :=
  { l with status := Function.update l.status waiter (some status) }

/-- A connection comes back: the front waiter reserves it, or it is free. -/
def release (k : Stock σ γ) (slot : γ) (l : Lane σ γ) : Lane σ γ :=
  match l.waiters with
  | waiter :: rest =>
    { l with
      waiters := rest
      grants := l.grants ++ [(waiter, slot)]
      served := l.served ++ [waiter] }
  | [] => { l with stock := k.put slot l.stock }

/-- A posted grant runs: the waiter gets its lease, or was cancelled meanwhile. -/
def grantWaiter (waiter : Nat) (slot : γ) (l : Lane σ γ) : Lane σ γ :=
  if l.status waiter = some .pending then
    { l.setStatus waiter .granted with
      leases := l.leases ++ [(waiter, slot)]
      completed := l.completed ++ [(waiter, .lease slot)] }
  else { l with returning := l.returning ++ [slot] }

def cancelWaiter (waiter : Nat) (l : Lane σ γ) : Lane σ γ :=
  if l.status waiter = some .pending then
    { l.setStatus waiter .cancelled with
      waiters := l.waiters.erase waiter
      actions := l.actions ++ [(waiter, .cancelled)] }
  else l

def asyncAcquire (k : Stock σ γ) (cancelled : Bool) (l : Lane σ γ) : Lane σ γ :=
  match k.take l.stock with
  | some (slot, stock) =>
    { l with
      stock
      leases := l.leases ++ [(l.next, slot)]
      actions := l.actions ++ [(l.next, .lease slot)]
      served := l.served ++ [l.next]
      next := l.next + 1 }
  | none =>
    let queued : Lane σ γ :=
      { l.setStatus l.next .pending with waiters := l.waiters ++ [l.next], next := l.next + 1 }
    if cancelled then
      { queued.setStatus l.next .cancelled with
        waiters := queued.waiters.dropLast
        actions := l.actions ++ [(l.next, .cancelled)] }
    else queued

def acquire (k : Stock σ γ) (stopped cancelled : Bool) (l : Lane σ γ) : Lane σ γ :=
  if stopped then { l with completed := l.completed ++ [(l.next, .cancelled)], next := l.next + 1 }
  else l.asyncAcquire k cancelled

/-- The executor runs a posted grant. -/
def runGrant (grant : Nat → γ → Lane σ γ → Lane σ γ) (waiter : Nat) (l : Lane σ γ) : Lane σ γ :=
  match l.grants.find? fun g => g.1 = waiter with
  | none => l
  | some g => grant waiter g.2 { l with grants := l.grants.filter fun g => g.1 ≠ waiter }

/-- A grant that met a cancelled waiter returns what was reserved. -/
def handBack [DecidableEq γ] (back : γ → Lane σ γ → Lane σ γ) (slot : γ) (l : Lane σ γ) :
    Lane σ γ :=
  if slot ∈ l.returning then back slot { l with returning := l.returning.erase slot } else l

/-- The executor runs a posted completion. -/
def runAction (call : Nat) (l : Lane σ γ) : Lane σ γ :=
  match l.actions.find? fun a => a.1 = call with
  | none => l
  | some a =>
      { l with actions := l.actions.filter fun a => a.1 ≠ call, completed := l.completed ++ [a] }

/-- A lease is released, which it is once. -/
def releaseLease (back : γ → Lane σ γ → Lane σ γ) (call : Nat) (l : Lane σ γ) : Lane σ γ :=
  match l.leases.find? fun x => x.1 = call with
  | none => l
  | some x => back x.2 { l with leases := l.leases.filter fun x => x.1 ≠ call }

end Lane

namespace Writer

def releaseWriter : Lane Bool Unit → Lane Bool Unit := Lane.release writerStock ()

def grantWriterWaiter (waiter : Nat) : Lane Bool Unit → Lane Bool Unit := Lane.grantWaiter waiter ()

def cancelWriterWaiter (waiter : Nat) : Lane Bool Unit → Lane Bool Unit := Lane.cancelWaiter waiter

def acquireWriter (stopped cancelled : Bool) : Lane Bool Unit → Lane Bool Unit :=
  Lane.acquire writerStock stopped cancelled

def apply (l : Lane Bool Unit) : LaneOp Unit → Lane Bool Unit
  | .acquire stopped cancelled => acquireWriter stopped cancelled l
  | .cancel waiter => cancelWriterWaiter waiter l
  | .runGrant waiter => l.runGrant (fun waiter _ => grantWriterWaiter waiter) waiter
  | .handBack slot => l.handBack (fun _ => releaseWriter) slot
  | .runAction call => l.runAction call
  | .release call => l.releaseLease (fun _ => releaseWriter) call

end Writer

namespace Reader

def releaseReader (slot : Nat) : Lane (List Nat) Nat → Lane (List Nat) Nat :=
    Lane.release readerStock slot

def grantReaderWaiter (waiter slot : Nat) : Lane (List Nat) Nat → Lane (List Nat) Nat :=
  Lane.grantWaiter waiter slot

def cancelReaderWaiter (waiter : Nat) : Lane (List Nat) Nat → Lane (List Nat) Nat :=
    Lane.cancelWaiter waiter

def acquireReader (stopped cancelled : Bool) : Lane (List Nat) Nat → Lane (List Nat) Nat :=
  Lane.acquire readerStock stopped cancelled

def apply (l : Lane (List Nat) Nat) : LaneOp Nat → Lane (List Nat) Nat
  | .acquire stopped cancelled => acquireReader stopped cancelled l
  | .cancel waiter => cancelReaderWaiter waiter l
  | .runGrant waiter => l.runGrant grantReaderWaiter waiter
  | .handBack slot => l.handBack releaseReader slot
  | .runAction call => l.runAction call
  | .release call => l.releaseLease releaseReader call

end Reader

/-- The state of the pool. -/
structure Pool where
  writer : Lane Bool Unit
  reader : Lane (List Nat) Nat

inductive PoolOp
  | writer (op : LaneOp Unit)
  | reader (op : LaneOp Nat)

namespace Pool

/-- A pool that was opened with so many readers. -/
def opened (readerCount : Nat) : Pool where
  writer := { stock := false }
  reader := { stock := List.range readerCount }

def apply (pool : Pool) : PoolOp → Pool
  | .writer op => { pool with writer := Writer.apply pool.writer op }
  | .reader op => { pool with reader := Reader.apply pool.reader op }

/-- The pool after any interleaving of steps. -/
def run (readerCount : Nat) (ops : List PoolOp) : Pool := ops.foldl apply (opened readerCount)

end Pool

/-- The laws of a stock that never holds more than `capacity` connections. -/
structure Stock.Lawful {σ γ : Type} (k : Stock σ γ) (capacity : Nat) : Prop where
  take_none : ∀ s, k.take s = none → k.contents s = []
  take_some : ∀ s x s', k.take s = some (x, s') → k.contents s = x :: k.contents s'
  put : ∀ s x, (k.contents s).length < capacity → (k.contents (k.put x s)).Perm (x :: k.contents s)

theorem writerStock_lawful : writerStock.Lawful 1 where
  take_none s h := by cases s <;> simp [writerStock] at h ⊢
  take_some s x s' h := by
    cases s with
    | false =>
      obtain ⟨rfl, rfl⟩ : () = x ∧ true = s' := by simpa [writerStock] using h
      rfl
    | true => simp [writerStock] at h
  put s x h := by
    cases s with
    | false => simp [writerStock] at h
    | true => exact List.Perm.refl _

theorem readerStock_lawful (capacity : Nat) : readerStock.Lawful capacity where
  take_none s h := by
    cases s with
    | nil => rfl
    | cons => simp [readerStock] at h
  take_some s x s' h := by
    cases s with
    | nil => simp [readerStock] at h
    | cons slot free =>
      obtain ⟨rfl, rfl⟩ : slot = x ∧ free = s' := by simpa [readerStock] using h
      rfl
  put s x _ := List.perm_append_singleton x s

namespace Lane

variable {σ γ : Type} {k : Stock σ γ} {all : List γ} {l : Lane σ γ}

/-- The acquisitions that were completed, delivered or not. -/
def done (l : Lane σ γ) : List Nat := (l.actions ++ l.completed).map (·.1)

/-- Where every connection is. -/
def slots (k : Stock σ γ) (l : Lane σ γ) : List γ :=
  k.contents l.stock ++ (l.grants.map (·.2) ++ (l.returning ++ l.leases.map (·.2)))

structure Inv (k : Stock σ γ) (all : List γ) (l : Lane σ γ) : Prop where
  slots : (l.slots k).Perm all
  idle : k.contents l.stock ≠ [] → l.waiters = []
  waiting : ∀ t ∈ l.waiters, l.status t = some .pending
  pending : ∀ t, l.status t = some .pending → t ∈ l.waiters ∨ t ∈ l.grants.map (·.1)
  issued : ∀ t, l.status t ≠ none → t < l.next
  done : l.done.Nodup ∧ ∀ t, t ∈ l.done ↔ t < l.next ∧ l.status t ≠ some .pending
  grants : (l.grants.map (·.1)).Nodup ∧ ∀ t ∈ l.grants.map (·.1), t ∈ l.served
  leases : (l.leases.map (·.1)).Nodup ∧ ∀ x ∈ l.leases, (x.1, .lease x.2) ∈ l.actions ++ l.completed
  leased : ∀ t slot, (t, .lease slot) ∈ l.actions ++ l.completed → t ∈ l.served
  sorted : l.waiters.Pairwise (· < ·)
  order : l.served.Pairwise (· < ·) ∧ ∀ t ∈ l.served, t < l.next ∧ ∀ w ∈ l.waiters, t < w

theorem Inv.lease_done (h : l.Inv k all) {t : Nat} (ht : t ∈ l.leases.map (·.1)) : t ∈ l.done := by
  obtain ⟨x, hx, rfl⟩ := List.mem_map.mp ht
  exact List.mem_map_of_mem (f := (·.1)) (h.leases.2 x hx)

/-- Only another acquisition is pending after one has finished. -/
theorem update_pending {status : Nat → Option WaiterStatus} {waiter t : Nat} {s : WaiterStatus}
    (hs : s ≠ .pending) (h : Function.update status waiter (some s) t = some .pending) :
    t ≠ waiter ∧ status t = some .pending := by
  by_cases hq : t = waiter
  · rw [hq, Function.update_self] at h
    exact absurd (Option.some.inj h) hs
  · rw [Function.update_of_ne hq] at h
    exact ⟨hq, h⟩

theorem Inv.update_issued (h : l.Inv k all) {waiter t next : Nat} {s : WaiterStatus}
    (hwaiter : waiter < next) (hle : l.next ≤ next)
    (ht : Function.update l.status waiter (some s) t ≠ none) : t < next := by
  by_cases hq : t = waiter
  · exact hq ▸ hwaiter
  · rw [Function.update_of_ne hq] at ht
    exact Nat.lt_of_lt_of_le (h.issued t ht) hle

/-- A connection on its way back goes to the front waiter or to the stock. -/
theorem release_inv (hk : k.Lawful all.length) {slot : γ}
    (h : ({ l with returning := slot :: l.returning } : Lane σ γ).Inv k all) :
      (l.release k slot).Inv k all := by
  have hslots : (k.contents l.stock ++
      (l.grants.map (·.2) ++ (slot :: l.returning ++ l.leases.map (·.2)))).Perm all :=
    h.slots
  unfold release
  split
  · next waiter more hwaiters =>
    have hsorted := h.sorted
    rw [hwaiters, List.pairwise_cons] at hsorted
    have hbehind : ∀ t ∈ l.served, t < waiter :=
      fun t ht => (h.order.2 t ht).2 waiter (by simp [hwaiters])
    have hstatus : l.status waiter = some .pending := h.waiting waiter (by simp [hwaiters])
    refine ⟨?_, fun hne => ?_, fun t ht => ?_, fun t ht => ?_, h.issued, h.done,
      ⟨?_, fun t ht => ?_⟩, h.leases, fun t slot ht => List.mem_append_left _ (h.leased t slot ht),
      hsorted.2, ?_, fun t ht => ?_⟩
    · refine List.Perm.trans ?_ hslots
      simp only [Lane.slots, List.map_append, List.append_assoc]
      exact List.Perm.refl _
    · exact absurd (h.idle hne) (by simp [hwaiters])
    · exact h.waiting t (by simp [hwaiters, ht])
    · rcases h.pending t ht with hw | hg
      · rw [hwaiters] at hw
        rcases List.mem_cons.mp hw with rfl | hw
        · exact .inr (by simp)
        · exact .inl hw
      · exact .inr (by simp [hg])
    · rw [List.map_append, List.nodup_append]
      refine ⟨h.grants.1, List.nodup_singleton _, fun t ht u hu => ?_⟩
      rw [List.mem_singleton.mp hu]
      exact Nat.ne_of_lt (hbehind t (h.grants.2 t ht))
    · rw [List.map_append] at ht
      rcases List.mem_append.mp ht with ht | ht
      · exact List.mem_append_left _ (h.grants.2 t ht)
      · exact List.mem_append_right _ ht
    · rw [List.pairwise_append]
      refine ⟨h.order.1, List.pairwise_singleton _ _, fun t ht u hu => ?_⟩
      rw [List.mem_singleton.mp hu]
      exact hbehind t ht
    · rcases List.mem_append.mp ht with ht | ht
      · exact ⟨(h.order.2 t ht).1, fun w hw => (h.order.2 t ht).2 w (by simp [hwaiters, hw])⟩
      · rw [List.mem_singleton.mp ht]
        exact ⟨h.issued waiter (by simp [hstatus]), hsorted.1⟩
  · next hwaiters =>
    have hroom : (k.contents l.stock).length < all.length := by
      have hlength := hslots.length_eq
      simp only [List.length_append, List.length_cons] at hlength
      omega
    refine ⟨?_, fun _ => hwaiters, h.waiting, h.pending, h.issued, h.done, h.grants, h.leases,
      h.leased, h.sorted, h.order⟩
    refine List.Perm.trans ?_ hslots
    refine List.Perm.trans ((hk.put l.stock slot hroom).append_right _) ?_
    have hmiddle :
      (slot :: (k.contents l.stock ++ l.grants.map (·.2) ++
      (l.returning ++ l.leases.map (·.2)))).Perm
        (k.contents l.stock ++ l.grants.map (·.2) ++ slot :: (l.returning ++ l.leases.map (·.2))) :=
          List.perm_middle.symm
    simpa using hmiddle

theorem handBack_inv [DecidableEq γ] (hk : k.Lawful all.length) (h : l.Inv k all) (slot : γ) :
    (l.handBack (Lane.release k) slot).Inv k all := by
  unfold handBack
  split
  · next hslot =>
    have hfront : ({ l with returning := slot :: l.returning.erase slot } :
        Lane σ γ).Inv k all := by
      refine ⟨?_, h.idle, h.waiting, h.pending, h.issued, h.done, h.grants, h.leases, h.leased,
        h.sorted, h.order⟩
      refine List.Perm.trans ?_ h.slots
      exact ((List.perm_cons_erase hslot).symm.append_right _).append_left _ |>.append_left _
    exact release_inv hk hfront
  · exact h

theorem releaseLease_inv (hk : k.Lawful all.length) (h : l.Inv k all) (call : Nat) :
    (l.releaseLease (Lane.release k) call).Inv k all := by
  unfold releaseLease
  split
  · exact h
  next x hfind =>
  obtain rfl : x.1 = call := by simpa using List.find?_some hfind
  have hperm := Lib.perm_cons_filter h.leases.1 (List.mem_of_find?_eq_some hfind)
  generalize hrest : (l.leases.filter fun y => y.1 ≠ x.1) = rest at hperm ⊢
  have hsub : rest.Sublist l.leases := hrest ▸ List.filter_sublist
  have hfront : ({ l with leases := rest, returning := x.2 :: l.returning } :
      Lane σ γ).Inv k all := by
    refine ⟨?_, h.idle, h.waiting, h.pending, h.issued, h.done, h.grants, ⟨?_, fun y hy => ?_⟩,
      h.leased, h.sorted, h.order⟩
    · refine List.Perm.trans ?_ h.slots
      have hmoved : (x.2 :: l.returning ++ rest.map (·.2)).Perm
          (l.returning ++ l.leases.map (·.2)) :=
        List.perm_middle.symm.trans ((hperm.map (·.2)).symm.append_left _)
      exact (hmoved.append_left _).append_left _
    · exact h.leases.1.sublist (hsub.map _)
    · exact h.leases.2 y (hsub.subset hy)
  exact release_inv hk hfront

theorem done_action (l : Lane σ γ) (call : Nat) (c : Completion γ) :
    ((l.actions ++ [(call, c)] ++ l.completed).map (·.1)).Perm (call :: l.done) := by
  have hmoved : (l.actions ++ [(call, c)] ++ l.completed).Perm
      ((call, c) :: (l.actions ++ l.completed)) := by
    rw [List.append_assoc]
    exact List.perm_middle
  exact hmoved.map (·.1)

theorem done_completed (l : Lane σ γ) (call : Nat) (c : Completion γ) :
    ((l.actions ++ (l.completed ++ [(call, c)])).map (·.1)).Perm (call :: l.done) := by
  rw [← List.append_assoc, List.map_append]
  exact List.perm_append_singleton call _

theorem mem_actions {a c : Nat × Completion γ} (h : a ∈ l.actions ++ l.completed) :
    a ∈ l.actions ++ [c] ++ l.completed := by
  rcases List.mem_append.mp h with h | h
  · exact List.mem_append_left _ (List.mem_append_left _ h)
  · exact List.mem_append_right _ h

theorem of_mem_actions {a c : Nat × Completion γ} (h : a ∈ l.actions ++ [c] ++ l.completed)
    (hne : a ≠ c) :
    a ∈ l.actions ++ l.completed := by
  rw [List.append_assoc] at h
  rcases List.mem_append.mp h with h | h
  · exact List.mem_append_left _ h
  rcases List.mem_append.mp h with h | h
  · exact absurd (List.mem_singleton.mp h) hne
  · exact List.mem_append_right _ h

/-- A pending acquisition has not completed, and completes now. -/
theorem Inv.finish (h : l.Inv k all) {waiter : Nat} (hwaiter : l.status waiter = some .pending)
    {status : WaiterStatus} (hstatus : status ≠ .pending) {d : List Nat}
      (hd : d.Perm (waiter :: l.done)) :
    d.Nodup ∧ ∀ t, t ∈ d ↔ t < l.next ∧ Function.update l.status waiter (some status) t ≠
      some .pending := by
  have hnew : waiter ∉ l.done := fun hm => ((h.done.2 waiter).mp hm).2 hwaiter
  refine ⟨hd.nodup_iff.mpr (List.nodup_cons.mpr ⟨hnew, h.done.1⟩), fun t => ?_⟩
  rw [hd.mem_iff, List.mem_cons]
  by_cases ht : t = waiter
  · subst ht
    rw [Function.update_self]
    exact ⟨fun _ => ⟨h.issued t (by simp [hwaiter]), fun hq => hstatus (Option.some.inj hq)⟩,
      fun _ => .inl rfl⟩
  · rw [Function.update_of_ne ht, h.done.2]
    simp [ht]

theorem cancelWaiter_inv (h : l.Inv k all) (waiter : Nat) : (l.cancelWaiter waiter).Inv k all := by
  unfold cancelWaiter
  split
  · next hwaiter =>
    have hcancelled : WaiterStatus.cancelled ≠ .pending := by decide
    have hnodup : l.waiters.Nodup := h.sorted.imp fun hlt => Nat.ne_of_lt hlt
    have hdone := l.done_action waiter .cancelled
    have hkept : ∀ t ∈ l.waiters.erase waiter, t ∈ l.waiters ∧ t ≠ waiter := fun t ht =>
      ⟨List.mem_of_mem_erase ht, fun hq => (hnodup.not_mem_erase (hq ▸ ht)).elim⟩
    refine ⟨h.slots, fun hne => ?_, fun t ht => ?_, fun t ht => ?_, fun t ht => ?_,
      h.finish hwaiter hcancelled hdone, h.grants, ⟨h.leases.1, fun x hx => ?_⟩, fun t slot ht =>
      ?_, h.sorted.sublist List.erase_sublist, h.order.1, fun t ht => ?_⟩
    · show l.waiters.erase waiter = []
      rw [h.idle hne]
      rfl
    · show Function.update l.status waiter _ t = _
      rw [Function.update_of_ne (hkept t ht).2]
      exact h.waiting t (hkept t ht).1
    · obtain ⟨hne, ht⟩ := update_pending hcancelled ht
      exact (h.pending t ht).imp_left (List.mem_erase_of_ne hne).mpr
    · exact h.update_issued (h.issued waiter (by simp [hwaiter])) (Nat.le_refl _) ht
    · exact mem_actions (h.leases.2 x hx)
    · exact h.leased t slot (of_mem_actions ht fun hq => (by cases hq))
    · exact ⟨(h.order.2 t ht).1, fun w hw => (h.order.2 t ht).2 w (hkept w hw).1⟩
  · exact h

theorem runGrant_inv (h : l.Inv k all) (waiter : Nat) :
    (l.runGrant Lane.grantWaiter waiter).Inv k all := by
  unfold runGrant
  split
  · exact h
  next g hfind =>
  obtain rfl : g.1 = waiter := by simpa using List.find?_some hfind
  have hg := List.mem_of_find?_eq_some hfind
  have hperm := Lib.perm_cons_filter h.grants.1 hg
  have hserved : g.1 ∈ l.served := h.grants.2 _ (List.mem_map_of_mem hg)
  generalize hrest : (l.grants.filter fun y => y.1 ≠ g.1) = rest at hperm ⊢
  have hsub : rest.Sublist l.grants := hrest ▸ List.filter_sublist
  have hgrants : (rest.map (·.1)).Nodup ∧ ∀ t ∈ rest.map (·.1), t ∈ l.served :=
    ⟨h.grants.1.sublist (hsub.map _), fun t ht => h.grants.2 t ((hsub.map _).subset ht)⟩
  have hpending : ∀ t, t ≠ g.1 → l.status t = some .pending → t ∈ l.waiters ∨
      t ∈ rest.map (·.1) := by
    intro t hne ht
    refine (h.pending t ht).imp_right fun hm => ?_
    rw [(hperm.map (·.1)).mem_iff, List.map_cons, List.mem_cons] at hm
    exact hm.resolve_left hne
  unfold grantWaiter
  dsimp only
  split
  · next hwaiter =>
    have hgranted : WaiterStatus.granted ≠ .pending := by decide
    have hdone := l.done_completed g.1 (.lease g.2)
    refine ⟨?_, h.idle, fun t ht => ?_, fun t ht => ?_, fun t ht => ?_,
      h.finish hwaiter hgranted hdone, hgrants, ⟨?_, fun x hx => ?_⟩, fun t slot ht => ?_,
      h.sorted, h.order⟩
    · refine List.Perm.trans ?_ h.slots
      refine List.Perm.append_left _ (List.Perm.trans ?_ ((hperm.map (·.2)).symm.append_right _))
      show (rest.map (·.2) ++ (l.returning ++ (l.leases ++ [g]).map (·.2))).Perm _
      rw [List.map_append, ← List.append_assoc, ← List.append_assoc]
      refine (List.perm_append_singleton _ _).trans (List.Perm.cons _ ?_)
      rw [List.append_assoc]
      exact List.Perm.refl _
    · have hne : t ≠ g.1 := fun hq => Nat.lt_irrefl _ ((h.order.2 _ hserved).2 _ (hq ▸ ht))
      show Function.update l.status g.1 _ t = _
      rw [Function.update_of_ne hne]
      exact h.waiting t ht
    · obtain ⟨hne, ht⟩ := update_pending hgranted ht
      exact hpending t hne ht
    · exact h.update_issued (h.issued g.1 (by simp [hwaiter])) (Nat.le_refl _) ht
    · show ((l.leases ++ [(g.1, g.2)]).map (·.1)).Nodup
      rw [List.map_append, List.nodup_append]
      refine ⟨h.leases.1, List.nodup_singleton _, fun t ht u hu => ?_⟩
      rw [List.mem_singleton.mp hu]
      rintro rfl
      exact ((h.done.2 _).mp (h.lease_done ht)).2 hwaiter
    · show _ ∈ l.actions ++ (l.completed ++ [(g.1, Completion.lease g.2)])
      rw [← List.append_assoc]
      rcases List.mem_append.mp hx with hx | hx
      · exact List.mem_append_left _ (h.leases.2 x hx)
      · rw [List.mem_singleton.mp hx]
        exact List.mem_append_right _ (List.mem_singleton_self _)
    · have ht : (t, Completion.lease slot) ∈ l.actions ++
        (l.completed ++ [(g.1, Completion.lease g.2)]) := ht
      rw [← List.append_assoc] at ht
      rcases List.mem_append.mp ht with ht | ht
      · exact h.leased t slot ht
      · obtain rfl : t = g.1 := congrArg Prod.fst (List.mem_singleton.mp ht)
        exact hserved
  · next hwaiter =>
    refine ⟨?_, h.idle, h.waiting, fun t ht => hpending t (fun hq => hwaiter (hq ▸ ht)) ht,
      h.issued, h.done, hgrants, h.leases, h.leased, h.sorted, h.order⟩
    refine List.Perm.trans ?_ h.slots
    refine List.Perm.append_left _ (List.Perm.trans ?_ ((hperm.map (·.2)).symm.append_right _))
    show (rest.map (·.2) ++ (l.returning ++ [g.2] ++ l.leases.map (·.2))).Perm _
    rw [← List.append_assoc, ← List.append_assoc, List.append_assoc _ [g.2]]
    refine List.perm_middle.trans (List.Perm.cons _ ?_)
    simp

theorem runAction_inv (h : l.Inv k all) (call : Nat) : (l.runAction call).Inv k all := by
  unfold runAction
  split
  · exact h
  next a hfind =>
  obtain rfl : a.1 = call := by simpa using List.find?_some hfind
  have ha := List.mem_of_find?_eq_some hfind
  have hnodup : (l.actions.map (·.1)).Nodup := by
    have hdone := h.done.1
    rw [Lane.done, List.map_append] at hdone
    exact (List.nodup_append.mp hdone).1
  have hperm := Lib.perm_cons_filter hnodup ha
  generalize hrest : (l.actions.filter fun y => y.1 ≠ a.1) = rest at hperm ⊢
  have hmoved : (rest ++ (l.completed ++ [a])).Perm (l.actions ++ l.completed) := by
    rw [← List.append_assoc]
    exact (List.perm_append_singleton _ _).trans (hperm.symm.append_right _)
  have hdone : ((rest ++ (l.completed ++ [a])).map (·.1)).Perm l.done := hmoved.map _
  refine ⟨h.slots, h.idle, h.waiting, h.pending, h.issued,
    ⟨hdone.nodup_iff.mpr h.done.1, fun t => ?_⟩, h.grants,
    ⟨h.leases.1, fun x hx => hmoved.mem_iff.mpr (h.leases.2 x hx)⟩, fun t slot ht =>
    h.leased t slot (hmoved.mem_iff.mp ht), h.sorted, h.order⟩
  exact hdone.mem_iff.trans (h.done.2 t)

/-- A new acquisition completes without waiting. -/
theorem Inv.finish_next (h : l.Inv k all) {status : Nat → Option WaiterStatus}
    (hother : ∀ t, t ≠ l.next → status t = l.status t) (hnew : status l.next ≠ some .pending)
      {d : List Nat}
    (hd : d.Perm (l.next :: l.done)) :
    d.Nodup ∧ ∀ t, t ∈ d ↔ t < l.next + 1 ∧ status t ≠ some .pending := by
  have hfresh : l.next ∉ l.done := fun hm => Nat.lt_irrefl _ ((h.done.2 _).mp hm).1
  refine ⟨hd.nodup_iff.mpr (List.nodup_cons.mpr ⟨hfresh, h.done.1⟩), fun t => ?_⟩
  rw [hd.mem_iff, List.mem_cons]
  by_cases ht : t = l.next
  · subst ht
    exact ⟨fun _ => ⟨Nat.lt_succ_self _, hnew⟩, fun _ => .inl rfl⟩
  · rw [hother t ht, h.done.2]
    constructor
    · rintro (hq | ⟨hlt, hstatus⟩)
      · exact absurd hq ht
      · exact ⟨Nat.lt_succ_of_lt hlt, hstatus⟩
    · rintro ⟨hlt, hstatus⟩
      exact .inr ⟨by omega, hstatus⟩

theorem Inv.next_status (h : l.Inv k all) : l.status l.next = none := by
  by_contra hsome
  exact Nat.lt_irrefl _ (h.issued l.next hsome)

theorem asyncAcquire_inv (hk : k.Lawful all.length) (h : l.Inv k all) (cancelled : Bool) :
    (l.asyncAcquire k cancelled).Inv k all := by
  have hearlier : ∀ t ∈ l.waiters, t ≠ l.next := by
    intro t ht hq
    have hstatus := h.waiting t ht
    rw [hq, h.next_status] at hstatus
    cases hstatus
  have hissued : ∀ status t, Function.update l.status l.next (some status) t ≠ none →
      t < l.next + 1 :=
    fun status t => h.update_issued (Nat.lt_succ_self _) (Nat.le_succ _)
  have horder : ∀ t ∈ l.served, t < l.next + 1 ∧ ∀ w ∈ l.waiters, t < w := fun t ht =>
    ⟨Nat.lt_succ_of_lt (h.order.2 t ht).1, (h.order.2 t ht).2⟩
  unfold asyncAcquire
  split
  · next slot stock htake =>
    have hcontents := hk.take_some _ _ _ htake
    have hwaiters : l.waiters = [] := h.idle (by simp [hcontents])
    have hdone := l.done_action l.next (.lease slot)
    refine ⟨?_, fun _ => hwaiters, h.waiting, h.pending,
      fun t ht => Nat.lt_succ_of_lt (h.issued t ht),
      h.finish_next (fun _ _ => rfl) (by simp [h.next_status]) hdone,
      ⟨h.grants.1, fun t ht => List.mem_append_left _ (h.grants.2 t ht)⟩, ⟨?_, fun x hx => ?_⟩,
      fun t x ht => ?_, h.sorted, ?_, fun t ht => ?_⟩
    · refine List.Perm.trans ?_ h.slots
      show (k.contents stock ++
        (l.grants.map (·.2) ++ (l.returning ++ (l.leases ++ [(l.next, slot)]).map (·.2)))).Perm
        (k.contents l.stock ++ _)
      rw [hcontents, List.map_append, ← List.append_assoc, ← List.append_assoc, ← List.append_assoc]
      refine (List.perm_append_singleton _ _).trans (List.Perm.cons _ ?_)
      rw [List.append_assoc, List.append_assoc]
      exact List.Perm.refl _
    · show ((l.leases ++ [(l.next, slot)]).map (·.1)).Nodup
      rw [List.map_append, List.nodup_append]
      refine ⟨h.leases.1, List.nodup_singleton _, fun t ht u hu => ?_⟩
      rw [List.mem_singleton.mp hu]
      exact Nat.ne_of_lt ((h.done.2 t).mp (h.lease_done ht)).1
    · rcases List.mem_append.mp hx with hx | hx
      · exact mem_actions (h.leases.2 x hx)
      · rw [List.mem_singleton.mp hx]
        exact List.mem_append_left _ (List.mem_append_right _ (List.mem_singleton_self _))
    · by_cases hq : (t, Completion.lease x) = (l.next, .lease slot)
      · exact List.mem_append_right _ (List.mem_singleton.mpr (congrArg Prod.fst hq))
      · exact List.mem_append_left _ (h.leased t x (of_mem_actions ht hq))
    · rw [List.pairwise_append]
      refine ⟨h.order.1, List.pairwise_singleton _ _, fun t ht u hu => ?_⟩
      rw [List.mem_singleton.mp hu]
      exact (h.order.2 t ht).1
    · rcases List.mem_append.mp ht with ht | ht
      · exact horder t ht
      · rw [List.mem_singleton.mp ht]
        exact ⟨Nat.lt_succ_self _, fun w hw => (by rw [hwaiters] at hw; cases hw)⟩
  · next htake =>
    have hempty := hk.take_none _ htake
    dsimp only
    split
    · -- the call leaves the end of the queue at once
      have hdropped : (l.waiters ++ [l.next]).dropLast = l.waiters := List.dropLast_concat
      have hstatus : Function.update (Function.update l.status l.next (some .pending)) l.next
        (some .cancelled) =
          Function.update l.status l.next (some .cancelled) := Function.update_idem _ _ _
      have hcancelled : WaiterStatus.cancelled ≠ .pending := by decide
      have hdone := l.done_action l.next .cancelled
      simp only [setStatus, hdropped, hstatus]
      refine ⟨h.slots, h.idle, fun t ht => ?_, fun t ht => ?_, hissued .cancelled,
        h.finish_next (fun t ht => Function.update_of_ne ht _ _) (by simp) hdone, h.grants,
        ⟨h.leases.1, fun x hx => mem_actions (h.leases.2 x hx)⟩,
        fun t slot ht => h.leased t slot (of_mem_actions ht fun hq => (by cases hq)), h.sorted,
          h.order.1, horder⟩
      · exact (Function.update_of_ne (hearlier t ht) _ _).trans (h.waiting t ht)
      · exact h.pending t (update_pending hcancelled ht).2
    · refine ⟨h.slots, fun hne => absurd hempty hne, fun t ht => ?_, fun t ht => ?_,
        hissued .pending, ⟨h.done.1, fun t => ?_⟩, h.grants, h.leases, h.leased, ?_, h.order.1,
        fun t ht => ?_⟩
      · show Function.update l.status l.next _ t = _
        by_cases hq : t = l.next
        · subst hq
          exact Function.update_self _ _ _
        · rw [Function.update_of_ne hq]
          rcases List.mem_append.mp ht with ht | ht
          · exact h.waiting t ht
          · exact absurd (List.mem_singleton.mp ht) hq
      · have ht : Function.update l.status l.next (some .pending) t = some .pending := ht
        by_cases hq : t = l.next
        · exact .inl (List.mem_append_right _ (List.mem_singleton.mpr hq))
        · rw [Function.update_of_ne hq] at ht
          exact (h.pending t ht).imp_left (List.mem_append_left _)
      · show t ∈ l.done ↔ t < l.next + 1 ∧ Function.update l.status l.next (some .pending) t ≠
          some .pending
        rw [h.done.2]
        by_cases hq : t = l.next
        · subst hq
          simp
        · rw [Function.update_of_ne hq]
          refine and_congr_left fun _ => ?_
          omega
      · show (l.waiters ++ [l.next]).Pairwise (· < ·)
        rw [List.pairwise_append]
        refine ⟨h.sorted, List.pairwise_singleton _ _, fun t ht u hu => ?_⟩
        rw [List.mem_singleton.mp hu]
        exact h.issued t (by simp [h.waiting t ht])
      · refine ⟨(horder t ht).1, fun w hw => ?_⟩
        rcases List.mem_append.mp hw with hw | hw
        · exact (h.order.2 t ht).2 w hw
        · rw [List.mem_singleton.mp hw]
          exact (h.order.2 t ht).1

theorem acquire_inv (hk : k.Lawful all.length) (h : l.Inv k all) (stopped cancelled : Bool) :
    (l.acquire k stopped cancelled).Inv k all := by
  unfold acquire
  split
  · have hdone := l.done_completed l.next .cancelled
    have hlog := List.append_assoc l.actions l.completed [(l.next, .cancelled)]
    refine ⟨h.slots, h.idle, h.waiting, h.pending, fun t ht => Nat.lt_succ_of_lt (h.issued t ht),
      h.finish_next (fun _ _ => rfl) (by simp [h.next_status]) hdone, h.grants,
      ⟨h.leases.1, fun x hx => hlog ▸ List.mem_append_left _ (h.leases.2 x hx)⟩, fun t slot ht =>
        ?_, h.sorted,
      h.order.1, fun t ht => ⟨Nat.lt_succ_of_lt (h.order.2 t ht).1, (h.order.2 t ht).2⟩⟩
    rcases List.mem_append.mp (hlog ▸ ht) with ht | ht
    · exact h.leased t slot ht
    · cases List.mem_singleton.mp ht
  · exact asyncAcquire_inv hk h cancelled

/-- A kind of which nothing is in use. -/
theorem inv_opened {stock : σ} (hstock : k.contents stock = all) :
    ({ stock := stock } : Lane σ γ).Inv k all := by
  refine ⟨?_, fun _ => rfl, ?_, ?_, ?_, ?_, ?_, ?_, ?_, ?_, ?_⟩
  · simp [Lane.slots, hstock]
  all_goals simp [Lane.done]

end Lane

theorem Writer.apply_inv {l : Lane Bool Unit} (h : l.Inv writerStock [()]) (op : LaneOp Unit) :
    (Writer.apply l op).Inv writerStock [()] := by
  cases op with
  | acquire stopped cancelled => exact Lane.acquire_inv writerStock_lawful h stopped cancelled
  | cancel waiter => exact Lane.cancelWaiter_inv h waiter
  | runGrant waiter => exact Lane.runGrant_inv h waiter
  | handBack slot => exact Lane.handBack_inv writerStock_lawful h slot
  | runAction call => exact Lane.runAction_inv h call
  | release call => exact Lane.releaseLease_inv writerStock_lawful h call

theorem Reader.apply_inv {l : Lane (List Nat) Nat} {all : List Nat} (h : l.Inv readerStock all)
    (op : LaneOp Nat) :
    (Reader.apply l op).Inv readerStock all := by
  have hk := readerStock_lawful all.length
  cases op with
  | acquire stopped cancelled => exact Lane.acquire_inv hk h stopped cancelled
  | cancel waiter => exact Lane.cancelWaiter_inv h waiter
  | runGrant waiter => exact Lane.runGrant_inv h waiter
  | handBack slot => exact Lane.handBack_inv hk h slot
  | runAction call => exact Lane.runAction_inv h call
  | release call => exact Lane.releaseLease_inv hk h call

theorem Pool.run_inv (readerCount : Nat) (ops : List PoolOp) :
    (run readerCount ops).writer.Inv writerStock [()] ∧
    (run readerCount ops).reader.Inv readerStock (List.range readerCount) := by
  refine List.foldlRecOn (motive := fun pool => pool.writer.Inv writerStock [()] ∧
    pool.reader.Inv readerStock (List.range readerCount)) ops apply ?_ fun pool h op _ => ?_
  · exact ⟨Lane.inv_opened rfl, Lane.inv_opened rfl⟩
  cases op with
  | writer op => exact ⟨Writer.apply_inv h.1 op, h.2⟩
  | reader op => exact ⟨h.1, Reader.apply_inv h.2 op⟩

/-- What the pool promises of one kind of connection. -/
structure Lane.Sound {σ γ : Type} (k : Stock σ γ) (all : List γ) (l : Lane σ γ) : Prop where
  /-- Each connection is in one place: free, reserved by a posted grant, handed back by
  a grant that is running, or leased. -/
  slots : (k.contents l.stock ++ (l.grants.map (·.2) ++ (l.returning ++ l.leases.map (·.2)))).Perm
    all
  /-- A lease belongs to one acquisition, which was completed with it. -/
  leases : (l.leases.map (·.1)).Nodup ∧ ∀ x ∈ l.leases, (x.1, .lease x.2) ∈ l.actions ++ l.completed
  /-- An acquisition is completed once; before that it is queued or has one grant. -/
  once : l.done.Nodup ∧ (∀ t ∈ l.done, t < l.next ∧ t ∉ l.waiters) ∧ (l.grants.map (·.1)).Nodup ∧
    ∀ t, t < l.next → t ∉ l.done → (t ∈ l.waiters ∧ t ∉ l.grants.map (·.1)) ∨
      (t ∉ l.waiters ∧ t ∈ l.grants.map (·.1))
  /-- Waiters queue as they arrive, acquisitions are served as they arrived, and none is
  served past a queued one. -/
  arrival : l.waiters.Pairwise (· < ·) ∧ l.served.Pairwise (· < ·) ∧ ∀ t ∈ l.served,
    ∀ w ∈ l.waiters, t < w
  /-- A lease or a reservation means to be served. -/
  served : (∀ t ∈ l.grants.map (·.1), t ∈ l.served) ∧
    ∀ t slot, (t, .lease slot) ∈ l.actions ++ l.completed → t ∈ l.served
  /-- Nobody waits beside a free connection. -/
  idle : k.contents l.stock ≠ [] → l.waiters = []
  /-- Nobody is left waiting once all is back. -/
  drained : all ≠ [] → l.grants = [] → l.returning = [] → l.leases = [] → l.waiters = []

theorem Lane.Inv.sound {σ γ : Type} {k : Stock σ γ} {all : List γ} {l : Lane σ γ}
    (h : l.Inv k all) :
    l.Sound k all := by
  have hapart : ∀ t ∈ l.grants.map (·.1), t ∉ l.waiters := fun t ht hw =>
    Nat.lt_irrefl t ((h.order.2 t (h.grants.2 t ht)).2 t hw)
  refine ⟨h.slots, h.leases, ⟨h.done.1, fun t ht => ?_, h.grants.1, fun t hlt ht => ?_⟩,
    ⟨h.sorted, h.order.1, fun t ht => (h.order.2 t ht).2⟩, ⟨h.grants.2, h.leased⟩, h.idle,
    fun hall hgrants hreturning hleases => ?_⟩
  · obtain ⟨hlt, hstatus⟩ := (h.done.2 t).mp ht
    exact ⟨hlt, fun hw => hstatus (h.waiting t hw)⟩
  · have hpending : l.status t = some .pending := by
      by_contra hstatus
      exact ht ((h.done.2 t).mpr ⟨hlt, hstatus⟩)
    rcases h.pending t hpending with hw | hg
    · exact .inl ⟨hw, fun hg => hapart t hg hw⟩
    · exact .inr ⟨hapart t hg, hg⟩
  · refine h.idle fun hempty => hall ?_
    have hslots := h.slots
    rw [Lane.slots, hempty, hgrants, hreturning, hleases] at hslots
    exact List.Perm.nil_eq hslots |>.symm

end Orangutan.Storage
