import Orangutan.Core.Error
import Orangutan.Lib.Entries

/-!
# Path locks

A fair reader-writer lock for every path. A waiting `acquire` sleeps on its own wake
channel of capacity one; `advance` reserves the permit before it posts the wake, so a
cancelled waiter may find on resuming that it was granted. All steps run on one
strand. What belongs to one path is kept together; arrival gives tickets.
-/

namespace Orangutan.Tool

set_option autoImplicit false

open Orangutan.Core

inductive PathLockMode
  | shared
  | exclusive
  deriving DecidableEq, Repr

/-- The ticket stands for the wake channel of the waiting call. -/
structure Waiter where
  ticket : Nat
  mode : PathLockMode
  deriving DecidableEq

structure LockEntry where
  readers : Nat := 0
  writer : Bool := false
  waiters : List Waiter := []

/-- The receive of a waiting call: suspended, completed with the wake, or completed by a
cancellation. -/
inductive Receive
  | suspended
  | woken
  | cancelled
  deriving DecidableEq

/-- A call of `acquire` that waits. `sent` says that its wake was posted, `stopped` that
its cancellation state is set. -/
structure Acquisition where
  ticket : Nat
  mode : PathLockMode
  receive : Receive := .suspended
  sent : Bool := false
  stopped : Bool := false
  deriving DecidableEq

structure PathLockGuard where
  ticket : Nat
  mode : PathLockMode
  deriving DecidableEq

/-- How a call of `acquire` returned. -/
inductive AcquireOutcome
  | guard
  | cancelled
  | vanished
  deriving DecidableEq

/-- All about one path: its entry in the table, the waiting calls, the guards that are
held, the grants in order and the calls that have returned. -/
structure PathState where
  entry : Option LockEntry := none
  pending : List Acquisition := []
  guards : List PathLockGuard := []
  grants : List Nat := []
  outcomes : List (Nat × AcquireOutcome) := []

namespace PathState

/-- `try_send` on the wake channel: a suspended receive completes, a cancelled one leaves
the value in the buffer. -/
def wake (ticket : Nat) (s : PathState) : PathState :=
  { s with
    pending := s.pending.map fun a =>
      if a.ticket = ticket then
        { a with sent := true, receive := if a.receive = .suspended then .woken else a.receive }
      else a
    grants := s.grants ++ [ticket] }

/-- The entry is erased once nobody holds it or waits for it. -/
def settle (readers : Nat) (writer : Bool) (waiters : List Waiter) (s : PathState) : PathState :=
  { s with entry := if readers == 0 && !writer && waiters.isEmpty then none
    else some ⟨readers, writer, waiters⟩ }

def canWake (readers : Nat) (writer : Bool) : PathLockMode → Bool
  | .exclusive => readers == 0 && !writer
  | .shared => !writer

/-- The loop of `advance`: consecutive readers are granted together, a writer alone. -/
def advance (readers : Nat) (writer : Bool) : List Waiter → PathState → PathState
  | [], s => s.settle readers writer []
  | front :: rest, s =>
    if canWake readers writer front.mode then
      match front.mode with
      | .shared => advance (readers + 1) writer rest (s.wake front.ticket)
      | .exclusive => (s.wake front.ticket).settle readers true rest
    else s.settle readers writer (front :: rest)

/-- Return one permit. -/
def release (mode : PathLockMode) (s : PathState) : PathState :=
  match s.entry with
  | none => s
  | some e =>
    match mode with
    | .shared => s.advance (if 0 < e.readers then e.readers - 1 else e.readers) e.writer e.waiters
    | .exclusive => s.advance e.readers false e.waiters

/-- `acquire` up to its suspension. -/
def acquire (ticket : Nat) (mode : PathLockMode) (stopped : Bool) (s : PathState) : PathState :=
  if stopped then { s with outcomes := s.outcomes ++ [(ticket, AcquireOutcome.cancelled)] }
  else
    let e := s.entry.getD {}
    if e.waiters.isEmpty && !e.writer && (mode == .shared || e.readers == 0) then
      { s with
        entry := some (match mode with
          | .shared => { e with readers := e.readers + 1 }
          | .exclusive => { e with writer := true })
        guards := s.guards ++ [⟨ticket, mode⟩]
        grants := s.grants ++ [ticket]
        outcomes := s.outcomes ++ [(ticket, .guard)] }
    else
      { s with
        entry := some { e with waiters := e.waiters ++ [⟨ticket, mode⟩] }
        pending := s.pending ++ [{ ticket, mode }] }

/-- A cancellation signal reaches a waiting call. -/
def cancel (ticket : Nat) (s : PathState) : PathState :=
  { s with pending := s.pending.map fun a =>
      if a.ticket = ticket then
        { a with stopped := true, receive := if a.receive = .suspended then .cancelled
          else a.receive }
      else a }

/-- `acquire` from its resumption on, when the receive has completed. -/
def resume (ticket : Nat) (s : PathState) : PathState :=
  match s.pending.find? fun a => a.ticket = ticket with
  | none => s
  | some a =>
    if a.receive = .suspended then s
    else
      let left := { s with pending := s.pending.filter fun a => a.ticket ≠ ticket }
      match left.entry with
      | none => { left with outcomes := left.outcomes ++ [(ticket, .vanished)] }
      | some e =>
        if a.receive = .woken ∧ a.stopped = false then
          { left with
            guards := left.guards ++ [⟨ticket, a.mode⟩]
            outcomes := left.outcomes ++ [(ticket, .guard)] }
        else
          let left := { left with outcomes :=
            left.outcomes ++ [(ticket, AcquireOutcome.cancelled)] }
          let waiters := e.waiters.filter fun waiter => waiter.ticket ≠ ticket
          if waiters.length = e.waiters.length then left.release a.mode
          else left.advance e.readers e.writer waiters

/-- A guard is destroyed. -/
def drop (ticket : Nat) (s : PathState) : PathState :=
  match s.guards.find? fun g => g.ticket = ticket with
  | none => s
  | some g => { s with guards := s.guards.filter fun g => g.ticket ≠ ticket }.release g.mode

end PathState

/-- The table with everybody who uses it. -/
structure PathLockTable where
  next : Nat := 0
  paths : Bytes → PathState := fun _ => {}

inductive PathLockOp
  | acquire (path : Bytes) (mode : PathLockMode) (stopped : Bool)
  | cancel (path : Bytes) (ticket : Nat)
  | resume (path : Bytes) (ticket : Nat)
  | drop (path : Bytes) (ticket : Nat)

namespace PathLockTable

def update (path : Bytes) (f : PathState → PathState) (t : PathLockTable) : PathLockTable :=
  { t with paths := Function.update t.paths path (f (t.paths path)) }

def apply (t : PathLockTable) : PathLockOp → PathLockTable
  | .acquire path mode stopped =>
    { t.update path (PathState.acquire t.next mode stopped) with next := t.next + 1 }
  | .cancel path ticket => t.update path (PathState.cancel ticket)
  | .resume path ticket => t.update path (PathState.resume ticket)
  | .drop path ticket => t.update path (PathState.drop ticket)

/-- The table after any interleaving of operations. -/
def run (ops : List PathLockOp) : PathLockTable := ops.foldl apply {}

end PathLockTable

def Acquisition.toWaiter (a : Acquisition) : Waiter := ⟨a.ticket, a.mode⟩

/-- A grant that the call has not consumed yet. -/
def Acquisition.holds (mode : PathLockMode) (a : Acquisition) : Bool := a.sent && a.mode == mode

def PathLockGuard.holds (mode : PathLockMode) (g : PathLockGuard) : Bool := g.mode == mode

namespace PathState

variable {next readers : Nat} {writer : Bool} {waiters : List Waiter} {s : PathState}

/-- The permits of a path: guards that are held and grants that are on their way. -/
def permits (s : PathState) (mode : PathLockMode) : Nat :=
  s.guards.countP (·.holds mode) + s.pending.countP (·.holds mode)

/-- The waiting calls. -/
def tickets (s : PathState) : List Nat := s.pending.map (·.ticket)

/-- The given counts and queue agree with the calls and the guards of the path. -/
structure Agrees (next readers : Nat) (writer : Bool) (waiters : List Waiter) (s : PathState) :
    Prop where
  shared : readers = s.permits .shared
  exclusive : writer.toNat = s.permits .exclusive
  alone : writer = true → readers = 0
  queue : waiters = (s.pending.filter fun a => !a.sent).map (·.toWaiter)
  sorted : s.tickets.Pairwise (· < ·)
  receive : ∀ a ∈ s.pending, (a.receive = .suspended → a.sent = false) ∧
    (a.receive = .woken → a.sent = true)
  guards : (s.guards.map (·.ticket)).Nodup
  apart : ∀ g ∈ s.guards, g.ticket ∉ s.tickets
  order : s.grants.Pairwise (· < ·)
  behind : ∀ g ∈ s.grants, ∀ w ∈ waiters, g < w.ticket
  fresh : (∀ t ∈ s.tickets, t < next) ∧ (∀ g ∈ s.guards, g.ticket < next) ∧ ∀ g ∈ s.grants, g < next
  returned : (s.outcomes.map (·.1)).Nodup ∧ ∀ o ∈ s.outcomes, o.1 < next ∧ o.2 ≠ .vanished ∧
    o.1 ∉ s.tickets

/-- The front waiter could not be granted. -/
def Blocked (readers : Nat) (writer : Bool) (waiters : List Waiter) : Prop :=
  ∀ front rest, waiters = front :: rest → canWake readers writer front.mode = false

/-- What holds of a path between the steps. -/
structure Inv (next : Nat) (s : PathState) : Prop where
  agrees : Agrees next (s.entry.getD {}).readers (s.entry.getD {}).writer
    (s.entry.getD {}).waiters s
  blocked : Blocked (s.entry.getD {}).readers (s.entry.getD {}).writer (s.entry.getD {}).waiters
  used : ∀ e, s.entry = some e → e.readers ≠ 0 ∨ e.writer = true ∨ e.waiters ≠ []

theorem Agrees.withEntry (h : Agrees next readers writer waiters s) (entry : Option LockEntry) :
    Agrees next readers writer waiters { s with entry := entry } :=
  ⟨h.shared, h.exclusive, h.alone, h.queue, h.sorted, h.receive, h.guards, h.apart, h.order,
    h.behind, h.fresh, h.returned⟩

theorem settle_inv (h : Agrees next readers writer waiters s)
    (hblocked : Blocked readers writer waiters) :
    (s.settle readers writer waiters).Inv next := by
  unfold settle
  split
  · next hempty =>
    simp only [Bool.and_eq_true, beq_iff_eq, Bool.not_eq_true', List.isEmpty_iff] at hempty
    obtain ⟨⟨rfl, rfl⟩, rfl⟩ := hempty
    exact ⟨h.withEntry none, hblocked, fun e he => by cases he⟩
  · next hused =>
    refine ⟨h.withEntry _, hblocked, fun e he => ?_⟩
    cases he
    by_contra hnone
    simp only [ne_eq, not_or, not_not, Bool.not_eq_true] at hnone
    exact hused (by simp [hnone])

/-- The first call that was not sent its wake stands at the front of the queue. -/
theorem Agrees.front {front : Waiter} {rest : List Waiter}
    (h : Agrees next readers writer (front :: rest) s) :
    ∃ (before : List Acquisition) (a : Acquisition) (after : List Acquisition),
      s.pending = before ++ a :: after ∧ a.sent = false ∧ a.toWaiter = front ∧
      (∀ b ∈ before, b.ticket < a.ticket) ∧ (∀ b ∈ after, a.ticket < b.ticket) ∧
      (before.filter fun a => !a.sent) = [] ∧
        rest = (after.filter fun a => !a.sent).map (·.toWaiter) := by
  obtain ⟨a, more, hfilter, hfront, hrest⟩ := List.map_eq_cons_iff.mp h.queue.symm
  obtain ⟨before, after, hpending, hbefore, hsent, hmore⟩ := List.filter_eq_cons_iff.mp hfilter
  have hsorted := h.sorted
  rw [tickets, List.pairwise_map, hpending, List.pairwise_append, List.pairwise_cons] at hsorted
  refine ⟨before, a, after, hpending, by simpa using hsent, hfront, fun b hb => ?_,
    hsorted.2.1.1, ?_, ?_⟩
  · exact hsorted.2.2 b hb a List.mem_cons_self
  · exact List.filter_eq_nil_iff.mpr hbefore
  · rw [hmore, hrest]

/-- A call as the wake leaves it. -/
def woken (a : Acquisition) : Acquisition :=
  { a with sent := true, receive := if a.receive = .suspended then .woken else a.receive }

theorem wake_pending {before after : List Acquisition} {a : Acquisition}
    (hpending : s.pending = before ++ a :: after) (hbefore : ∀ b ∈ before, b.ticket < a.ticket)
    (hafter : ∀ b ∈ after, a.ticket < b.ticket) :
    (s.wake a.ticket).pending = before ++ woken a :: after := by
  have hother : ∀ l : List Acquisition, (∀ b ∈ l, b.ticket ≠ a.ticket) →
      (l.map fun b => if b.ticket = a.ticket then woken b else b) = l := by
    intro l hl
    refine (List.map_congr_left fun b hb => ?_).trans (List.map_id _)
    exact if_neg (hl b hb)
  show (s.pending.map fun b => if b.ticket = a.ticket then woken b else b) = _
  rw [hpending, List.map_append, List.map_cons, if_pos rfl,
    hother before fun b hb => Nat.ne_of_lt (hbefore b hb), hother after fun b hb =>
    Nat.ne_of_gt (hafter b hb)]

theorem wake_tickets (t : Nat) : (s.wake t).tickets = s.tickets := by
  show ((s.pending.map _).map _) = _
  rw [List.map_map]
  refine List.map_congr_left fun a _ => ?_
  dsimp only [Function.comp]
  split <;> rfl

theorem holds_woken (mode : PathLockMode) (a : Acquisition) :
    (woken a).holds mode = (a.mode == mode) := by
  simp [woken, Acquisition.holds]

/-- The front waiter is granted: its permit is counted before it resumes. -/
theorem Agrees.wake {front : Waiter} {rest : List Waiter}
    (h : Agrees next readers writer (front :: rest) s) {readers' : Nat} {writer' : Bool}
    (halone : writer' = true → readers' = 0)
    (hreaders : readers' = readers + if front.mode = .shared then 1 else 0)
    (hwriter : writer'.toNat = writer.toNat + if front.mode = .exclusive then 1 else 0) :
    Agrees next readers' writer' rest (s.wake front.ticket) := by
  obtain ⟨before, a, after, hpending, hsent, rfl, hbefore, hafter, hnone, hrest⟩ := h.front
  have hmarked := wake_pending hpending hbefore hafter
  have hpermits : ∀ mode, (s.wake a.ticket).permits mode =
      s.permits mode + if a.mode = mode then 1 else 0 := by
    intro mode
    have hguards : (s.wake a.ticket).guards = s.guards := rfl
    have hold : a.holds mode = false := by simp [Acquisition.holds, hsent]
    simp only [permits, hmarked, hpending, hguards, List.countP_append, List.countP_cons,
      holds_woken, hold, beq_iff_eq, Bool.false_eq_true, if_false]
    omega
  have htickets := wake_tickets (s := s) a.ticket
  refine ⟨?_, ?_, halone, ?_, ?_, ?_, h.guards, ?_, ?_, ?_, ?_, ?_⟩
  · show readers' = (s.wake a.ticket).permits .shared
    rw [hpermits, ← h.shared, hreaders]
    rfl
  · show writer'.toNat = (s.wake a.ticket).permits .exclusive
    rw [hpermits, ← h.exclusive, hwriter]
    rfl
  · show rest = ((s.wake a.ticket).pending.filter _).map _
    rw [hmarked, List.filter_append, hnone, List.filter_cons_of_neg (by simp [woken]),
      List.nil_append]
    exact hrest
  · show (s.wake a.ticket).tickets.Pairwise _
    rw [htickets]
    exact h.sorted
  · intro b hb
    have hb : b ∈ (s.wake a.ticket).pending := hb
    rw [hmarked] at hb
    rcases List.mem_append.mp hb with hb | hb
    · exact h.receive b (by rw [hpending]; exact List.mem_append_left _ hb)
    rcases List.mem_cons.mp hb with rfl | hb
    · refine ⟨fun hq => ?_, fun _ => rfl⟩
      by_cases hs : a.receive = .suspended
      · simp [woken, hs] at hq
      · simp [woken, hs] at hq
    · exact h.receive b
        (by rw [hpending]; exact List.mem_append_right _ (List.mem_cons_of_mem _ hb))
  · intro g hg
    show g.ticket ∉ (s.wake a.ticket).tickets
    rw [htickets]
    exact h.apart g hg
  · show (s.grants ++ [a.ticket]).Pairwise (· < ·)
    rw [List.pairwise_append]
    refine ⟨h.order, List.pairwise_singleton _ _, fun g hg t ht => ?_⟩
    rw [List.mem_singleton.mp ht]
    exact h.behind g hg _ List.mem_cons_self
  · show ∀ g ∈ s.grants ++ [a.ticket], ∀ w ∈ rest, g < w.ticket
    intro g hg w hw
    rcases List.mem_append.mp hg with hg | hg
    · exact h.behind g hg w (List.mem_cons_of_mem _ hw)
    · rw [List.mem_singleton.mp hg]
      rw [hrest] at hw
      obtain ⟨b, hb, rfl⟩ := List.mem_map.mp hw
      exact hafter b (List.mem_of_mem_filter hb)
  · refine ⟨?_, h.fresh.2.1, ?_⟩
    · show ∀ t ∈ (s.wake a.ticket).tickets, t < next
      rw [htickets]
      exact h.fresh.1
    · show ∀ g ∈ s.grants ++ [a.ticket], g < next
      intro g hg
      rcases List.mem_append.mp hg with hg | hg
      · exact h.fresh.2.2 g hg
      · rw [List.mem_singleton.mp hg]
        exact h.fresh.1 a.ticket (by simp [tickets, hpending])
  · refine ⟨h.returned.1, fun o ho => ?_⟩
    show _ ∧ _ ∧ o.1 ∉ (s.wake a.ticket).tickets
    rw [htickets]
    exact h.returned.2 o ho

theorem advance_inv (h : Agrees next readers writer waiters s) :
    (s.advance readers writer waiters).Inv next := by
  induction waiters generalizing readers writer s with
  | nil => exact settle_inv h fun front rest hq => by cases hq
  | cons front rest ih =>
    rw [advance]
    split
    · next hcan =>
      split
      · next hmode =>
        simp only [hmode, canWake, Bool.not_eq_true'] at hcan
        subst hcan
        exact ih (h.wake (fun hw => by cases hw) (by simp [hmode]) (by simp [hmode]))
      · next hmode =>
        simp only [hmode, canWake, Bool.and_eq_true, beq_iff_eq, Bool.not_eq_true'] at hcan
        obtain ⟨rfl, rfl⟩ := hcan
        refine settle_inv (h.wake (fun _ => rfl) (by simp [hmode]) (by simp [hmode]))
          fun first more _ => ?_
        cases first.mode <;> simp [canWake]
    · next hcan =>
      refine settle_inv h fun first more hq => ?_
      cases hq
      simpa using hcan

theorem Agrees.nodup (h : Agrees next readers writer waiters s) : s.tickets.Nodup :=
  h.sorted.imp fun hlt => Nat.ne_of_lt hlt

theorem Agrees.mono {next' : Nat} (h : Agrees next readers writer waiters s) (hle : next ≤ next') :
    Agrees next' readers writer waiters s :=
  ⟨h.shared, h.exclusive, h.alone, h.queue, h.sorted, h.receive, h.guards, h.apart, h.order,
    h.behind, ⟨fun t ht => Nat.lt_of_lt_of_le (h.fresh.1 t ht) hle,
    fun g hg => Nat.lt_of_lt_of_le (h.fresh.2.1 g hg) hle, fun g hg =>
    Nat.lt_of_lt_of_le (h.fresh.2.2 g hg) hle⟩, h.returned.1, fun o ho =>
    ⟨Nat.lt_of_lt_of_le (h.returned.2 o ho).1 hle, (h.returned.2 o ho).2⟩⟩

theorem Inv.mono {next' : Nat} (h : s.Inv next) (hle : next ≤ next') : s.Inv next' :=
  ⟨h.agrees.mono hle, h.blocked, h.used⟩

theorem inv_empty (next : Nat) : ({} : PathState).Inv next := by
  refine ⟨?_, fun front rest hq => (by cases hq), fun e he => (by cases he)⟩
  constructor
  all_goals simp [permits, tickets]

theorem permits_pos (h : s.Inv next) (mode : PathLockMode) (hpos : 0 < s.permits mode) :
    ∃ e, s.entry = some e := by
  cases he : s.entry with
  | some e => exact ⟨e, rfl⟩
  | none =>
    have hshared := h.agrees.shared
    have hexclusive := h.agrees.exclusive
    rw [he] at hshared hexclusive
    simp only [Option.getD_none, Bool.toNat_false] at hshared hexclusive
    cases mode <;> omega

/-- A permit that is no longer counted is returned. -/
theorem release_inv {e : LockEntry} (he : s.entry = some e) {mode : PathLockMode}
    (h : Agrees next (if mode = .shared then e.readers - 1 else e.readers)
      (if mode = .shared then e.writer else false) e.waiters s) (hpos : mode = .shared →
        0 < e.readers) :
    (s.release mode).Inv next := by
  unfold release
  rw [he]
  cases mode with
  | shared =>
    dsimp only
    rw [if_pos (hpos rfl)]
    exact advance_inv h
  | exclusive => exact advance_inv h

theorem Inv.cancel_inv (h : s.Inv next) (ticket : Nat) : (s.cancel ticket).Inv next := by
  generalize hf : (fun a : Acquisition => if a.ticket = ticket then
    { a with stopped := true, receive := if a.receive = .suspended then .cancelled else a.receive }
      else a) = f
  have hticket : ∀ a, (f a).ticket = a.ticket := by
    intro a
    rw [← hf]
    dsimp only
    split <;> rfl
  have hwaiter : ∀ a, (f a).toWaiter = a.toWaiter := by
    intro a
    rw [← hf]
    dsimp only
    split <;> rfl
  have hsent : ∀ a, (f a).sent = a.sent := by
    intro a
    rw [← hf]
    dsimp only
    split <;> rfl
  have hholds : ∀ mode a, (f a).holds mode = a.holds mode := by
    intro mode a
    rw [← hf]
    dsimp only
    split <;> rfl
  have hpending : (s.cancel ticket).pending = s.pending.map f := by rw [← hf]; rfl
  have htickets : (s.cancel ticket).tickets = s.tickets := by
    rw [tickets, hpending, List.map_map]
    exact List.map_congr_left fun a _ => hticket a
  have hpermits : ∀ mode, (s.cancel ticket).permits mode = s.permits mode := by
    intro mode
    rw [permits, hpending, List.countP_map]
    refine congrArg (_ + ·) (List.countP_congr fun a _ => ?_)
    rw [Function.comp, hholds]
  refine ⟨⟨?_, ?_, h.agrees.alone, ?_, ?_, ?_, h.agrees.guards, ?_, h.agrees.order, h.agrees.behind,
    ?_, ?_⟩, h.blocked, h.used⟩
  · rw [hpermits]
    exact h.agrees.shared
  · rw [hpermits]
    exact h.agrees.exclusive
  · have hunsent : (fun a : Acquisition => !a.sent) ∘ f = fun a => !a.sent := by
      funext a
      rw [Function.comp, hsent]
    rw [hpending, List.filter_map, hunsent, List.map_map]
    refine h.agrees.queue.trans (List.map_congr_left fun a _ => ?_)
    rw [Function.comp, hwaiter]
  · rw [htickets]
    exact h.agrees.sorted
  · rw [hpending]
    intro b hb
    obtain ⟨a, ha, rfl⟩ := List.mem_map.mp hb
    have hreceive := h.agrees.receive a ha
    rw [← hf]
    dsimp only
    split
    · by_cases hs : a.receive = .suspended
      · simp [hs]
      · simpa [hs] using hreceive
    · exact hreceive
  · rw [htickets]
    exact h.agrees.apart
  · rw [htickets]
    exact h.agrees.fresh
  · rw [htickets]
    exact h.agrees.returned

theorem Inv.drop_inv (h : s.Inv next) (ticket : Nat) : (s.drop ticket).Inv next := by
  unfold drop
  split
  · exact h
  next g hg =>
  obtain rfl : g.ticket = ticket := by simpa using List.find?_some hg
  have hperm := Lib.perm_cons_filter h.agrees.guards (List.mem_of_find?_eq_some hg)
  generalize hleft : ({ s with guards := s.guards.filter fun b => b.ticket ≠ g.ticket } :
    PathState) = left
  have hguards : left.guards = s.guards.filter fun b => b.ticket ≠ g.ticket := by rw [← hleft]
  have hpermits : ∀ mode, s.permits mode = left.permits mode + if g.mode = mode then 1 else 0 := by
    intro mode
    have hpending : left.pending = s.pending := by rw [← hleft]
    have hcount := hperm.countP_eq (·.holds mode)
    rw [List.countP_cons, ← hguards] at hcount
    simp only [PathLockGuard.holds, beq_iff_eq] at hcount
    rw [permits, permits, hpending]
    simp only [PathLockGuard.holds]
    omega
  obtain ⟨e, he⟩ := permits_pos h g.mode (by rw [hpermits g.mode, if_pos rfl]; exact Nat.succ_pos _)
  have hagrees := h.agrees
  rw [he] at hagrees
  have hshared := hagrees.shared
  have hexclusive := hagrees.exclusive
  rw [hpermits] at hshared hexclusive
  simp only [Option.getD_some] at hshared hexclusive
  have hsub : ∀ b ∈ left.guards, b ∈ s.guards := fun b hb => List.mem_of_mem_filter (hguards ▸ hb)
  have hentry : left.entry = some e := by rw [← hleft]; exact he
  refine release_inv hentry ?_ fun hmode => ?_
  · have hfields : left.pending = s.pending ∧ left.grants = s.grants ∧ left.outcomes = s.outcomes ∧
        left.tickets = s.tickets := by rw [← hleft]; exact ⟨rfl, rfl, rfl, rfl⟩
    obtain ⟨hpending, hgrants, houtcomes, htickets⟩ := hfields
    refine ⟨?_, ?_, fun hw => ?_, ?_, ?_, ?_, ?_, ?_, ?_, ?_, ?_, ?_⟩
    · cases hmode : g.mode <;> simp [hmode] at hshared ⊢ <;> omega
    · cases hmode : g.mode
      · simpa [hmode] using hexclusive
      · have := Bool.toNat_le e.writer
        simp [hmode] at hexclusive ⊢
        omega
    · cases hmode : g.mode
      · simp only [hmode, if_true] at hw ⊢
        have := hagrees.alone hw
        simp only [Option.getD_some] at this
        omega
      · simp [hmode] at hw
    · rw [hpending]
      exact hagrees.queue
    · rw [htickets]
      exact hagrees.sorted
    · rw [hpending]
      exact hagrees.receive
    · rw [hguards]
      exact hagrees.guards.sublist (List.filter_sublist.map _)
    · rw [htickets]
      exact fun b hb => hagrees.apart b (hsub b hb)
    · rw [hgrants]
      exact hagrees.order
    · rw [hgrants]
      exact hagrees.behind
    · rw [htickets, hgrants]
      exact ⟨hagrees.fresh.1, fun b hb => hagrees.fresh.2.1 b (hsub b hb), hagrees.fresh.2.2⟩
    · rw [htickets, houtcomes]
      exact hagrees.returned
  · simp [hmode] at hshared
    omega

/-- The path once a waiting call has returned. -/
def leave (ticket : Nat) (outcome : AcquireOutcome) (s : PathState) : PathState :=
  { s with
    pending := s.pending.filter fun a => a.ticket ≠ ticket
    outcomes := s.outcomes ++ [(ticket, outcome)] }

theorem Agrees.leave (h : Agrees next readers writer waiters s) {a : Acquisition}
    (ha : a ∈ s.pending) {outcome : AcquireOutcome} (hout : outcome ≠ .vanished) {readers' : Nat}
    {writer' : Bool} (halone : writer' = true → readers' = 0)
    (hreaders : readers = readers' + if a.holds .shared then 1 else 0)
    (hwriter : writer.toNat = writer'.toNat + if a.holds .exclusive then 1 else 0) :
    Agrees next readers' writer' (waiters.filter fun w => w.ticket ≠ a.ticket)
      (s.leave a.ticket outcome) := by
  have hperm := Lib.perm_cons_filter h.nodup ha
  have hpermits : ∀ mode, s.permits mode =
      (s.leave a.ticket outcome).permits mode + if a.holds mode then 1 else 0 := by
    intro mode
    have hcount := hperm.countP_eq (·.holds mode)
    rw [List.countP_cons] at hcount
    show s.guards.countP _ + s.pending.countP _ = s.guards.countP _ +
      (s.pending.filter fun b => b.ticket ≠ a.ticket).countP _ + _
    omega
  have htickets : (s.leave a.ticket outcome).tickets = s.tickets.filter fun t => t ≠ a.ticket := by
    rw [tickets, tickets, List.filter_map]
    rfl
  have hsub : ∀ t ∈ (s.leave a.ticket outcome).tickets, t ∈ s.tickets ∧ t ≠ a.ticket := by
    intro t ht
    rw [htickets, List.mem_filter] at ht
    exact ⟨ht.1, by simpa using ht.2⟩
  have hshared := h.shared
  have hexclusive := h.exclusive
  rw [hpermits] at hshared hexclusive
  refine ⟨by omega, by omega, halone, ?_, ?_, ?_, h.guards, ?_, h.order, ?_, ?_, ?_⟩
  · rw [h.queue, List.filter_map]
    show _ = ((s.pending.filter fun b => b.ticket ≠ a.ticket).filter fun b => !b.sent).map _
    rw [List.filter_filter, List.filter_filter]
    refine congrArg (List.map _) (List.filter_congr fun b _ => ?_)
    exact Bool.and_comm _ _
  · rw [htickets]
    exact h.sorted.sublist List.filter_sublist
  · exact fun b hb => h.receive b (List.mem_of_mem_filter hb)
  · exact fun g hg hmem => h.apart g hg (hsub _ hmem).1
  · exact fun g hg w hw => h.behind g hg w (List.mem_of_mem_filter hw)
  · exact ⟨fun t ht => h.fresh.1 t (hsub t ht).1, h.fresh.2⟩
  · have hmem : a.ticket ∈ s.tickets := List.mem_map_of_mem ha
    constructor
    · show ((s.outcomes ++ [(a.ticket, outcome)]).map (·.1)).Nodup
      rw [List.map_append, List.nodup_append]
      refine ⟨h.returned.1, List.nodup_singleton _, fun t ht u hu => ?_⟩
      obtain ⟨o, ho, rfl⟩ := List.mem_map.mp ht
      rw [List.mem_singleton.mp hu]
      exact fun hq => (h.returned.2 o ho).2.2 (hq ▸ hmem)
    · show ∀ o ∈ s.outcomes ++ [(a.ticket, outcome)], _
      intro o ho
      rcases List.mem_append.mp ho with ho | ho
      · obtain ⟨hlt, hne, hnot⟩ := h.returned.2 o ho
        exact ⟨hlt, hne, fun hm => hnot (hsub _ hm).1⟩
      · rw [List.mem_singleton.mp ho]
        exact ⟨h.fresh.1 _ hmem, hout, fun hm => (hsub _ hm).2 rfl⟩

/-- A call that was sent its wake is not in the queue. -/
theorem Agrees.queue_filter (h : Agrees next readers writer waiters s) {a : Acquisition}
    (ha : a ∈ s.pending) :
    (a.sent = true → (waiters.filter fun w => w.ticket ≠ a.ticket) = waiters) ∧
    (a.sent = false → (waiters.filter fun w => w.ticket ≠ a.ticket).length ≠ waiters.length) := by
  constructor
  · intro hsent
    rw [List.filter_eq_self, h.queue]
    intro w hw
    obtain ⟨b, hb, rfl⟩ := List.mem_map.mp hw
    obtain ⟨hb, hunsent⟩ := List.mem_filter.mp hb
    refine decide_eq_true fun hq => ?_
    have hab : b = a := List.inj_on_of_nodup_map h.nodup hb ha hq
    subst hab
    simp [hsent] at hunsent
  · intro hsent hlength
    have hall := List.length_filter_eq_length_iff.mp hlength
    have hmem : a.toWaiter ∈ waiters := by
      rw [h.queue]
      exact List.mem_map_of_mem (List.mem_filter.mpr ⟨ha, by simp [hsent]⟩)
    simpa [Acquisition.toWaiter] using hall _ hmem

/-- A guard is handed out. -/
theorem Agrees.gain (h : Agrees next readers writer waiters s) {g : PathLockGuard}
    (hlt : g.ticket < next) (hnew : g.ticket ∉ s.guards.map (·.ticket))
    (happart : g.ticket ∉ s.tickets) {readers' : Nat} {writer' : Bool}
    (halone : writer' = true → readers' = 0)
    (hreaders : readers' = readers + if g.mode = .shared then 1 else 0)
    (hwriter : writer'.toNat = writer.toNat + if g.mode = .exclusive then 1 else 0) :
    Agrees next readers' writer' waiters { s with guards := s.guards ++ [g] } := by
  have hpermits : ∀ mode, ({ s with guards := s.guards ++ [g] } : PathState).permits mode =
      s.permits mode + if g.mode = mode then 1 else 0 := by
    intro mode
    simp only [permits, List.countP_append, List.countP_singleton, PathLockGuard.holds, beq_iff_eq]
    omega
  refine ⟨?_, ?_, halone, h.queue, h.sorted, h.receive, ?_, fun d hd => ?_, h.order, h.behind,
    ⟨h.fresh.1, fun d hd => ?_, h.fresh.2.2⟩, h.returned⟩
  · rw [hpermits, ← h.shared]
    exact hreaders
  · rw [hpermits, ← h.exclusive]
    exact hwriter
  · rw [List.map_append, List.nodup_append]
    refine ⟨h.guards, List.nodup_singleton _, fun t ht u hu => ?_⟩
    rw [List.mem_singleton.mp hu]
    rintro rfl
    exact hnew ht
  · rcases List.mem_append.mp hd with hd | hd
    · exact h.apart d hd
    · rw [List.mem_singleton.mp hd]
      exact happart
  · rcases List.mem_append.mp hd with hd | hd
    · exact h.fresh.2.1 d hd
    · rw [List.mem_singleton.mp hd]
      exact hlt

/-- A waiting call has an entry to come back to. -/
theorem Inv.entry (h : s.Inv next) {a : Acquisition} (ha : a ∈ s.pending) :
    ∃ e, s.entry = some e := by
  by_cases hsent : a.sent = true
  · refine permits_pos h a.mode (Nat.lt_of_lt_of_le ?_ (Nat.le_add_left _ _))
    exact List.countP_pos_iff.mpr ⟨a, ha, by simp [Acquisition.holds, hsent]⟩
  · cases he : s.entry with
    | some e => exact ⟨e, rfl⟩
    | none =>
      have hlength := (h.agrees.queue_filter ha).2 (by simpa using hsent)
      simp [he] at hlength

/-- A granted call takes its permit with it. -/
theorem Agrees.leave_sent (h : Agrees next readers writer waiters s) {a : Acquisition}
    (ha : a ∈ s.pending) (hsent : a.sent = true) {outcome : AcquireOutcome}
    (hout : outcome ≠ .vanished) :
    Agrees next (if a.mode = .shared then readers - 1 else readers) (if a.mode = .shared then writer
      else false)
      waiters (s.leave a.ticket outcome) ∧
    (a.mode = .shared → 0 < readers) ∧ (a.mode = .exclusive → writer = true) := by
  have hholds : ∀ mode, a.holds mode = (a.mode == mode) :=
    fun mode => by simp [Acquisition.holds, hsent]
  have hcounted : 0 < s.permits a.mode := by
    refine Nat.lt_of_lt_of_le ?_ (Nat.le_add_left _ _)
    exact List.countP_pos_iff.mpr ⟨a, ha, by simp [hholds]⟩
  have hshared := h.shared
  have hexclusive := h.exclusive
  have hleave : ∀ {readers' : Nat} {writer' : Bool}, (writer' = true → readers' = 0) →
      readers = readers' + (if a.holds .shared then 1 else 0) →
      writer.toNat = writer'.toNat + (if a.holds .exclusive then 1 else 0) →
      Agrees next readers' writer' waiters (s.leave a.ticket outcome) := by
    intro readers' writer' halone hr hw
    have hleft := h.leave ha hout halone hr hw
    rw [(h.queue_filter ha).1 hsent] at hleft
    exact hleft
  cases hmode : a.mode with
  | shared =>
    rw [hmode, ← hshared] at hcounted
    refine ⟨hleave ?_ ?_ ?_, fun _ => hcounted, fun hq => (by cases hq)⟩
    · intro hw
      have := h.alone hw
      omega
    · simp [hholds, hmode]
      omega
    · simp [hholds, hmode]
  | exclusive =>
    rw [hmode, ← hexclusive] at hcounted
    have hw : writer = true := by
      cases writer
      · cases hcounted
      · rfl
    refine ⟨hleave (fun hq => (by cases hq)) ?_ ?_, fun hq => (by cases hq), fun _ => hw⟩
    · simp [hholds, hmode]
    · simp [hholds, hmode, hw]

theorem Inv.resume_inv (h : s.Inv next) (ticket : Nat) : (s.resume ticket).Inv next := by
  unfold resume
  split
  · exact h
  next a hfind =>
  obtain rfl : a.ticket = ticket := by simpa using List.find?_some hfind
  have ha := List.mem_of_find?_eq_some hfind
  split
  · exact h
  dsimp only
  split
  · next hnone =>
    obtain ⟨e, he⟩ := h.entry ha
    rw [he] at hnone
    cases hnone
  next e he =>
  have hagrees := h.agrees
  have hblocked := h.blocked
  simp only [he, Option.getD_some] at hagrees hblocked
  split
  · next hwoken =>
    have hsent : a.sent = true := (hagrees.receive a ha).2 hwoken.1
    have hmem : a.ticket ∈ s.tickets := List.mem_map_of_mem ha
    have hguard : AcquireOutcome.guard ≠ .vanished := by decide
    obtain ⟨hleft, hreaders, hwriter⟩ := hagrees.leave_sent ha hsent hguard
    have hgained : Agrees next e.readers e.writer e.waiters
        { s.leave a.ticket .guard with guards := (s.leave a.ticket .guard).guards ++
          [⟨a.ticket, a.mode⟩] } := by
      refine hleft.gain (hagrees.fresh.1 _ hmem) ?_ ?_ hagrees.alone ?_ ?_
      · rintro hold
        obtain ⟨g, hg, hq⟩ := List.mem_map.mp hold
        exact hagrees.apart g hg (hq ▸ hmem)
      · exact (hleft.returned.2 (a.ticket, .guard) (by simp [leave])).2.2
      · cases hmode : a.mode
        · have := hreaders hmode
          simp
          omega
        · simp
      · cases hmode : a.mode
        · simp
        · simp [hwriter hmode]
    have hresult : Agrees next (s.entry.getD {}).readers (s.entry.getD {}).writer
      (s.entry.getD {}).waiters
        { s.leave a.ticket .guard with guards := (s.leave a.ticket .guard).guards ++
          [⟨a.ticket, a.mode⟩] } := by
      rw [he]
      exact hgained
    refine ⟨hresult, ?_, h.used⟩
    · show Blocked (s.entry.getD {}).readers (s.entry.getD {}).writer (s.entry.getD {}).waiters
      rw [he]
      exact hblocked
  · have hcancelled : AcquireOutcome.cancelled ≠ .vanished := by decide
    by_cases hsent : a.sent = true
    · rw [(hagrees.queue_filter ha).1 hsent, if_pos rfl]
      obtain ⟨hleft, hreaders, -⟩ := hagrees.leave_sent ha hsent hcancelled
      have hentry : (s.leave a.ticket .cancelled).entry = some e := he
      exact release_inv hentry hleft hreaders
    · have hunsent : a.sent = false := by simpa using hsent
      rw [if_neg ((hagrees.queue_filter ha).2 hunsent)]
      have hnone : ∀ mode, a.holds mode = false := fun mode => by simp [Acquisition.holds, hunsent]
      exact advance_inv (hagrees.leave ha hcancelled hagrees.alone (by simp [hnone])
        (by simp [hnone]))

/-- A call returns without waiting. -/
theorem Agrees.note (h : Agrees next readers writer waiters s) {outcome : AcquireOutcome}
    (hout : outcome ≠ .vanished) :
    Agrees (next + 1) readers writer waiters { s with outcomes :=
      s.outcomes ++ [(next, outcome)] } := by
  have hmono := h.mono (Nat.le_succ next)
  refine ⟨h.shared, h.exclusive, h.alone, h.queue, h.sorted, h.receive, h.guards, h.apart, h.order,
    h.behind, hmono.fresh, ?_, fun o ho => ?_⟩
  · rw [List.map_append, List.nodup_append]
    refine ⟨h.returned.1, List.nodup_singleton _, fun t ht u hu => ?_⟩
    obtain ⟨o, ho, rfl⟩ := List.mem_map.mp ht
    rw [List.mem_singleton.mp hu]
    exact Nat.ne_of_lt (h.returned.2 o ho).1
  · rcases List.mem_append.mp ho with ho | ho
    · exact hmono.returned.2 o ho
    · rw [List.mem_singleton.mp ho]
      exact ⟨Nat.lt_succ_self next, hout, fun hm => Nat.lt_irrefl _ (h.fresh.1 _ hm)⟩

/-- The newest call is granted at once, which needs an empty queue. -/
theorem Agrees.take (h : Agrees next readers writer [] s) (mode : PathLockMode) (readers' : Nat)
    (writer' : Bool) (halone : writer' = true → readers' = 0)
    (hreaders : readers' = readers + if mode = .shared then 1 else 0)
    (hwriter : writer'.toNat = writer.toNat + if mode = .exclusive then 1 else 0) :
    Agrees (next + 1) readers' writer' []
      { s with
        guards := s.guards ++ [⟨next, mode⟩]
        grants := s.grants ++ [next]
        outcomes := s.outcomes ++ [(next, .guard)] } := by
  have hguard : AcquireOutcome.guard ≠ .vanished := by decide
  have hgained : Agrees (next + 1) readers' writer' []
      { s with
        guards := s.guards ++ [⟨next, mode⟩], outcomes := s.outcomes ++ [(next, .guard)] } := by
    refine (h.note hguard).gain (Nat.lt_succ_self next) ?_ ?_ halone hreaders hwriter
    · rintro hold
      obtain ⟨g, hg, hq⟩ := List.mem_map.mp hold
      exact Nat.ne_of_lt (h.fresh.2.1 g hg) hq
    · exact fun hm => Nat.lt_irrefl _ (h.fresh.1 _ hm)
  refine ⟨hgained.shared, hgained.exclusive, halone, hgained.queue, hgained.sorted, hgained.receive,
    hgained.guards, hgained.apart, ?_, fun _ _ w hw => (by cases hw),
    ⟨hgained.fresh.1, hgained.fresh.2.1, fun g hg => ?_⟩, hgained.returned⟩
  · rw [List.pairwise_append]
    refine ⟨h.order, List.pairwise_singleton _ _, fun g hg t ht => ?_⟩
    rw [List.mem_singleton.mp ht]
    exact h.fresh.2.2 g hg
  · rcases List.mem_append.mp hg with hg | hg
    · exact hgained.fresh.2.2 g hg
    · rw [List.mem_singleton.mp hg]
      exact Nat.lt_succ_self next

/-- The newest call joins the queue at its end. -/
theorem Agrees.enqueue (h : Agrees next readers writer waiters s) (mode : PathLockMode) :
    Agrees (next + 1) readers writer (waiters ++ [⟨next, mode⟩])
      { s with pending := s.pending ++ [⟨next, mode, .suspended, false, false⟩] } := by
  have hmono := h.mono (Nat.le_succ next)
  generalize hjoined :
    ({ s with pending := s.pending ++ [⟨next, mode, .suspended, false, false⟩] } : PathState) =
    joined
  have hpending : joined.pending = s.pending ++ [⟨next, mode, .suspended, false, false⟩] := by
    rw [← hjoined]
  have hfields : joined.guards = s.guards ∧ joined.grants = s.grants ∧
      joined.outcomes = s.outcomes := by
    rw [← hjoined]
    exact ⟨rfl, rfl, rfl⟩
  obtain ⟨hguards, hgrants, houtcomes⟩ := hfields
  have htickets : joined.tickets = s.tickets ++ [next] := by
    rw [tickets, hpending, List.map_append]
    rfl
  have hpermits : ∀ m, joined.permits m = s.permits m := by
    intro m
    simp [permits, hpending, hguards, Acquisition.holds]
  refine ⟨?_, ?_, h.alone, ?_, ?_, ?_, ?_, ?_, ?_, ?_, ?_, ?_⟩
  · rw [hpermits]
    exact h.shared
  · rw [hpermits]
    exact h.exclusive
  · rw [hpending, List.filter_append, List.map_append, h.queue]
    rfl
  · rw [htickets, List.pairwise_append]
    refine ⟨h.sorted, List.pairwise_singleton _ _, fun t ht u hu => ?_⟩
    rw [List.mem_singleton.mp hu]
    exact h.fresh.1 t ht
  · rw [hpending]
    intro a ha
    rcases List.mem_append.mp ha with ha | ha
    · exact h.receive a ha
    · rw [List.mem_singleton.mp ha]
      exact ⟨fun _ => rfl, fun hq => (by cases hq)⟩
  · rw [hguards]
    exact h.guards
  · rw [hguards, htickets]
    intro g hg hm
    rcases List.mem_append.mp hm with hm | hm
    · exact h.apart g hg hm
    · exact Nat.ne_of_lt (h.fresh.2.1 g hg) (List.mem_singleton.mp hm)
  · rw [hgrants]
    exact h.order
  · rw [hgrants]
    intro g hg w hw
    rcases List.mem_append.mp hw with hw | hw
    · exact h.behind g hg w hw
    · rw [List.mem_singleton.mp hw]
      exact h.fresh.2.2 g hg
  · rw [hguards, hgrants, htickets]
    refine ⟨fun t ht => ?_, hmono.fresh.2⟩
    rcases List.mem_append.mp ht with ht | ht
    · exact hmono.fresh.1 t ht
    · rw [List.mem_singleton.mp ht]
      exact Nat.lt_succ_self next
  · rw [houtcomes, htickets]
    refine ⟨h.returned.1, fun o ho => ?_⟩
    obtain ⟨hlt, hne, hnot⟩ := h.returned.2 o ho
    refine ⟨Nat.lt_succ_of_lt hlt, hne, fun hm => ?_⟩
    rcases List.mem_append.mp hm with hm | hm
    · exact hnot hm
    · exact Nat.ne_of_lt hlt (List.mem_singleton.mp hm)

theorem Inv.acquire_inv (h : s.Inv next) (mode : PathLockMode) (stopped : Bool) :
    (s.acquire next mode stopped).Inv (next + 1) := by
  have hcancelled : AcquireOutcome.cancelled ≠ .vanished := by decide
  unfold acquire
  split
  · exact ⟨h.agrees.note hcancelled, h.blocked, h.used⟩
  dsimp only
  have hagrees := h.agrees
  have hblocked := h.blocked
  generalize s.entry.getD {} = e at hagrees hblocked ⊢
  obtain ⟨readers, writer, waiters⟩ := e
  dsimp only at hagrees hblocked ⊢
  split
  · next htake =>
    simp only [Bool.and_eq_true, List.isEmpty_iff, Bool.not_eq_true', Bool.or_eq_true,
      beq_iff_eq] at htake
    obtain ⟨⟨rfl, rfl⟩, hfree⟩ := htake
    have hnone : ∀ readers' writer', Blocked readers' writer' [] := fun _ _ front rest hq => by
      cases hq
    cases mode with
    | shared =>
      have htaken := hagrees.take .shared (readers + 1) false (fun hq => (by cases hq)) rfl rfl
      refine ⟨htaken.withEntry _, hnone _ _, fun e he => ?_⟩
      cases he
      exact .inl (Nat.succ_ne_zero readers)
    | exclusive =>
      obtain rfl : readers = 0 := by simpa using hfree
      have htaken := hagrees.take .exclusive 0 true (fun _ => rfl) rfl rfl
      refine ⟨htaken.withEntry _, hnone _ _, fun e he => ?_⟩
      cases he
      exact .inr (.inl rfl)
  · next htake =>
    refine ⟨(hagrees.enqueue mode).withEntry _, ?_, fun e he => ?_⟩
    · intro front rest hq
      have hq : waiters ++ [⟨next, mode⟩] = front :: rest := hq
      cases waiters with
      | nil =>
        -- the new call heads the queue, and it could not be granted at once
        obtain ⟨rfl, rfl⟩ := List.cons.inj hq
        cases mode
        · simpa [canWake] using htake
        · cases writer
          · simpa [canWake] using htake
          · simp [canWake]
      | cons first more =>
        obtain ⟨rfl, -⟩ := List.cons.inj hq
        exact hblocked first more rfl
    · cases he
      exact .inr (.inr (by simp))

end PathState

namespace PathLockTable

def Inv (t : PathLockTable) : Prop := ∀ path, (t.paths path).Inv t.next

theorem Inv.update {t : PathLockTable} (h : t.Inv) (path : Bytes) {f : PathState → PathState}
    {next : Nat} (hle : t.next ≤ next) (hf : (f (t.paths path)).Inv next) :
    ({ t.update path f with next := next } : PathLockTable).Inv := by
  intro other
  show (Function.update t.paths path (f (t.paths path)) other).Inv next
  by_cases hq : other = path
  · subst hq
    rw [Function.update_self]
    exact hf
  · rw [Function.update_of_ne hq]
    exact (h other).mono hle

theorem apply_inv {t : PathLockTable} (h : t.Inv) (op : PathLockOp) : (t.apply op).Inv := by
  cases op with
  | acquire path mode stopped =>
      exact h.update path (Nat.le_succ _) ((h path).acquire_inv mode stopped)
  | cancel path ticket => exact h.update path (Nat.le_refl _) ((h path).cancel_inv ticket)
  | resume path ticket => exact h.update path (Nat.le_refl _) ((h path).resume_inv ticket)
  | drop path ticket => exact h.update path (Nat.le_refl _) ((h path).drop_inv ticket)

theorem run_inv (ops : List PathLockOp) : (run ops).Inv :=
  List.foldlRecOn ops apply (fun _ => PathState.inv_empty 0) fun _ h op _ => apply_inv h op

end PathLockTable

namespace PathState

variable {next : Nat} {s : PathState}

theorem advance_frame (readers : Nat) (writer : Bool) (waiters : List Waiter) (s : PathState) :
    (s.advance readers writer waiters).guards = s.guards ∧
    (s.advance readers writer waiters).outcomes = s.outcomes ∧
    (s.advance readers writer waiters).tickets = s.tickets := by
  induction waiters generalizing readers s with
  | nil => exact ⟨rfl, rfl, rfl⟩
  | cons front rest ih =>
    rw [advance]
    split
    · split
      · obtain ⟨hguards, houtcomes, htickets⟩ := ih (readers + 1) (s.wake front.ticket)
        exact ⟨hguards, houtcomes, htickets.trans (wake_tickets _)⟩
      · exact ⟨rfl, rfl, wake_tickets front.ticket⟩
    · exact ⟨rfl, rfl, rfl⟩

theorem release_frame (mode : PathLockMode) (s : PathState) :
    (s.release mode).guards = s.guards ∧ (s.release mode).outcomes = s.outcomes ∧
    (s.release mode).tickets = s.tickets := by
  unfold release
  cases s.entry with
  | none => exact ⟨rfl, rfl, rfl⟩
  | some e => cases mode <;> exact advance_frame _ _ _ s

/-- A cancelled call leaves without a guard, whether it was granted or not. -/
theorem resume_cancelled (h : s.Inv next) {a : Acquisition} (ha : a ∈ s.pending)
    (hstopped : a.stopped = true) (hready : a.receive ≠ .suspended) :
    (s.resume a.ticket).guards = s.guards ∧
    (s.resume a.ticket).outcomes = s.outcomes ++ [(a.ticket, AcquireOutcome.cancelled)] ∧
    (s.resume a.ticket).tickets = s.tickets.filter fun t => t ≠ a.ticket := by
  have hfind : s.pending.find? (fun b => b.ticket = a.ticket) = some a := by
    cases hfind : s.pending.find? (fun b => b.ticket = a.ticket) with
    | none => exact absurd (decide_eq_true rfl) (List.find?_eq_none.mp hfind a ha)
    | some b =>
      have hb := List.mem_of_find?_eq_some hfind
      have hq : b.ticket = a.ticket := by simpa using List.find?_some hfind
      rw [List.inj_on_of_nodup_map h.agrees.nodup hb ha hq]
  obtain ⟨e, he⟩ := h.entry ha
  have htickets : (s.leave a.ticket .cancelled).tickets = s.tickets.filter fun t =>
      t ≠ a.ticket := by
    rw [tickets, tickets, List.filter_map]
    rfl
  have hkept : ∀ t : PathState, t.guards = (s.leave a.ticket .cancelled).guards ∧
      t.outcomes = (s.leave a.ticket .cancelled).outcomes ∧
        t.tickets = (s.leave a.ticket .cancelled).tickets →
      t.guards = s.guards ∧ t.outcomes = s.outcomes ++ [(a.ticket, AcquireOutcome.cancelled)] ∧
      t.tickets = s.tickets.filter fun t => t ≠ a.ticket :=
    fun t ht => ⟨ht.1, ht.2.1, ht.2.2.trans htickets⟩
  unfold resume
  rw [hfind]
  dsimp only
  rw [if_neg hready, he]
  dsimp only
  rw [if_neg (by simp [hstopped])]
  split
  · exact hkept _ (release_frame a.mode _)
  · exact hkept _ (advance_frame _ _ _ _)

/-- What a fair reader-writer lock promises of one path. -/
structure Fair (s : PathState) : Prop where
  /-- A writer has no company. -/
  safe : s.permits .exclusive ≤ 1 ∧ (s.permits .exclusive = 1 → s.permits .shared = 0)
  /-- The counts are the guards that are out and the grants on their way. -/
  counts : (s.entry.getD {}).readers = s.permits .shared ∧
    (s.entry.getD {}).writer.toNat = s.permits .exclusive
  /-- The queue holds the calls that were not granted, as they arrived. -/
  queue : (s.entry.getD {}).waiters = (s.pending.filter fun a => !a.sent).map (·.toWaiter) ∧
    s.tickets.Pairwise (· < ·)
  /-- Grants follow arrival, and nobody is granted past a waiting call. -/
  arrival : s.grants.Pairwise (· < ·) ∧ ∀ g ∈ s.grants, ∀ w ∈ (s.entry.getD {}).waiters,
    g < w.ticket
  /-- A granted call resumes, and a call returns once. -/
  once : (∀ a ∈ s.pending, a.sent = true → a.receive ≠ .suspended) ∧
    (s.outcomes.map (·.1)).Nodup ∧ ∀ o ∈ s.outcomes, o.2 ≠ .vanished ∧ o.1 ∉ s.tickets
  /-- A cancelled call leaves no guard behind. -/
  cancelled : ∀ a ∈ s.pending, a.stopped = true → a.receive ≠ .suspended →
    (s.resume a.ticket).guards = s.guards ∧
    (s.resume a.ticket).outcomes = s.outcomes ++ [(a.ticket, AcquireOutcome.cancelled)] ∧
    (s.resume a.ticket).tickets = s.tickets.filter fun t => t ≠ a.ticket
  /-- The front waiter cannot be granted. -/
  rest : ∀ front waiters, (s.entry.getD {}).waiters = front :: waiters →
    canWake (s.entry.getD {}).readers (s.entry.getD {}).writer front.mode = false
  /-- There is an entry for a holder or a waiter, and no other. -/
  entry : s.entry ≠ none ↔ s.guards ≠ [] ∨ s.pending ≠ []

theorem Inv.entry_iff (h : s.Inv next) : s.entry ≠ none ↔ s.guards ≠ [] ∨ s.pending ≠ [] := by
  constructor
  · intro hsome
    obtain ⟨e, he⟩ := Option.ne_none_iff_exists'.mp hsome
    by_contra hnone
    simp only [ne_eq, not_or, not_not] at hnone
    have hagrees := h.agrees
    simp only [he, Option.getD_some] at hagrees
    have hpermits : ∀ mode, s.permits mode = 0 := fun mode => by simp [permits, hnone]
    have hreaders := hagrees.shared
    have hwriter := hagrees.exclusive
    have hwaiters := hagrees.queue
    rw [hpermits] at hreaders hwriter
    rw [hnone.2] at hwaiters
    rcases h.used e he with hused | hused | hused
    · exact hused hreaders
    · rw [hused] at hwriter
      cases hwriter
    · exact hused hwaiters
  · rintro (hguards | hpending) hentry
    · obtain ⟨g, hg⟩ := List.exists_mem_of_ne_nil _ hguards
      have hpos : 0 < s.permits g.mode := Nat.lt_of_lt_of_le
        (List.countP_pos_iff.mpr ⟨g, hg, by simp [PathLockGuard.holds]⟩) (Nat.le_add_right _ _)
      obtain ⟨e, he⟩ := permits_pos h g.mode hpos
      rw [hentry] at he
      cases he
    · obtain ⟨a, ha⟩ := List.exists_mem_of_ne_nil _ hpending
      obtain ⟨e, he⟩ := h.entry ha
      rw [hentry] at he
      cases he

theorem Inv.fair (h : s.Inv next) : s.Fair := by
  have hagrees := h.agrees
  refine ⟨⟨?_, fun hone => ?_⟩, ⟨hagrees.shared, hagrees.exclusive⟩,
    ⟨hagrees.queue, hagrees.sorted⟩, ⟨hagrees.order, hagrees.behind⟩,
    ⟨fun a ha hsent hsuspended => ?_, hagrees.returned.1, fun o ho => ?_⟩, fun a ha =>
    resume_cancelled h ha, h.blocked, h.entry_iff⟩
  · rw [← hagrees.exclusive]
    exact Bool.toNat_le _
  · rw [← hagrees.exclusive] at hone
    rw [← hagrees.shared]
    exact hagrees.alone (by simpa using hone)
  · have hunsent := (hagrees.receive a ha).1 hsuspended
    rw [hsent] at hunsent
    cases hunsent
  · exact (hagrees.returned.2 o ho).2

end PathState

theorem path_locks_fair (ops : List PathLockOp) (path : Bytes) :
    ((PathLockTable.run ops).paths path).Fair :=
  (PathLockTable.run_inv ops path).fair

end Orangutan.Tool
