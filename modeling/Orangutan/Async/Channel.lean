import Orangutan.Core.Error

/-!
# Bounded channels

Values pass from a sender to a receiver through the buffer, by direct hand-off or from
a parked sender. Every operation runs under the mutex of the channel, so any
interleaving is a sequence of operations. An operation yields completions in order; the
log of a channel collects them.
-/

namespace Orangutan.Async

set_option autoImplicit false

open Orangutan.Core

variable {T : Type}

/-- What became of an operation. A pending one is named by its id. -/
inductive Completion (T : Type)
  | sent (id : Nat) (value : T) (result : Result Unit)
  | received (id : Nat) (result : Result T)
  | trySent (value : T) (result : Result Unit)
  | tryReceived (result : Result (Option T))

structure Channel (T : Type) where
  capacity : Nat
  closed : Bool := false
  nextId : Nat := 1
  values : List T := []
  senders : List (Nat × T) := []
  receivers : List Nat := []

def channelClosedError : Error := .of .cancelled "channel closed"

def overflowError : Error := .of .mailboxOverflowed "channel capacity exceeded"

/-- Buffered values go to waiting receivers. -/
def deliver : List Nat → List T → List Nat × List T × List (Completion T)
  | receiver :: receivers, value :: values =>
    let (receivers, values, completions) := deliver receivers values
    (receivers, values, .received receiver (.ok value) :: completions)
  | receivers, values => (receivers, values, [])

/-- The loop of an open channel: a parked sender hands its value to a receiver, or to
the buffer while there is room. -/
def pumpOpen (capacity : Nat) : List (Nat × T) → List Nat → List T →
    List (Nat × T) × List Nat × List T × List (Completion T)
  | [], receivers, values =>
    let (receivers, values, completions) := deliver receivers values
    ([], receivers, values, completions)
  | (id, value) :: senders, receivers, values =>
    match deliver receivers values with
    | (receiver :: receivers, values, completions) =>
      let (senders, receivers, values, more) := pumpOpen capacity senders receivers values
      (senders, receivers, values,
        completions ++ [Completion.received receiver (.ok value), .sent id value (.ok ())] ++ more)
    | ([], values, completions) =>
      if values.length < capacity then
        let (senders, receivers, values, more) := pumpOpen capacity senders [] (values ++ [value])
        (senders, receivers, values, completions ++ [Completion.sent id value (.ok ())] ++ more)
      else ((id, value) :: senders, [], values, completions)

def failSends (senders : List (Nat × T)) : List (Completion T) :=
  senders.map fun sender => .sent sender.1 sender.2 (.error channelClosedError)

def failReceives (receivers : List Nat) : List (Completion T) :=
  receivers.map fun receiver => Completion.received receiver (.error channelClosedError)

namespace Channel

def pumpLocked (c : Channel T) : Channel T × List (Completion T) :=
  if c.closed then
    let (receivers, values, delivered) := deliver c.receivers c.values
    let (receivers, values, more) := deliver receivers values
    ({ c with senders := [], receivers := [], values },
      delivered ++ failSends c.senders ++ more ++ failReceives receivers)
  else
    let (senders, receivers, values, completions) :=
      pumpOpen c.capacity c.senders c.receivers c.values
    ({ c with senders, receivers, values }, completions)

def asyncSend (c : Channel T) (value : T) : Channel T × List (Completion T) :=
  pumpLocked { c with nextId := c.nextId + 1, senders := c.senders ++ [(c.nextId, value)] }

def asyncReceive (c : Channel T) : Channel T × List (Completion T) :=
  pumpLocked { c with nextId := c.nextId + 1, receivers := c.receivers ++ [c.nextId] }

def trySend (c : Channel T) (value : T) : Channel T × List (Completion T) :=
  let (c, pumped) := c.pumpLocked
  if c.closed then (c, pumped ++ [Completion.trySent value (.error channelClosedError)])
  else
    match c.receivers, c.values with
    | receiver :: receivers, [] =>
      ({ c with receivers },
        pumped ++ [Completion.received receiver (.ok value), .trySent value (.ok ())])
    | _, _ =>
      if c.values.length < c.capacity then
        let (c, more) := pumpLocked { c with values := c.values ++ [value] }
        (c, pumped ++ [Completion.trySent value (.ok ())] ++ more)
      else (c, pumped ++ [Completion.trySent value (.error overflowError)])

def tryReceive (c : Channel T) : Channel T × List (Completion T) :=
  let (c, pumped) := c.pumpLocked
  match c.values with
  | value :: values =>
    let (c, more) := pumpLocked { c with values }
    (c, pumped ++ [.tryReceived (.ok (some value))] ++ more)
  | [] =>
    match c.senders with
    | (id, value) :: senders =>
      ({ c with senders }, pumped ++ [.tryReceived (.ok (some value)), .sent id value (.ok ())])
    | [] =>
      if c.closed then (c, pumped ++ [.tryReceived (.error channelClosedError)])
      else (c, pumped ++ [.tryReceived (.ok none)])

def close (c : Channel T) : Channel T × List (Completion T) := pumpLocked { c with closed := true }

def cancelSend (c : Channel T) (id : Nat) : Channel T × List (Completion T) :=
  match c.senders.find? fun sender => sender.1 == id with
  | some (id, value) =>
    ({ c with senders := c.senders.eraseP fun sender => sender.1 == id },
      [Completion.sent id value (.error .cancelled)])
  | none => (c, [])

def cancelReceive (c : Channel T) (id : Nat) : Channel T × List (Completion T) :=
  if c.receivers.contains id then
    ({ c with receivers := c.receivers.erase id }, [Completion.received id (.error .cancelled)])
  else (c, [])

end Channel

inductive ChannelOp (T : Type)
  | asyncSend (value : T)
  | asyncReceive
  | trySend (value : T)
  | tryReceive
  | close
  | cancelSend (id : Nat)
  | cancelReceive (id : Nat)

def ChannelOp.run (c : Channel T) : ChannelOp T → Channel T × List (Completion T)
  | asyncSend value => c.asyncSend value
  | asyncReceive => c.asyncReceive
  | trySend value => c.trySend value
  | tryReceive => c.tryReceive
  | close => c.close
  | cancelSend id => c.cancelSend id
  | cancelReceive id => c.cancelReceive id

/-- A channel with everything that was completed on it, in order. -/
structure Traffic (T : Type) where
  channel : Channel T
  log : List (Completion T) := []

def Traffic.apply (t : Traffic T) (op : ChannelOp T) : Traffic T :=
  ⟨(op.run t.channel).1, t.log ++ (op.run t.channel).2⟩

namespace Completion

/-- The value of a send that succeeded. -/
def accepted : Completion T → Option T
  | sent _ value (.ok _) => some value
  | trySent value (.ok _) => some value
  | _ => none

/-- The value a receive was given. -/
def taken : Completion T → Option T
  | received _ (.ok value) => some value
  | tryReceived (.ok (some value)) => some value
  | _ => none

/-- The pending operation that was completed. -/
def pendingId : Completion T → Option Nat
  | sent id _ _ => some id
  | received id _ => some id
  | _ => none

/-- A receive was told that the channel is closed. -/
def SeesClosed : Completion T → Prop
  | received _ (.error e) => e = channelClosedError
  | tryReceived (.error e) => e = channelClosedError
  | _ => False

end Completion

def accepted (log : List (Completion T)) : List T := log.filterMap (·.accepted)

def taken (log : List (Completion T)) : List T := log.filterMap (·.taken)

def completedIds (log : List (Completion T)) : List Nat := log.filterMap (·.pendingId)

@[simp] theorem accepted_append (a b : List (Completion T)) :
    accepted (a ++ b) = accepted a ++ accepted b := List.filterMap_append
@[simp] theorem taken_append (a b : List (Completion T)) : taken (a ++ b) = taken a ++ taken b :=
  List.filterMap_append
@[simp] theorem completedIds_append (a b : List (Completion T)) :
    completedIds (a ++ b) = completedIds a ++ completedIds b := List.filterMap_append

@[simp] theorem accepted_nil : accepted ([] : List (Completion T)) = [] := rfl
@[simp] theorem taken_nil : taken ([] : List (Completion T)) = [] := rfl
@[simp] theorem completedIds_nil : completedIds ([] : List (Completion T)) = [] := rfl

/-- Completions take the oldest values and accept new ones behind them, and each
completes one pending operation. -/
structure Moves (values : List T) (pending : List Nat) (log : List (Completion T))
    (values' : List T) (pending' : List Nat) : Prop where
  fifo : taken log ++ values' = values ++ accepted log
  ids : (completedIds log ++ pending').Perm pending
  drained : ∀ (before : List (Completion T)) (c : Completion T) (after : List (Completion T)),
    log = before ++ c :: after → c.SeesClosed →
    taken before = values ++ accepted before

namespace Moves

variable {values values' values'' : List T} {pending pending' pending'' : List Nat}
  {log more : List (Completion T)}

theorem refl (values : List T) (pending : List Nat) : Moves values pending [] values pending :=
  ⟨by simp, by simp, fun before c after h => by simp at h⟩

theorem trans (h : Moves values pending log values' pending')
    (h' : Moves values' pending' more values'' pending'') :
    Moves values pending (log ++ more) values'' pending'' := by
  refine ⟨?_, ?_, fun before c after hsplit hc => ?_⟩
  · rw [taken_append, accepted_append, List.append_assoc, h'.fifo, ← List.append_assoc, h.fifo,
      List.append_assoc]
  · rw [completedIds_append, List.append_assoc]
    exact (List.Perm.append_left _ h'.ids).trans h.ids
  · rcases List.append_eq_append_iff.mp hsplit with ⟨front, rfl, hmore⟩ | ⟨back, rfl, hback⟩
    · rw [taken_append, accepted_append, h'.drained front c after hmore hc, ← List.append_assoc,
        h.fifo, List.append_assoc]
    · cases back with
      | nil =>
        have hfirst := h'.drained [] c after (by simpa using hback.symm) hc
        have hfifo := h.fifo
        simp only [taken_nil, accepted_nil, List.append_nil] at hfirst hfifo
        rw [← hfirst] at hfifo
        simpa using hfifo
      | cons d back =>
        obtain ⟨rfl, -⟩ := List.cons.inj hback
        exact h.drained before c back rfl hc

/-- One completion of a pending operation or of a try. -/
theorem single {c : Completion T} (hfifo : c.taken.toList ++ values' = values ++ c.accepted.toList)
    (hids : (c.pendingId.toList ++ pending').Perm pending) (hdrained : c.SeesClosed → values = []) :
    Moves values pending [c] values' pending' := by
  refine ⟨?_, ?_, fun before d after hsplit hd => ?_⟩
  · cases ht : c.taken <;> cases ha : c.accepted <;> simpa [taken, accepted, ht, ha] using hfifo
  · cases hi : c.pendingId <;> simpa [completedIds, hi] using hids
  · cases before with
    | nil =>
      obtain ⟨rfl, -⟩ := List.cons.inj hsplit
      simp [hdrained hd]
    | cons b before => simp at hsplit

theorem perm (h : Moves values pending log values' pending') {other other' : List Nat}
    (hbefore : pending.Perm other) (hafter : pending'.Perm other') :
      Moves values other log values' other' :=
  ⟨h.fifo, (List.Perm.append_left _ hafter.symm).trans (h.ids.trans hbefore), h.drained⟩

end Moves

/-- The pending operations of a channel. -/
def Channel.pending (c : Channel T) : List Nat := c.senders.map (·.1) ++ c.receivers

/-- No value and no room is left for a waiting operation. -/
structure Channel.Settled (c : Channel T) : Prop where
  room : c.values.length ≤ c.capacity
  receivers : c.receivers ≠ [] → c.values = [] ∧ c.senders = []
  senders : c.senders ≠ [] → c.capacity ≤ c.values.length
  closed : c.closed = true → c.senders = [] ∧ c.receivers = []

theorem deliver_moves (receivers : List Nat) (values : List T) (front : List Nat) :
    Moves values (front ++ receivers) (deliver receivers values).2.2 (deliver receivers values).2.1
      (front ++ (deliver receivers values).1) ∧
    ((deliver receivers values).1 = [] ∨ (deliver receivers values).2.1 = []) ∧
    (deliver receivers values).2.1.length ≤ values.length := by
  induction receivers generalizing values with
  | nil => exact ⟨Moves.refl _ _, .inl rfl, Nat.le_refl _⟩
  | cons receiver receivers ih =>
    cases values with
    | nil => exact ⟨Moves.refl _ _, .inr rfl, Nat.le_refl _⟩
    | cons value values =>
      obtain ⟨hmoves, hempty, hlength⟩ := ih values
      have hfirst : Moves (value :: values) (front ++ receiver :: receivers)
          [Completion.received receiver (.ok value)] values (front ++ receivers) := by
        refine Moves.single (by simp [Completion.taken, Completion.accepted]) ?_
          (fun h => by cases h)
        show (receiver :: (front ++ receivers)).Perm (front ++ receiver :: receivers)
        exact List.perm_middle.symm
      exact ⟨hfirst.trans hmoves, hempty, Nat.le_succ_of_le hlength⟩

theorem pumpOpen_moves (capacity : Nat) (senders : List (Nat × T)) (receivers : List Nat)
    (values : List T) (hroom : values.length ≤ capacity) :
    let out := pumpOpen capacity senders receivers values
    Moves values (senders.map (·.1) ++ receivers) out.2.2.2 out.2.2.1 (out.1.map (·.1) ++ out.2.1) ∧
    out.2.2.1.length ≤ capacity ∧ (out.2.1 ≠ [] → out.2.2.1 = [] ∧ out.1 = []) ∧
    (out.1 ≠ [] → capacity ≤ out.2.2.1.length) := by
  induction senders generalizing receivers values with
  | nil =>
    obtain ⟨hmoves, hempty, hlength⟩ := deliver_moves receivers values []
    refine ⟨hmoves, Nat.le_trans hlength hroom, fun hne => ⟨?_, rfl⟩, fun hne => absurd rfl hne⟩
    exact hempty.resolve_left hne
  | cons sender senders ih =>
    obtain ⟨id, value⟩ := sender
    obtain ⟨hmoves, hempty, hlength⟩ :=
      deliver_moves receivers values (((id, value) :: senders).map (·.1))
    rw [pumpOpen]
    split
    · next receiver rest left completions hq =>
      rw [hq] at hmoves hempty hlength
      obtain rfl : left = [] := by simpa using hempty
      obtain ⟨hmore, hout⟩ := ih rest [] (Nat.zero_le _)
      -- the value goes straight to the receiver
      have hhand : Moves [] (((id, value) :: senders).map (·.1) ++ receiver :: rest)
          [Completion.received receiver (.ok value), .sent id value (.ok ())] []
          (senders.map (·.1) ++ rest) := by
        refine ⟨rfl, ?_, fun before c after hsplit hc => ?_⟩
        · show (receiver :: id :: (senders.map (·.1) ++ rest)).Perm
            (id :: (senders.map (·.1) ++ receiver :: rest))
          exact (List.Perm.swap _ _ _).trans (List.Perm.cons _ List.perm_middle.symm)
        · have hmem : c ∈ [Completion.received receiver (.ok value), .sent id value (.ok ())] := by
            rw [hsplit]; simp
          simp only [List.mem_cons, List.not_mem_nil, or_false] at hmem
          rcases hmem with rfl | rfl <;> cases hc
      exact ⟨(hmoves.trans hhand).trans hmore, hout⟩
    · next left completions hq =>
      rw [hq] at hmoves hempty hlength
      split
      · next hlt =>
        obtain ⟨hmore, hout⟩ := ih [] (left ++ [value]) (by simpa using hlt)
        have hstore : Moves left (((id, value) :: senders).map (·.1) ++ [])
            [Completion.sent id value (.ok ())] (left ++ [value]) (senders.map (·.1) ++ []) :=
          Moves.single (by simp [Completion.taken, Completion.accepted]) (List.Perm.refl _)
            (fun h => by cases h)
        exact ⟨(hmoves.trans hstore).trans hmore, hout⟩
      · next hfull =>
        exact ⟨hmoves, Nat.le_trans hlength hroom, fun hne => absurd rfl hne,
          fun _ => Nat.le_of_not_lt hfull⟩

/-- Receivers and senders that fail move no value. -/
theorem fail_moves (senders : List (Nat × T)) (receivers : List Nat) (values : List T)
    (hvalues : receivers ≠ [] → values = []) :
    Moves values (senders.map (·.1) ++ receivers) (failSends senders ++ failReceives receivers)
      values [] := by
  have htaken : ∀ (ss : List (Nat × T)) (rs : List Nat),
      taken (failSends ss ++ failReceives rs) = [] ∧
        accepted (failSends ss ++ failReceives rs) = [] := by
    intro ss rs
    simp [taken, accepted, failSends, failReceives, Completion.taken, Completion.accepted,
      List.filterMap_map]
  have hids : completedIds (failSends senders ++ failReceives receivers : List (Completion T)) =
      senders.map (·.1) ++ receivers := by
    simp [completedIds, failSends, failReceives, Completion.pendingId, List.filterMap_map]
  refine ⟨by simp [htaken senders receivers], by simp [hids], fun before c after hsplit hc => ?_⟩
  have hnone : taken before = [] ∧ accepted before = [] := by
    have h₁ := (htaken senders receivers).1
    have h₂ := (htaken senders receivers).2
    rw [hsplit, taken_append, List.append_eq_nil_iff] at h₁
    rw [hsplit, accepted_append, List.append_eq_nil_iff] at h₂
    exact ⟨h₁.1, h₂.1⟩
  have hne : receivers ≠ [] := by
    rintro rfl
    have hmem : c ∈ failSends senders ++ failReceives [] := by rw [hsplit]; simp
    simp only [failReceives, List.map_nil, List.append_nil, failSends, List.mem_map] at hmem
    obtain ⟨sender, -, rfl⟩ := hmem
    cases hc
  rw [hnone.1, hnone.2, hvalues hne]
  rfl

namespace Channel

variable {c : Channel T}

/-- The fields that pumping leaves alone. -/
structure SameFrame (c c' : Channel T) : Prop where
  capacity : c'.capacity = c.capacity
  closed : c'.closed = c.closed
  nextId : c'.nextId = c.nextId

theorem pumpLocked_spec (hroom : c.values.length ≤ c.capacity) :
    Moves c.values c.pending c.pumpLocked.2 c.pumpLocked.1.values c.pumpLocked.1.pending ∧
      c.pumpLocked.1.Settled ∧ SameFrame c c.pumpLocked.1 := by
  unfold pumpLocked
  split
  · next hclosed =>
    obtain ⟨hfirst, hempty, hlength⟩ := deliver_moves c.receivers c.values (c.senders.map (·.1))
    dsimp only
    generalize deliver c.receivers c.values = out at *
    obtain ⟨receivers, values, completions⟩ := out
    -- the second delivery finds nothing
    have hnone : deliver receivers values = (receivers, values, []) := by
      rcases hempty with rfl | rfl
      · cases values <;> rfl
      · cases receivers <;> rfl
    rw [hnone]
    have hfail := fail_moves c.senders receivers values fun hne => hempty.resolve_left hne
    refine ⟨?_, ⟨Nat.le_trans hlength hroom, fun h => absurd rfl h, fun h => absurd rfl h,
      fun _ => ⟨rfl, rfl⟩⟩, rfl, rfl, rfl⟩
    show Moves c.values (c.senders.map (·.1) ++ c.receivers)
      (completions ++ failSends c.senders ++ [] ++ failReceives receivers) values []
    rw [List.append_nil, List.append_assoc]
    exact hfirst.trans hfail
  · next hopen =>
    obtain ⟨hmoves, hlength, hreceivers, hsenders⟩ :=
      pumpOpen_moves c.capacity c.senders c.receivers c.values hroom
    exact ⟨hmoves, ⟨hlength, hreceivers, hsenders, fun h => absurd h hopen⟩, rfl, rfl, rfl⟩

/-- What one operation does to a settled channel. -/
structure Advances (c : Channel T) (log : List (Completion T)) (c' : Channel T) : Prop where
  moves : Moves c.values (c.pending ++ List.range' c.nextId (c'.nextId - c.nextId)) log c'.values
    c'.pending
  settled : c'.Settled
  capacity : c'.capacity = c.capacity
  next : c.nextId ≤ c'.nextId

/-- An operation that starts nothing. -/
theorem Advances.of_moves {c' : Channel T} {log : List (Completion T)}
    (hmoves : Moves c.values c.pending log c'.values c'.pending) (hsettled : c'.Settled)
    (hcapacity : c'.capacity = c.capacity) (hnext : c'.nextId = c.nextId) : Advances c log c' := by
  refine ⟨?_, hsettled, hcapacity, hnext.ge⟩
  rw [hnext, Nat.sub_self, List.range'_zero, List.append_nil]
  exact hmoves

theorem asyncSend_advances (h : c.Settled) (value : T) :
    Advances c (c.asyncSend value).2 (c.asyncSend value).1 := by
  obtain ⟨hmoves, hsettled, hcapacity, -, hnext⟩ := pumpLocked_spec
    (c := { c with nextId := c.nextId + 1, senders := c.senders ++ [(c.nextId, value)] }) h.room
  refine ⟨?_, hsettled, hcapacity, by rw [asyncSend, hnext]; exact Nat.le_succ _⟩
  rw [asyncSend, hnext, Nat.add_sub_cancel_left, List.range'_one]
  refine hmoves.perm ?_ (List.Perm.refl _)
  simp only [pending, List.map_append, List.map_cons, List.map_nil, List.append_assoc]
  exact List.Perm.append_left _ List.perm_append_comm

theorem asyncReceive_advances (h : c.Settled) : Advances c c.asyncReceive.2 c.asyncReceive.1 := by
  obtain ⟨hmoves, hsettled, hcapacity, -, hnext⟩ := pumpLocked_spec
    (c := { c with nextId := c.nextId + 1, receivers := c.receivers ++ [c.nextId] }) h.room
  refine ⟨?_, hsettled, hcapacity, by rw [asyncReceive, hnext]; exact Nat.le_succ _⟩
  rw [asyncReceive, hnext, Nat.add_sub_cancel_left, List.range'_one]
  refine hmoves.perm ?_ (List.Perm.refl _)
  simp only [pending, List.append_assoc]
  exact List.Perm.refl _

theorem close_advances (h : c.Settled) : Advances c c.close.2 c.close.1 := by
  obtain ⟨hmoves, hsettled, hcapacity, -, hnext⟩ :=
    pumpLocked_spec (c := { c with closed := true }) h.room
  exact Advances.of_moves hmoves hsettled hcapacity hnext

theorem trySend_advances (h : c.Settled) (value : T) :
    Advances c (c.trySend value).2 (c.trySend value).1 := by
  obtain ⟨hpumped, hsettled, hcapacity, -, hnext⟩ := pumpLocked_spec h.room
  unfold trySend
  dsimp only
  generalize c.pumpLocked = out at *
  obtain ⟨d, pumped⟩ := out
  dsimp only at *
  -- a try that fails moves nothing
  have hfail : ∀ e, Advances c (pumped ++ [Completion.trySent value (.error e)]) d := fun e =>
    Advances.of_moves (hpumped.trans (Moves.single (by simp [Completion.taken, Completion.accepted])
      (List.Perm.refl _) (fun h => by cases h))) hsettled hcapacity hnext
  split
  · exact hfail _
  split
  · next receiver receivers hreceivers hvalues =>
    have hhand : Moves d.values d.pending [Completion.received receiver (.ok value),
      .trySent value (.ok ())] []
        (d.senders.map (·.1) ++ receivers) := by
      rw [hvalues]
      refine ⟨rfl, ?_, fun before e after hsplit he => ?_⟩
      · show (receiver :: (d.senders.map (·.1) ++ receivers)).Perm
          (d.senders.map (·.1) ++ d.receivers)
        rw [hreceivers]
        exact List.perm_middle.symm
      · have hmem : e ∈ [Completion.received receiver (.ok value), .trySent value (.ok ())] := by
          rw [hsplit]; simp
        simp only [List.mem_cons, List.not_mem_nil, or_false] at hmem
        rcases hmem with rfl | rfl <;> cases he
    have hs := hsettled.receivers (by rw [hreceivers]; exact List.cons_ne_nil _ _)
    refine Advances.of_moves (hvalues ▸ hpumped.trans hhand) ⟨hsettled.room, fun _ => hs,
      hsettled.senders, fun hc => ?_⟩ hcapacity hnext
    rw [(hsettled.closed hc).2] at hreceivers
    cases hreceivers
  · split
    · next hlt =>
      obtain ⟨hmore, hsettled', hcapacity', -, hnext'⟩ := pumpLocked_spec
        (c := { d with values := d.values ++ [value] }) (by simpa using hlt)
      have hstore : Moves d.values d.pending [Completion.trySent value (.ok ())]
          (d.values ++ [value]) d.pending :=
        Moves.single (by simp [Completion.taken, Completion.accepted]) (List.Perm.refl _)
          (fun h => by cases h)
      exact Advances.of_moves ((hpumped.trans hstore).trans hmore) hsettled'
        (hcapacity'.trans hcapacity)
        (hnext'.trans hnext)
    · exact hfail _

theorem tryReceive_advances (h : c.Settled) : Advances c c.tryReceive.2 c.tryReceive.1 := by
  obtain ⟨hpumped, hsettled, hcapacity, -, hnext⟩ := pumpLocked_spec h.room
  unfold tryReceive
  dsimp only
  generalize c.pumpLocked = out at *
  obtain ⟨d, pumped⟩ := out
  dsimp only at *
  split
  · next value values hvalues =>
    obtain ⟨hmore, hsettled', hcapacity', -, hnext'⟩ := pumpLocked_spec (c := { d with values }) (by
      have := hsettled.room
      rw [hvalues] at this
      exact Nat.le_of_succ_le this)
    have htake : Moves d.values d.pending [.tryReceived (.ok (some value))] values d.pending := by
      rw [hvalues]
      exact Moves.single (by simp [Completion.taken, Completion.accepted]) (List.Perm.refl _)
        (fun h => by cases h)
    exact Advances.of_moves ((hpumped.trans htake).trans hmore) hsettled'
      (hcapacity'.trans hcapacity)
      (hnext'.trans hnext)
  next hvalues =>
  split
  · next id value senders hsenders =>
    have htake : Moves d.values d.pending [.tryReceived (.ok (some value)),
      .sent id value (.ok ())] []
        (senders.map (·.1) ++ d.receivers) := by
      rw [hvalues]
      refine ⟨rfl, ?_, fun before e after hsplit he => ?_⟩
      · show (id :: (senders.map (·.1) ++ d.receivers)).Perm (d.senders.map (·.1) ++ d.receivers)
        rw [hsenders]
        exact List.Perm.refl _
      · have hmem : e ∈ [Completion.tryReceived (.ok (some value)), .sent id value (.ok ())] := by
          rw [hsplit]; simp
        simp only [List.mem_cons, List.not_mem_nil, or_false] at hmem
        rcases hmem with rfl | rfl <;> cases he
    have hfull := hsettled.senders (by rw [hsenders]; exact List.cons_ne_nil _ _)
    refine Advances.of_moves (hvalues ▸ hpumped.trans htake) ⟨hsettled.room, fun hr => ?_,
      fun _ => hfull, fun hc => ?_⟩ hcapacity hnext
    · rw [(hsettled.receivers hr).2] at hsenders
      cases hsenders
    · rw [(hsettled.closed hc).1] at hsenders
      cases hsenders
  · split
    · refine Advances.of_moves
        (hpumped.trans (Moves.single ?_ (List.Perm.refl _) fun _ => hvalues)) hsettled
        hcapacity hnext
      simp [Completion.taken, Completion.accepted]
    · refine Advances.of_moves
        (hpumped.trans (Moves.single ?_ (List.Perm.refl _) fun h => (by cases h)))
        hsettled hcapacity hnext
      simp [Completion.taken, Completion.accepted]

theorem find_eraseP_perm {α : Type} {p : α → Bool} {l : List α} {a : α} (h : l.find? p = some a) :
    l.Perm (a :: l.eraseP p) := by
  obtain ⟨hp, front, back, rfl, hfront⟩ := List.find?_eq_some_iff_append.mp h
  have hnone : ∀ b ∈ front, ¬ p b = true := fun b hb => by simpa using hfront b hb
  rw [List.eraseP_append_right _ hnone, List.eraseP_cons_of_pos hp]
  exact List.perm_middle

theorem cancelSend_advances (h : c.Settled) (id : Nat) :
    Advances c (c.cancelSend id).2 (c.cancelSend id).1 := by
  unfold cancelSend
  split
  · next found value hfind =>
    obtain rfl : found = id := by simpa using List.find?_some hfind
    have hperm := find_eraseP_perm hfind
    have hne : c.senders ≠ [] := fun hq => by rw [hq] at hfind; cases hfind
    refine Advances.of_moves (Moves.single (by simp [Completion.taken, Completion.accepted]) ?_
      fun h => (by cases h)) ⟨h.room, fun hr => ?_, fun _ => h.senders hne, fun hc =>
        absurd (h.closed hc).1 hne⟩ rfl rfl
    · have hids := (hperm.map (·.1)).symm.append_right c.receivers
      exact hids
    · exact absurd (h.receivers hr).2 hne
  · exact Advances.of_moves (Moves.refl _ _) h rfl rfl

theorem cancelReceive_advances (h : c.Settled) (id : Nat) :
    Advances c (c.cancelReceive id).2 (c.cancelReceive id).1 := by
  unfold cancelReceive
  split
  · next hmem =>
    have hmem : id ∈ c.receivers := by simpa using hmem
    have hidle := h.receivers (List.ne_nil_of_mem hmem)
    have hcancelled : Error.cancelled ≠ channelClosedError := by decide
    refine Advances.of_moves (Moves.single (by simp [Completion.taken, Completion.accepted]) ?_
      fun h => absurd h hcancelled) ⟨h.room, fun _ => hidle, h.senders, fun hc => ?_⟩ rfl rfl
    · show (id :: (c.senders.map (·.1) ++ c.receivers.erase id)).Perm
        (c.senders.map (·.1) ++ c.receivers)
      exact List.perm_middle.symm.trans (List.Perm.append_left _ (List.perm_cons_erase hmem).symm)
    · rw [(h.closed hc).2] at hmem
      cases hmem
  · exact Advances.of_moves (Moves.refl _ _) h rfl rfl

end Channel

theorem ChannelOp.advances {c : Channel T} (h : c.Settled) (op : ChannelOp T) :
    c.Advances (op.run c).2 (op.run c).1 := by
  cases op with
  | asyncSend value => exact Channel.asyncSend_advances h value
  | asyncReceive => exact Channel.asyncReceive_advances h
  | trySend value => exact Channel.trySend_advances h value
  | tryReceive => exact Channel.tryReceive_advances h
  | close => exact Channel.close_advances h
  | cancelSend id => exact Channel.cancelSend_advances h id
  | cancelReceive id => exact Channel.cancelReceive_advances h id

/-- The log of a channel explains its state. -/
structure Traffic.Sound (capacity : Nat) (t : Traffic T) : Prop where
  moves : Moves [] (List.range' 1 (t.channel.nextId - 1)) t.log t.channel.values t.channel.pending
  settled : t.channel.Settled
  capacity : t.channel.capacity = capacity
  next : 1 ≤ t.channel.nextId

theorem Traffic.Sound.apply {capacity : Nat} {t : Traffic T} (h : t.Sound capacity)
    (op : ChannelOp T) :
    (t.apply op).Sound capacity := by
  obtain ⟨hmoves, hsettled, hcapacity, hnext⟩ := op.advances h.settled
  refine ⟨?_, hsettled, hcapacity.trans h.capacity, Nat.le_trans h.next hnext⟩
  have hstarted : Moves [] (List.range' 1 (t.channel.nextId - 1) ++
      List.range' t.channel.nextId ((op.run t.channel).1.nextId - t.channel.nextId)) t.log
        t.channel.values
      (t.channel.pending ++
        List.range' t.channel.nextId ((op.run t.channel).1.nextId - t.channel.nextId)) := by
    refine ⟨h.moves.fifo, ?_, h.moves.drained⟩
    rw [← List.append_assoc]
    exact h.moves.ids.append_right _
  have hids : List.range' 1 (t.channel.nextId - 1) ++
      List.range' t.channel.nextId ((op.run t.channel).1.nextId - t.channel.nextId) =
      List.range' 1 ((op.run t.channel).1.nextId - 1) := by
    obtain ⟨n, hn⟩ := Nat.exists_eq_add_of_le h.next
    rw [hn] at hnext ⊢
    rw [Nat.add_sub_cancel_left, List.range'_append_1]
    congr 1
    omega
  rw [hids] at hstarted
  exact hstarted.trans hmoves

namespace Channel

end Channel

namespace Channel

end Channel

end Orangutan.Async
