import Orangutan.Channel.Deliveries

/-!
# What the dispatcher keeps

A conversation is busy just while one operation on it is under way, and an entry that is
not complete is either that operation's or holds the error it failed with. The completed
queue lists the complete entries, and only they make room for new ones.
-/

namespace Orangutan.Channel

set_option autoImplicit false

open Orangutan.Core

namespace Dispatcher

/-- The operation is at its entry, past its admission. -/
def Holds (s : Dispatcher) (key : Bytes) : Prop :=
  ∃ (o : Nat) (op : Operation),
    s.operations[o]? = some op ∧ op.Active ∧ op.wait ≠ .admission ∧ op.key = key

/-- The busy conversations are those of the active operations, one each. -/
structure Leased (operations : List Operation) (busy : List Bytes) : Prop where
  leases : ∀ conversation, conversation ∈ busy ↔
    ∃ (o : Nat) (op : Operation), operations[o]? = some op ∧ op.Active ∧
      op.conversation = conversation
  nodup : busy.Nodup
  exclusive : ∀ (o o' : Nat) (op op' : Operation), operations[o]? = some op →
    operations[o']? = some op' →
    op.Active → op'.Active → op.conversation = op'.conversation → o = o'

structure Consistent (adapter : Adapter) (options : DispatcherOptions) (s : Dispatcher) : Prop where
  leased : Leased s.operations s.busy
  calls : ∀ (o : Nat) (op : Operation), s.operations[o]? = some op → op.wait = .admission →
    op.resumes = false
  engaged : ∀ (o : Nat) (op : Operation), s.operations[o]? = some op → op.Active →
    op.wait ≠ .admission →
    ∃ entry : Entry, s.entries.lookup op.key = some entry ∧
      Engaged adapter options op.key (current op.key s.log) entry op.wait ∧
      (op.resumes = true → entry.error.isSome = true)
  sound : ∀ (key : Bytes) (entry : Entry), s.entries.lookup key = some entry →
    EntrySound adapter options key entry (current key s.log)
  absent : ∀ key : Bytes, s.entries.lookup key = none → current key s.log = []
  ended : ∀ (key : Bytes) (entry : Entry), s.entries.lookup key = some entry →
    entry.complete = true ∨ entry.error.isSome = true ∨ s.Holds key
  bounded : s.entries.keys.length ≤ options.capacity
  queue : s.completed.Nodup
  queued : ∀ key : Bytes, key ∈ s.completed ↔
    ∃ entry : Entry, s.entries.lookup key = some entry ∧ entry.complete = true

/-- The entries before and after a step. -/
structure Moves (s s' : Dispatcher) : Prop where
  forward : ∀ (key : Bytes) (entry entry' : Entry), s.entries.lookup key = some entry →
    s'.entries.lookup key = some entry' → Follows entry entry'
  evicts : ∀ (key : Bytes) (entry : Entry), s.entries.lookup key = some entry →
    s'.entries.lookup key = none → entry.complete = true
  returns : ∀ (o : Nat) (op : Operation) (delivery : Delivery), s'.operations[o]? = some op →
    op.wait = .returned (.ok delivery) → s.operations[o]? ≠ some op →
      ∃ entry, s'.entries.lookup op.key = some entry ∧ entry.complete = true ∧
        entry.reply.nextPart = entry.reply.parts.length ∧
          delivery.partsSent = entry.reply.parts.length

variable {adapter : Adapter} {options : DispatcherOptions} {s : Dispatcher}

theorem conversation_of_key {op op' : Operation} (h : op.key = op'.key) :
    op.conversation = op'.conversation :=
  congrArg conversationKey (eventKey_conversation h)

theorem Moves.of_entries {s' : Dispatcher} (hentries : s'.entries = s.entries)
    (hreturns : ∀ (o : Nat) (op : Operation) (delivery : Delivery), s'.operations[o]? = some op →
      op.wait = .returned (.ok delivery) → s.operations[o]? ≠ some op →
        ∃ entry, s'.entries.lookup op.key = some entry ∧ entry.complete = true ∧
          entry.reply.nextPart = entry.reply.parts.length ∧
          delivery.partsSent = entry.reply.parts.length) : Moves s s' := by
  refine ⟨fun key entry entry' h h' => ?_, fun key entry h h' => ?_, hreturns⟩
  · rw [hentries, h] at h'
    cases h'
    exact Follows.refl _
  · rw [hentries, h] at h'
    cases h'

theorem Moves.refl (s : Dispatcher) : Moves s s :=
  Moves.of_entries rfl fun _ _ _ hop _ hnew => absurd hop hnew

/-- The operations of a state with one more, or with one replaced. -/
theorem concat_operations {ops : List Operation} {new : Operation} {o : Nat} {op : Operation} :
    (ops ++ [new])[o]? = some op ↔ ops[o]? = some op ∨ (o = ops.length ∧ op = new) := by
  rw [List.getElem?_append]
  constructor
  · intro h
    split at h
    · exact Or.inl h
    · next hlt =>
      have hzero : o - ops.length = 0 := by
        have hlast := (List.getElem?_eq_some_iff.mp h).1
        simpa using hlast
      rw [hzero] at h
      exact Or.inr ⟨by omega, (Option.some.inj h).symm⟩
  · rintro (h | ⟨rfl, rfl⟩)
    · rw [if_pos (List.getElem?_eq_some_iff.mp h).1]
      exact h
    · rw [if_neg (Nat.lt_irrefl _), Nat.sub_self]
      rfl

/-- The operations of a state in which one is replaced. -/
theorem set_operations {ops : List Operation} {op new : Operation} {o o' : Nat} {op' : Operation}
    (ho : ops[o]? = some op) :
    (ops.set o new)[o']? = some op' ↔ (o' = o ∧ op' = new) ∨ (o' ≠ o ∧ ops[o']? = some op') := by
  by_cases heq : o' = o
  · subst heq
    rw [List.getElem?_set_self (List.getElem?_eq_some_iff.mp ho).1]
    simp [eq_comm]
  · rw [List.getElem?_set_ne (Ne.symm heq)]
    simp [heq]

section Leased

variable {operations : List Operation} {busy : List Bytes} {o : Nat} {op : Operation}

theorem Leased.refused (h : Leased operations busy) {new : Operation} (hnew : ¬new.Active) :
    Leased (operations ++ [new]) busy := by
  have hold : ∀ (o : Nat) (op : Operation), (operations ++ [new])[o]? = some op → op.Active →
      operations[o]? = some op := by
    intro o op hop hactive
    rcases concat_operations.mp hop with hop | ⟨-, rfl⟩
    · exact hop
    · exact absurd hactive hnew
  refine ⟨fun conversation => ?_, h.nodup, fun o o' op op' hop hop' hactive hactive' => ?_⟩
  · rw [h.leases]
    constructor
    · rintro ⟨o, op, hop, hrest⟩
      exact ⟨o, op, concat_operations.mpr (Or.inl hop), hrest⟩
    · rintro ⟨o, op, hop, hactive, hconversation⟩
      exact ⟨o, op, hold o op hop hactive, hactive, hconversation⟩
  · exact h.exclusive o o' op op' (hold o op hop hactive)
      (hold o' op' hop' hactive') hactive hactive'

theorem Leased.leased (h : Leased operations busy) {new : Operation}
    (hidle : new.conversation ∉ busy) (hnew : new.Active) :
    Leased (operations ++ [new]) (new.conversation :: busy) := by
  have hfree : ∀ (o : Nat) (op : Operation), operations[o]? = some op → op.Active →
      op.conversation ≠ new.conversation :=
    fun o op hop hop' heq => hidle ((h.leases _).mpr ⟨o, op, hop, hop', heq⟩)
  refine ⟨fun conversation => ?_, List.nodup_cons.mpr ⟨hidle, h.nodup⟩,
    fun o o' op op' hop hop' hop₁ hop₂ hsame => ?_⟩
  · rw [List.mem_cons, h.leases]
    constructor
    · rintro (hkey | ⟨o, op, hop, hrest⟩)
      · exact ⟨operations.length, new, concat_operations.mpr (Or.inr ⟨rfl, rfl⟩), hnew, hkey.symm⟩
      · exact ⟨o, op, concat_operations.mpr (Or.inl hop), hrest⟩
    · rintro ⟨o, op, hop, hop', hconversation⟩
      rcases concat_operations.mp hop with hold | ⟨-, rfl⟩
      · exact Or.inr ⟨o, op, hold, hop', hconversation⟩
      · exact Or.inl hconversation.symm
  · rcases concat_operations.mp hop with hold | ⟨rfl, rfl⟩
    · rcases concat_operations.mp hop' with hold' | ⟨rfl, rfl⟩
      · exact h.exclusive o o' op op' hold hold' hop₁ hop₂ hsame
      · exact absurd hsame (hfree o op hold hop₁)
    · rcases concat_operations.mp hop' with hold' | ⟨rfl, rfl⟩
      · exact absurd hsame.symm (hfree o' op' hold' hop₂)
      · rfl

theorem Leased.returned (h : Leased operations busy) (ho : operations[o]? = some op)
    (hactive : op.Active) (result : Result Delivery) :
    Leased (operations.set o { op with wait := .returned result })
      (busy.erase op.conversation) := by
  have hold : ∀ (o' : Nat) (op' : Operation),
      (operations.set o { op with wait := .returned result })[o']? = some op' → op'.Active →
        o' ≠ o ∧ operations[o']? = some op' := by
    intro o' op' hop' hactive'
    rcases (set_operations ho).mp hop' with ⟨-, rfl⟩ | hrest
    · exact absurd rfl (hactive' result)
    · exact hrest
  refine ⟨fun conversation => ?_, h.nodup.erase _,
    fun o₁ o₂ op₁ op₂ hop₁ hop₂ hactive₁ hactive₂ => ?_⟩
  · rw [h.nodup.mem_erase_iff, h.leases]
    constructor
    · rintro ⟨hother, o', op', hop', hactive', rfl⟩
      refine ⟨o', op', (set_operations ho).mpr (Or.inr ⟨?_, hop'⟩), hactive', rfl⟩
      rintro rfl
      obtain rfl := Option.some.inj (ho.symm.trans hop')
      exact hother rfl
    · rintro ⟨o', op', hop', hactive', rfl⟩
      obtain ⟨hne, hkept⟩ := hold o' op' hop' hactive'
      exact ⟨fun hsame => hne (h.exclusive o' o op' op hkept ho hactive' hactive hsame), o', op',
        hkept, hactive', rfl⟩
  · exact h.exclusive o₁ o₂ op₁ op₂ (hold o₁ op₁ hop₁ hactive₁).2
      (hold o₂ op₂ hop₂ hactive₂).2 hactive₁ hactive₂

theorem Leased.waits (h : Leased operations busy) (ho : operations[o]? = some op)
    (hactive : op.Active) {wait : Wait} (hwait : ∀ result, wait ≠ .returned result) :
    Leased (operations.set o { op with wait }) busy := by
  -- the operation keeps its conversation
  have hold : ∀ (o' : Nat) (op' : Operation), (operations.set o { op with wait })[o']? = some op' →
    op'.Active →
      ∃ op'' : Operation, operations[o']? = some op'' ∧ op''.Active ∧
        op''.conversation = op'.conversation := by
    intro o' op' hop' hactive'
    rcases (set_operations ho).mp hop' with ⟨rfl, rfl⟩ | ⟨-, hrest⟩
    · exact ⟨op, ho, hactive, rfl⟩
    · exact ⟨op', hrest, hactive', rfl⟩
  refine ⟨fun conversation => ?_, h.nodup,
    fun o₁ o₂ op₁ op₂ hop₁ hop₂ hactive₁ hactive₂ hsame => ?_⟩
  · rw [h.leases]
    constructor
    · rintro ⟨o', op', hop', hactive', rfl⟩
      by_cases heq : o' = o
      · subst heq
        obtain rfl := Option.some.inj (ho.symm.trans hop')
        exact ⟨o', _, (set_operations ho).mpr (Or.inl ⟨rfl, rfl⟩), hwait, rfl⟩
      · exact ⟨o', op', (set_operations ho).mpr (Or.inr ⟨heq, hop'⟩), hactive', rfl⟩
    · rintro ⟨o', op', hop', hactive', rfl⟩
      obtain ⟨op'', hop'', hactive'', hconversation⟩ := hold o' op' hop' hactive'
      exact ⟨o', op'', hop'', hactive'', hconversation⟩
  · obtain ⟨op₁', hop₁', hactive₁', hconversation₁⟩ := hold o₁ op₁ hop₁ hactive₁
    obtain ⟨op₂', hop₂', hactive₂', hconversation₂⟩ := hold o₂ op₂ hop₂ hactive₂
    exact h.exclusive o₁ o₂ op₁' op₂' hop₁' hop₂' hactive₁' hactive₂'
      (hconversation₁.trans (hsame.trans hconversation₂.symm))

end Leased

theorem Consistent.refuse (h : s.Consistent adapter options) (message : Message) (resumes : Bool)
    (e : Error) :
    (s.refuse message resumes e).Consistent adapter options := by
  constructor
  · exact h.leased.refused fun hactive => hactive _ rfl
  · intro o op hop hadmission
    rcases concat_operations.mp hop with hold | ⟨-, rfl⟩
    · exact h.calls o op hold hadmission
    · cases hadmission
  · intro o op hop hactive
    rcases concat_operations.mp hop with hold | ⟨-, rfl⟩
    · exact h.engaged o op hold hactive
    · exact absurd rfl (hactive _)
  · exact h.sound
  · exact h.absent
  · intro key entry hentry
    rcases h.ended key entry hentry with hdone | hdone | ⟨o, op, hop, hrest⟩
    · exact Or.inl hdone
    · exact Or.inr (Or.inl hdone)
    · exact Or.inr (Or.inr ⟨o, op, concat_operations.mpr (Or.inl hop), hrest⟩)
  · exact h.bounded
  · exact h.queue
  · exact h.queued

theorem refuse_moves (message : Message) (resumes : Bool) (e : Error) :
    Moves s (s.refuse message resumes e) := by
  refine Moves.of_entries rfl fun o op delivery hop hwait hnew => ?_
  rcases concat_operations.mp hop with hold | ⟨-, rfl⟩
  · exact absurd hold hnew
  · cases hwait

/-- A lease is taken for an idle conversation; what the operation then relies on is the
caller's to show. -/
theorem Consistent.lease (h : s.Consistent adapter options) {message : Message} {resumes : Bool}
    {wait : Wait} (hidle : conversationKey message.conversation ∉ s.busy)
    (hactive : ∀ result, wait ≠ .returned result) (hcall : wait = .admission → resumes = false)
    (hengaged : wait ≠ .admission → ∃ entry, s.entries.lookup (eventKey message) = some entry ∧
      Engaged adapter options (eventKey message) (current (eventKey message) s.log) entry wait ∧
        (resumes = true → entry.error.isSome = true)) :
    (s.lease message resumes wait).Consistent adapter options := by
  constructor
  · exact @Leased.leased _ _ h.leased { message, resumes, wait } hidle hactive
  · intro o op hop hadmission
    rcases concat_operations.mp hop with hold | ⟨-, rfl⟩
    · exact h.calls o op hold hadmission
    · exact hcall hadmission
  · intro o op hop hop' hwait
    rcases concat_operations.mp hop with hold | ⟨-, rfl⟩
    · exact h.engaged o op hold hop' hwait
    · exact hengaged hwait
  · exact h.sound
  · exact h.absent
  · intro key entry hentry
    rcases h.ended key entry hentry with hdone | hdone | ⟨o, op, hop, hrest⟩
    · exact Or.inl hdone
    · exact Or.inr (Or.inl hdone)
    · exact Or.inr (Or.inr ⟨o, op, concat_operations.mpr (Or.inl hop), hrest⟩)
  · exact h.bounded
  · exact h.queue
  · exact h.queued

theorem lease_moves {message : Message} {resumes : Bool} {wait : Wait}
    (hactive : ∀ result, wait ≠ .returned result) : Moves s (s.lease message resumes wait) := by
  refine Moves.of_entries rfl fun o op delivery hop hwait hnew => ?_
  rcases concat_operations.mp hop with hold | ⟨-, rfl⟩
  · exact absurd hold hnew
  · exact absurd hwait (hactive _)

/-- An operation that leaves its entry as it is may return if that entry has an error. -/
theorem Consistent.release (h : s.Consistent adapter options) {o : Nat} {op : Operation}
    (ho : s.operations[o]? = some op) (hactive : op.Active) (result : Result Delivery)
    (hfailed : op.wait ≠ .admission → ∀ entry, s.entries.lookup op.key = some entry →
      entry.error.isSome = true) :
    (s.release o op result).Consistent adapter options := by
  constructor
  · exact h.leased.returned ho hactive result
  · intro o' op' hop' hadmission
    rcases (set_operations ho).mp hop' with ⟨-, rfl⟩ | ⟨-, hold⟩
    · cases hadmission
    · exact h.calls o' op' hold hadmission
  · intro o' op' hop' hactive'
    rcases (set_operations ho).mp hop' with ⟨-, rfl⟩ | ⟨-, hold⟩
    · exact absurd rfl (hactive' result)
    · exact h.engaged o' op' hold hactive'
  · exact h.sound
  · exact h.absent
  · intro key entry hentry
    rcases h.ended key entry hentry with hdone | hdone | ⟨o', op', hop', hactive', hwait, rfl⟩
    · exact Or.inl hdone
    · exact Or.inr (Or.inl hdone)
    · by_cases heq : o' = o
      · subst heq
        obtain rfl := Option.some.inj (ho.symm.trans hop')
        exact Or.inr (Or.inl (hfailed hwait entry hentry))
      · exact Or.inr (Or.inr ⟨o', op', (set_operations ho).mpr (Or.inr ⟨heq, hop'⟩), hactive',
          hwait, rfl⟩)
  · exact h.bounded
  · exact h.queue
  · exact h.queued

theorem release_moves {o : Nat} {op : Operation} (ho : s.operations[o]? = some op)
    {result : Result Delivery} (hresult : ∀ delivery, result = .ok delivery → ∃ entry,
    s.entries.lookup op.key = some entry ∧
      entry.complete = true ∧ entry.reply.nextPart = entry.reply.parts.length ∧
        delivery.partsSent = entry.reply.parts.length) :
    Moves s (s.release o op result) := by
  refine Moves.of_entries rfl fun o' op' delivery hop' hwait hnew => ?_
  rcases (set_operations ho).mp hop' with ⟨-, rfl⟩ | ⟨-, hold⟩
  · cases hwait
    exact hresult delivery rfl
  · exact absurd hold hnew

/-- The state after `follow`, with the settled entry and wait. -/
theorem follow_fields (o : Nat) (op : Operation) (cancelled : Bool) (p : Entry × Course) :
    let q := settle op cancelled p
    (s.follow o op cancelled p).entries = s.entries.insert op.key q.1 ∧
      (s.follow o op cancelled p).operations = s.operations.set o { op with wait := q.2 } ∧
      (s.follow o op cancelled p).log = s.log ∧
      ((∃ delivery, q.2 = .returned (.ok delivery) ∧
          (s.follow o op cancelled p).busy = s.busy.erase op.conversation ∧
          (s.follow o op cancelled p).completed = s.completed ++ [eventKey q.1.message]) ∨
        (∃ e, q.2 = .returned (.error e) ∧
          (s.follow o op cancelled p).busy = s.busy.erase op.conversation ∧
          (s.follow o op cancelled p).completed = s.completed) ∨
        ((∀ result, q.2 ≠ .returned result) ∧ (s.follow o op cancelled p).busy = s.busy ∧
          (s.follow o op cancelled p).completed = s.completed)) := by
  dsimp only
  unfold follow
  generalize settle op cancelled p = q
  obtain ⟨entry, wait⟩ := q
  cases wait with
  | returned result =>
    cases result with
    | ok delivery => exact ⟨rfl, rfl, rfl, Or.inl ⟨delivery, rfl, rfl, rfl⟩⟩
    | error e => exact ⟨rfl, rfl, rfl, Or.inr (Or.inl ⟨e, rfl, rfl, rfl⟩)⟩
  | admission => exact ⟨rfl, rfl, rfl, Or.inr (Or.inr ⟨fun _ h => (by cases h), rfl, rfl⟩)⟩
  | turn => exact ⟨rfl, rfl, rfl, Or.inr (Or.inr ⟨fun _ h => (by cases h), rfl, rfl⟩)⟩
  | recovery nextPart => exact ⟨rfl, rfl, rfl, Or.inr (Or.inr ⟨fun _ h => (by cases h), rfl, rfl⟩)⟩
  | permission first request =>
      exact ⟨rfl, rfl, rfl, Or.inr (Or.inr ⟨fun _ h => (by cases h), rfl, rfl⟩)⟩
  | transport first => exact ⟨rfl, rfl, rfl, Or.inr (Or.inr ⟨fun _ h => (by cases h), rfl, rfl⟩)⟩

/-- An active operation has its key for itself. -/
theorem Consistent.other_key (h : s.Consistent adapter options) {o o' : Nat} {op op' : Operation}
    (ho : s.operations[o]? = some op) (hactive : op.Active) (ho' : s.operations[o']? = some op')
    (hactive' : op'.Active) (hne : o' ≠ o) : op'.key ≠ op.key := by
  intro hkey
  exact hne (h.leased.exclusive o' o op' op ho' ho hactive' hactive (conversation_of_key hkey))

/-- An operation takes its entry, which is new or not complete, to its next wait or returns. -/
theorem Consistent.follow (h : s.Consistent adapter options) {o : Nat} {op : Operation}
    {entry : Entry} {p : Entry × Course} {cancelled : Bool} {log : List Mark}
    (ho : s.operations[o]? = some op) (hactive : op.Active)
    (hopen : ∀ entry, s.entries.lookup op.key = some entry → entry.complete = false)
    (hroom : s.entries.lookup op.key = none → s.entries.keys.length < options.capacity)
    (hlog : ∀ key, key ≠ op.key → current key log = current key s.log)
    (hsettled : Settled adapter options op op.key entry (current op.key log)
    (settle op cancelled p)) :
    (({ s with log } : Dispatcher).follow o op cancelled p).Consistent adapter options := by
  obtain ⟨hentries, hoperations, hlogged, hcases⟩ :=
    follow_fields (s := { s with log }) o op cancelled p
  have hwait := hsettled.wait
  have hsound := hsettled.sound
  generalize hq : settle op cancelled p = q at *
  generalize hs' : ({ s with log } : Dispatcher).follow o op cancelled p = s' at *
  have hself : s'.entries.lookup op.key = some q.1 := by rw [hentries, AList.lookup_insert]
  have hother : ∀ key, key ≠ op.key → s'.entries.lookup key = s.entries.lookup key := by
    intro key hkey
    rw [hentries, AList.lookup_insert_ne hkey]
  have hunqueued : op.key ∉ s.completed := by
    intro hmem
    obtain ⟨old, hold, hcomplete⟩ := (h.queued op.key).mp hmem
    exact absurd ((hopen old hold).symm.trans hcomplete) Bool.false_ne_true
  have hplace : ∀ (o' : Nat) (op' : Operation), s.operations[o']? = some op' → o' ≠ o →
      s'.operations[o']? = some op' := by
    intro o' op' hop' hne
    rw [hoperations]
    exact (set_operations ho).mpr (Or.inr ⟨hne, hop'⟩)
  have hholds : ∀ key, key ≠ op.key → s.Holds key → s'.Holds key := by
    rintro key hkey ⟨o', op', hop', hactive', hadmitted, rfl⟩
    refine ⟨o', op', hplace o' op' hop' ?_, hactive', hadmitted, rfl⟩
    rintro rfl
    obtain rfl := Option.some.inj (ho.symm.trans hop')
    exact hkey rfl
  have hengaged : ∀ (o' : Nat) (op' : Operation), s'.operations[o']? = some op' → o' ≠ o →
    op'.Active →
      op'.wait ≠ .admission → ∃ entry : Entry, s'.entries.lookup op'.key = some entry ∧
        Engaged adapter options op'.key (current op'.key s'.log) entry op'.wait ∧
        (op'.resumes = true → entry.error.isSome = true) := by
    intro o' op' hop' hne hactive' hadmitted
    rw [hoperations] at hop'
    rcases (set_operations ho).mp hop' with ⟨heq, -⟩ | ⟨-, hold⟩
    · exact absurd heq hne
    · have hkey := h.other_key ho hactive hold hactive' hne
      rw [hother _ hkey, hlogged, hlog _ hkey]
      exact h.engaged o' op' hold hactive' hadmitted
  have hitself : s'.operations[o]? = some { op with wait := q.2 } := by
    rw [hoperations]
    exact (set_operations ho).mpr (Or.inl ⟨rfl, rfl⟩)
  -- where the operation itself has got to
  have hrest : Leased s'.operations s'.busy ∧
      (({ op with wait := q.2 } : Operation).Active →
        Engaged adapter options op.key (current op.key log) q.1 q.2 ∧
        (op.resumes = true → q.1.error.isSome = true)) ∧
      (q.1.complete = true ∨ q.1.error.isSome = true ∨ s'.Holds op.key) ∧
      (s'.completed = s.completed ∧ q.1.complete = false ∨
        s'.completed = s.completed ++ [op.key] ∧ q.1.complete = true) := by
    rcases hcases with ⟨delivery, hreturned, hbusy, hcompleted⟩ | ⟨e, hreturned, hbusy,
      hcompleted⟩ |
      ⟨hwaiting, hbusy, hcompleted⟩
    · rw [hreturned] at hwait
      rw [hoperations, hbusy, hcompleted, hsound.keyed, hreturned]
      exact ⟨h.leased.returned ho hactive _, fun hnot => absurd rfl (hnot _), Or.inl hwait.1,
        Or.inr ⟨rfl, hwait.1⟩⟩
    · rw [hreturned] at hwait
      rw [hoperations, hbusy, hcompleted, hreturned]
      exact ⟨h.leased.returned ho hactive _, fun hnot => absurd rfl (hnot _),
        Or.inr (Or.inl hwait.2), Or.inl ⟨rfl, hwait.1⟩⟩
    · have hengaged' : Engaged adapter options op.key (current op.key log) q.1 q.2 ∧
          (op.resumes = true → q.1.error.isSome = true) := by
        revert hwait hwaiting
        cases q.2 with
        | returned result => exact fun _ hwaiting => absurd rfl (hwaiting result)
        | admission => exact fun hwait _ => hwait
        | turn => exact fun hwait _ => hwait
        | recovery nextPart => exact fun hwait _ => hwait
        | permission first request => exact fun hwait _ => hwait
        | transport first => exact fun hwait _ => hwait
      have hholding : s'.Holds op.key := ⟨o, _, hitself, hwaiting, hengaged'.1.active.1, rfl⟩
      rw [hbusy, hcompleted]
      refine ⟨?_, fun _ => hengaged', Or.inr (Or.inr hholding),
        Or.inl ⟨rfl, hengaged'.1.incomplete⟩⟩
      rw [hoperations]
      exact h.leased.waits ho hactive hwaiting
  obtain ⟨hleased, hself_engaged, hself_ended, hcompleted⟩ := hrest
  constructor
  · exact hleased
  · intro o' op' hop' hadmission
    rw [hoperations] at hop'
    rcases (set_operations ho).mp hop' with ⟨-, rfl⟩ | ⟨-, hold⟩
    · have hadmission : q.2 = .admission := hadmission
      exact absurd hadmission (hself_engaged fun result hreturned => by
        rw [show ({ op with wait := q.2 } : Operation).wait = q.2 from rfl, hadmission] at hreturned
        cases hreturned).1.active.1
    · exact h.calls o' op' hold hadmission
  · intro o' op' hop' hactive' hadmitted
    by_cases heq : o' = o
    · subst heq
      obtain rfl := Option.some.inj (hitself.symm.trans hop')
      rw [hlogged]
      exact ⟨q.1, hself, hself_engaged hactive'⟩
    · exact hengaged o' op' hop' heq hactive' hadmitted
  · intro key entry' hentry'
    rw [hlogged]
    by_cases hkey : key = op.key
    · obtain rfl := hkey.symm
      obtain rfl := Option.some.inj (hself.symm.trans hentry')
      exact hsound
    · rw [hlog key hkey]
      exact h.sound key entry' (hother key hkey ▸ hentry')
  · intro key hnone
    rw [hlogged]
    have hkey : key ≠ op.key := by
      intro heq
      rw [heq, hself] at hnone
      cases hnone
    rw [hlog key hkey]
    exact h.absent key (hother key hkey ▸ hnone)
  · intro key entry' hentry'
    by_cases hkey : key = op.key
    · obtain rfl := hkey.symm
      obtain rfl := Option.some.inj (hself.symm.trans hentry')
      exact hself_ended
    · rcases h.ended key entry' (hother key hkey ▸ hentry') with hdone | hdone | hheld
      · exact Or.inl hdone
      · exact Or.inr (Or.inl hdone)
      · exact Or.inr (Or.inr (hholds key hkey hheld))
  · have hbounded := h.bounded
    rw [hentries]
    by_cases hmem : op.key ∈ s.entries.keys
    · rw [Lib.Table.length_insert_old hmem]
      exact hbounded
    · rw [Lib.Table.length_insert_new hmem]
      exact hroom (AList.lookup_eq_none.mpr (mt AList.mem_keys.mp hmem))
  · rcases hcompleted with ⟨hsame, -⟩ | ⟨hmore, -⟩
    · rw [hsame]
      exact h.queue
    · rw [hmore]
      exact List.nodup_append.mpr ⟨h.queue, List.nodup_singleton _, fun a ha b hb => by
        rintro rfl
        exact hunqueued (List.mem_singleton.mp hb ▸ ha)⟩
  · intro key
    by_cases hkey : key = op.key
    · obtain rfl := hkey.symm
      rw [hself]
      rcases hcompleted with ⟨hsame, hopen'⟩ | ⟨hmore, hcomplete⟩
      · rw [hsame]
        constructor
        · exact fun hmem => absurd hmem hunqueued
        · rintro ⟨entry', hentry', hcomplete⟩
          cases hentry'
          exact absurd (hopen'.symm.trans hcomplete) Bool.false_ne_true
      · rw [hmore]
        exact ⟨fun _ => ⟨q.1, rfl, hcomplete⟩,
          fun _ => List.mem_append_right _ (List.mem_singleton_self _)⟩
    · rw [hother key hkey, ← h.queued key]
      rcases hcompleted with ⟨hsame, -⟩ | ⟨hmore, -⟩
      · rw [hsame]
      · rw [hmore, List.mem_append, List.mem_singleton]
        exact ⟨fun hmem => hmem.resolve_right hkey, Or.inl⟩

/-- The same step, seen from the state before a possible eviction. -/
theorem follow_moves {m : Dispatcher} {o : Nat} {op : Operation} {entry : Entry}
    {p : Entry × Course} {cancelled : Bool} {marks : List Mark} (ho : s.operations[o]? = some op)
    (hoperations : m.operations = s.operations)
    (hkept : ∀ key entry, s.entries.lookup key = some entry →
      m.entries.lookup key = some entry ∨ entry.complete = true)
    (hback : ∀ key entry, m.entries.lookup key = some entry → s.entries.lookup key = some entry)
    (hforward : ∀ old, s.entries.lookup op.key = some old → old = entry)
    (hsettled : Settled adapter options op op.key entry marks (settle op cancelled p)) :
    Moves s (m.follow o op cancelled p) := by
  obtain ⟨hentries, hoperations', -, -⟩ := follow_fields (s := m) o op cancelled p
  have hwait := hsettled.wait
  have hadvance := hsettled.forward
  generalize settle op cancelled p = q at *
  generalize m.follow o op cancelled p = s' at *
  have hself : s'.entries.lookup op.key = some q.1 := by rw [hentries, AList.lookup_insert]
  have hother : ∀ key, key ≠ op.key → s'.entries.lookup key = m.entries.lookup key := by
    intro key hkey
    rw [hentries, AList.lookup_insert_ne hkey]
  constructor
  · intro key old new hold hnew
    by_cases hkey : key = op.key
    · obtain rfl := hkey.symm
      obtain rfl := hforward old hold
      obtain rfl := Option.some.inj (hself.symm.trans hnew)
      exact hadvance
    · obtain rfl := Option.some.inj (hold.symm.trans (hback key new (hother key hkey ▸ hnew)))
      exact Follows.refl _
  · intro key old hold hnone
    have hkey : key ≠ op.key := by
      intro heq
      rw [heq, hself] at hnone
      cases hnone
    rcases hkept key old hold with hthere | hcomplete
    · rw [hother key hkey, hthere] at hnone
      cases hnone
    · exact hcomplete
  · intro o' op' delivery hop' hreturned hnew
    rw [hoperations', hoperations] at hop'
    rcases (set_operations ho).mp hop' with ⟨-, rfl⟩ | ⟨-, hold⟩
    · have hreturned : q.2 = .returned (.ok delivery) := hreturned
      rw [hreturned] at hwait
      exact ⟨q.1, hself, hwait.1, hwait.2.2⟩
    · exact absurd hold hnew

/-- The oldest complete entry makes room. -/
def evict (oldest : Bytes) (rest : List Bytes) (s : Dispatcher) : Dispatcher :=
  { s with entries := s.entries.erase oldest, completed := rest, log := .evicted oldest :: s.log }

theorem evict_kept {oldest : Bytes} {rest : List Bytes} {key : Bytes} (hkey : key ≠ oldest) :
    (s.evict oldest rest).entries.lookup key = s.entries.lookup key :=
  AList.lookup_erase_ne hkey

theorem evict_gone {oldest : Bytes} {rest : List Bytes} :
    (s.evict oldest rest).entries.lookup oldest = none :=
  AList.lookup_erase _ _

theorem evict_back {oldest : Bytes} {rest : List Bytes} {key : Bytes} {entry : Entry}
    (h : (s.evict oldest rest).entries.lookup key = some entry) :
    key ≠ oldest ∧ s.entries.lookup key = some entry := by
  have hkey : key ≠ oldest := by
    rintro rfl
    rw [evict_gone] at h
    cases h
  exact ⟨hkey, evict_kept hkey ▸ h⟩

theorem Consistent.evict (h : s.Consistent adapter options) {oldest : Bytes} {rest : List Bytes}
    (hqueue : s.completed = oldest :: rest) :
    (s.evict oldest rest).Consistent adapter options ∧
      (s.evict oldest rest).entries.keys.length < options.capacity := by
  obtain ⟨entry₀, hentry₀, hcomplete₀⟩ :=
    (h.queued oldest).mp (by rw [hqueue]; exact List.mem_cons_self)
  have hnodup := h.queue
  rw [hqueue] at hnodup
  have hmem := Lib.Table.mem_keys_of_lookup hentry₀
  have hlength : (s.evict oldest rest).entries.keys.length = s.entries.keys.length - 1 :=
    Lib.Table.length_erase_of_mem hmem
  have hpositive := List.length_pos_of_mem hmem
  have hbounded := h.bounded
  refine ⟨?_, by omega⟩
  constructor
  · exact h.leased
  · exact h.calls
  · intro o op hop hactive hadmitted
    obtain ⟨entry, hentry, hengaged, hresumes⟩ := h.engaged o op hop hactive hadmitted
    have hkey : op.key ≠ oldest := by
      intro heq
      rw [heq, hentry₀] at hentry
      cases hentry
      exact absurd (hengaged.incomplete.symm.trans hcomplete₀) Bool.false_ne_true
    rw [← @current_other op.key (.evicted oldest) s.log (Ne.symm hkey)] at hengaged
    exact ⟨entry, (evict_kept hkey).trans hentry, hengaged, hresumes⟩
  · intro key entry hentry
    obtain ⟨hkey, hold⟩ := evict_back hentry
    show EntrySound adapter options key entry (current key (.evicted oldest :: s.log))
    rw [current_other (Ne.symm hkey)]
    exact h.sound key entry hold
  · intro key hnone
    show current key (.evicted oldest :: s.log) = []
    by_cases hkey : key = oldest
    · rw [hkey, current_evicted]
    · rw [current_other (Ne.symm hkey)]
      exact h.absent key (evict_kept hkey ▸ hnone)
  · intro key entry hentry
    exact h.ended key entry (evict_back hentry).2
  · omega
  · exact (List.nodup_cons.mp hnodup).2
  · intro key
    have hqueued := h.queued key
    rw [hqueue, List.mem_cons] at hqueued
    constructor
    · intro hrest
      have hkey : key ≠ oldest := fun heq => (List.nodup_cons.mp hnodup).1 (heq ▸ hrest)
      rw [evict_kept hkey]
      exact hqueued.mp (Or.inr hrest)
    · rintro ⟨entry, hentry, hcomplete⟩
      obtain ⟨hkey, hold⟩ := evict_back hentry
      exact (hqueued.mpr ⟨entry, hold, hcomplete⟩).resolve_left hkey

theorem new_sound (message : Message) {marks : List Mark}
    (hmarks : marks = [] ∨ marks = [.turn (eventKey message)]) :
    EntrySound adapter options (eventKey message) { message } marks := by
  refine ⟨rfl, rfl, Nat.le_refl _, fun _ => rfl, fun h => (by cases h), ?_, ?_, ?_, ?_, ?_, ?_, ?_,
    fun part hpart => absurd hpart (Nat.not_lt_zero part)⟩ <;>
    rcases hmarks with rfl | rfl <;> simp [Mark.key, Mark.isTurn]

/-- `handle_impl` past its admission, in a state `m` that has room and nothing of the key. -/
theorem accept_step {m : Dispatcher} (h : m.Consistent adapter options) {o : Nat} {op : Operation}
    (tasks : Result Unit) (hop : s.operations[o]? = some op) (hactive : op.Active)
      (hresumes : op.resumes = false)
    (hoperations : m.operations = s.operations)
    (hkept : ∀ key entry, s.entries.lookup key = some entry →
      m.entries.lookup key = some entry ∨ entry.complete = true)
    (hback : ∀ key entry, m.entries.lookup key = some entry → s.entries.lookup key = some entry)
    (hnew : s.entries.lookup op.key = none) (hroom : m.entries.keys.length < options.capacity) :
    (m.accept o op tasks).Consistent adapter options ∧ Moves s (m.accept o op tasks) := by
  have hnone : m.entries.lookup op.key = none := by
    cases hentry : m.entries.lookup op.key with
    | none => rfl
    | some entry =>
      rw [hback op.key entry hentry] at hnew
      cases hnew
  have hempty := h.absent op.key hnone
  have hopm : m.operations[o]? = some op := hoperations ▸ hop
  have hopen : ∀ entry, m.entries.lookup op.key = some entry → entry.complete = false := by
    intro entry hentry
    rw [hnone] at hentry
    cases hentry
  have hforward : ∀ old, s.entries.lookup op.key = some old →
      old = ({ message := op.message } : Entry) := by
    intro old hold
    rw [hnew] at hold
    cases hold
  have hunresumed : ∀ {p : Prop}, op.resumes = true → p := by
    intro p hresumes'
    rw [hresumes] at hresumes'
    cases hresumes'
  unfold accept
  cases tasks with
  | error e =>
    have hadvances : Advances adapter options op.key { message := op.message }
      (current op.key m.log)
        (({ message := op.message }, .ends (.returned (.error e))) : Entry × Course) :=
      ⟨new_sound op.message (Or.inl hempty), Follows.refl _, rfl, rfl⟩
    have hsettled := settle_settled false hadvances hunresumed
    refine ⟨h.follow hopm hactive hopen (fun _ => hroom) (fun _ _ => rfl) hsettled,
      follow_moves hop hoperations hkept hback hforward hsettled⟩
  | ok u =>
    have hmark : current op.key (.turn op.key :: m.log) = [.turn op.key] := by
      rw [@current_same op.key (.turn op.key) m.log rfl fun h => (by cases h), hempty]
    have hadvances : Advances adapter options op.key { message := op.message }
        (current op.key (.turn op.key :: m.log)) (({ message := op.message }, .waits .turn) :
          Entry × Course) :=
      ⟨new_sound op.message (Or.inr hmark), Follows.refl _, ⟨rfl, rfl⟩, rfl⟩
    have hsettled := settle_settled false hadvances hunresumed
    refine ⟨h.follow hopm hactive hopen (fun _ => hroom)
      (fun key hkey => current_other (Ne.symm hkey)) hsettled,
      follow_moves hop hoperations hkept hback hforward hsettled⟩

theorem active_of_wait {op : Operation} {wait : Wait} (h : op.wait = wait)
    (hwait : ∀ result, wait ≠ .returned result) : op.Active :=
  fun result hreturned => hwait result (h.symm.trans hreturned)

theorem Consistent.handleAllowed (h : s.Consistent adapter options) {o : Nat} {op : Operation}
    (hop : s.operations[o]? = some op) (hadmission : op.wait = .admission) (tasks : Result Unit) :
    (s.handleAllowed options o op tasks).Consistent adapter options ∧
      Moves s (s.handleAllowed options o op tasks) := by
  have hactive := active_of_wait hadmission fun _ hreturned => by cases hreturned
  have hfailed : op.wait ≠ .admission → ∀ entry, s.entries.lookup op.key = some entry →
      entry.error.isSome = true :=
    fun hne => absurd hadmission hne
  have hresumes := h.calls o op hop hadmission
  unfold Dispatcher.handleAllowed
  split
  · next entry hentry =>
    split
    · next e herror => exact ⟨h.release hop hactive _ hfailed,
        release_moves hop fun _ hok => (by cases hok)⟩
    · next herror =>
      -- nobody is at the entry, so it is complete
      have hcomplete : entry.complete = true := by
        rcases h.ended op.key entry hentry with hdone | hdone | ⟨o', op', hop', hactive',
          hadmitted, hkey⟩
        · exact hdone
        · rw [herror] at hdone
          cases hdone
        · obtain rfl := h.leased.exclusive o' o op' op hop' hop hactive' hactive
            (conversation_of_key hkey)
          obtain rfl := Option.some.inj (hop.symm.trans hop')
          exact absurd hadmission hadmitted
      have hsound := h.sound op.key entry hentry
      refine ⟨h.release hop hactive _ hfailed, release_moves hop fun delivery hok => ?_⟩
      cases hok
      have hfull := hsound.full hcomplete herror
      exact ⟨entry, hentry, hcomplete, hfull, hsound.balanced.symm.trans hfull⟩
  · next hnone =>
    split
    · split
      · exact ⟨h.release hop hactive _ hfailed, release_moves hop fun _ hok => (by cases hok)⟩
      · next oldest rest hqueue =>
        obtain ⟨hevicted, hroom⟩ := h.evict hqueue
        obtain ⟨entry₀, hentry₀, hcomplete₀⟩ :=
          (h.queued oldest).mp (by rw [hqueue]; exact List.mem_cons_self)
        refine accept_step hevicted tasks hop hactive hresumes rfl (fun key entry hentry => ?_)
          (fun key entry hentry => (evict_back hentry).2) hnone hroom
        by_cases hkey : key = oldest
        · rw [hkey, hentry₀] at hentry
          cases hentry
          exact Or.inr hcomplete₀
        · exact Or.inl ((evict_kept hkey).trans hentry)
    · next hroom =>
      exact accept_step h tasks hop hactive hresumes rfl (fun _ _ hentry => Or.inl hentry)
        (fun _ _ hentry => hentry) hnone (by omega)

/-- An operation goes on from the entry that it is at. -/
theorem Consistent.course (h : s.Consistent adapter options) {o : Nat} {op : Operation}
    {entry : Entry} {p : Entry × Course} {cancelled : Bool} {log : List Mark}
    (hop : s.operations[o]? = some op) (hactive : op.Active) (hadmitted : op.wait ≠ .admission)
    (hentry : s.entries.lookup op.key = some entry)
    (hlog : ∀ key, key ≠ op.key → current key log = current key s.log)
    (hadvances : Advances adapter options op.key entry (current op.key log) p) :
    (({ s with log } : Dispatcher).follow o op cancelled p).Consistent adapter options ∧
      Moves s (({ s with log } : Dispatcher).follow o op cancelled p) := by
  obtain ⟨entry', hentry', hengaged, hresumes⟩ := h.engaged o op hop hactive hadmitted
  obtain rfl := Option.some.inj (hentry.symm.trans hentry')
  have hopen : ∀ old, s.entries.lookup op.key = some old → old.complete = false := by
    intro old hold
    obtain rfl := Option.some.inj (hentry.symm.trans hold)
    exact hengaged.incomplete
  have hthere : s.entries.lookup op.key = none → s.entries.keys.length < options.capacity := by
    intro hnone
    rw [hentry] at hnone
    cases hnone
  have hsettled := settle_settled cancelled hadvances hresumes
  exact ⟨h.follow hop hactive hopen hthere hlog hsettled,
    follow_moves hop rfl (fun _ _ hold => Or.inl hold) (fun _ _ hold => hold)
      (fun old hold => Option.some.inj (hold.symm.trans hentry)) hsettled⟩

theorem Consistent.authorized (h : s.Consistent adapter options) {o : Nat} {op : Operation}
    (hop : s.operations[o]? = some op) (allowed : Outcome Unit) (tasks : Result Unit)
      (cancelled : Bool) :
    (s.authorized adapter options o op allowed tasks cancelled).Consistent adapter options ∧
      Moves s (s.authorized adapter options o op allowed tasks cancelled) := by
  have hsame : s.Consistent adapter options ∧ Moves s s := ⟨h, Moves.refl s⟩
  -- an operation that is refused at its first authorization leaves the entries alone
  have hreleased : ∀ (e : Error), op.Active →
      (op.wait ≠ .admission → ∀ entry, s.entries.lookup op.key = some entry →
        entry.error.isSome = true) →
      (s.release o op (.error e)).Consistent adapter options ∧
        Moves s (s.release o op (.error e)) :=
    fun e hactive hfailed =>
      ⟨h.release hop hactive _ hfailed, release_moves hop fun _ hok => by cases hok⟩
  have hrecovering : ∀ nextPart, op.wait = .recovery nextPart → op.Active ∧ op.wait ≠ .admission ∧
      ∀ entry, s.entries.lookup op.key = some entry →
        Engaged adapter options op.key (current op.key s.log) entry (.recovery nextPart) := by
    intro nextPart hwait
    have hactive := active_of_wait hwait fun _ hreturned => by cases hreturned
    have hadmitted : op.wait ≠ .admission := by rw [hwait]; exact fun hne => by cases hne
    refine ⟨hactive, hadmitted, fun entry hentry => ?_⟩
    obtain ⟨entry', hentry', hengaged, -⟩ := h.engaged o op hop hactive hadmitted
    obtain rfl := Option.some.inj (hentry.symm.trans hentry')
    rwa [hwait] at hengaged
  unfold Dispatcher.authorized
  split
  · next hadmission => exact h.handleAllowed hop hadmission tasks
  · next e hadmission =>
    exact hreleased e (active_of_wait hadmission fun _ hr => by cases hr) fun hne =>
      absurd hadmission hne
  · next hadmission =>
    exact hreleased _ (active_of_wait hadmission fun _ hr => by cases hr) fun hne =>
      absurd hadmission hne
  · next nextPart hwait =>
    obtain ⟨hactive, hadmitted, hengaged⟩ := hrecovering nextPart hwait
    split
    · exact hsame
    · next entry hentry =>
      have hmark : current op.key (.resumed op.key entry.reply.nextPart nextPart :: s.log) =
          .resumed op.key entry.reply.nextPart nextPart :: current op.key s.log :=
        current_same rfl fun hne => by cases hne
      refine h.course hop hactive hadmitted hentry (fun key hkey => current_other (Ne.symm hkey)) ?_
      rw [hmark]
      exact recover_advances (h.sound op.key entry hentry) (hengaged entry hentry)
  · next nextPart e hwait =>
    obtain ⟨hactive, -, hengaged⟩ := hrecovering nextPart hwait
    exact hreleased e hactive fun _ entry hentry => (hengaged entry hentry).2.2.1
  · next nextPart hwait =>
    obtain ⟨hactive, -, hengaged⟩ := hrecovering nextPart hwait
    exact hreleased _ hactive fun _ entry hentry => (hengaged entry hentry).2.2.1
  · next first request hwait =>
    have hactive := active_of_wait hwait fun _ hreturned => by cases hreturned
    have hadmitted : op.wait ≠ .admission := by rw [hwait]; exact fun hne => by cases hne
    split
    · exact hsame
    · next entry hentry =>
      obtain ⟨entry', hentry', hengaged, -⟩ := h.engaged o op hop hactive hadmitted
      obtain rfl := Option.some.inj (hentry.symm.trans hentry')
      rw [hwait] at hengaged
      have hsound := h.sound op.key entry hentry
      have hfails : ∀ e, (s.follow o op cancelled (unconfirmed entry e)).Consistent
        adapter options ∧
          Moves s (s.follow o op cancelled (unconfirmed entry e)) := fun e =>
        h.course hop hactive hadmitted hentry (fun _ _ => rfl)
            (unconfirmed_advances hsound hengaged.1 e)
      split
      · have hmark : current op.key (.sent op.key entry.reply.nextPart request :: s.log) =
            .sent op.key entry.reply.nextPart request :: current op.key s.log :=
          current_same rfl fun hne => by cases hne
        refine h.course hop hactive hadmitted hentry
          (fun key hkey => current_other (Ne.symm hkey)) ?_
        rw [hmark]
        exact ⟨sent_sound hsound hengaged.2.1.unsent hengaged.2.2, Follows.refl _,
          ⟨hengaged.1, hengaged.2.1, request, List.mem_cons_self⟩, rfl⟩
      · exact hfails _
      · exact hfails _
  · exact hsame

theorem Consistent.answered (h : s.Consistent adapter options) {o : Nat} {op : Operation}
    (hop : s.operations[o]? = some op) (ended : TurnEnd) :
    (s.answered adapter options o op ended).Consistent adapter options ∧
      Moves s (s.answered adapter options o op ended) := by
  unfold Dispatcher.answered
  split
  · next entry hwait hentry =>
    have hactive := active_of_wait hwait fun _ hreturned => by cases hreturned
    have hadmitted : op.wait ≠ .admission := by rw [hwait]; exact fun hne => by cases hne
    obtain ⟨entry', hentry', hengaged, -⟩ := h.engaged o op hop hactive hadmitted
    obtain rfl := Option.some.inj (hentry.symm.trans hentry')
    rw [hwait] at hengaged
    exact h.course hop hactive hadmitted hentry (fun _ _ => rfl)
      (process_advances (h.sound op.key entry hentry) hengaged.1 hengaged.2 ended)
  · exact ⟨h, Moves.refl s⟩

theorem Consistent.transported (h : s.Consistent adapter options) {o : Nat} {op : Operation}
    (hop : s.operations[o]? = some op) (response : Outcome Response) (cancelled : Bool) :
    (s.transported adapter options o op response cancelled).Consistent adapter options ∧
      Moves s (s.transported adapter options o op response cancelled) := by
  unfold Dispatcher.transported
  split
  · next first entry hwait hentry =>
    have hactive := active_of_wait hwait fun _ hreturned => by cases hreturned
    have hadmitted : op.wait ≠ .admission := by rw [hwait]; exact fun hne => by cases hne
    obtain ⟨entry', hentry', hengaged, -⟩ := h.engaged o op hop hactive hadmitted
    obtain rfl := Option.some.inj (hentry.symm.trans hentry')
    rw [hwait] at hengaged
    have hsound := h.sound op.key entry hentry
    split
    · have hmark : current op.key (.confirmed op.key entry.reply.nextPart :: s.log) =
          .confirmed op.key entry.reply.nextPart :: current op.key s.log :=
        current_same rfl fun hne => by cases hne
      refine h.course hop hactive hadmitted hentry (fun key hkey => current_other (Ne.symm hkey)) ?_
      rw [hmark]
      obtain ⟨request, hasked⟩ := hengaged.2.2
      exact confirm_advances hsound hengaged.1 hengaged.2.1 hasked
    · exact h.course hop hactive hadmitted hentry (fun _ _ => rfl)
        (unconfirmed_advances hsound hengaged.1 _)
  · exact ⟨h, Moves.refl s⟩

theorem Consistent.handle (h : s.Consistent adapter options) (message : Message) :
    (s.handle adapter options message).Consistent adapter options ∧
      Moves s (s.handle adapter options message) := by
  have hrefused : ∀ e, (s.refuse message false e).Consistent adapter options ∧
      Moves s (s.refuse message false e) :=
    fun e => ⟨h.refuse message false e, refuse_moves message false e⟩
  unfold Dispatcher.handle
  split
  · exact hrefused _
  split
  · exact hrefused _
  · next hidle =>
    split
    · exact hrefused _
    · have hactive : ∀ result, Wait.admission ≠ .returned result :=
        fun _ hreturned => by cases hreturned
      exact ⟨h.lease (by simpa using hidle) hactive (fun _ => rfl) fun hne => absurd rfl hne,
        lease_moves hactive⟩

/-- What `pending` shows of an idle conversation: an unfinished reply that failed. -/
theorem Consistent.pending (h : s.Consistent adapter options) {message : Message}
    {reply : PendingReply} (hpending : s.pending message = .ok reply) :
    conversationKey message.conversation ∉ s.busy ∧ ∃ entry,
      s.entries.lookup (eventKey message) = some entry ∧
      entry.reply = reply ∧ entry.generated = true ∧ entry.complete = false ∧
        entry.error.isSome = true := by
  unfold Dispatcher.pending at hpending
  split at hpending
  · cases hpending
  · next hidle =>
    have hidle : conversationKey message.conversation ∉ s.busy := by simpa using hidle
    split at hpending
    · cases hpending
    · next entry hentry =>
      split at hpending
      · cases hpending
      · next hstate =>
        simp only [Bool.or_eq_true, Bool.not_eq_true', not_or, Bool.not_eq_false,
          Bool.not_eq_true] at hstate
        refine ⟨hidle, entry, hentry, Except.ok.inj hpending, hstate.1, hstate.2, ?_⟩
        rcases h.ended (eventKey message) entry hentry with hdone | hdone | ⟨o, op, hop,
          hactive, -, hkey⟩
        · exact absurd (hstate.2.symm.trans hdone) Bool.false_ne_true
        · exact hdone
        · -- an operation at the entry would keep the conversation busy
          have hsame : op.conversation = conversationKey message.conversation :=
            congrArg conversationKey (eventKey_conversation hkey)
          exact absurd ((h.leased.leases _).mpr ⟨o, op, hop, hactive, hsame⟩) hidle

theorem Consistent.resume (h : s.Consistent adapter options) (message : Message) (nextPart : Nat) :
    (s.resume message nextPart).Consistent adapter options ∧
      Moves s (s.resume message nextPart) := by
  have hrefused : ∀ e, (s.refuse message true e).Consistent adapter options ∧
      Moves s (s.refuse message true e) :=
    fun e => ⟨h.refuse message true e, refuse_moves message true e⟩
  unfold Dispatcher.resume
  split
  · exact hrefused _
  · next reply hpending =>
    obtain ⟨hidle, entry, hentry, rfl, hgenerated, hopen, herror⟩ := h.pending hpending
    split
    · exact hrefused _
    · next hposition =>
      simp only [Bool.or_eq_true, decide_eq_true_eq, not_or, Nat.not_lt] at hposition
      have hactive : ∀ result, Wait.recovery nextPart ≠ .returned result :=
        fun _ hreturned => by cases hreturned
      refine ⟨h.lease hidle hactive (fun hne => by cases hne) fun _ => ?_, lease_moves hactive⟩
      exact ⟨entry, hentry, ⟨hopen, hgenerated, herror, hposition.1, hposition.2⟩, fun _ => herror⟩

theorem Consistent.acknowledgeFailure (h : s.Consistent adapter options) (message : Message) :
    (s.acknowledgeFailure message).2.Consistent adapter options ∧
      Moves s (s.acknowledgeFailure message).2 := by
  have hsame : s.Consistent adapter options ∧ Moves s s := ⟨h, Moves.refl s⟩
  unfold Dispatcher.acknowledgeFailure
  split
  · exact hsame
  next hidle =>
  have hidle : conversationKey message.conversation ∉ s.busy := by simpa using hidle
  split
  · exact hsame
  next entry hentry =>
  split
  · exact hsame
  next herror =>
  have herror : entry.error.isSome = true := by simpa [Option.isSome_iff_ne_none] using herror
  split
  · exact hsame
  next hopen =>
  have hopen : entry.complete = false := by simpa using hopen
  generalize hkey : eventKey message = key at *
  -- no operation is at the entry of an idle conversation
  have hfree : ∀ (o : Nat) (op : Operation), s.operations[o]? = some op → op.Active →
      op.key ≠ key := by
    intro o op hop hactive heq
    have hsame : op.conversation = conversationKey message.conversation :=
      congrArg conversationKey (eventKey_conversation (heq.trans hkey.symm))
    exact hidle ((h.leased.leases _).mpr ⟨o, op, hop, hactive, hsame⟩)
  have hsound := h.sound key entry hentry
  have hself : (s.entries.insert key { entry with complete := true }).lookup key =
      some { entry with complete := true } := AList.lookup_insert _
  have hother : ∀ k, k ≠ key →
      (s.entries.insert key { entry with complete := true }).lookup k = s.entries.lookup k :=
    fun k hk => AList.lookup_insert_ne hk
  have hunqueued : key ∉ s.completed := by
    intro hmem
    obtain ⟨old, hold, hcomplete⟩ := (h.queued key).mp hmem
    obtain rfl := Option.some.inj (hentry.symm.trans hold)
    exact absurd (hopen.symm.trans hcomplete) Bool.false_ne_true
  constructor
  · constructor
    · exact h.leased
    · exact h.calls
    · intro o op hop hactive hadmitted
      obtain ⟨entry', hentry', hrest⟩ := h.engaged o op hop hactive hadmitted
      exact ⟨entry', (hother _ (hfree o op hop hactive)).trans hentry', hrest⟩
    · intro k entry' hentry'
      by_cases hk : k = key
      · subst hk
        obtain rfl := Option.some.inj (hself.symm.trans hentry')
        refine { hsound with full := fun _ hnone => ?_ }
        have hnone : entry.error = none := hnone
        rw [hnone] at herror
        cases herror
      · exact h.sound k entry' (hother k hk ▸ hentry')
    · intro k hnone
      have hk : k ≠ key := by
        rintro rfl
        rw [show (s.entries.insert k { entry with complete := true }).lookup k =
          _ from hself] at hnone
        cases hnone
      exact h.absent k (hother k hk ▸ hnone)
    · intro k entry' hentry'
      by_cases hk : k = key
      · subst hk
        obtain rfl := Option.some.inj (hself.symm.trans hentry')
        exact Or.inl rfl
      · exact h.ended k entry' (hother k hk ▸ hentry')
    · show (s.entries.insert key { entry with complete := true }).keys.length ≤ options.capacity
      rw [Lib.Table.length_insert_old (Lib.Table.mem_keys_of_lookup hentry)]
      exact h.bounded
    · exact List.nodup_append.mpr ⟨h.queue, List.nodup_singleton _, fun a ha b hb => by
        rintro rfl
        exact hunqueued (List.mem_singleton.mp hb ▸ ha)⟩
    · intro k
      show k ∈ s.completed ++ [key] ↔ _
      rw [List.mem_append, List.mem_singleton]
      by_cases hk : k = key
      · subst hk
        exact ⟨fun _ => ⟨_, hself, rfl⟩, fun _ => Or.inr rfl⟩
      · rw [h.queued k]
        constructor
        · rintro (⟨entry', hentry', hcomplete⟩ | heq)
          · exact ⟨entry', (hother k hk).trans hentry', hcomplete⟩
          · exact absurd heq hk
        · rintro ⟨entry', hentry', hcomplete⟩
          exact Or.inl ⟨entry', hother k hk ▸ hentry', hcomplete⟩
  · constructor
    · intro k old new hold hnew
      by_cases hk : k = key
      · subst hk
        obtain rfl := Option.some.inj (hentry.symm.trans hold)
        obtain rfl := Option.some.inj (hself.symm.trans hnew)
        exact ⟨Nat.le_refl _, rfl, fun hgenerated => ⟨hgenerated, rfl⟩⟩
      · obtain rfl := Option.some.inj (hold.symm.trans (hother k hk ▸ hnew))
        exact Follows.refl _
    · intro k old hold hnone
      by_cases hk : k = key
      · subst hk
        rw [show (s.entries.insert k { entry with complete := true }).lookup k =
          _ from hself] at hnone
        cases hnone
      · rw [show (s.entries.insert key { entry with complete := true }).lookup k =
          _ from hother k hk, hold] at hnone
        cases hnone
    · exact fun o op delivery hop _ hnew => absurd hop hnew

theorem Consistent.step (h : s.Consistent adapter options) (event : DispatcherEvent) :
    (s.step adapter options event).Consistent adapter options ∧
      Moves s (s.step adapter options event) := by
  have hon : ∀ (o : Nat) (f : Operation → Dispatcher → Dispatcher),
      (∀ op, s.operations[o]? = some op → (f op s).Consistent adapter options ∧ Moves s (f op s)) →
        (s.onOperation o f).Consistent adapter options ∧ Moves s (s.onOperation o f) := by
    intro o f hf
    unfold onOperation
    split
    · exact ⟨h, Moves.refl s⟩
    · next op hop => exact hf op hop
  cases event with
  | handle message => exact h.handle message
  | resume message nextPart => exact h.resume message nextPart
  | pending message => exact ⟨h, Moves.refl s⟩
  | acknowledgeFailure message => exact h.acknowledgeFailure message
  | authorized o allowed tasks cancelled =>
      exact hon o _ fun op hop => h.authorized hop allowed tasks cancelled
  | answered o ended => exact hon o _ fun op hop => h.answered hop ended
  | transported o response cancelled =>
      exact hon o _ fun op hop => h.transported hop response cancelled

theorem run_consistent (adapter : Adapter) (options : DispatcherOptions)
    (events : List DispatcherEvent) :
    (run adapter options events).Consistent adapter options := by
  have hfold : ∀ (events : List DispatcherEvent) (s : Dispatcher), s.Consistent adapter options →
      (events.foldl (Dispatcher.step adapter options) s).Consistent adapter options := by
    intro events
    induction events with
    | nil => exact fun s h => h
    | cons event events ih => exact fun s h => ih _ (h.step event).1
  refine hfold events {} ?_
  constructor
  · refine ⟨fun conversation => ⟨fun hmem => (by cases hmem), ?_⟩, List.nodup_nil,
      fun o o' op op' hop => (by cases hop)⟩
    rintro ⟨o, op, hop, -⟩
    cases hop
  · exact fun o op hop => by cases hop
  · exact fun o op hop => by cases hop
  · exact fun key entry hentry => by cases hentry
  · exact fun key _ => rfl
  · exact fun key entry hentry => by cases hentry
  · exact Nat.zero_le _
  · exact List.nodup_nil
  · refine fun key => ⟨fun hmem => (by cases hmem), ?_⟩
    rintro ⟨entry, hentry, -⟩
    cases hentry

/-- What a step marks: the turn of a key without an entry, the oldest complete key, the send
of the permitted request, the receipt of the transport, the position of a permitted resume. -/
def Records (adapter : Adapter) (s : Dispatcher) (event : DispatcherEvent) : Mark → Prop
  | .turn key => ∃ (o : Nat) (op : Operation) (cancelled : Bool),
      event = .authorized o (.returned (.ok ())) (.ok ()) cancelled ∧ s.operations[o]? = some op ∧
        op.wait = .admission ∧ op.key = key ∧ s.entries.lookup key = none
  | .evicted key => ∃ rest : List Bytes, s.completed = key :: rest
  | .sent key part request =>
      ∃ (o : Nat) (op : Operation) (tasks : Result Unit) (cancelled : Bool) (first : Nat)
      (entry : Entry), event = .authorized o (.returned (.ok ())) tasks cancelled ∧
        s.operations[o]? = some op ∧
        op.wait = .permission first request ∧ op.key = key ∧ s.entries.lookup key = some entry ∧
        entry.reply.nextPart = part
  | .confirmed key part =>
      ∃ (o : Nat) (op : Operation) (response : Outcome Response) (cancelled : Bool)
      (receipt : Receipt) (first : Nat) (entry : Entry), event = .transported o response cancelled ∧
        partReceipt adapter response cancelled = .ok receipt ∧ s.operations[o]? = some op ∧
        op.wait = .transport first ∧ op.key = key ∧ s.entries.lookup key = some entry ∧
          entry.reply.nextPart = part
  | .resumed key old next =>
      ∃ (o : Nat) (op : Operation) (tasks : Result Unit) (cancelled : Bool) (entry : Entry),
      event = .authorized o (.returned (.ok ())) tasks cancelled ∧ s.operations[o]? = some op ∧
        op.wait = .recovery next ∧ op.key = key ∧ s.entries.lookup key = some entry ∧
          entry.reply.nextPart = old

/-- The log of a step is the log before it and what the step marks. -/
theorem step_records (adapter : Adapter) (options : DispatcherOptions) (s : Dispatcher)
    (event : DispatcherEvent) :
    ∃ marks, (s.step adapter options event).log = marks ++ s.log ∧ ∀ m ∈ marks,
      s.Records adapter event m := by
  have hsame : ∀ s' : Dispatcher, s'.log = s.log →
      ∃ marks, s'.log = marks ++ s.log ∧ ∀ m ∈ marks, s.Records adapter event m :=
    fun s' hlog => ⟨[], hlog, fun _ hm => by cases hm⟩
  have hone : ∀ (s' : Dispatcher) (m : Mark), s'.log = m :: s.log → s.Records adapter event m →
      ∃ marks, s'.log = marks ++ s.log ∧ ∀ m ∈ marks, s.Records adapter event m := by
    intro s' m hlog hm
    exact ⟨[m], hlog, fun m' hm' => List.mem_singleton.mp hm' ▸ hm⟩
  have hfollowed : ∀ (m : Dispatcher) (o : Nat) (op : Operation) (cancelled : Bool)
    (p : Entry × Course),
      (m.follow o op cancelled p).log = m.log :=
    fun m o op cancelled p => (follow_fields o op cancelled p).2.2.1
  cases event with
  | handle message =>
    refine hsame _ ?_
    show (s.handle adapter options message).log = s.log
    unfold Dispatcher.handle
    split
    · rfl
    split
    · rfl
    split <;> rfl
  | resume message nextPart =>
    refine hsame _ ?_
    show (s.resume message nextPart).log = s.log
    unfold Dispatcher.resume
    split
    · rfl
    split <;> rfl
  | pending message => exact hsame _ rfl
  | acknowledgeFailure message =>
    refine hsame _ ?_
    show (s.acknowledgeFailure message).2.log = s.log
    unfold Dispatcher.acknowledgeFailure
    split
    · rfl
    split
    · rfl
    split
    · rfl
    split <;> rfl
  | answered o ended =>
    refine hsame _ ?_
    show (s.onOperation o fun op => answered adapter options o op ended).log = s.log
    unfold onOperation Dispatcher.answered
    split
    · rfl
    dsimp only
    split
    · exact hfollowed _ _ _ _ _
    · rfl
  | transported o response cancelled =>
    show ∃ marks,
      (s.onOperation o fun op => transported adapter options o op response cancelled).log = _ ∧ _
    unfold onOperation
    split
    · exact hsame _ rfl
    next op hop =>
    dsimp only
    unfold Dispatcher.transported
    split
    · next first entry hwait hentry =>
      split
      · next receipt hreceipt =>
        exact hone _ _ (hfollowed _ _ _ _ _)
          ⟨o, op, response, cancelled, receipt, first, entry, rfl, hreceipt, hop, hwait, rfl,
            hentry, rfl⟩
      · exact hsame _ (hfollowed _ _ _ _ _)
    · exact hsame _ rfl
  | authorized o allowed tasks cancelled =>
    show ∃ marks,
      (s.onOperation o fun op => authorized adapter options o op allowed tasks cancelled).log = _ ∧
      _
    unfold onOperation
    split
    · exact hsame _ rfl
    next op hop =>
    dsimp only
    unfold Dispatcher.authorized
    split
    · next hadmission =>
      unfold Dispatcher.handleAllowed
      split
      · split <;> exact hsame _ rfl
      next hnone =>
      have hturn : tasks = .ok () →
        s.Records adapter (.authorized o (.returned (.ok ())) tasks cancelled)
          (.turn op.key) := by
        rintro rfl
        exact ⟨o, op, cancelled, rfl, hop, hadmission, rfl, hnone⟩
      split
      · split
        · exact hsame _ rfl
        · next oldest rest hqueue =>
          have hevicted : s.Records adapter (.authorized o (.returned (.ok ())) tasks cancelled)
              (.evicted oldest) :=
            ⟨rest, hqueue⟩
          cases tasks with
          | error e => exact hone _ _ (hfollowed _ _ _ _ _) hevicted
          | ok u =>
            refine ⟨[.turn op.key, .evicted oldest], hfollowed _ _ _ _ _, ?_⟩
            exact List.forall_mem_cons.mpr ⟨hturn rfl, List.forall_mem_singleton.mpr hevicted⟩
      · cases tasks with
        | error e => exact hsame _ (hfollowed _ _ _ _ _)
        | ok u => exact hone _ _ (hfollowed _ _ _ _ _) (hturn rfl)
    · exact hsame _ rfl
    · exact hsame _ rfl
    · next nextPart hwait =>
      split
      · exact hsame _ rfl
      · next entry hentry =>
        exact hone _ _ (hfollowed _ _ _ _ _) ⟨o, op, tasks, cancelled, entry, rfl, hop, hwait, rfl,
          hentry, rfl⟩
    · exact hsame _ rfl
    · exact hsame _ rfl
    · next first request hwait =>
      split
      · exact hsame _ rfl
      · next entry hentry =>
        split
        · exact hone _ _ (hfollowed _ _ _ _ _)
            ⟨o, op, tasks, cancelled, first, entry, rfl, hop, hwait, rfl, hentry, rfl⟩
        · exact hsame _ (hfollowed _ _ _ _ _)
        · exact hsame _ (hfollowed _ _ _ _ _)
    · exact hsame _ rfl

/-- A turn that splits its answer leaves the parts in its entry. -/
theorem answered_parts {o : Nat} {op : Operation} {entry : Entry} {ended : TurnEnd} {failed : Nat}
    {answer : Bytes} {parts : List Bytes} (hop : s.operations[o]? = some op)
    (hwait : op.wait = .turn) (hentry : s.entries.lookup op.key = some entry)
    (hjoined : ended.joined = .ok failed) (hanswer : ended.result = .ok answer)
    (hparts : replyParts adapter options entry.message answer = .returned (.ok parts)) :
    ∃ entry', (s.step adapter options (.answered o ended)).entries.lookup op.key = some entry' ∧
      entry'.generated = true ∧ entry'.reply.parts = parts := by
  have hstep : s.step adapter options (.answered o ended) =
      s.follow o op ended.cancelled (process adapter options ended entry) := by
    show s.onOperation o (fun op => answered adapter options o op ended) = _
    unfold onOperation
    rw [hop]
    dsimp only
    unfold Dispatcher.answered
    rw [hwait, hentry]
  have hsettled := settle_generated op ended.cancelled (process adapter options ended entry)
  have hprocessed := process_parts hjoined hanswer hparts
  refine ⟨_, ?_, hsettled.1.trans hprocessed.1, hsettled.2 ▸ hprocessed.2⟩
  rw [hstep, (follow_fields o op ended.cancelled _).1, AList.lookup_insert]

/-- What holds of deliveries after any calls, in any interleaving. The history of a key
begins with its last eviction. A part that a delivery is past was confirmed, and then sent
before as its rendering, unless an operator resumed past it. -/
structure Contract (adapter : Adapter) (options : DispatcherOptions) (s : Dispatcher) : Prop where
  turns : ∀ key : Bytes, (current key s.log).countP Mark.isTurn ≤ 1
  retained : ∀ key : Bytes, s.entries.lookup key = none → current key s.log = []
  order : ∀ key : Bytes, (current key s.log).Pairwise Mark.InOrder
  requests : ∀ (key : Bytes) (entry : Entry) (part : Nat) (request : Request),
    s.entries.lookup key = some entry →
    .sent key part request ∈ current key s.log → part < entry.reply.parts.length ∧
      render adapter options entry.message (entry.reply.parts.getD part []) part =
        .returned (.ok request)
  answers : ∀ (key : Bytes) (part : Nat), .confirmed key part ∈ current key s.log →
    ∃ request, .sent key part request ∈ current key s.log
  covered : ∀ (key : Bytes) (entry : Entry), s.entries.lookup key = some entry →
    ∀ part < entry.reply.nextPart, Covered key (current key s.log) part
  position : ∀ (key : Bytes) (entry : Entry), s.entries.lookup key = some entry →
    eventKey entry.message = key ∧ entry.reply.nextPart = entry.delivery.partsSent ∧
      entry.reply.nextPart ≤ entry.reply.parts.length
  rendered : ∀ (o : Nat) (op : Operation) (first : Nat), s.operations[o]? = some op →
    (op.wait = .transport first ∨ ∃ request, op.wait = .permission first request) →
      ∃ entry : Entry, s.entries.lookup op.key = some entry ∧ first ≤ entry.reply.nextPart ∧
        ∀ j, first ≤ j → j < entry.reply.parts.length → Renders adapter options entry j
  leased : Leased s.operations s.busy
  bounded : s.entries.keys.length ≤ options.capacity
  queue : s.completed.Nodup
  queued : ∀ key : Bytes, key ∈ s.completed ↔
    ∃ entry : Entry, s.entries.lookup key = some entry ∧ entry.complete = true
  moves : ∀ event, Moves s (s.step adapter options event)
  records : ∀ event, ∃ marks, (s.step adapter options event).log = marks ++ s.log ∧
    ∀ m ∈ marks, s.Records adapter event m
  splits : ∀ (o : Nat) (op : Operation) (entry : Entry) (ended : TurnEnd) (failed : Nat)
    (answer : Bytes)
    (parts : List Bytes), s.operations[o]? = some op → op.wait = .turn →
      s.entries.lookup op.key = some entry →
      ended.joined = .ok failed → ended.result = .ok answer →
        replyParts adapter options entry.message answer = .returned (.ok parts) →
          ∃ entry', (s.step adapter options (.answered o ended)).entries.lookup op.key =
            some entry' ∧
            entry'.generated = true ∧ entry'.reply.parts = parts

theorem Consistent.rendered (h : s.Consistent adapter options) {o : Nat} {op : Operation}
    {first : Nat} (hop : s.operations[o]? = some op)
    (hwait : op.wait = .transport first ∨ ∃ request, op.wait = .permission first request) :
    ∃ entry : Entry, s.entries.lookup op.key = some entry ∧ first ≤ entry.reply.nextPart ∧
      ∀ j, first ≤ j → j < entry.reply.parts.length → Renders adapter options entry j := by
  have hactive : op.Active := by
    rcases hwait with hwait | ⟨request, hwait⟩ <;> exact active_of_wait hwait fun _ hreturned => by
      cases hreturned
  have hadmitted : op.wait ≠ .admission := by
    rcases hwait with hwait | ⟨request, hwait⟩ <;> rw [hwait] <;> exact fun hne => by cases hne
  obtain ⟨entry, hentry, hengaged, -⟩ := h.engaged o op hop hactive hadmitted
  have hdelivering : Delivering adapter options first entry := by
    rcases hwait with hwait | ⟨request, hwait⟩
    · rw [hwait] at hengaged
      exact hengaged.2.1
    · rw [hwait] at hengaged
      exact hengaged.2.1
  exact ⟨entry, hentry, hdelivering.begun, hdelivering.renders⟩

theorem run_contract (adapter : Adapter) (options : DispatcherOptions)
    (events : List DispatcherEvent) :
    (run adapter options events).Contract adapter options := by
  have h := run_consistent adapter options events
  generalize run adapter options events = s at h
  have hmarks : ∀ key, (current key s.log).countP Mark.isTurn ≤ 1 ∧
      (current key s.log).Pairwise Mark.InOrder := by
    intro key
    cases hentry : s.entries.lookup key with
    | none =>
      rw [h.absent key hentry]
      exact ⟨Nat.zero_le _, List.Pairwise.nil⟩
    | some entry => exact ⟨(h.sound key entry hentry).turn, (h.sound key entry hentry).order⟩
  constructor
  · exact fun key => (hmarks key).1
  · exact h.absent
  · exact fun key => (hmarks key).2
  · exact fun key entry part request hentry hsent =>
      (h.sound key entry hentry).requests part request hsent
  · intro key part hconfirmed
    cases hentry : s.entries.lookup key with
    | none =>
      rw [h.absent key hentry] at hconfirmed
      cases hconfirmed
    | some entry => exact (h.sound key entry hentry).answers part hconfirmed
  · exact fun key entry hentry => (h.sound key entry hentry).covered
  · intro key entry hentry
    have hsound := h.sound key entry hentry
    exact ⟨hsound.keyed, hsound.balanced, hsound.within⟩
  · exact fun o op first hop hwait => h.rendered hop hwait
  · exact h.leased
  · exact h.bounded
  · exact h.queue
  · exact h.queued
  · exact fun event => (h.step event).2
  · exact fun event => step_records adapter options s event
  · exact fun o op entry ended failed answer parts hop hwait hentry =>
      answered_parts hop hwait hentry

end Dispatcher

end Orangutan.Channel
