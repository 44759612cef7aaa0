import Orangutan.Channel.Dispatcher

/-!
# One retained entry

The marks of a key since its last eviction are the history of the entry that is retained
under it: one turn at most, sends in the order of the parts, and none of a part that was
confirmed before.
-/

namespace Orangutan.Channel

set_option autoImplicit false

open Orangutan.Core

namespace Mark

def key : Mark → Bytes
  | turn key => key
  | sent key _ _ => key
  | confirmed key _ => key
  | resumed key _ _ => key
  | evicted key => key

def isTurn : Mark → Bool
  | turn _ => true
  | _ => false

/-- What a mark may follow: a send goes on from the last one, and past what is confirmed. -/
def InOrder : Mark → Mark → Prop
  | sent _ part _, sent _ earlier _ => earlier ≤ part
  | sent _ part _, confirmed _ earlier => earlier < part
  | _, _ => True

end Mark

/-- The marks of a key since it was last evicted, newest first. -/
def current (key : Bytes) (log : List Mark) : List Mark :=
  (log.takeWhile fun m => m ≠ .evicted key).filter fun m => m.key = key

section Marks

variable {key : Bytes} {m : Mark} {log : List Mark}

theorem current_evicted : current key (.evicted key :: log) = [] := by
  simp [current]

theorem current_same (hkey : m.key = key) (hkept : m ≠ .evicted key) :
    current key (m :: log) = m :: current key log := by
  simp [current, hkey, hkept]

theorem current_other (hkey : m.key ≠ key) : current key (m :: log) = current key log := by
  have hkept : m ≠ .evicted key := by
    rintro rfl
    exact hkey rfl
  simp [current, hkey, hkept]

end Marks

section Entries

variable (adapter : Adapter) (options : DispatcherOptions)

/-- The part can be rendered; rendering is pure. -/
def Renders (entry : Entry) (index : Nat) : Prop :=
  ∃ request, render adapter options entry.message (entry.reply.parts.getD index []) index =
    .returned (.ok request)

/-- The part is past, because its send was confirmed or an operator skipped it. -/
def Covered (key : Bytes) (marks : List Mark) (part : Nat) : Prop :=
  .confirmed key part ∈ marks ∨ ∃ old next, .resumed key old next ∈ marks ∧ old ≤ part ∧ part < next

/-- An entry under its key, with its history. -/
structure EntrySound (key : Bytes) (entry : Entry) (marks : List Mark) : Prop where
  keyed : eventKey entry.message = key
  balanced : entry.reply.nextPart = entry.delivery.partsSent
  within : entry.reply.nextPart ≤ entry.reply.parts.length
  fresh : entry.generated = false → entry.reply.parts = []
  full : entry.complete = true → entry.error = none →
    entry.reply.nextPart = entry.reply.parts.length
  own : ∀ m ∈ marks, m.key = key
  turn : marks.countP Mark.isTurn ≤ 1
  sent : ∀ part request, .sent key part request ∈ marks → part ≤ entry.reply.nextPart
  confirmed : ∀ part, .confirmed key part ∈ marks → part < entry.reply.nextPart
  order : marks.Pairwise Mark.InOrder
  requests : ∀ part request, .sent key part request ∈ marks → part < entry.reply.parts.length ∧
    render adapter options entry.message (entry.reply.parts.getD part []) part =
      .returned (.ok request)
  answers : ∀ part, .confirmed key part ∈ marks → ∃ request, .sent key part request ∈ marks
  covered : ∀ part < entry.reply.nextPart, Covered key marks part

/-- An entry keeps its message, and its parts once it has them; it only goes forward. -/
structure Follows (entry entry' : Entry) : Prop where
  nextPart : entry.reply.nextPart ≤ entry'.reply.nextPart
  message : entry'.message = entry.message
  parts : entry.generated = true → entry'.generated = true ∧ entry'.reply.parts = entry.reply.parts

theorem Follows.refl (entry : Entry) : Follows entry entry :=
  ⟨Nat.le_refl _, rfl, fun hgenerated => ⟨hgenerated, rfl⟩⟩

theorem Follows.trans {entry entry' entry'' : Entry} (h : Follows entry entry')
    (h' : Follows entry' entry'') :
    Follows entry entry'' :=
  ⟨h.nextPart.trans h'.nextPart, h'.message.trans h.message, fun hgenerated =>
    ⟨(h'.parts (h.parts hgenerated).1).1,
      (h'.parts (h.parts hgenerated).1).2.trans (h.parts hgenerated).2⟩⟩

/-- A delivery that began at `first` has more to send, and can render all of it. -/
structure Delivering (first : Nat) (entry : Entry) : Prop where
  generated : entry.generated = true
  begun : first ≤ entry.reply.nextPart
  unsent : entry.reply.nextPart < entry.reply.parts.length
  renders : ∀ j, first ≤ j → j < entry.reply.parts.length → Renders adapter options entry j

/-- What an operation at its entry relies on at each wait. -/
def Engaged (key : Bytes) (marks : List Mark) (entry : Entry) : Wait → Prop
  | .admission => False
  | .turn => entry.complete = false ∧ entry.generated = false
  | .recovery nextPart => entry.complete = false ∧ entry.generated = true ∧
      entry.error.isSome = true ∧
      entry.reply.nextPart ≤ nextPart ∧ nextPart ≤ entry.reply.parts.length
  | .permission first request => entry.complete = false ∧ Delivering adapter options first entry ∧
      render adapter options entry.message (entry.reply.parts.getD entry.reply.nextPart [])
        entry.reply.nextPart =
        .returned (.ok request)
  | .transport first => entry.complete = false ∧ Delivering adapter options first entry ∧
      ∃ request, .sent key entry.reply.nextPart request ∈ marks
  | .returned _ => False

theorem Engaged.incomplete {adapter : Adapter} {options : DispatcherOptions} {key : Bytes}
    {marks : List Mark} {entry : Entry} {wait : Wait}
    (h : Engaged adapter options key marks entry wait) : entry.complete = false := by
  cases wait with
  | admission => exact absurd h id
  | turn => exact h.1
  | recovery nextPart => exact h.1
  | permission first request => exact h.1
  | transport first => exact h.1
  | returned result => exact absurd h id

theorem Engaged.active {adapter : Adapter} {options : DispatcherOptions} {key : Bytes}
    {marks : List Mark} {entry : Entry} {wait : Wait}
    (h : Engaged adapter options key marks entry wait) : wait ≠ .admission ∧ ∀ result,
    wait ≠ .returned result := by
  constructor
  · rintro rfl
    exact h
  · rintro result rfl
    exact h

/-- Where a coroutine leaves the entry it came with. -/
structure Advances (key : Bytes) (entry : Entry) (marks : List Mark) (p : Entry × Course) :
    Prop where
  sound : EntrySound adapter options key p.1 marks
  forward : Follows entry p.1
  course : match p.2 with
    | .waits wait => Engaged adapter options key marks p.1 wait ∧ p.1.error = entry.error
    | .ends (.returned (.ok delivery)) => p.1.complete = true ∧ p.1.error = none ∧
        delivery = p.1.delivery
    | .ends _ => p.1.complete = false ∧ p.1.error = entry.error

variable {adapter options} {key : Bytes} {entry : Entry} {marks : List Mark}

theorem sendLoop_advances {first : Nat} (h : EntrySound adapter options key entry marks)
    (hopen : entry.complete = false) (hgenerated : entry.generated = true)
    (hbegun : first ≤ entry.reply.nextPart)
    (hrenders : ∀ j, first ≤ j → j < entry.reply.parts.length → Renders adapter options entry j) :
    Advances adapter options key entry marks (sendLoop adapter options first entry) := by
  unfold sendLoop
  split
  · next part hpart =>
    have hunsent : entry.reply.nextPart < entry.reply.parts.length :=
      (List.getElem?_eq_some_iff.mp hpart).1
    obtain ⟨request, hrequest⟩ := hrenders entry.reply.nextPart hbegun hunsent
    have hpart' : entry.reply.parts.getD entry.reply.nextPart [] = part := by
      rw [List.getD_eq_getElem?_getD, hpart, Option.getD_some]
    rw [hpart'] at hrequest
    rw [hrequest]
    exact ⟨h, Follows.refl _, ⟨hopen, ⟨hgenerated, hbegun, hunsent, hrenders⟩, hpart' ▸ hrequest⟩,
      rfl⟩
  · next hpart =>
    have hsent : entry.reply.nextPart = entry.reply.parts.length :=
      Nat.le_antisymm h.within (List.getElem?_eq_none_iff.mp hpart)
    refine ⟨?_, ⟨Nat.le_refl _, rfl, fun hgenerated => ⟨hgenerated, rfl⟩⟩, rfl, rfl, rfl⟩
    exact { h with full := fun _ _ => hsent }

theorem preflight_none (h : preflight adapter options entry = none) {j : Nat}
    (hfirst : entry.reply.nextPart ≤ j) (hj : j < entry.reply.parts.length) :
      Renders adapter options entry j := by
  have hfound := List.findSome?_eq_none_iff.mp h j (List.mem_range'_1.mpr ⟨hfirst, by omega⟩)
  unfold Renders
  revert hfound
  cases hrender : render adapter options entry.message (entry.reply.parts.getD j []) j with
  | threw => exact fun hfound => by cases hfound
  | returned result =>
    cases result with
    | error e => exact fun hfound => by cases hfound
    | ok request => exact fun _ => ⟨request, rfl⟩

theorem preflight_some {outcome : Outcome Delivery}
    (h : preflight adapter options entry = some outcome) (delivery : Delivery) :
    outcome ≠ .returned (.ok delivery) := by
  obtain ⟨j, -, hj⟩ := List.exists_of_findSome?_eq_some h
  rintro rfl
  revert hj
  cases render adapter options entry.message (entry.reply.parts.getD j []) j with
  | threw => exact fun hj => by cases hj
  | returned result => cases result <;> exact fun hj => by cases hj

/-- A part that cannot be rendered stops a delivery before anything is sent. -/
theorem deliver_unrenderable {j : Nat} (hfirst : entry.reply.nextPart ≤ j)
    (hj : j < entry.reply.parts.length) (hfails : ¬Renders adapter options entry j) :
    ∃ outcome, deliver adapter options entry = (entry, .ends outcome) ∧
      ∀ delivery, outcome ≠ .returned (.ok delivery) := by
  unfold deliver
  cases hpreflight : preflight adapter options entry with
  | none => exact absurd (preflight_none hpreflight hfirst hj) hfails
  | some outcome => exact ⟨outcome, rfl, preflight_some hpreflight⟩

theorem deliver_advances (h : EntrySound adapter options key entry marks)
    (hopen : entry.complete = false) (hgenerated : entry.generated = true) :
    Advances adapter options key entry marks (deliver adapter options entry) := by
  unfold deliver
  split
  · next outcome hpreflight =>
    refine ⟨h, Follows.refl _, ?_⟩
    dsimp only
    split
    · next heq =>
      cases heq
    · next delivery heq =>
      cases heq
      exact absurd rfl (preflight_some hpreflight delivery)
    · exact ⟨hopen, rfl⟩
  · next hpreflight =>
    exact sendLoop_advances h hopen hgenerated (Nat.le_refl _) fun j hj =>
      preflight_none hpreflight hj

theorem unconfirmed_advances (h : EntrySound adapter options key entry marks)
    (hopen : entry.complete = false) (e : Error) :
    Advances adapter options key entry marks (unconfirmed entry e) :=
  ⟨h, Follows.refl _, hopen, rfl⟩

theorem Covered.cons {m : Mark} {part : Nat} (h : Covered key marks part) :
    Covered key (m :: marks) part := by
  rcases h with hconfirmed | ⟨old, next, hresumed, hskipped⟩
  · exact Or.inl (List.mem_cons_of_mem _ hconfirmed)
  · exact Or.inr ⟨old, next, List.mem_cons_of_mem _ hresumed, hskipped⟩

theorem confirm_advances {first : Nat} {request : Request}
    (h : EntrySound adapter options key entry marks) (hopen : entry.complete = false)
    (hdelivering : Delivering adapter options first entry)
    (hasked : .sent key entry.reply.nextPart request ∈ marks) :
    Advances adapter options key entry (.confirmed key entry.reply.nextPart :: marks)
      (confirm adapter options first entry) := by
  have hsound : EntrySound adapter options key
      { entry with
        reply := { entry.reply with nextPart := entry.reply.nextPart + 1 }
        delivery := { entry.delivery with partsSent := entry.delivery.partsSent + 1 } }
      (.confirmed key entry.reply.nextPart :: marks) := by
    constructor
    · exact h.keyed
    · exact congrArg (· + 1) h.balanced
    · exact hdelivering.unsent
    · exact h.fresh
    · intro hcomplete
      exact absurd (hopen.symm.trans hcomplete) Bool.false_ne_true
    · exact List.forall_mem_cons.mpr ⟨rfl, h.own⟩
    · rw [List.countP_cons_of_neg (by simp [Mark.isTurn])]
      exact h.turn
    · intro part request hmem
      rcases List.mem_cons.mp hmem with hnew | hold
      · cases hnew
      · exact Nat.le_succ_of_le (h.sent part request hold)
    · intro part hmem
      rcases List.mem_cons.mp hmem with hnew | hold
      · cases hnew
        exact Nat.lt_succ_self _
      · exact Nat.lt_succ_of_lt (h.confirmed part hold)
    · exact List.pairwise_cons.mpr ⟨fun _ _ => trivial, h.order⟩
    · intro part request' hmem
      rcases List.mem_cons.mp hmem with hnew | hold
      · cases hnew
      · exact h.requests part request' hold
    · intro part hmem
      rcases List.mem_cons.mp hmem with hnew | hold
      · cases hnew
        exact ⟨request, List.mem_cons_of_mem _ hasked⟩
      · obtain ⟨request', hsent⟩ := h.answers part hold
        exact ⟨request', List.mem_cons_of_mem _ hsent⟩
    · intro part hpart
      rcases Nat.lt_succ_iff_lt_or_eq.mp hpart with hbefore | rfl
      · exact (h.covered part hbefore).cons
      · exact Or.inl List.mem_cons_self
  have hloop : Advances adapter options key _ _ (sendLoop adapter options first _) :=
    sendLoop_advances hsound hopen hdelivering.generated
      (Nat.le_succ_of_le hdelivering.begun) hdelivering.renders
  have hstep : Follows entry
      { entry with
        reply := { entry.reply with nextPart := entry.reply.nextPart + 1 }
        delivery := { entry.delivery with partsSent := entry.delivery.partsSent + 1 } } :=
    ⟨Nat.le_succ _, rfl, fun hgenerated => ⟨hgenerated, rfl⟩⟩
  exact ⟨hloop.sound, hstep.trans hloop.forward, hloop.course⟩

theorem sent_sound {request : Request} (h : EntrySound adapter options key entry marks)
    (hunsent : entry.reply.nextPart < entry.reply.parts.length)
    (hrequest : render adapter options entry.message
      (entry.reply.parts.getD entry.reply.nextPart [])
      entry.reply.nextPart = .returned (.ok request)) :
    EntrySound adapter options key entry (.sent key entry.reply.nextPart request :: marks) := by
  constructor
  · exact h.keyed
  · exact h.balanced
  · exact h.within
  · exact h.fresh
  · exact h.full
  · exact List.forall_mem_cons.mpr ⟨rfl, h.own⟩
  · rw [List.countP_cons_of_neg (by simp [Mark.isTurn])]
    exact h.turn
  · intro part request' hmem
    rcases List.mem_cons.mp hmem with hnew | hold
    · cases hnew
      exact Nat.le_refl _
    · exact h.sent part request' hold
  · intro part hmem
    rcases List.mem_cons.mp hmem with hnew | hold
    · cases hnew
    · exact h.confirmed part hold
  · refine List.pairwise_cons.mpr ⟨fun m hm => ?_, h.order⟩
    have hkey := h.own m hm
    cases m with
    | turn k => trivial
    | sent k part request' =>
      obtain rfl : k = key := hkey
      exact h.sent part request' hm
    | confirmed k part =>
      obtain rfl : k = key := hkey
      exact h.confirmed part hm
    | resumed k old next => trivial
    | evicted k => trivial
  · intro part request' hmem
    rcases List.mem_cons.mp hmem with hnew | hold
    · cases hnew
      exact ⟨hunsent, hrequest⟩
    · exact h.requests part request' hold
  · intro part hmem
    obtain ⟨request', hsent⟩ :=
      h.answers part ((List.mem_cons.mp hmem).resolve_left fun hnew => by cases hnew)
    exact ⟨request', List.mem_cons_of_mem _ hsent⟩
  · exact fun part hpart => (h.covered part hpart).cons

/-- The counters of the activity are not the business of a delivery. -/
theorem activity_sound (h : EntrySound adapter options key entry marks) (failures : Nat) :
    EntrySound adapter options key { entry with delivery :=
      { entry.delivery with activityFailures := failures } } marks :=
  { h with }

theorem process_advances (h : EntrySound adapter options key entry marks)
    (hopen : entry.complete = false) (hfresh : entry.generated = false) (ended : TurnEnd) :
    Advances adapter options key entry marks (process adapter options ended entry) := by
  have hbegin : entry.reply.nextPart = 0 := by
    have hwithin := h.within
    rw [h.fresh hfresh] at hwithin
    exact Nat.le_zero.mp hwithin
  unfold process
  dsimp only
  split
  · exact ⟨activity_sound h _, ⟨Nat.le_refl _, rfl, fun hnot => ⟨hnot, rfl⟩⟩, hopen, rfl⟩
  split
  · exact ⟨activity_sound h _, ⟨Nat.le_refl _, rfl, fun hnot => ⟨hnot, rfl⟩⟩, hopen, rfl⟩
  split
  · exact ⟨activity_sound h _, ⟨Nat.le_refl _, rfl, fun hnot => ⟨hnot, rfl⟩⟩, hopen, rfl⟩
  · exact ⟨activity_sound h _, ⟨Nat.le_refl _, rfl, fun hnot => ⟨hnot, rfl⟩⟩, hopen, rfl⟩
  · next failed _ _ _ _ _ parts _ =>
    have hgenerated : EntrySound adapter options key
        { entry with
          reply := { entry.reply with parts }
          generated := true
          delivery := { entry.delivery with activityFailures := ended.failures + failed } }
            marks := by
      refine ⟨h.keyed, h.balanced, ?_, fun hnot => (by cases hnot), fun hcomplete => ?_, h.own,
        h.turn, h.sent, h.confirmed, h.order, fun part request hmem => ?_, h.answers, h.covered⟩
      · show entry.reply.nextPart ≤ parts.length
        rw [hbegin]
        exact Nat.zero_le _
      · exact absurd (hopen.symm.trans hcomplete) Bool.false_ne_true
      · -- an entry without parts has sent nothing
        have hlast := (h.requests part request hmem).1
        rw [h.fresh hfresh] at hlast
        cases hlast
    have hstep : Follows entry
        { entry with
          reply := { entry.reply with parts }
          generated := true
          delivery := { entry.delivery with activityFailures := ended.failures + failed } } :=
      ⟨Nat.le_refl _, rfl, fun hnot => absurd (hfresh.symm.trans hnot) Bool.false_ne_true⟩
    split
    · exact ⟨hgenerated, hstep, hopen, rfl⟩
    · have hdeliver : Advances adapter options key _ marks (deliver adapter options _) :=
        deliver_advances hgenerated hopen rfl
      exact ⟨hdeliver.sound, hstep.trans hdeliver.forward, hdeliver.course⟩

theorem deliver_generated : (deliver adapter options entry).1.generated = entry.generated ∧
    (deliver adapter options entry).1.reply = entry.reply := by
  unfold deliver sendLoop
  split
  · exact ⟨rfl, rfl⟩
  split
  · split <;> exact ⟨rfl, rfl⟩
  · exact ⟨rfl, rfl⟩

/-- The parts of an entry are those of the answer. -/
theorem process_parts {ended : TurnEnd} {failed : Nat} {answer : Bytes} {parts : List Bytes}
    (hjoined : ended.joined = .ok failed) (hanswer : ended.result = .ok answer)
    (hparts : replyParts adapter options entry.message answer = .returned (.ok parts)) :
    (process adapter options ended entry).1.generated = true ∧
      (process adapter options ended entry).1.reply.parts = parts := by
  unfold process
  rw [hjoined]
  dsimp only
  rw [hanswer]
  dsimp only
  rw [hparts]
  dsimp only
  split
  · exact ⟨rfl, rfl⟩
  · rw [deliver_generated.1, deliver_generated.2]
    exact ⟨rfl, rfl⟩

theorem settle_generated (op : Operation) (cancelled : Bool) (p : Entry × Course) :
    (settle op cancelled p).1.generated = p.1.generated ∧
      (settle op cancelled p).1.reply = p.1.reply := by
  unfold settle
  split
  · exact ⟨rfl, rfl⟩
  · exact ⟨rfl, rfl⟩
  · exact ⟨rfl, rfl⟩
  · split <;> exact ⟨rfl, rfl⟩

/-- `resume_impl` moves the entry to the first unsent part, and delivers from there. -/
theorem recover_advances {nextPart : Nat} (h : EntrySound adapter options key entry marks)
    (hengaged : Engaged adapter options key marks entry (.recovery nextPart)) :
    Advances adapter options key entry (.resumed key entry.reply.nextPart nextPart :: marks)
      (deliver adapter options
      { entry with
        reply := { entry.reply with nextPart }
        delivery := { entry.delivery with partsSent := nextPart } }) := by
  obtain ⟨hopen, hgenerated, -, hforward, hwithin⟩ := hengaged
  have hmoved : EntrySound adapter options key
      { entry with
        reply := { entry.reply with nextPart }
        delivery := { entry.delivery with partsSent := nextPart } }
      (.resumed key entry.reply.nextPart nextPart :: marks) := by
    have hsent : ∀ {part request},
      .sent key part request ∈ Mark.resumed key entry.reply.nextPart nextPart :: marks →
        .sent key part request ∈ marks :=
      fun hmem => (List.mem_cons.mp hmem).resolve_left fun hnew => by cases hnew
    have hconfirmed : ∀ {part},
      .confirmed key part ∈ Mark.resumed key entry.reply.nextPart nextPart :: marks →
        .confirmed key part ∈ marks :=
      fun hmem => (List.mem_cons.mp hmem).resolve_left fun hnew => by cases hnew
    constructor
    · exact h.keyed
    · rfl
    · exact hwithin
    · exact h.fresh
    · exact fun hcomplete => absurd (hopen.symm.trans hcomplete) Bool.false_ne_true
    · exact List.forall_mem_cons.mpr ⟨rfl, h.own⟩
    · rw [List.countP_cons_of_neg (by simp [Mark.isTurn])]
      exact h.turn
    · exact fun part request hmem => (h.sent part request (hsent hmem)).trans hforward
    · exact fun part hmem => (h.confirmed part (hconfirmed hmem)).trans_le hforward
    · exact List.pairwise_cons.mpr ⟨fun _ _ => trivial, h.order⟩
    · exact fun part request hmem => h.requests part request (hsent hmem)
    · intro part hmem
      obtain ⟨request, hasked⟩ := h.answers part (hconfirmed hmem)
      exact ⟨request, List.mem_cons_of_mem _ hasked⟩
    · intro part hpart
      by_cases hbefore : part < entry.reply.nextPart
      · exact (h.covered part hbefore).cons
      · exact Or.inr ⟨_, _, List.mem_cons_self, Nat.not_lt.mp hbefore, hpart⟩
  have hdeliver : Advances adapter options key _ _ (deliver adapter options _) :=
    deliver_advances hmoved hopen hgenerated
  have hstep : Follows entry
      { entry with
        reply := { entry.reply with nextPart }
        delivery := { entry.delivery with partsSent := nextPart } } :=
    ⟨hforward, rfl, fun hgenerated => ⟨hgenerated, rfl⟩⟩
  exact ⟨hdeliver.sound, hstep.trans hdeliver.forward, hdeliver.course⟩

/-- What a call leaves of its entry at its next wait, or when it returns. -/
structure Settled (adapter : Adapter) (options : DispatcherOptions) (op : Operation) (key : Bytes)
    (entry : Entry) (marks : List Mark) (p : Entry × Wait) : Prop where
  sound : EntrySound adapter options key p.1 marks
  forward : Follows entry p.1
  wait : match p.2 with
    | .returned (.ok delivery) => p.1.complete = true ∧ p.1.error = none ∧
      p.1.reply.nextPart = p.1.reply.parts.length ∧ delivery.partsSent = p.1.reply.parts.length
    | .returned (.error _) => p.1.complete = false ∧ p.1.error.isSome = true
    | wait => Engaged adapter options key marks p.1 wait ∧
        (op.resumes = true → p.1.error.isSome = true)

theorem failed_sound (h : EntrySound adapter options key entry marks) (e : Error) :
    EntrySound adapter options key { entry with error := some e } marks :=
  { h with full := fun _ hnone => by cases hnone }

theorem settle_settled {op : Operation} {p : Entry × Course} (cancelled : Bool)
    (h : Advances adapter options key entry marks p)
    (hresumes : op.resumes = true → entry.error.isSome = true) :
    Settled adapter options op key entry marks (settle op cancelled p) := by
  obtain ⟨after, course⟩ := p
  have hcourse := h.course
  cases course with
  | waits wait =>
    obtain ⟨hengaged, herror⟩ := hcourse
    refine ⟨h.sound, h.forward, ?_⟩
    have hkept : Engaged adapter options key marks after wait ∧
        (op.resumes = true → after.error.isSome = true) :=
      ⟨hengaged, fun hop => herror ▸ hresumes hop⟩
    cases wait with
    | returned result => exact absurd hengaged id
    | admission => exact hkept
    | turn => exact hkept
    | recovery nextPart => exact hkept
    | permission first request => exact hkept
    | transport first => exact hkept
  | ends outcome =>
    cases outcome with
    | returned result =>
      cases result with
      | ok delivery =>
        obtain ⟨hcomplete, herror, hdelivery⟩ := hcourse
        have hfull := h.sound.full hcomplete herror
        refine ⟨h.sound, h.forward, hcomplete, herror, hfull, ?_⟩
        rw [hdelivery]
        exact h.sound.balanced.symm.trans hfull
      | error e => exact ⟨failed_sound h.sound e,
          ⟨h.forward.nextPart, h.forward.message, h.forward.parts⟩, hcourse.1, rfl⟩
    | threw =>
      unfold settle
      dsimp only
      by_cases hop : op.resumes = true
      · rw [if_pos hop]
        exact ⟨h.sound, h.forward, hcourse.1, hcourse.2 ▸ hresumes hop⟩
      · rw [if_neg hop]
        exact ⟨failed_sound h.sound _, ⟨h.forward.nextPart, h.forward.message, h.forward.parts⟩,
          hcourse.1, rfl⟩

end Entries

end Orangutan.Channel
