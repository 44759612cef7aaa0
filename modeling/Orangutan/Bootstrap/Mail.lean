import Orangutan.Bootstrap.Agreement
import Orangutan.Bootstrap.MemberTurns

/-!
# Team mail

What a move does to a team's mail, and what always holds of it: the limits on
messages, distinct identities, and messages that every reader can hand over.
-/

namespace Orangutan.Bootstrap

set_option autoImplicit false

open Orangutan.Core Orangutan.Core.Str Orangutan.Agent Orangutan.Lib Orangutan.Tool

/-- What a move does to an existing team: mail is kept while entries keep their key and
member, or one message is admitted. -/
inductive Carries (a b : Team) : Prop
  | keep (messages : b.messages = a.messages)
      (entries : ∀ v ∈ a.work, ∃ w ∈ b.work,
        w.snapshot.key = v.snapshot.key ∧ w.snapshot.member = v.snapshot.member)
      (members : ∀ w ∈ b.work, keyValid w.snapshot.member = true ∨
        ∃ v ∈ a.work, v.snapshot.member = w.snapshot.member)
  | post (message : Team.Message) (h : a.Admits message)
      (messages : b.messages = a.messages ++ [message]) (work : b.work = a.work)

namespace Carries

variable {a b : Team}

theorem of_work (hmessages : b.messages = a.messages) (hwork : b.work = a.work) : Carries a b := by
  refine .keep hmessages (fun v hv => ⟨v, ?_, rfl, rfl⟩) fun w hw => .inr ⟨w, ?_, rfl⟩
  · rw [hwork]
    exact hv
  · rw [hwork] at hw
    exact hw

theorem refl (a : Team) : Carries a a := of_work rfl rfl

/-- One entry is written, under its key and member. -/
theorem of_set {i : Nat} {w u : Team.Work} (hmessages : b.messages = a.messages)
    (hw : a.work[i]? = some w) (hwork : b.work = a.work.set i u)
    (hkey : u.snapshot.key = w.snapshot.key) (hmember : u.snapshot.member = w.snapshot.member) :
    Carries a b := by
  refine .keep hmessages (fun v hv => ?_) fun v hv => .inr ?_
  · rw [hwork]
    obtain ⟨j, hj⟩ := List.getElem?_of_mem hv
    by_cases hji : j = i
    · subst hji
      obtain rfl : w = v := Option.some.inj (hw.symm.trans hj)
      exact ⟨u, List.mem_set (List.getElem?_eq_some_iff.mp hw).1 _, hkey, hmember⟩
    · exact ⟨v, List.mem_of_getElem? (getElem?_set_ne_of_some hji hj), rfl, rfl⟩
  · rw [hwork] at hv
    obtain ⟨j, hj⟩ := List.getElem?_of_mem hv
    rcases getElem?_set_cases hw hj with ⟨-, rfl⟩ | ⟨-, hold⟩
    · exact ⟨w, List.mem_of_getElem? hw, hmember.symm⟩
    · exact ⟨v, List.mem_of_getElem? hold, rfl⟩

/-- The entries known to the team stay known. -/
theorem entry (h : Carries a b) {v : Team.Work} (hv : v ∈ a.work) :
    ∃ w ∈ b.work, w.snapshot.key = v.snapshot.key ∧ w.snapshot.member = v.snapshot.member := by
  cases h with
  | keep _ entries => exact entries v hv
  | post message _ _ work => exact ⟨v, work ▸ hv, rfl, rfl⟩

end Carries

theorem carries_setTeam {s : State} {k : TeamRef} {team : Team} (h : Carries (s.team k) team)
    (tr : TeamRef) : Carries (s.team tr) ((s.setTeam k team).team tr) := by
  rw [State.team_setTeam]
  split
  · next he => rw [he]; exact h
  · exact .refl _

theorem carries_setWork {s : State} {k : TeamRef} {i : Nat} {w u : Team.Work}
    (hw : (s.team k).work[i]? = some w) (hkey : u.snapshot.key = w.snapshot.key)
    (hmember : u.snapshot.member = w.snapshot.member) (tr : TeamRef) :
    Carries (s.team tr) ((s.setWork k i u).team tr) := by
  refine carries_setTeam ?_ tr
  exact .of_set rfl hw rfl hkey hmember

/-- A team that exists carries its mail through a move; a founded one starts empty. -/
theorem carries_move {G : Grant} {s t : State} (hm : Move G s t) (tr : TeamRef) :
    Carries (s.team tr) (t.team tr) ∨
      (tr = s.teamHeap.next ∧ (t.team tr).messages = [] ∧ (t.team tr).work = []) := by
  cases hm with
  | settle r shown kept hset =>
    left
    rw [State.team_settled]
    rcases State.updateTeamJob_cases s shown with ⟨he, -⟩ | ⟨k, i, w, members, -, hw, -, -, he⟩
    · rw [he]
      exact .refl _
    · rw [he]
      have hids := reportedTask_ids w.snapshot shown
      refine carries_setTeam ?_ tr
      exact .of_set (u := { w with snapshot := reportedTask w.snapshot shown }) rfl hw rfl
        hids.1 hids.2.1
  | dispatch k i w member id current entry =>
    exact .inl (carries_setWork (s := s.pushJob _) (u := w.dispatch (formatTurnIdHex id)) entry
      rfl rfl tr)
  | edit k i w w' current entry hedit =>
    refine .inl (carries_setWork entry ?_ ?_ tr)
    · cases hedit <;> rfl
    · cases hedit <;> rfl
  | submit k request turn grant current valid =>
    have hvalid : keyValid request.member = true := by
      simp only [TeamCommand.valid, Bool.and_eq_true] at valid
      exact valid.1.1.1.2
    refine .inl (carries_setTeam ?_ tr)
    refine .keep rfl (fun v hv => ⟨v, List.mem_append_left _ hv, rfl, rfl⟩) fun w hw => ?_
    rcases List.mem_append.mp hw with hw | hw
    · exact .inr ⟨w, hw, rfl⟩
    · rw [List.mem_singleton.mp hw]
      exact .inl hvalid
  | stop k =>
    refine .inl (carries_setTeam ?_ tr)
    exact .of_work rfl rfl
  | join k =>
    refine .inl (carries_setTeam ?_ tr)
    exact .of_work rfl rfl
  | mail k message h =>
    refine .inl (carries_setTeam ?_ tr)
    exact .post message h rfl rfl
  | found keep team gone owner names work messages =>
    by_cases htr : tr = s.teamHeap.next
    · have hget : (s.teamHeap.alloc team).get tr = team := by rw [htr, Heap.get_alloc_next]
      refine .inr ⟨htr, ?_, ?_⟩
      · change ((s.teamHeap.alloc team).get tr).messages = []
        rw [hget, messages]
      · change ((s.teamHeap.alloc team).get tr).work = []
        rw [hget, work]
    · left
      have hget : (s.teamHeap.alloc team).get tr = s.team tr := by
        simp [Heap.get, Heap.alloc, State.team, htr]
      change Carries (s.team tr) ((s.teamHeap.alloc team).get tr)
      rw [hget]
      exact .refl _
  | _ => exact .inl (.refl _)

structure Team.Mail (team : Team) : Prop where
  size : team.messages.length ≤ 64
  ids : team.messages.map (·.envelope.id) =
    (List.range team.messages.length).map fun k => decimal (k + 1)
  share : ∀ recipient, team.pendingFor recipient ≤ 16
  readable : ∀ m ∈ team.messages, m.envelope.Readable
  members : ∀ w ∈ team.work, keyValid w.snapshot.member = true

namespace Team.Mail

variable {a b : Team}

theorem empty (hmessages : a.messages = []) (hwork : a.work = []) : a.Mail where
  size := by rw [hmessages]; exact Nat.zero_le _
  ids := by rw [hmessages]; rfl
  share := fun recipient => by simp [pendingFor, hmessages]
  readable := fun m hm => by rw [hmessages] at hm; cases hm
  members := fun w hw => by rw [hwork] at hw; cases hw

theorem ids_nodup (h : a.Mail) : (a.messages.map (·.envelope.id)).Nodup := by
  rw [h.ids]
  refine List.Nodup.map (fun m n hmn => ?_) List.nodup_range
  exact Nat.succ_injective (decimal_injective hmn)

end Team.Mail

theorem messageBody_printable (w : Team.Work) (request : TeamMessageRequest) :
    ∀ c ∈ Team.messageBody w request, ¬ c < 0x20 := by
  refine Json.Serial.printable.dump _ ?_
  exact ⟨trivial, trivial, trivial, trivial, trivial, trivial, trivial⟩

theorem isValidUtf8_messageBody {request : TeamMessageRequest}
    (hvalid : (TeamCommand.message request).valid = true) (w : Team.Work) :
    isValidUtf8 (Team.messageBody w request) = true := by
  simp only [TeamCommand.valid, textValid, Bool.and_eq_true] at hvalid
  refine Json.Serial.utf8.dump _ ?_
  exact ⟨by decide +kernel, trivial, by decide +kernel, hvalid.2.2, by decide +kernel,
    keyValid_utf8 hvalid.1.2, trivial⟩

theorem decimal_length_le {n : Nat} (h : n ≤ 64) : (decimal n).length ≤ 2 := by
  rw [decimal, List.length_map]
  exact (Nat.length_toDigits_le_iff (by decide) (by decide)).mpr (by omega)

theorem isValidUtf8_decimal (n : Nat) : isValidUtf8 (decimal n) = true := Json.Serial.utf8.decimal n

theorem leaderName_facts : keyValid leaderName = true := by decide +kernel

/-- An admitted message can be handed over: its body was bounded once encoded, and the
reader's bound leaves room for encoding it again. -/
theorem Team.Admits.readable {team : Team} {message : Team.Message} (h : team.Admits message)
    (hmembers : ∀ w ∈ team.work, keyValid w.snapshot.member = true) :
      message.envelope.Readable := by
  have hsender : keyValid message.envelope.sender = true := by
    rcases h.sender with he | ⟨w, hw, he⟩
    · rw [he]
      exact leaderName_facts
    · rw [← he]
      exact hmembers w hw
  obtain ⟨w, request, hvalid, -, hbody⟩ := h.body
  have hid := decimal_length_le (n := team.messages.length + 1) h.room
  have hne : decimal (team.messages.length + 1) ≠ [] := by
    simp [decimal, Nat.toDigits_ne_nil]
  refine readable_of_printable ?_ ⟨fun c hc => ?_, keyValid_printable hsender, ?_⟩
  · have hlen := keyValid_length hsender
    have hsize := h.size
    rw [hbody] at hsize
    simp only [InboxMessage.valid, h.id, hbody, isValidUtf8_decimal, isValidUtf8_messageBody hvalid,
      keyValid_utf8 hsender, Bool.not_true, Bool.or_false, Bool.not_eq_true', Bool.or_eq_false_iff,
      List.isEmpty_eq_false_iff, decide_eq_false_iff_not, Nat.not_lt]
    exact ⟨⟨⟨hne, by omega⟩, hsize⟩, by omega⟩
  · rw [h.id] at hc
    exact UInt8.not_lt.mpr (UInt8.le_trans (by decide) (decimal_digits _ c hc).1)
  · rw [hbody]
    exact messageBody_printable w request

namespace Team.Mail

variable {a b : Team}

theorem carries (h : a.Mail) (hc : Carries a b) : b.Mail := by
  cases hc with
  | keep messages entries members =>
    refine ⟨by rw [messages]; exact h.size, by rw [messages]; exact h.ids, fun recipient => ?_,
      fun m hm => h.readable m (messages ▸ hm), fun w hw => ?_⟩
    · unfold pendingFor
      rw [messages]
      exact h.share recipient
    · rcases members w hw with hk | ⟨v, hv, he⟩
      · exact hk
      · rw [← he]
        exact h.members v hv
  | post message hadmits messages work =>
    refine ⟨?_, ?_, fun recipient => ?_, fun m hm => ?_, fun w hw => h.members w (work ▸ hw)⟩
    · have := hadmits.room
      rw [messages, List.length_append, List.length_singleton]
      omega
    · rw [messages, List.map_append, h.ids, List.length_append, List.length_singleton,
        List.range_succ, List.map_append, List.map_singleton, List.map_singleton, hadmits.id]
    · have hold := h.share recipient
      have hshare := hadmits.share
      unfold pendingFor at hold hshare ⊢
      rw [messages, List.countP_append, List.countP_singleton]
      split
      · next hc =>
        simp only [Bool.and_eq_true, beq_iff_eq] at hc
        rw [← hc.1]
        omega
      · omega
    · rw [messages] at hm
      rcases List.mem_append.mp hm with hm | hm
      · exact h.readable m hm
      · rw [List.mem_singleton.mp hm]
        exact hadmits.readable h.members

end Team.Mail

end Orangutan.Bootstrap
