import Orangutan.Bootstrap.Operations

/-!
# The board of one team

What holds of a work list on its own: distinct keys, dependencies that point
backwards and are accepted before their dependents run, bounded attempts, and one
active entry for each member. A write that keeps an entry's key, member and
dependencies keeps all of it.
-/

namespace Orangutan.Bootstrap

set_option autoImplicit false

open Orangutan.Core Orangutan.Lib Orangutan.Tool

/-- States a task reaches only after its dependencies were accepted. -/
def TeamTaskState.pastGate : TeamTaskState → Bool
  | .queued | .running | .cancelling | .inReview | .accepted => true
  | .waiting | .failed | .cancelled => false

theorem TeamTaskState.pastGate_of_active {state : TeamTaskState} (h : teamTaskActive state = true) :
    state.pastGate = true := by
  cases state <;> first | rfl | cases h

/-- Every entry of that key is accepted. -/
def KeyAccepted (work : List Team.Work) (key : Bytes) : Prop :=
  ∀ v ∈ work, v.snapshot.key = key → v.snapshot.state = .accepted

structure Board (work : List Team.Work) : Prop where
  keys : (work.map (·.snapshot.key)).Nodup
  precede : ∀ (i : Nat) (w : Team.Work), work[i]? = some w → ∀ d ∈ w.snapshot.dependsOn,
    ∃ (j : Nat) (v : Team.Work), j < i ∧ work[j]? = some v ∧ v.snapshot.key = d
  gated : ∀ w ∈ work, w.snapshot.state.pastGate = true → ∀ d ∈ w.snapshot.dependsOn,
    KeyAccepted work d
  attempts : ∀ w ∈ work, w.snapshot.attempt ≤ 3
  members : ∀ w ∈ work, w.snapshot.member ≠ []
  exclusive : ∀ (i j : Nat) (w v : Team.Work), work[i]? = some w → work[j]? = some v →
    teamTaskActive w.snapshot.state = true → teamTaskActive v.snapshot.state = true →
    w.snapshot.member = v.snapshot.member → i = j

/-- What a single write to a board must respect. -/
structure Rewrite (work : List Team.Work) (w w' : Team.Work) : Prop where
  key : w'.snapshot.key = w.snapshot.key
  member : w'.snapshot.member = w.snapshot.member
  dependsOn : w'.snapshot.dependsOn = w.snapshot.dependsOn
  accepted : w.snapshot.state = .accepted → w'.snapshot.state = .accepted
  gate : w'.snapshot.state.pastGate = true → w.snapshot.state.pastGate = true ∨
    ∀ d ∈ w.snapshot.dependsOn, KeyAccepted work d
  idle : teamTaskActive w'.snapshot.state = true → teamTaskActive w.snapshot.state = true ∨
    ∀ v ∈ work, v.snapshot.member = w.snapshot.member → teamTaskActive v.snapshot.state = false
  attempt : w'.snapshot.attempt ≤ 3

namespace Board

variable {work : List Team.Work}

theorem empty : Board [] where
  keys := List.nodup_nil
  precede := fun i w hw => by simp at hw
  gated := fun w hw => by cases hw
  attempts := fun w hw => by cases hw
  members := fun w hw => by cases hw
  exclusive := fun i j w v hw => by simp at hw

/-- Entries of one key are one entry. -/
theorem index_unique (h : Board work) {i j : Nat} {w v : Team.Work} (hw : work[i]? = some w)
    (hv : work[j]? = some v) (hk : w.snapshot.key = v.snapshot.key) : i = j :=
  entry_unique h.keys hw hv hk

theorem entry_unique (h : Board work) {w v : Team.Work} (hw : w ∈ work) (hv : v ∈ work)
    (hk : w.snapshot.key = v.snapshot.key) : w = v := by
  obtain ⟨i, hi⟩ := List.getElem?_of_mem hw
  obtain ⟨j, hj⟩ := List.getElem?_of_mem hv
  obtain rfl := h.index_unique hi hj hk
  exact Option.some.inj (hi.symm.trans hj)

/-- A scan that finds the dependencies accepted speaks about every entry of their keys. -/
theorem keyAccepted_of_ready {team : Team} (h : Board team.work) {task : TeamTaskSnapshot}
    (hready : team.ready task = true) : ∀ d ∈ task.dependsOn, KeyAccepted team.work d := by
  intro d hd v hv hk
  simp only [Team.ready, List.all_eq_true] at hready
  obtain ⟨u, hu, hud⟩ := List.any_eq_true.mp (hready d hd)
  simp only [Bool.and_eq_true, beq_iff_eq] at hud
  rw [h.entry_unique hv hu (hk.trans hud.1.symm)]
  exact hud.2

/-- An accepted key stays accepted through a rewrite. -/
theorem keyAccepted_set {i : Nat} {w w' : Team.Work} (hw : work[i]? = some w)
    (hr : Rewrite work w w') {d : Bytes} (hd : KeyAccepted work d) :
      KeyAccepted (work.set i w') d := by
  intro v hv hk
  obtain ⟨j, hj⟩ := List.getElem?_of_mem hv
  rcases getElem?_set_cases hw hj with ⟨-, rfl⟩ | ⟨-, hold⟩
  · exact hr.accepted (hd w (List.mem_of_getElem? hw) (hr.key.symm.trans hk))
  · exact hd v (List.mem_of_getElem? hold) hk

theorem set {i : Nat} {w w' : Team.Work} (h : Board work) (hw : work[i]? = some w)
    (hr : Rewrite work w w') : Board (work.set i w') := by
  have hmem : w ∈ work := List.mem_of_getElem? hw
  have hcases : ∀ v ∈ work.set i w', v = w' ∨ v ∈ work := by
    intro v hv
    obtain ⟨j, hj⟩ := List.getElem?_of_mem hv
    rcases getElem?_set_cases hw hj with ⟨-, hv⟩ | ⟨-, hold⟩
    · exact .inl hv
    · exact .inr (List.mem_of_getElem? hold)
  refine ⟨?_, ?_, ?_, ?_, ?_, ?_⟩
  · rw [map_set_of_eq hw hr.key]
    exact h.keys
  · intro j v hv d hd
    have hold : ∃ u, work[j]? = some u ∧ d ∈ u.snapshot.dependsOn := by
      rcases getElem?_set_cases hw hv with ⟨rfl, rfl⟩ | ⟨-, hold⟩
      · exact ⟨w, hw, hr.dependsOn ▸ hd⟩
      · exact ⟨v, hold, hd⟩
    obtain ⟨u, hu, hdu⟩ := hold
    obtain ⟨k, x, hk, hx, hxd⟩ := h.precede j u hu d hdu
    by_cases hki : k = i
    · subst hki
      obtain rfl := Option.some.inj (hw.symm.trans hx)
      exact ⟨k, w', hk, by rw [getElem?_set_of_some hw, if_pos rfl], hr.key.trans hxd⟩
    · exact ⟨k, x, hk, getElem?_set_ne_of_some hki hx, hxd⟩
  · intro v hv hgate d hd
    refine keyAccepted_set hw hr ?_
    rcases hcases v hv with rfl | hv
    · rw [hr.dependsOn] at hd
      rcases hr.gate hgate with hpast | hdeps
      · exact h.gated w hmem hpast d hd
      · exact hdeps d hd
    · exact h.gated v hv hgate d hd
  · intro v hv
    rcases hcases v hv with rfl | hv
    · exact hr.attempt
    · exact h.attempts v hv
  · intro v hv
    rcases hcases v hv with rfl | hv
    · rw [hr.member]
      exact h.members w hmem
    · exact h.members v hv
  · -- The written entry keeps its member, so it meets no other active entry of it.
    have hother : ∀ j v, j ≠ i → work[j]? = some v → teamTaskActive v.snapshot.state = true →
        teamTaskActive w'.snapshot.state = true → v.snapshot.member ≠ w'.snapshot.member := by
      intro j v hne hv hva hwa hmem'
      rw [hr.member] at hmem'
      rcases hr.idle hwa with hact | hidle
      · exact hne (h.exclusive j i v w hv hw hva hact hmem')
      · rw [hidle v (List.mem_of_getElem? hv) hmem'] at hva
        cases hva
    intro j k v u hv hu hva hua hmem'
    rcases getElem?_set_cases hw hv with ⟨hj, rfl⟩ | ⟨hj, hvold⟩ <;>
      rcases getElem?_set_cases hw hu with ⟨hk, rfl⟩ | ⟨hk, huold⟩
    · rw [hj, hk]
    · exact absurd hmem'.symm (hother k u hk huold hua hva)
    · exact absurd hmem' (hother j v hj hvold hva hua)
    · exact h.exclusive j k v u hvold huold hva hua hmem'

/-- A new waiting entry with a fresh key and known dependencies. -/
theorem push (h : Board work) {w : Team.Work} (hkey : ∀ v ∈ work, v.snapshot.key ≠ w.snapshot.key)
    (hknown : ∀ d ∈ w.snapshot.dependsOn, ∃ v ∈ work, v.snapshot.key = d)
    (hstate : w.snapshot.state = .waiting) (hattempt : w.snapshot.attempt ≤ 3)
    (hmember : w.snapshot.member ≠ []) : Board (work ++ [w]) := by
  have hcases : ∀ i v, (work ++ [w])[i]? = some v → work[i]? = some v ∨
      (i = work.length ∧ v = w) := by
    intro i v hv
    rcases Nat.lt_trichotomy i work.length with hlt | rfl | hgt
    · rw [List.getElem?_append_left hlt] at hv
      exact .inl hv
    · simp at hv
      exact .inr ⟨rfl, hv.symm⟩
    · rw [List.getElem?_eq_none (by simp; omega)] at hv
      cases hv
  have hmono : ∀ i v, work[i]? = some v → (work ++ [w])[i]? = some v := fun i v hv => by
    rw [List.getElem?_append_left (List.getElem?_eq_some_iff.mp hv).1, hv]
  have hwait : teamTaskActive w.snapshot.state = false := by rw [hstate]; rfl
  refine ⟨?_, ?_, ?_, ?_, ?_, ?_⟩
  · rw [List.map_append, List.nodup_append]
    refine ⟨h.keys, by simp, fun a ha b hb he => ?_⟩
    obtain ⟨v, hv, rfl⟩ := List.mem_map.mp ha
    simp only [List.map_cons, List.map_nil, List.mem_singleton] at hb
    exact hkey v hv (he.trans hb)
  · intro i v hv d hd
    rcases hcases i v hv with hold | ⟨rfl, rfl⟩
    · obtain ⟨j, u, hj, hu, hud⟩ := h.precede i v hold d hd
      exact ⟨j, u, hj, hmono j u hu, hud⟩
    · obtain ⟨u, hu, hud⟩ := hknown d hd
      obtain ⟨j, hj⟩ := List.getElem?_of_mem hu
      exact ⟨j, u, (List.getElem?_eq_some_iff.mp hj).1, hmono j u hj, hud⟩
  · intro v hv hgate d hd u hu hud
    rcases List.mem_append.mp hv with hold | hnew
    · rcases List.mem_append.mp hu with hu | hu
      · exact h.gated v hold hgate d hd u hu hud
      · -- The new key is no old dependency: those name old entries.
        obtain rfl := List.mem_singleton.mp hu
        obtain ⟨i, hi⟩ := List.getElem?_of_mem hold
        obtain ⟨j, x, -, hx, hxd⟩ := h.precede i v hi d hd
        exact absurd (hxd.trans hud.symm) (hkey x (List.mem_of_getElem? hx))
    · obtain rfl := List.mem_singleton.mp hnew
      rw [hstate] at hgate
      cases hgate
  · intro v hv
    rcases List.mem_append.mp hv with hv | hv
    · exact h.attempts v hv
    · obtain rfl := List.mem_singleton.mp hv
      exact hattempt
  · intro v hv
    rcases List.mem_append.mp hv with hv | hv
    · exact h.members v hv
    · obtain rfl := List.mem_singleton.mp hv
      exact hmember
  · intro i j v u hv hu hva hua hmem
    rcases hcases i v hv with hv | ⟨-, rfl⟩
    · rcases hcases j u hu with hu | ⟨-, rfl⟩
      · exact h.exclusive i j v u hv hu hva hua hmem
      · rw [hwait] at hua
        cases hua
    · rw [hwait] at hva
      cases hva

end Board

namespace TaskEdit

variable {G : Grant} {s : State} {w w' : Team.Work}

/-- No edit touches an accepted entry. -/
theorem not_accepted (h : TaskEdit G s w w') : w.snapshot.state ≠ .accepted := by
  cases h with
  | cancel _ hne => exact hne
  | accept feedback _ hs => rw [hs]; decide
  | note feedback hne => exact hne
  | fail kind hs => rw [hs]; decide
  | revise feedback turn _ hs _ _ => rcases hs with hs | hs <;> rw [hs] <;> decide

/-- Only a note reaches an active entry, and no edit makes one active. -/
theorem inactive_or_note (h : TaskEdit G s w w') :
    (teamTaskActive w.snapshot.state = false ∧ teamTaskActive w'.snapshot.state = false) ∨
      ∃ feedback, w' = w.note feedback := by
  cases h with
  | cancel hinactive _ => exact .inl ⟨hinactive, rfl⟩
  | accept feedback _ hs => exact .inl ⟨by rw [hs]; rfl, rfl⟩
  | note feedback hne => exact .inr ⟨feedback, rfl⟩
  | fail kind hs => exact .inl ⟨by rw [hs]; rfl, rfl⟩
  | revise feedback turn _ hs _ _ =>
    refine .inl ⟨?_, rfl⟩
    rcases hs with hs | hs <;> rw [hs] <;> rfl

theorem rewrite {work : List Team.Work} (hb : Board work) (hw : w ∈ work) (h : TaskEdit G s w w') :
    Rewrite work w w' := by
  have hopen := h.not_accepted
  have hattempt := hb.attempts w hw
  refine ⟨?_, ?_, ?_, fun ha => absurd ha hopen, ?_, ?_, ?_⟩
  · cases h <;> rfl
  · cases h <;> rfl
  · cases h <;> rfl
  · intro hgate
    cases h with
    | cancel => cases hgate
    | accept feedback _ hs => rw [hs]; exact .inl rfl
    | note feedback => exact .inl hgate
    | fail => cases hgate
    | revise => cases hgate
  · intro hact
    rcases h.inactive_or_note with ⟨-, hno⟩ | ⟨feedback, rfl⟩
    · rw [hno] at hact
      cases hact
    · exact .inl hact
  · cases h with
    | cancel => exact hattempt
    | accept => exact hattempt
    | note => exact hattempt
    | fail => exact hattempt
    | revise feedback turn _ _ hne _ =>
      change w.snapshot.attempt + 1 ≤ 3
      omega

end TaskEdit

end Orangutan.Bootstrap
