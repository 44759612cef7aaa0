import Orangutan.Qq.MarkdownParts

/-!
# Replies in parts

The function comes back with parts that are right unless a part that is opened again is too full for
the next code point, or a cut line changes how its part is read.
-/

namespace Orangutan.Qq

set_option autoImplicit false

open Orangutan.Core Orangutan.Core.Str Orangutan.Lib StateTransition

variable {t : Bytes} {limit fuel : Nat} {parts : List Part}

/-- The function comes back, no subtraction wraps, and what it gives back is right. -/
def Meets (t : Bytes) (limit : Nat) : Prop :=
  (∃ fuel reply, splitMarkdown fuel t limit = some reply) ∧ Splitter.NoWrap (capacity limit) t ∧
    ∀ fuel parts, splitParts fuel t limit = some (.ok parts) → Faithful t limit parts

/-- Every round of the loops on this text. -/
def InEachRound (t : Bytes) (limit : Nat) (p : Nat → Splitter → Prop) : Prop :=
  ∀ s, Reaches (Splitter.step (capacity limit)) (.start t) s → p (capacity limit) s

namespace Splitter

/-- What has been put together so far makes five parts at most. -/
def WithinFive (_ : Nat) (s : Splitter) : Prop := s.finish.length ≤ 5

theorem finish_flush (s : Splitter) : s.finish.length ≤ s.flush.parts.length := by
  rw [parts_flush, List.length_append, finish]
  split
  · exact Nat.le_add_right _ _
  · rw [List.length_append]

theorem parts_finish (s : Splitter) : s.parts.length ≤ s.finish.length := by
  unfold finish
  split
  · exact Nat.le_refl _
  · rw [List.length_append]
    exact Nat.le_add_right _ _

instance (cap : Nat) (s : Splitter) : Decidable (s.Roomy cap) :=
  inferInstanceAs (Decidable (_ → ∀ lead ∈ s.line.head?, _))

/-- No round takes a part back. -/
theorem finish_round {s s' : Splitter} {cap : Nat} (hs : Sound t s) (hround : Round cap s s') :
    s.finish.length ≤ s'.finish.length := by
  cases hround with
  | take _ _ _ => exact Nat.le_refl _
  | turn _ _ _ _ => exact s.finish_flush.trans s.flush.beginLine.parts_finish
  | flush _ _ => exact s.finish_flush.trans s.flush.parts_finish
  | cut _ _ _ _ =>
    refine le_trans ?_ (parts_finish _)
    rw [parts_flush, List.length_append, finish]
    split
    · exact Nat.le_add_right _ _
    · rw [List.length_append]
      exact Nat.le_refl _
  | finish hline _ =>
    have hfilled : (s.append s.line).endLine.part.bytes ≠ [] := by
      change (s.append s.line).part.bytes ≠ []
      rw [append_bytes hs]
      exact List.append_ne_nil_of_right_ne_nil _ hline
    refine s.finish_flush.trans ?_
    rw [finish, if_neg hfilled, parts_flush, List.length_append, List.length_append]
    exact Nat.le_refl _

end Splitter

theorem capacity_lt (hlimit : limit < 2 ^ 64) : capacity limit < 2 ^ 64 :=
    lt_of_le_of_lt (Nat.sub_le _ _) hlimit

theorem splitParts_eq (ht : isValidUtf8 t = true) (hlimit : 128 ≤ limit) (fuel : Nat) :
    splitParts fuel t limit =
        (runMachine (Splitter.step (capacity limit)) fuel (.start t)).map fun s =>
      if 5 < s.finish.length then .error (.invalidArgument "QQ reply exceeds five parts")
        else .ok s.finish := by
  rw [splitParts, if_neg]
  rintro (hshort | hinvalid)
  · omega
  · rw [ht] at hinvalid
    cases hinvalid

/-- The state behind the loops. -/
theorem exists_last (ht : isValidUtf8 t = true) (hlimit : 128 ≤ limit) {reply : Result (List Part)}
    (h : splitParts fuel t limit = some reply) :
    ∃ last, last ∈ eval (Splitter.step (capacity limit)) (.start t) ∧ ∀ parts, reply = .ok parts →
      last.finish = parts := by
  rw [splitParts_eq ht hlimit, Option.map_eq_some_iff] at h
  obtain ⟨last, hlast, hreply⟩ := h
  refine ⟨last, mem_eval_of_runMachine hlast, fun parts hparts => ?_⟩
  rw [hparts] at hreply
  split at hreply
  · cases hreply
  · exact Except.ok.inj hreply

theorem exists_splitParts (ht : isValidUtf8 t = true) (hlimit : 128 ≤ limit) {last : Splitter}
    (h : last ∈ eval (Splitter.step (capacity limit)) (.start t)) : ∃ fuel reply,
      splitParts fuel t limit = some reply := by
  obtain ⟨fuel, hfuel⟩ := exists_runMachine h
  exact ⟨fuel, _, by rw [splitParts_eq ht hlimit, hfuel]; rfl⟩

/-- The reply is not refused for its number of parts exactly if no round has more than five. -/
theorem withinFive_iff (ht : isValidUtf8 t = true) (hlimit : 128 ≤ limit) {last : Splitter}
    (hlast : last ∈ eval (Splitter.step (capacity limit)) (.start t)) :
    InEachRound t limit Splitter.WithinFive ↔ ∃ fuel parts,
      splitParts fuel t limit = some (.ok parts) := by
  obtain ⟨fuel, hfuel⟩ := exists_runMachine hlast
  constructor
  · intro hfive
    have hshort : ¬5 < last.finish.length := Nat.not_lt.mpr (hfive last (mem_eval.mp hlast).1)
    refine ⟨fuel, last.finish, ?_⟩
    rw [splitParts_eq ht hlimit, hfuel, Option.map_some, if_neg hshort]
  · rintro ⟨fuel', parts, hok⟩ s hs
    have hshort : last.finish.length ≤ 5 := by
      rw [splitParts_eq ht hlimit, Option.map_eq_some_iff] at hok
      obtain ⟨other, hother, hreply⟩ := hok
      obtain rfl := Part.mem_unique (mem_eval_of_runMachine hother) hlast
      by_contra hlong
      rw [if_pos (Nat.not_le.mp hlong)] at hreply
      cases hreply
    have hround (a b : Splitter) (ha : Splitter.Sound t a ∧ s.finish.length ≤ a.finish.length)
        (hstep : a.step (capacity limit) = some b) : Splitter.Sound t b ∧
          s.finish.length ≤ b.finish.length :=
      ⟨ha.1.round (Splitter.step_round hstep),
        ha.2.trans (Splitter.finish_round ha.1 (Splitter.step_round hstep))⟩
    have hrest := (mem_eval.mp (mem_eval_of_reaches hs hlast)).1
    exact (reaches_invariant hround hrest ⟨Splitter.sound_reaches hs, Nat.le_refl _⟩).2.trans hshort

/-- With a limit of 148 bytes and more each part has room for a code point. -/
theorem roomy_of_limit (t : Bytes) (hlimit : 148 ≤ limit) : InEachRound t limit Splitter.Roomy := by
  intro s hs hbare lead hlead
  have hsound := Splitter.sound_reaches hs
  have hline : s.line ≠ [] := by
    rintro hnone
    rw [hnone] at hlead
    cases hlead
  have hshort := hsound.short (.inl hline)
  have hlead := leadLength_le lead
  have hopening : s.part.opening.length ≤ 64 := by
    rw [hsound.bare hbare, reopen]
    split
    · exact Nat.zero_le _
    · rw [List.length_append]
      exact Nat.succ_le_succ hshort
  rw [capacity]
  omega

/-- A reply is split as it is meant to be exactly if every part that is opened again has room for
the next code point and, where the reply is not too long, each fragment is read in its part as the
text is. -/
theorem split_markdown_exact (ht : isValidUtf8 t = true) (hlimit : 128 ≤ limit)
    (hsize : limit < 2 ^ 64) :
    Meets t limit ↔
      InEachRound t limit Splitter.Roomy ∧
        (InEachRound t limit Splitter.WithinFive → InEachRound t limit Splitter.Undisturbed) := by
  have hcap := capacity_lt hsize
  have hmin : 48 ≤ capacity limit := by
    rw [capacity]
    omega
  have hbound : max (capacity limit) 65 + 4 ≤ limit := by
    rw [capacity]
    omega
  constructor
  · rintro ⟨⟨fuel, reply, hreply⟩, hwrap, hfaithful⟩
    obtain ⟨_, hparts, -⟩ := Option.map_eq_some_iff.mp hreply
    obtain ⟨last, hlast, -⟩ := exists_last ht hlimit hparts
    have hroomy : InEachRound t limit Splitter.Roomy :=
      fun s hs => Splitter.roomy_of_stops ht hcap hlast hwrap hs
    refine ⟨hroomy, fun hfive s hs => ?_⟩
    obtain ⟨fuel, parts, hok⟩ := (withinFive_iff ht hlimit hlast).mp hfive
    obtain ⟨last, hlast, hfinish⟩ := exists_last ht hlimit hok
    obtain ⟨hreach, hstop⟩ := mem_eval.mp hlast
    by_contra hdisturbed
    have hwrong := Splitter.wrong_of_disturbed ht hcap hmin hroomy hlast hs hdisturbed
    have hparts := hfaithful fuel parts hok
    rw [← hfinish parts rfl] at hparts
    exact Splitter.not_faithful hwrong (Splitter.sound_reaches hreach)
      (Splitter.step_none hstop) hparts
  · rintro ⟨hroomy, hundisturbed⟩
    have hwrap := Splitter.noWrap_of_roomy ht hcap hroomy
    obtain ⟨last, hlast⟩ := Splitter.stops_of_roomy ht hcap hroomy
    obtain ⟨fuel, reply, hreply⟩ := exists_splitParts ht hlimit hlast
    refine ⟨⟨fuel, _, by rw [splitMarkdown, hreply]; rfl⟩, hwrap, fun fuel parts hok => ?_⟩
    obtain ⟨last, hlast, hfinish⟩ := exists_last ht hlimit hok
    obtain ⟨hreach, hstop⟩ := mem_eval.mp hlast
    have hfive := (withinFive_iff ht hlimit hlast).mpr ⟨fuel, parts, hok⟩
    have hright := Splitter.right_reaches ht hcap hmin hroomy (hundisturbed hfive) hreach
    rw [← hfinish parts rfl]
    exact Splitter.faithful_of_right hright (Splitter.sound_reaches hreach)
      (Splitter.texts_reaches ht hreach)
      (Splitter.seamed_reaches hreach) (Splitter.bounded_reaches ht hcap hwrap hreach)
        (Splitter.step_none hstop) hbound

/-- A long line with a fence around it, which goes out in two parts. -/
theorem split_markdown_exact_fenced :
    Meets (text "```c\n" ++ List.replicate 60 120 ++ text "\n```") 128 ∧
      splitMarkdown 20 (text "```c\n" ++ List.replicate 60 120 ++ text "\n```") 128 =
        some (.ok [text "```c\n" ++ List.replicate 43 120 ++ text "\n```",
          text "```c\n" ++ List.replicate 17 120 ++ text "\n```"]) := by
  constructor
  · have hboth (s : Splitter) (hs : Reaches (Splitter.step (capacity 128))
        (.start (text "```c\n" ++ List.replicate 60 120 ++ text "\n```")) s) :
        s.Roomy (capacity 128) ∧ s.Undisturbed (capacity 128) :=
      forall_reaches (n := 8) (P := fun s => s.Roomy (capacity 128) ∧ s.Undisturbed (capacity 128))
        (by decide +kernel)
        (by decide +kernel) hs
    exact (split_markdown_exact (by decide +kernel) (by decide) (by decide)).mpr
      ⟨fun s hs => (hboth s hs).1, fun _ s hs => (hboth s hs).2⟩
  · decide +kernel

/-- A long line whose second piece looks like a fence line, and a fence line that leaves no room for
anything behind it. -/
theorem split_markdown_misreads :
    ¬Meets (List.replicate 1920 120 ++ text "```y") 2000 ∧
      ¬Meets (text "```" ++ List.replicate 44 97 ++ text "\nb") 128 := by
  constructor
  · rintro ⟨-, -, hfaithful⟩
    have hparts : splitParts 10 (List.replicate 1920 120 ++ text "```y") 2000 =
        some (.ok [⟨[], List.replicate 1920 120, []⟩, ⟨[], text "```y", []⟩]) := by decide +kernel
    have houtside := (hfaithful 10 _ hparts).outside ⟨[], text "```y",
      []⟩ (List.mem_cons_of_mem _ List.mem_cons_self)
    exact absurd houtside (by decide)
  · rintro ⟨⟨fuel, reply, hreply⟩, hwrap, -⟩
    have hvalid : isValidUtf8 (text "```" ++ List.replicate 44 97 ++ text "\nb") = true := by
      decide +kernel
    obtain ⟨_, hparts, -⟩ := Option.map_eq_some_iff.mp hreply
    obtain ⟨last, hlast, -⟩ := exists_last hvalid (by decide) hparts
    have hreach : steps (Splitter.step (capacity 128)) 4
      (.start (text "```" ++ List.replicate 44 97 ++ text "\nb")) =
        some ⟨[⟨[], text "```" ++ List.replicate 44 97 ++ text "\n", text "\n```"⟩],
          ⟨text "```" ++ List.replicate 44 97 ++ text "\n", [], []⟩,
            text "```" ++ List.replicate 44 97, text "b", text "b", []⟩ := by
      decide +kernel
    have hroomy := Splitter.roomy_of_stops hvalid (by decide) hlast hwrap (reaches_of_steps hreach)
    exact absurd (hroomy rfl 98 rfl) (by decide)

end Orangutan.Qq
