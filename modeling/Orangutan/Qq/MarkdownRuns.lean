import Orangutan.Qq.Fences
import Orangutan.Tool.FileWindows

/-!
# Runs of the splitter

A round takes a line, ends a part or appends a fragment. Where the splitter stands in the text, and
what its variables have to do with each other there, is the same in every run.
-/

namespace Orangutan.Qq

set_option autoImplicit false

open Orangutan.Core Orangutan.Core.Str Orangutan.Io Orangutan.Lib StateTransition

variable {t : Bytes} {s s' : Splitter} {cap limit : Nat} {piece rest : Bytes}

namespace Splitter

theorem nextLine_append_end {body : Bytes} (h : 10 ∉ body) (rest : Bytes) :
    nextLine (body ++ 10 :: rest) = body ++ [10] := by
  have hbody : body.findIdx? (· == 10) = none := by
    rw [List.findIdx?_eq_none_iff]
    intro ch hch
    exact beq_false_of_ne fun he => h (he ▸ hch)
  have hfound : (body ++ 10 :: rest).findIdx? (· == 10) = some body.length := by
    rw [List.findIdx?_append, hbody, List.findIdx?_cons]
    simp
  rw [nextLine, hfound]
  dsimp only
  rw [List.take_append, List.take_of_length_le (Nat.le_succ _), Nat.add_sub_cancel_left]
  rfl

theorem nextLine_open (h : 10 ∉ t) : nextLine t = t := by
  have hnone : t.findIdx? (· == 10) = none := by
    rw [List.findIdx?_eq_none_iff]
    intro ch hch
    exact beq_false_of_ne fun he => h (he ▸ hch)
  rw [nextLine, hnone]

/-- The line in front, and the text behind it. -/
theorem nextLine_spec (hne : t ≠ []) :
    ∃ rest, t = nextLine t ++ rest ∧ IsLine (nextLine t) ∧
      fileLines t = nextLine t :: fileLines rest ∧
      (rest ≠ [] → (nextLine t).getLast? = some 10) := by
  by_cases hmem : 10 ∈ t
  · obtain ⟨body, rest, rfl, hbody⟩ := List.eq_append_cons_of_mem hmem
    rw [nextLine_append_end hbody]
    refine ⟨rest, by simp, ⟨by simp, by rwa [List.dropLast_concat]⟩,
      fileLines_append_end hbody rest, fun _ => by simp⟩
  · rw [nextLine_open hmem]
    exact ⟨[], by simp, ⟨hne, fun h => hmem (List.dropLast_subset _ h)⟩, fileLines_open hne hmem,
      fun h => absurd rfl h⟩

/-- There is something left of the text. -/
def Unfinished (s : Splitter) : Prop := s.line ≠ [] ∨ s.text ≠ []

/-- What a round does. -/
inductive Round (cap : Nat) (s : Splitter) : Splitter → Prop
  | take (hline : s.line = []) (htext : s.text ≠ [])
      (hfits : isMarker (nextLine s.text) = true →
        s.part.bytes.length + (nextLine s.text).length ≤ cap) :
      Round cap s s.beginLine
  | turn (hline : s.line = []) (htext : s.text ≠ []) (hmarker : isMarker (nextLine s.text) = true)
      (hfull : cap < s.part.bytes.length + (nextLine s.text).length) : Round cap s s.flush.beginLine
  | flush (hline : s.line ≠ []) (hnone : truncateToCodePoint s.line (s.room cap) = []) :
      Round cap s s.flush
  | cut {piece rest : Bytes} (hsplit : s.line = piece ++ rest) (hne : piece ≠ [])
      (hrest : rest ≠ [])
      (hpiece : truncateToCodePoint s.line (s.room cap) = piece) :
        Round cap s (s.append piece).flush
  | finish (hline : s.line ≠ []) (hpiece : truncateToCodePoint s.line (s.room cap) = s.line) :
      Round cap s (s.append s.line).endLine

theorem truncate_split (line : Bytes) (bound : Nat) :
    ∃ rest, line = truncateToCodePoint line bound ++ rest := by
  unfold truncateToCodePoint
  split
  · exact ⟨[], by simp⟩
  · exact ⟨_, (List.take_append_drop _ _).symm⟩

theorem step_round (h : s.step cap = some s') : Round cap s s' := by
  unfold step at h
  split_ifs at h with hline htext
  · obtain rfl := Option.some.inj h
    unfold appendFragment
    obtain ⟨rest, hsplit⟩ := truncate_split s.line (s.room cap)
    generalize hpiece : truncateToCodePoint s.line (s.room cap) = piece at hsplit ⊢
    dsimp only
    have hrest : (s.append piece).line = rest := by
      rw [append]
      dsimp only
      rw [hsplit, List.drop_left]
    rw [hrest]
    split_ifs with hne hmore
    · exact .flush hline (hpiece.trans hne)
    · exact .cut hsplit hne hmore hpiece
    · have hwhole : piece = s.line := by
        rw [not_not] at hmore
        rw [hsplit, hmore, List.append_nil]
      subst hwhole
      exact .finish hline hpiece
  · obtain rfl := Option.some.inj h
    rw [not_not] at hline
    unfold takeLine
    dsimp only
    split_ifs with hflush
    · rw [Bool.and_eq_true, decide_eq_true_eq] at hflush
      exact .turn hline htext hflush.1 hflush.2
    · refine .take hline htext fun hmarker => ?_
      simpa [hmarker] using hflush

theorem step_none (h : s.step cap = none) : ¬s.Unfinished := by
  unfold step at h
  split_ifs at h with hline htext
  rintro (hl | ht)
  · exact hline hl
  · exact htext ht

/-- What has been put into parts. -/
def consumed (s : Splitter) : Bytes := s.parts.flatMap Part.content ++ s.part.content

/-- The fences of the whole text, from where the splitter stands. -/
def remaining (s : Splitter) : List Bytes :=
  List.replicate s.line.length s.fence ++
    lineFences (if s.line = [] then s.fence else readFence s.fence s.original) (fileLines s.text)

structure Sound (t : Bytes) (s : Splitter) : Prop where
  content : s.consumed ++ s.line ++ s.text = t
  behind : s.line <:+ s.original
  single : 10 ∉ s.original.dropLast
  full : s.text ≠ [] → s.line ≠ [] → s.original.getLast? = some 10
  fence : s.fence = [] ∨ IsFence s.fence
  short : s.Unfinished → s.fence.length ≤ 63
  closing : s.part.closing = []
  bare : s.part.content = [] → s.part.opening = reopen s.fence
  ended : s.Unfinished → Ended s.part.bytes
  remaining : ∃ before, before.length = s.consumed.length ∧ fences t = before ++ s.remaining
  ending : endFence t =
    (fileLines s.text).foldl readFence (if s.line = [] then s.fence
      else readFence s.fence s.original)

theorem sound_start (t : Bytes) : Sound t (start t) where
  content := rfl
  behind := List.suffix_refl _
  single := List.not_mem_nil
  full _ h := absurd rfl h
  fence := .inl rfl
  short _ := Nat.zero_le _
  closing := rfl
  bare _ := rfl
  ended _ := .inl rfl
  remaining := ⟨[], rfl, rfl⟩
  ending := rfl

@[simp] theorem consumed_flush (s : Splitter) : s.flush.consumed = s.consumed := by
  simp [consumed, flush, closed]

@[simp] theorem consumed_append (s : Splitter) (piece : Bytes) :
    (s.append piece).consumed = s.consumed ++ piece := by
  simp [consumed, append]

theorem append_line (hsplit : s.line = piece ++ rest) : (s.append piece).line = rest := by
  change s.line.drop piece.length = rest
  rw [hsplit, List.drop_left]

namespace Sound

theorem bytes (h : Sound t s) : s.part.bytes = s.part.opening ++ s.part.content := by
  rw [Part.bytes, h.closing, List.append_nil]

theorem flush (h : Sound t s) (hu : s.Unfinished) : Sound t s.flush where
  content := by rw [consumed_flush]; exact h.content
  behind := h.behind
  single := h.single
  full := h.full
  fence := h.fence
  short _ := h.short hu
  closing := rfl
  bare _ := rfl
  ended _ := by
    change Ended (reopen s.fence ++ [] ++ [])
    rw [List.append_nil, List.append_nil]
    exact ended_reopen s.fence
  remaining := by
    rw [consumed_flush]
    exact h.remaining
  ending := h.ending

theorem beginLine (h : Sound t s) (hline : s.line = []) (htext : s.text ≠ []) :
    Sound t s.beginLine := by
  obtain ⟨rest, hsplit, hfirst, hlines, hfull⟩ := nextLine_spec htext
  have hrest : s.text.drop (nextLine s.text).length = rest := by
    have hdrop := congrArg (List.drop (nextLine s.text).length) hsplit
    rwa [List.drop_left] at hdrop
  have hunfinished : s.Unfinished := .inr htext
  refine ⟨?_, List.suffix_refl _, hfirst.single, ?_, h.fence, fun _ => h.short hunfinished,
    h.closing, h.bare, fun _ => h.ended hunfinished, ?_, ?_⟩
  · have hall := h.content
    rw [hline, List.append_nil, hsplit] at hall
    change s.consumed ++ nextLine s.text ++ s.text.drop (nextLine s.text).length = t
    rw [hrest, List.append_assoc]
    exact hall
  · intro hmore _
    change s.text.drop (nextLine s.text).length ≠ [] at hmore
    rw [hrest] at hmore
    exact hfull hmore
  · obtain ⟨before, hlength, hfences⟩ := h.remaining
    refine ⟨before, hlength, ?_⟩
    rw [hfences, Splitter.remaining, Splitter.remaining, hline, if_pos rfl, hlines, lineFences]
    change _ = before ++ (List.replicate (nextLine s.text).length s.fence ++
      lineFences (if nextLine s.text = [] then s.fence else readFence s.fence (nextLine s.text))
        (fileLines (s.text.drop (nextLine s.text).length)))
    rw [if_neg hfirst.ne, hrest]
    rfl
  · change _ = (fileLines (s.text.drop (nextLine s.text).length)).foldl readFence
      (if nextLine s.text = [] then s.fence else readFence s.fence (nextLine s.text))
    rw [h.ending, hline, if_pos rfl, hlines, if_neg hfirst.ne, hrest]
    rfl

theorem cut (h : Sound t s) (hsplit : s.line = piece ++ rest) (hrest : rest ≠ []) :
    Sound t (s.append piece).flush := by
  have hnext := append_line hsplit
  have hline : s.line ≠ [] := by
    rw [hsplit]
    exact List.append_ne_nil_of_right_ne_nil _ hrest
  have hunfinished : s.Unfinished := .inl hline
  refine ⟨?_, ?_, h.single, fun htext _ => h.full htext hline, h.fence,
    fun _ => h.short hunfinished, rfl, fun _ => rfl, ?_, ?_, ?_⟩
  · rw [consumed_flush, consumed_append]
    change s.consumed ++ piece ++ (s.append piece).line ++ s.text = t
    rw [hnext, List.append_assoc s.consumed, ← hsplit]
    exact h.content
  · change (s.append piece).line <:+ s.original
    rw [hnext]
    exact List.IsSuffix.trans (hsplit ▸ List.suffix_append piece rest) h.behind
  · intro _
    change Ended (reopen s.fence ++ [] ++ [])
    rw [List.append_nil, List.append_nil]
    exact ended_reopen s.fence
  · obtain ⟨before, hlength, hfences⟩ := h.remaining
    refine ⟨before ++ List.replicate piece.length s.fence, ?_, ?_⟩
    · rw [consumed_flush, consumed_append, List.length_append, List.length_append, hlength,
        List.length_replicate]
    · rw [hfences, Splitter.remaining, Splitter.remaining, if_neg hline]
      change _ = _ ++ (List.replicate (s.append piece).line.length s.fence ++
        lineFences (if (s.append piece).line = [] then s.fence else readFence s.fence s.original)
          (fileLines s.text))
      rw [hnext, if_neg hrest, hsplit, List.length_append, List.replicate_add]
      simp only [List.append_assoc]
  · change _ = (fileLines s.text).foldl readFence
      (if (s.append piece).line = [] then s.fence else readFence s.fence s.original)
    rw [hnext, if_neg hrest, h.ending, if_neg hline]

/-- The line that is being worked on. -/
theorem isLine (h : Sound t s) (hline : s.line ≠ []) : IsLine s.original := by
  refine ⟨fun hnone => hline ?_, h.single⟩
  have hbehind := h.behind
  rw [hnone] at hbehind
  exact List.suffix_nil.mp hbehind

theorem rest_isLine (h : Sound t s) (hline : s.line ≠ []) : IsLine s.line := by
  refine ⟨hline, fun hmem => h.single ?_⟩
  obtain ⟨done, hdone⟩ := h.behind
  rw [← hdone, List.dropLast_append_of_ne_nil hline]
  exact List.mem_append_right done hmem

theorem rest_full (h : Sound t s) (hline : s.line ≠ []) (htext : s.text ≠ []) :
    s.line.getLast? = some 10 := by
  have hfull := h.full htext hline
  obtain ⟨done, hdone⟩ := h.behind
  rwa [← hdone, List.getLast?_append_of_ne_nil _ hline] at hfull

theorem finish (h : Sound t s) (hline : s.line ≠ []) : Sound t (s.append s.line).endLine := by
  have hnext : (s.append s.line).line = [] := append_line (List.append_nil s.line).symm
  have hunfinished : s.Unfinished := .inl hline
  have hmore : (s.append s.line).endLine.Unfinished → s.text ≠ [] := by
    rintro (hl | ht)
    · exact absurd hnext hl
    · exact ht
  refine ⟨?_, ?_, h.single, fun _ hl => absurd hnext hl, readFence_isFence h.fence (h.isLine hline),
    ?_, h.closing, ?_, ?_, ?_, ?_⟩
  · change (s.append s.line).consumed ++ (s.append s.line).line ++ s.text = t
    rw [consumed_append, hnext, List.append_nil]
    exact h.content
  · change (s.append s.line).line <:+ s.original
    rw [hnext]
    exact List.nil_suffix
  · intro hu
    exact readFence_short (h.short hunfinished) (h.full (hmore hu) hline)
  · intro hnone
    exact absurd (List.append_eq_nil_iff.mp hnone).2 hline
  · intro hu
    change Ended (s.part.opening ++ (s.part.content ++ s.line) ++ s.part.closing)
    rw [h.closing, List.append_nil, ← List.append_assoc]
    exact Ended.append (.inr (h.rest_full hline (hmore hu))) hline
  · obtain ⟨before, hlength, hfences⟩ := h.remaining
    refine ⟨before ++ List.replicate s.line.length s.fence, ?_, ?_⟩
    · change _ = (s.append s.line).consumed.length
      rw [consumed_append, List.length_append, List.length_append, hlength, List.length_replicate]
    · rw [hfences, Splitter.remaining, Splitter.remaining, if_neg hline]
      change _ = _ ++ (List.replicate (s.append s.line).line.length _ ++
        lineFences (if (s.append s.line).line = [] then readFence s.fence s.original else _)
          (fileLines s.text))
      rw [hnext, if_pos rfl, List.append_assoc]
      rfl
  · change _ = (fileLines s.text).foldl readFence
      (if (s.append s.line).line = [] then readFence s.fence s.original else _)
    rw [hnext, if_pos rfl, h.ending, if_neg hline]

/-- The fence of the loop is that of the text at the place where the splitter stands. -/
theorem fence_here (h : Sound t s) : fenceAt t s.consumed.length = s.fence := by
  obtain ⟨before, hlength, hfences⟩ := h.remaining
  rw [fenceAt, hfences, ← hlength, List.getElem?_append_right (Nat.le_refl _), Nat.sub_self,
    Splitter.remaining]
  have hending := h.ending
  by_cases hline : s.line = []
  · rw [hline, if_pos rfl] at hending ⊢
    by_cases htext : s.text = []
    · rw [htext] at hending ⊢
      exact hending
    · obtain ⟨_, -, hfirst, hlines, -⟩ := nextLine_spec htext
      obtain ⟨lead, rest, hlead⟩ := List.exists_cons_of_ne_nil hfirst.ne
      rw [hlines, hlead]
      rfl
  · obtain ⟨lead, rest, hlead⟩ := List.exists_cons_of_ne_nil hline
    rw [hlead]
    rfl

theorem round (h : Sound t s) (hround : Round cap s s') : Sound t s' := by
  cases hround with
  | take hline htext _ => exact h.beginLine hline htext
  | turn hline htext _ _ => exact (h.flush (.inr htext)).beginLine hline htext
  | flush hline _ => exact h.flush (.inl hline)
  | cut hsplit _ hrest _ => exact h.cut hsplit hrest
  | finish hline _ => exact h.finish hline

end Sound

theorem sound_reaches (h : Reaches (step cap) (start t) s) : Sound t s :=
  reaches_invariant (fun _ _ hs hstep => hs.round (step_round hstep)) h (sound_start t)

end Splitter

end Orangutan.Qq
