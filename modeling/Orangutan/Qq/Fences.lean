import Orangutan.Qq.Markdown

/-!
# Reading fences line by line

What stands in a part behind a line end does not change how the lines in front of it are read. The
closing of a part is read in the state that its last line leaves.
-/

namespace Orangutan.Qq

set_option autoImplicit false

open Orangutan.Core Orangutan.Core.Str Orangutan.Io Orangutan.Lib

variable {b t u fence line piece next : Bytes}

/-- Nothing, or lines that all have their line ends. -/
def Ended (b : Bytes) : Prop := b = [] ∨ b.getLast? = some 10

/-- A line with its line end, if it has one. -/
structure IsLine (line : Bytes) : Prop where
  ne : line ≠ []
  single : 10 ∉ line.dropLast

theorem Ended.append (h : Ended u) (hne : u ≠ []) : Ended (b ++ u) := by
  refine .inr ?_
  rw [List.getLast?_append_of_ne_nil _ hne]
  exact h.resolve_left hne

theorem IsLine.cases (h : IsLine line) : 10 ∉ line ∨ ∃ body, line = body ++ [10] ∧ 10 ∉ body := by
  have hsplit := List.dropLast_append_getLast h.ne
  by_cases hend : line.getLast h.ne = 10
  · rw [hend] at hsplit
    exact .inr ⟨line.dropLast, hsplit.symm, h.single⟩
  · left
    rw [← hsplit]
    intro hmem
    rcases List.mem_append.mp hmem with hmem | hmem
    · exact h.single hmem
    · exact hend (List.mem_singleton.mp hmem).symm

theorem IsLine.fileLines_eq (h : IsLine line) : fileLines line = [line] := by
  rcases h.cases with hopen | ⟨body, rfl, hbody⟩
  · exact fileLines_open h.ne hopen
  · rw [fileLines_append_end hbody]
    rfl

theorem fileLines_append_of_ended (h : Ended b) (t : Bytes) :
    fileLines (b ++ t) = fileLines b ++ fileLines t := by
  rw [← fileLines_flatten b] at h ⊢
  have hlines := isLines_fileLines b
  generalize fileLines b = lines at h hlines
  rw [hlines.fileLines_flatten]
  induction hlines with
  | nil => rfl
  | last hne hopen =>
    rw [List.flatten_singleton] at h
    rcases h with h | h
    · exact absurd h hne
    · exact absurd (List.mem_of_getLast? h) hopen
  | @cons body rest hbody _ ih =>
    have hrest : Ended rest.flatten := by
      by_cases hempty : rest.flatten = []
      · exact .inl hempty
      · rw [List.flatten_cons] at h
        refine .inr ?_
        rcases h with h | h
        · simp at h
        · rwa [List.getLast?_append_of_ne_nil _ hempty] at h
    rw [List.flatten_cons, List.append_assoc, List.append_assoc, List.singleton_append,
      fileLines_append_end hbody, ih hrest]
    rfl

/-- A line that is open goes on in what follows. -/
theorem fileLines_append_of_open (hne : line ≠ []) (hopen : 10 ∉ line) (t : Bytes) :
    ∃ more lines, fileLines (line ++ t) = (line ++ more) :: lines := by
  induction line with
  | nil => exact absurd rfl hne
  | cons ch rest ih =>
    have hch : ch ≠ 10 := fun he => hopen (he ▸ List.mem_cons_self)
    rw [List.cons_append, fileLines, if_neg hch]
    by_cases hrest : rest = []
    · subst hrest
      rw [List.nil_append]
      cases fileLines t with
      | nil => exact ⟨[], [], rfl⟩
      | cons first lines => exact ⟨first, lines, rfl⟩
    · obtain ⟨more, lines, hlines⟩ := ih hrest fun hmem => hopen (List.mem_cons_of_mem ch hmem)
      rw [hlines]
      exact ⟨more, lines, rfl⟩

@[simp] theorem length_lineFences (fence : Bytes) (lines : List Bytes) :
    (lineFences fence lines).length = lines.flatten.length := by
  induction lines generalizing fence with
  | nil => rfl
  | cons line rest ih => simp [lineFences, ih]

@[simp] theorem length_fences (t : Bytes) : (fences t).length = t.length := by
  rw [fences, length_lineFences, fileLines_flatten]

theorem lineFences_append (fence : Bytes) (lines rest : List Bytes) :
    lineFences fence (lines ++ rest) = lineFences fence lines ++
      lineFences (lines.foldl readFence fence) rest := by
  induction lines generalizing fence with
  | nil => rfl
  | cons line lines ih => rw [List.cons_append, lineFences, ih, lineFences, List.append_assoc,
      List.foldl_cons]

theorem fences_append (h : Ended b) (t : Bytes) :
    fences (b ++ t) = fences b ++ lineFences (endFence b) (fileLines t) := by
  rw [fences, fileLines_append_of_ended h, lineFences_append]
  rfl

theorem endFence_append (h : Ended b) (t : Bytes) :
    endFence (b ++ t) = (fileLines t).foldl readFence (endFence b) := by
  rw [endFence, fileLines_append_of_ended h, List.foldl_append]
  rfl

/-- The fence in front of a line is known when the lines before it are. -/
theorem fences_prefix (b t : Bytes) : fences b <+: fences (b ++ t) := by
  unfold fences
  generalize ([] : Bytes) = fence
  rw [← fileLines_flatten b]
  have hlines := isLines_fileLines b
  generalize fileLines b = lines at hlines
  rw [hlines.fileLines_flatten]
  induction hlines generalizing fence with
  | nil => exact List.nil_prefix
  | @last line hne hopen =>
    rw [List.flatten_singleton]
    obtain ⟨more, lines, hlines⟩ := fileLines_append_of_open hne hopen t
    rw [hlines, lineFences, lineFences, lineFences, List.append_nil, List.length_append,
      List.replicate_add, List.append_assoc]
    exact List.prefix_append _ _
  | @cons body rest hbody _ ih =>
    rw [List.flatten_cons, List.append_assoc, List.append_assoc, List.singleton_append,
      fileLines_append_end hbody, lineFences, lineFences]
    exact (List.prefix_append_right_inj _).mpr (ih _)

/-- A fence line without its line end. -/
structure IsFence (fence : Bytes) : Prop where
  short : fence.length ≤ 64
  opens : (ticks.isPrefixOf fence || tildes.isPrefixOf fence) = true
  single : 10 ∉ fence

theorem IsFence.ne (h : IsFence fence) : fence ≠ [] := by
  rintro rfl
  exact absurd h.opens (by decide)

/-- The three characters of a fence. -/
theorem IsFence.take_three (h : IsFence fence) : fence.take 3 = ticks ∨ fence.take 3 = tildes := by
  have hopens := h.opens
  rw [Bool.or_eq_true, List.isPrefixOf_iff_prefix, List.isPrefixOf_iff_prefix] at hopens
  exact hopens.imp (fun hp => (show ticks = fence.take 3 from List.prefix_iff_eq_take.mp hp).symm)
    fun hp => (show tildes = fence.take 3 from List.prefix_iff_eq_take.mp hp).symm

theorem readFence_of_ne (hne : fence ≠ []) (line : Bytes) : readFence fence line = fence ∨
    readFence fence line = [] := by
  unfold readFence
  rw [if_neg hne]
  split_ifs
  · exact .inr rfl
  · exact .inl rfl
  · exact .inl rfl

theorem readFence_ten (fence : Bytes) : readFence fence [10] = fence := by
  have hplain : isMarker [10] = false := by decide
  simp [readFence, hplain]

/-- What one line leaves open is a fence line. -/
theorem readFence_isFence (hfence : fence = [] ∨ IsFence fence) (hline : IsLine line) :
    readFence fence line = [] ∨ IsFence (readFence fence line) := by
  by_cases hne : fence = []
  · subst hne
    unfold readFence
    by_cases hmarker : isMarker line = true
    · rw [if_pos hmarker, if_pos rfl]
      rw [isMarker, Bool.and_eq_true, decide_eq_true_eq] at hmarker
      right
      rcases hline.cases with hopen | ⟨body, rfl, hbody⟩
      · have hlast : line.getLast? ≠ some 10 := fun hlast => hopen (List.mem_of_getLast? hlast)
        rw [if_neg hlast]
        exact ⟨hmarker.1, hmarker.2, hopen⟩
      · rw [if_pos (by simp), List.dropLast_concat]
        obtain ⟨hshort, hopens⟩ := hmarker
        rw [List.length_append] at hshort
        refine ⟨Nat.le_of_succ_le hshort, ?_, hbody⟩
        rw [Bool.or_eq_true, List.isPrefixOf_iff_prefix, List.isPrefixOf_iff_prefix] at hopens ⊢
        -- the line end is none of the three characters
        refine hopens.imp (fun hp => ?_) fun hp => ?_
        · exact (List.prefix_concat_iff.mp hp).resolve_left
            (by intro he; have := congrArg List.getLast? he; simp [ticks] at this)
        · exact (List.prefix_concat_iff.mp hp).resolve_left
            (by intro he; have := congrArg List.getLast? he; simp [tildes] at this)
    · rw [if_neg hmarker]
      exact .inl rfl
  · rcases readFence_of_ne hne line with h | h
    · rw [h]
      exact hfence
    · exact .inl h

theorem readFence_short (hshort : fence.length ≤ 63) (hended : line.getLast? = some 10) :
    (readFence fence line).length ≤ 63 := by
  unfold readFence
  split_ifs with hmarker
  · rw [isMarker, Bool.and_eq_true, decide_eq_true_eq] at hmarker
    rw [List.length_dropLast]
    omega
  · exact Nat.zero_le _
  · exact hshort
  · exact hshort

theorem IsFence.readFence_close (h : IsFence fence) : readFence fence (fence.take 3) = [] := by
  have hmarker : isMarker (fence.take 3) = true := by
    rcases h.take_three with he | he <;> rw [he] <;> decide
  rw [readFence, if_pos hmarker, if_neg h.ne, if_pos (by rw [List.isPrefixOf_iff_prefix])]

theorem IsFence.readFence_close_nil (h : IsFence fence) : readFence [] (fence.take 3) ≠ [] := by
  rcases h.take_three with he | he <;> rw [he] <;> decide

/-- What is open behind the closing, when `read` is open in front of it. -/
def closeFence (read fence : Bytes) : Bytes :=
    if fence = [] then read else readFence read (fence.take 3)

theorem closeFence_self (h : fence = [] ∨ IsFence fence) : closeFence fence fence = [] := by
  rcases h with rfl | h
  · rfl
  · rw [closeFence, if_neg h.ne, h.readFence_close]

theorem closeFence_ne {read : Bytes} (h : fence = [] ∨ IsFence fence) (hne : read ≠ fence)
    (hempty : read = [] ∨ fence = []) :
    closeFence read fence ≠ [] := by
  rcases h with rfl | h
  · exact hne
  · rw [closeFence, if_neg h.ne, hempty.resolve_right h.ne]
    exact h.readFence_close_nil

/-- A piece as the line that it becomes when a part ends behind it and `next` is closed there. -/
def shown (piece next : Bytes) : Bytes := if piece.getLast? = some 10 ∨ next = [] then piece
    else piece ++ [10]

theorem isLine_three (h : IsFence fence) : fileLines (fence.take 3) = [fence.take 3] := by
  rcases h.take_three with he | he <;> rw [he] <;> decide

theorem endFence_close (hb : Ended b) (h : fence = [] ∨ IsFence fence) :
    endFence (b ++ close fence) = closeFence (endFence b) fence := by
  rcases h with rfl | h
  · rw [close, if_pos rfl, List.append_nil]
    rfl
  · have hlines : fileLines (10 :: fence.take 3) = [10] :: fileLines (fence.take 3) := rfl
    rw [close, closeFence, if_neg h.ne, if_neg h.ne, endFence_append hb, hlines, isLine_three h,
      List.foldl_cons, readFence_ten]
    rfl

theorem endFence_piece (hb : Ended b) (hpiece : IsLine piece) :
    endFence (b ++ piece) = readFence (endFence b) piece := by
  rw [endFence_append hb, hpiece.fileLines_eq]
  rfl

theorem endFence_piece_close (hb : Ended b) (hpiece : IsLine piece)
    (h : fence = [] ∨ IsFence fence) :
    endFence (b ++ piece ++ close fence) =
      closeFence (readFence (endFence b) (shown piece fence)) fence := by
  by_cases hended : piece.getLast? = some 10
  · have hwhole : Ended (b ++ piece) := Ended.append (.inr hended) hpiece.ne
    rw [endFence_close hwhole h, endFence_piece hb hpiece, shown, if_pos (.inl hended)]
  · rcases h with rfl | h
    · rw [shown, if_pos (.inr rfl), close, if_pos rfl, List.append_nil, endFence_piece hb hpiece]
      rfl
    · have hopen : 10 ∉ piece := by
        rcases hpiece.cases with hopen | ⟨body, rfl, -⟩
        · exact hopen
        · exact absurd (by simp) hended
      have hshown : ¬(piece.getLast? = some 10 ∨ fence = []) := by
        rintro (hl | hl)
        · exact hended hl
        · exact h.ne hl
      rw [shown, if_neg hshown, close, closeFence, if_neg h.ne, if_neg h.ne, List.append_assoc,
        endFence_append hb, fileLines_append_end hopen, isLine_three h]
      rfl

/-- A part that is opened again begins inside the fence. -/
theorem endFence_reopen (h : fence = [] ∨ IsFence fence) (hshort : fence.length ≤ 63) :
    endFence (reopen fence) = fence := by
  rcases h with rfl | h
  · rfl
  · have hmarker : isMarker (fence ++ [10]) = true := by
      have hopens := h.opens
      rw [Bool.or_eq_true, List.isPrefixOf_iff_prefix, List.isPrefixOf_iff_prefix] at hopens
      rw [isMarker, Bool.and_eq_true, decide_eq_true_eq, Bool.or_eq_true,
        List.isPrefixOf_iff_prefix, List.isPrefixOf_iff_prefix]
      refine ⟨by rw [List.length_append]; exact Nat.succ_le_succ hshort, ?_⟩
      exact hopens.imp (fun hp => hp.trans (List.prefix_append _ _)) fun hp =>
        hp.trans (List.prefix_append _ _)
    rw [reopen, if_neg h.ne, endFence, fileLines_append_end h.single]
    simp [fileLines, readFence, hmarker]

theorem ended_reopen (fence : Bytes) : Ended (reopen fence) := by
  unfold reopen
  split
  · exact .inl rfl
  · exact .inr (by simp)

end Orangutan.Qq
