import Orangutan.Qq.MarkdownBounds

/-!
# Fences in the parts

As long as each fragment is read in its part as the text is read, all parts so far are right. Once
a fragment is read otherwise, a part stays wrong.
-/

namespace Orangutan.Qq

set_option autoImplicit false

open Orangutan.Core Orangutan.Core.Str Orangutan.Io Orangutan.Lib StateTransition

variable {t : Bytes} {s s' : Splitter} {cap limit : Nat} {piece rest : Bytes}

/-- The closing has no part in it. -/
theorem Part.inside_eq (part : Part) :
    part.inside = (fences (part.opening ++ part.content)).drop part.opening.length := by
  obtain ⟨more, hmore⟩ := fences_prefix (part.opening ++ part.content) part.closing
  have hlength : ((fences (part.opening ++ part.content)).drop part.opening.length).length =
      part.content.length := by
    rw [List.length_drop, length_fences, List.length_append, Nat.add_sub_cancel_left]
  have hopening : part.opening.length ≤ (fences (part.opening ++ part.content)).length := by
    rw [length_fences, List.length_append]
    exact Nat.le_add_right _ _
  rw [Part.inside, Part.bytes, ← hmore, List.drop_append_of_le_length hopening, ← hlength,
    List.take_left]

theorem Part.length_inside (part : Part) : part.inside.length = part.content.length := by
  rw [Part.inside_eq, List.length_drop, length_fences, List.length_append, Nat.add_sub_cancel_left]

namespace Splitter

/-- The fences as the parts show them. -/
def inside (s : Splitter) : List Bytes := s.parts.flatMap Part.inside ++ s.part.inside

theorem length_inside (s : Splitter) : s.inside.length = s.consumed.length := by
  have hparts : (s.parts.flatMap Part.inside).length = (s.parts.flatMap Part.content).length := by
    induction s.parts with
    | nil => rfl
    | cons part parts ih =>
      rw [List.flatMap_cons, List.flatMap_cons, List.length_append, List.length_append, ih,
        part.length_inside]
  rw [inside, consumed, List.length_append, List.length_append, hparts, s.part.length_inside]

theorem inside_closed (s : Splitter) : s.closed.inside = s.part.inside := by
  rw [Part.inside_eq, Part.inside_eq]
  rfl

theorem inside_flush (s : Splitter) : s.flush.inside = s.inside := by
  have hbare : s.flush.part.inside = [] := List.take_zero
  rw [inside, hbare, List.append_nil, parts_flush, List.flatMap_append, List.flatMap_singleton,
    inside_closed]
  rfl

theorem Sound.piece_isLine (hs : Sound t s) (hsplit : s.line = piece ++ rest) (hne : piece ≠ []) :
    IsLine piece := by
  have hline : s.line ≠ [] := hsplit ▸ List.append_ne_nil_of_left_ne_nil hne _
  have hsingle := (hs.rest_isLine hline).single
  refine ⟨hne, fun hmem => hsingle ?_⟩
  rw [hsplit]
  by_cases hrest : rest = []
  · rwa [hrest, List.append_nil]
  · rw [List.dropLast_append_of_ne_nil hrest]
    exact List.mem_append_left _ (List.dropLast_subset _ hmem)

/-- A fragment shows the fence that is open in its part. -/
theorem inside_append (hs : Sound t s) (hended : Ended s.part.bytes) (hpiece : IsLine piece) :
    (s.append piece).inside = s.inside ++ List.replicate piece.length (endFence s.part.bytes) := by
  have hpart : (s.append piece).part.inside = s.part.inside ++ List.replicate piece.length
      (endFence s.part.bytes) := by
    rw [Part.inside_eq, Part.inside_eq]
    change (fences (s.part.opening ++ (s.part.content ++ piece))).drop s.part.opening.length = _
    have hopening : s.part.opening.length ≤ (fences s.part.bytes).length := by
      rw [length_fences, hs.bytes, List.length_append]
      exact Nat.le_add_right _ _
    rw [← List.append_assoc, ← hs.bytes, fences_append hended, hpiece.fileLines_eq,
      List.drop_append_of_le_length hopening]
    simp [lineFences]
  rw [inside, hpart, ← List.append_assoc]
  rfl

/-- What the text has at the fragment, when the parts are right so far. -/
theorem fences_at (hs : Sound t s) (hinside : s.inside <+: fences t)
    (hsplit : s.line = piece ++ rest) :
    ∃ more, fences t = s.inside ++ (List.replicate piece.length s.fence ++ more) := by
  obtain ⟨before, hlength, hfences⟩ := hs.remaining
  obtain ⟨behind, hbehind⟩ := hinside
  have hsame : s.inside = before := by
    rw [hfences] at hbehind
    exact (List.append_inj hbehind (by rw [s.length_inside, hlength])).1
  rw [hfences, ← hsame, remaining, hsplit, List.length_append, List.replicate_add,
    List.append_assoc]
  exact ⟨_, rfl⟩

/-- A fragment in the wrong fence is not what the text has. -/
theorem inside_append_ne (hs : Sound t s) (hended : Ended s.part.bytes)
    (hsplit : s.line = piece ++ rest) (hne : piece ≠ [])
    (hastray : endFence s.part.bytes ≠ s.fence) : ¬(s.append piece).inside <+: fences t := by
  intro hprefix
  rw [inside_append hs hended (hs.piece_isLine hsplit hne)] at hprefix
  obtain ⟨more, hmore⟩ := fences_at hs ((List.prefix_append _ _).trans hprefix) hsplit
  rw [hmore, List.prefix_append_right_inj] at hprefix
  obtain ⟨behind, hbehind⟩ := hprefix
  have hsame : List.replicate piece.length (endFence s.part.bytes) =
      List.replicate piece.length s.fence :=
    (List.append_inj hbehind (by rw [List.length_replicate, List.length_replicate])).1
  exact hastray ((List.replicate_right_inj (by simpa using hne)).mp hsame)

/-- The fence that is open behind a fragment in the text. -/
def after (s : Splitter) (piece : Bytes) : Bytes :=
    if piece = s.line then readFence s.fence s.original else s.fence

/-- The next fragment is read in its part as the text is read, and no part is ended with nothing in
it. -/
structure Undisturbed (cap : Nat) (s : Splitter) : Prop where
  fragment : ∀ piece, truncateToCodePoint s.line (s.room cap) = piece → piece ≠ [] →
    readFence s.fence (shown piece (s.after piece)) = s.after piece
  line : s.line = [] → s.part.bytes = [] → isMarker (nextLine s.text) = true →
    (nextLine s.text).length ≤ cap

instance (cap : Nat) (s : Splitter) : Decidable (s.Undisturbed cap) :=
  let piece := truncateToCodePoint s.line (s.room cap)
  decidable_of_iff
    ((piece ≠ [] → readFence s.fence (shown piece (s.after piece)) = s.after piece) ∧
      (s.line = [] → s.part.bytes = [] → isMarker (nextLine s.text) = true →
        (nextLine s.text).length ≤ cap))
    ⟨fun h => ⟨fun _ hpiece => hpiece ▸ h.1, h.2⟩, fun h => ⟨h.fragment _ rfl, h.line⟩⟩

/-- All is right so far, and the fence line that is worked on is whole. -/
structure Right (cap : Nat) (t : Bytes) (s : Splitter) : Prop where
  parts : ∀ part ∈ s.parts, part.bytes ≠ [] ∧ endFence part.bytes = []
  inside : s.inside <+: fences t
  same : s.Unfinished → endFence s.part.bytes = s.fence
  last : ¬s.Unfinished → endFence s.closed.bytes = []
  whole : s.line ≠ [] → s.fence = [] → isMarker s.original = true →
    s.line = s.original ∧ (s.part.bytes.length + s.line.length ≤ cap ∨ s.part.bytes = [])

/-- Something is wrong that no later round puts right. -/
inductive Wrong (t : Bytes) (s : Splitter) : Prop
  | part {part : Part} (hpart : part ∈ s.parts) (h : part.bytes = [] ∨ endFence part.bytes ≠ [])
  | inside (h : ¬s.inside <+: fences t)
  | astray (hu : s.Unfinished) (h : endFence s.part.bytes ≠ s.fence)
      (hempty : endFence s.part.bytes = [] ∨ s.fence = [])
  | last (hu : ¬s.Unfinished) (h : endFence s.closed.bytes ≠ [])

theorem right_start (cap : Nat) (t : Bytes) : Right cap t (start t) where
  parts _ h := by cases h
  inside := List.nil_prefix
  same _ := rfl
  last _ := rfl
  whole h := absurd rfl h

/-- What the part that ends has open behind its closing. -/
theorem endFence_closed (hs : Sound t s) (hu : s.Unfinished) :
    endFence s.closed.bytes = closeFence (endFence s.part.bytes) s.fence := by
  rw [closed_bytes hs.closing, endFence_close (hs.ended hu) hs.fence]

theorem append_bytes (hs : Sound t s) (piece : Bytes) :
    (s.append piece).part.bytes = s.part.bytes ++ piece :=
  Bounded.bytes_append hs piece

theorem endFence_reopened (hs : Sound t s) (hu : s.Unfinished) :
    endFence (reopen s.fence ++ [] ++ []) = s.fence := by
  rw [List.append_nil, List.append_nil]
  exact endFence_reopen hs.fence (hs.short hu)

namespace Wrong

theorem flush (h : Wrong t s) (hs : Sound t s) (hu : s.Unfinished) : Wrong t s.flush := by
  cases h with
  | part hpart h => exact .part (List.mem_append_left _ hpart) h
  | inside h => exact .inside (by rwa [inside_flush])
  | astray _ h hempty =>
    refine .part (List.mem_append_right _ (List.mem_singleton_self s.closed)) (.inr ?_)
    rw [endFence_closed hs hu]
    exact closeFence_ne hs.fence h hempty
  | last hnone _ => exact absurd hu hnone

theorem beginLine (h : Wrong t s) (htext : s.text ≠ []) : Wrong t s.beginLine := by
  obtain ⟨_, -, hfirst, -, -⟩ := nextLine_spec htext
  cases h with
  | part hpart h => exact .part hpart h
  | inside h => exact .inside h
  | astray _ h hempty => exact .astray (.inl hfirst.ne) h hempty
  | last hnone _ => exact absurd (.inr htext) hnone

/-- After a fragment the fences that the parts show are wrong, or a part before is. -/
theorem append (h : Wrong t s) (hs : Sound t s) (hsplit : s.line = piece ++ rest)
    (hne : piece ≠ []) :
    (∃ part ∈ s.parts, part.bytes = [] ∨ endFence part.bytes ≠ []) ∨
      ¬(s.append piece).inside <+: fences t := by
  have hline : s.line ≠ [] := hsplit ▸ List.append_ne_nil_of_left_ne_nil hne _
  have hended := hs.ended (.inl hline)
  cases h with
  | part hpart h => exact .inl ⟨_, hpart, h⟩
  | inside h =>
    right
    rw [inside_append hs hended (hs.piece_isLine hsplit hne)]
    exact fun hprefix => h ((List.prefix_append _ _).trans hprefix)
  | astray _ h _ => exact .inr (inside_append_ne hs hended hsplit hne h)
  | last hnone _ => exact absurd (.inl hline) hnone

theorem round (h : Wrong t s) (hs : Sound t s) (hround : Round cap s s') : Wrong t s' := by
  cases hround with
  | take _ htext _ => exact h.beginLine htext
  | turn _ htext _ _ => exact (h.flush hs (.inr htext)).beginLine htext
  | flush hline _ => exact h.flush hs (.inl hline)
  | cut hsplit hne _ _ =>
    rcases h.append hs hsplit hne with ⟨part, hpart, hwrong⟩ | hinside
    · exact .part (List.mem_append_left _ hpart) hwrong
    · exact .inside (by rwa [inside_flush])
  | finish hline _ =>
    rcases h.append hs (List.append_nil s.line).symm hline with ⟨part, hpart, hwrong⟩ | hinside
    · exact .part hpart hwrong
    · exact .inside hinside

end Wrong

namespace Right

theorem flush (h : Right cap t s) (hs : Sound t s) (hu : s.Unfinished) (hne : s.part.bytes ≠ []) :
    Right cap t s.flush where
  parts part hpart := by
    rcases List.mem_append.mp hpart with hpart | hpart
    · exact h.parts part hpart
    · rw [List.mem_singleton.mp hpart]
      constructor
      · rw [closed_bytes hs.closing]
        exact List.append_ne_nil_of_left_ne_nil hne _
      · rw [endFence_closed hs hu, h.same hu]
        exact closeFence_self hs.fence
  inside := by
    rw [inside_flush]
    exact h.inside
  same _ := endFence_reopened hs hu
  last hnone := absurd hu hnone
  whole hline hfence hmarker := by
    refine ⟨(h.whole hline hfence hmarker).1, .inr ?_⟩
    change s.fence = [] at hfence
    change reopen s.fence ++ [] ++ [] = []
    rw [hfence]
    rfl

theorem beginLine (h : Right cap t s) (htext : s.text ≠ [])
    (hfits : s.fence = [] → isMarker (nextLine s.text) = true →
      s.part.bytes.length + (nextLine s.text).length ≤ cap ∨ s.part.bytes = []) :
        Right cap t s.beginLine where
  parts := h.parts
  inside := h.inside
  same _ := h.same (.inr htext)
  last hnone := by
    obtain ⟨_, -, hfirst, -, -⟩ := nextLine_spec htext
    exact absurd (.inl hfirst.ne) hnone
  whole _ hfence hmarker := ⟨rfl, hfits hfence hmarker⟩

theorem inside_append (h : Right cap t s) (hs : Sound t s) (hsplit : s.line = piece ++ rest)
    (hne : piece ≠ []) :
    (s.append piece).inside <+: fences t := by
  have hline : s.line ≠ [] := hsplit ▸ List.append_ne_nil_of_left_ne_nil hne _
  obtain ⟨more, hmore⟩ := fences_at hs h.inside hsplit
  rw [Splitter.inside_append hs (hs.ended (.inl hline)) (hs.piece_isLine hsplit hne),
    h.same (.inl hline), hmore, List.prefix_append_right_inj]
  exact List.prefix_append _ _

/-- A fragment that is read otherwise leaves no fence open, or does so where the text leaves none.
-/
theorem one_empty (h : Right cap t s) (hline : s.line ≠ [])
    (hread : readFence s.fence (shown s.line (readFence s.fence s.original)) ≠
      readFence s.fence s.original) :
    readFence s.fence (shown s.line (readFence s.fence s.original)) = [] ∨
      readFence s.fence s.original = [] := by
  by_cases hfence : s.fence = []
  · by_cases hmarker : isMarker s.original = true
    · have hwhole := (h.whole hline hfence hmarker).1
      rw [hwhole, hfence] at hread ⊢
      by_cases hended : s.original.getLast? = some 10
      · exact absurd (by rw [shown, if_pos (.inl hended)]) hread
      · left
        have hnext : readFence [] s.original = s.original := by
          rw [readFence, if_pos hmarker, if_pos rfl, if_neg hended]
        rw [hnext] at hread ⊢
        by_cases hnone : s.original = []
        · rw [hnone] at hmarker
          exact absurd hmarker (by decide)
        · rw [shown, if_neg (not_or.mpr ⟨hended, hnone⟩)] at hread ⊢
          by_cases hlong : isMarker (s.original ++ [10]) = true
          · refine absurd ?_ hread
            rw [readFence, if_pos hlong, if_pos rfl, if_pos (by simp), List.dropLast_concat]
          · rw [readFence, if_neg hlong]
    · right
      rw [readFence, if_neg hmarker, hfence]
  · rcases readFence_of_ne hfence (shown s.line (readFence s.fence s.original)) with hread' | hread'
    · rcases readFence_of_ne hfence s.original with hnext | hnext
      · exact absurd (hread'.trans hnext.symm) hread
      · exact .inr hnext
    · exact .inl hread'

/-- What is open behind a fragment that ends its part. -/
theorem endFence_piece (h : Right cap t s) (hs : Sound t s) (hsplit : s.line = piece ++ rest)
    (hne : piece ≠ []) {fence : Bytes} (hfence : fence = [] ∨ IsFence fence) :
    endFence (s.part.bytes ++ piece ++ close fence) =
      closeFence (readFence s.fence (shown piece fence)) fence := by
  have hline : s.line ≠ [] := hsplit ▸ List.append_ne_nil_of_left_ne_nil hne _
  rw [endFence_piece_close (hs.ended (.inl hline)) (hs.piece_isLine hsplit hne) hfence,
    h.same (.inl hline)]

theorem closed_append (hs : Sound t s) (piece : Bytes) :
    (s.append piece).closed.bytes = s.part.bytes ++ piece ++ close s.fence := by
  have hclosing : (s.append piece).part.closing = [] := hs.closing
  rw [closed_bytes hclosing, append_bytes hs]
  rfl

/-- No fence line is cut without its first piece being read as one. -/
theorem not_cut (h : Right cap t s) (hs : Sound t s) (hvalid : isValidUtf8 s.line = true)
    (hcap : cap < 2 ^ 64) (hmin : 48 ≤ cap) (hfits : s.part.bytes.length ≤ cap)
    (hsplit : s.line = piece ++ rest) (hne : piece ≠ []) (hrest : rest ≠ [])
    (hpiece : truncateToCodePoint s.line (s.room cap) = piece)
    (hread : readFence s.fence (shown piece s.fence) = s.fence) (hfence : s.fence = [])
    (hmarker : isMarker s.original = true) : False := by
  have hline : s.line ≠ [] := hsplit ▸ List.append_ne_nil_of_left_ne_nil hne _
  obtain ⟨hwhole, hroom⟩ := h.whole hline hfence hmarker
  have hlength := congrArg List.length hsplit
  have hpositive := List.length_pos_iff.mpr hrest
  rw [List.length_append] at hlength
  rw [room_eq hcap hfits] at hpiece
  rcases hroom with hroom | hempty
  · rw [truncateToCodePoint_fits (by omega)] at hpiece
    rw [← hpiece] at hlength
    omega
  · rw [hempty, List.length_nil, Nat.sub_zero] at hpiece
    have hlong : cap < s.line.length := by
      by_contra hshort
      rw [truncateToCodePoint_fits (Nat.le_of_not_lt hshort)] at hpiece
      rw [← hpiece] at hlength
      omega
    have hclose := truncateToCodePoint_close hvalid hlong
    rw [hpiece] at hclose
    rw [← hwhole, isMarker, Bool.and_eq_true, decide_eq_true_eq] at hmarker
    obtain ⟨hshort, hopens⟩ := hmarker
    -- the first piece has the three characters and is short enough
    have hpieceMarker : isMarker piece = true := by
      rw [isMarker, Bool.and_eq_true, decide_eq_true_eq]
      refine ⟨by omega, ?_⟩
      rw [Bool.or_eq_true, List.isPrefixOf_iff_prefix, List.isPrefixOf_iff_prefix] at hopens ⊢
      have hprefix : piece <+: s.line := ⟨rest, hsplit.symm⟩
      refine hopens.imp (fun hp => ?_) fun hp => ?_
      · exact List.prefix_of_prefix_length_le hp hprefix (by change 3 ≤ piece.length; omega)
      · exact List.prefix_of_prefix_length_le hp hprefix (by change 3 ≤ piece.length; omega)
    have hopen : piece.getLast? ≠ some 10 := by
      intro hended
      have hsingle := (hs.rest_isLine hline).single
      rw [hsplit, List.dropLast_append_of_ne_nil hrest] at hsingle
      exact hsingle (List.mem_append_left _ (List.mem_of_getLast? hended))
    rw [hfence, shown, if_pos (.inr rfl), readFence, if_pos hpieceMarker, if_pos rfl,
      if_neg hopen] at hread
    exact hne hread

theorem cut (h : Right cap t s) (hs : Sound t s) (hvalid : isValidUtf8 s.line = true)
    (hcap : cap < 2 ^ 64) (hmin : 48 ≤ cap) (hfits : s.part.bytes.length ≤ cap)
    (hsplit : s.line = piece ++ rest) (hne : piece ≠ []) (hrest : rest ≠ [])
    (hpiece : truncateToCodePoint s.line (s.room cap) = piece)
    (hread : readFence s.fence (shown piece s.fence) = s.fence) :
    Right cap t (s.append piece).flush := by
  have hreopened := endFence_reopened hs (.inl (hsplit ▸ List.append_ne_nil_of_left_ne_nil hne _))
  refine ⟨fun part hpart => ?_, ?_, fun _ => hreopened, fun hnone => ?_, fun _ hfence hmarker => ?_⟩
  · rcases List.mem_append.mp hpart with hpart | hpart
    · exact h.parts part hpart
    · rw [List.mem_singleton.mp hpart, closed_append hs]
      constructor
      · exact List.append_ne_nil_of_left_ne_nil (List.append_ne_nil_of_right_ne_nil _ hne) _
      · rw [h.endFence_piece hs hsplit hne hs.fence, hread]
        exact closeFence_self hs.fence
  · rw [inside_flush]
    exact h.inside_append hs hsplit hne
  · have hnext : (s.append piece).flush.line = rest := append_line hsplit
    exact absurd (.inl (hnext ▸ hrest)) hnone
  · exact (h.not_cut hs hvalid hcap hmin hfits hsplit hne hrest hpiece hread hfence hmarker).elim

theorem cut_wrong (h : Right cap t s) (hs : Sound t s) (hsplit : s.line = piece ++ rest)
    (hne : piece ≠ []) (hread : readFence s.fence (shown piece s.fence) ≠ s.fence) :
    Wrong t (s.append piece).flush := by
  refine .part (List.mem_append_right _ (List.mem_singleton_self _)) (.inr ?_)
  rw [closed_append hs, h.endFence_piece hs hsplit hne hs.fence]
  refine closeFence_ne hs.fence hread ?_
  by_cases hfence : s.fence = []
  · exact .inr hfence
  · exact .inl ((readFence_of_ne hfence _).resolve_left hread)

/-- The part behind the last fragment of a line, and its closing. -/
theorem finished (h : Right cap t s) (hs : Sound t s) (hline : s.line ≠ []) :
    ((s.append s.line).endLine.Unfinished →
        endFence (s.append s.line).endLine.part.bytes =
          readFence s.fence (shown s.line (readFence s.fence s.original))) ∧
      endFence (s.append s.line).endLine.closed.bytes =
        closeFence (readFence s.fence (shown s.line (readFence s.fence s.original)))
          (readFence s.fence s.original) := by
  have hsplit : s.line = s.line ++ [] := (List.append_nil s.line).symm
  have hpart : (s.append s.line).endLine.part.bytes = s.part.bytes ++ s.line :=
    append_bytes hs s.line
  constructor
  · rintro (hmore | htext)
    · exact absurd (append_line hsplit) hmore
    · have hended := hs.rest_full hline htext
      rw [hpart, Qq.endFence_piece (hs.ended (.inl hline)) (hs.rest_isLine hline),
        h.same (.inl hline), shown, if_pos (.inl hended)]
  · have hclosing : (s.append s.line).endLine.part.closing = [] := hs.closing
    rw [closed_bytes hclosing, hpart]
    exact h.endFence_piece hs hsplit hline (readFence_isFence hs.fence (hs.isLine hline))

theorem finish (h : Right cap t s) (hs : Sound t s) (hline : s.line ≠ [])
    (hread : readFence s.fence (shown s.line (readFence s.fence s.original)) =
      readFence s.fence s.original) :
    Right cap t (s.append s.line).endLine := by
  obtain ⟨hpart, hclosed⟩ := h.finished hs hline
  refine ⟨h.parts, h.inside_append hs (List.append_nil s.line).symm hline, fun hu => ?_,
    fun _ => ?_, fun hmore => ?_⟩
  · rw [hpart hu, hread]
    rfl
  · rw [hclosed, hread]
    exact closeFence_self (readFence_isFence hs.fence (hs.isLine hline))
  · exact absurd (append_line (List.append_nil s.line).symm) hmore

theorem finish_wrong (h : Right cap t s) (hs : Sound t s) (hline : s.line ≠ [])
    (hread : readFence s.fence (shown s.line (readFence s.fence s.original)) ≠
      readFence s.fence s.original) :
    Wrong t (s.append s.line).endLine := by
  obtain ⟨hpart, hclosed⟩ := h.finished hs hline
  have hempty := h.one_empty hline hread
  by_cases hu : (s.append s.line).endLine.Unfinished
  · refine .astray hu ?_ ?_
    · rw [hpart hu]
      exact hread
    · rw [hpart hu]
      exact hempty
  · refine .last hu ?_
    rw [hclosed]
    exact closeFence_ne (readFence_isFence hs.fence (hs.isLine hline)) hread hempty

end Right

/-- One round keeps what is right, or makes it wrong for good. -/
theorem right_round (h : Right cap t s) (hs : Sound t s) (hvalid : isValidUtf8 s.line = true)
    (hcap : cap < 2 ^ 64) (hmin : 48 ≤ cap) (hroomy : s.Roomy cap)
    (hfits : s.line ≠ [] → s.part.bytes.length ≤ cap) (hround : Round cap s s') :
    (s.Undisturbed cap → Right cap t s') ∧ (¬s.Undisturbed cap → Wrong t s') := by
  -- a line that is begun has no fragment yet
  have hbegin (hline : s.line = []) (hmarked : s.part.bytes = [] →
    isMarker (nextLine s.text) = true →
      (nextLine s.text).length ≤ cap) : s.Undisturbed cap := by
    refine ⟨fun piece hpiece hne => ?_, fun _ => hmarked⟩
    have hnone : truncateToCodePoint [] (s.room cap) = [] :=
      truncateToCodePoint_fits (Nat.zero_le _)
    rw [hline, hnone] at hpiece
    exact absurd hpiece.symm hne
  have hlineless (hline : s.line ≠ []) {piece : Bytes}
    (hpiece : truncateToCodePoint s.line (s.room cap) = piece)
      (hread : piece ≠ [] → readFence s.fence (shown piece (s.after piece)) = s.after piece) :
        s.Undisturbed cap :=
    ⟨fun other hother hne => by
      have hsame : other = piece := hother.symm.trans hpiece
      rw [hsame] at hne ⊢
      exact hread hne, fun hnone => absurd hnone hline⟩
  cases hround with
  | take hline htext hroom =>
    refine ⟨fun _ => h.beginLine htext fun _ hmarker => .inl (hroom hmarker), fun hdisturbed => ?_⟩
    exact absurd (hbegin hline fun _ hmarker => le_trans (Nat.le_add_left _ _) (hroom hmarker))
      hdisturbed
  | turn hline htext hmarker hfull =>
    constructor
    · intro hok
      have hne : s.part.bytes ≠ [] := by
        intro hempty
        have hshort := hok.line hline hempty hmarker
        rw [hempty, List.length_nil, Nat.zero_add] at hfull
        omega
      refine (h.flush hs (.inr htext) hne).beginLine htext fun hfence _ => .inr ?_
      change s.fence = [] at hfence
      change reopen s.fence ++ [] ++ [] = []
      rw [hfence]
      rfl
    · intro hdisturbed
      have hempty : s.part.bytes = [] := by
        by_contra hne
        exact hdisturbed (hbegin hline fun hnone => absurd hnone hne)
      have hclosed : s.closed.bytes = [] := by
        have hbare : s.part.content = [] := by
          rw [hs.bytes] at hempty
          exact (List.append_eq_nil_iff.mp hempty).2
        have hfence : s.fence = [] := by
          rw [hs.bare_bytes hbare, reopen] at hempty
          by_contra hne
          rw [if_neg hne] at hempty
          exact absurd hempty (List.append_ne_nil_of_right_ne_nil _ (List.cons_ne_nil _ _))
        rw [closed_bytes hs.closing, hempty, hfence]
        rfl
      exact .part (List.mem_append_right _ (List.mem_singleton_self s.closed)) (.inl hclosed)
  | flush hline hnone =>
    refine ⟨fun _ => h.flush hs (.inl hline) fun hempty => ?_, fun hdisturbed => ?_⟩
    · have hbare : s.part.content = [] := by
        rw [hs.bytes] at hempty
        exact (List.append_eq_nil_iff.mp hempty).2
      exact room_of_bare hs hvalid hcap hroomy hline hbare hnone
    · exact absurd (hlineless hline hnone fun hne => absurd rfl hne) hdisturbed
  | @cut piece rest hsplit hne hrest hpiece =>
    have hline : s.line ≠ [] := hsplit ▸ List.append_ne_nil_of_left_ne_nil hne _
    have hafter : s.after piece = s.fence := by
      rw [after, if_neg]
      intro hwhole
      rw [hwhole] at hsplit
      exact hrest (List.append_right_eq_self.mp hsplit.symm)
    constructor
    · intro hok
      have hread := hok.fragment piece hpiece hne
      rw [hafter] at hread
      exact h.cut hs hvalid hcap hmin (hfits hline) hsplit hne hrest hpiece hread
    · intro hdisturbed
      refine h.cut_wrong hs hsplit hne fun hread => hdisturbed (hlineless hline hpiece fun _ => ?_)
      rw [hafter]
      exact hread
  | finish hline hpiece =>
    have hafter : s.after s.line = readFence s.fence s.original := if_pos rfl
    constructor
    · intro hok
      have hread := hok.fragment s.line hpiece hline
      rw [hafter] at hread
      exact h.finish hs hline hread
    · intro hdisturbed
      refine h.finish_wrong hs hline fun hread => hdisturbed (hlineless hline hpiece fun _ => ?_)
      rw [hafter]
      exact hread

theorem finish_flatMap {β : Type} {f : Part → List β} (hempty : s.part.bytes = [] → f s.part = [])
    (hclosed : f s.closed = f s.part) :
    s.finish.flatMap f = s.parts.flatMap f ++ f s.part := by
  unfold Splitter.finish
  split
  · next hnone => rw [hempty hnone, List.append_nil]
  · rw [List.flatMap_append, List.flatMap_singleton, hclosed]

theorem content_of_empty (hempty : s.part.bytes = []) : s.part.content = [] :=
  (List.append_eq_nil_iff.mp (List.append_eq_nil_iff.mp hempty).1).2

theorem finish_inside (s : Splitter) : s.finish.flatMap Part.inside = s.inside := by
  refine finish_flatMap (fun hempty => ?_) s.inside_closed
  rw [← List.length_eq_zero_iff, Part.length_inside, content_of_empty hempty, List.length_nil]

theorem mem_finish {part : Part} (h : part ∈ s.finish) : part ∈ s.parts ∨ part = s.closed ∧
    s.part.bytes ≠ [] := by
  unfold Splitter.finish at h
  split at h
  · exact .inl h
  · next hne => exact (List.mem_append.mp h).imp id fun hlast => ⟨List.mem_singleton.mp hlast, hne⟩

theorem faithful_of_right (h : Right cap t s) (hs : Sound t s) (htexts : Texts s)
    (hseamed : Seamed t s) (hbounded : Bounded cap s) (hdone : ¬s.Unfinished)
    (hlimit : max cap 65 + 4 ≤ limit) : Faithful t limit s.finish := by
  obtain ⟨hline, htext⟩ := not_or.mp hdone
  rw [not_not] at hline htext
  have hall : s.consumed = t := by
    have hcontent := hs.content
    rwa [hline, htext, List.append_nil, List.append_nil] at hcontent
  refine ⟨?_, hseamed.finish hs, fun part hpart => ?_, fun part hpart => ?_, ?_⟩
  · rw [finish_flatMap content_of_empty rfl]
    exact hall
  · rcases mem_finish hpart with hpart | ⟨rfl, hne⟩
    · exact ⟨(h.parts part hpart).1, htexts.parts part hpart,
        le_trans (hbounded.parts part hpart) hlimit⟩
    · refine ⟨?_, htexts.closed hs, ?_⟩
      · rw [closed_bytes hs.closing]
        exact List.append_ne_nil_of_left_ne_nil hne _
      · have hlength := length_closed hs.closing
        have hbytes := hbounded.bytes_le hs
        omega
  · rcases mem_finish hpart with hpart | ⟨rfl, -⟩
    · exact (h.parts part hpart).2
    · exact h.last hdone
  · rw [finish_inside]
    exact h.inside.eq_of_length (by rw [length_inside, hall, length_fences])

theorem not_faithful (h : Wrong t s) (hs : Sound t s) (hdone : ¬s.Unfinished) :
    ¬Faithful t limit s.finish := by
  intro hfaithful
  have hmem {part : Part} (hpart : part ∈ s.parts) : part ∈ s.finish := by
    unfold Splitter.finish
    split
    · exact hpart
    · exact List.mem_append_left _ hpart
  cases h with
  | part hpart hwrong =>
    rcases hwrong with hempty | hinside
    · exact (hfaithful.sendable _ (hmem hpart)).1 hempty
    · exact hinside (hfaithful.outside _ (hmem hpart))
  | inside hwrong =>
    have hinside := hfaithful.inside
    rw [finish_inside] at hinside
    exact hwrong (hinside ▸ List.prefix_refl _)
  | astray hu _ _ => exact hdone hu
  | last _ hwrong =>
    by_cases hempty : s.part.bytes = []
    · have hbare := content_of_empty hempty
      rw [closed_bytes hs.closing, hempty] at hwrong
      rw [hs.bare_bytes hbare, reopen] at hempty
      split at hempty
      · next hfence =>
        rw [hfence] at hwrong
        exact hwrong rfl
      · exact absurd hempty (List.append_ne_nil_of_right_ne_nil _ (List.cons_ne_nil _ _))
    · refine hwrong (hfaithful.outside _ ?_)
      rw [Splitter.finish, if_neg hempty]
      exact List.mem_append_right _ (List.mem_singleton_self _)

section Run

variable (ht : isValidUtf8 t = true) (hcap : cap < 2 ^ 64) (hmin : 48 ≤ cap)
  (hroomy : ∀ s, Reaches (step cap) (start t) s → s.Roomy cap)
include ht hcap hmin hroomy

theorem right_reaches (hok : ∀ s, Reaches (step cap) (start t) s → s.Undisturbed cap)
    (h : Reaches (step cap) (start t) s) :
    Right cap t s := by
  have hwrap := noWrap_of_roomy ht hcap hroomy
  have hround (a b : Splitter) (ha : Reaches (step cap) (start t) a ∧
    Right cap t a) (hstep : a.step cap = some b) :
      Reaches (step cap) (start t) b ∧ Right cap t b := by
    refine ⟨ha.1.tail hstep, ?_⟩
    exact (right_round ha.2 (sound_reaches ha.1) (texts_reaches ht ha.1).line hcap hmin
      (hroomy a ha.1) (hwrap a ha.1)
      (step_round hstep)).1 (hok a ha.1)
  exact (reaches_invariant hround h ⟨.refl, right_start cap t⟩).2

theorem right_or_wrong (h : Reaches (step cap) (start t) s) : Right cap t s ∨ Wrong t s := by
  have hwrap := noWrap_of_roomy ht hcap hroomy
  have hround (a b : Splitter) (ha : Reaches (step cap) (start t) a ∧ (Right cap t a ∨ Wrong t a))
    (hstep : a.step cap = some b) :
      Reaches (step cap) (start t) b ∧ (Right cap t b ∨ Wrong t b) := by
    refine ⟨ha.1.tail hstep, ?_⟩
    rcases ha.2 with hright | hwrong
    · obtain ⟨hkept, hlost⟩ :=
        right_round hright (sound_reaches ha.1) (texts_reaches ht ha.1).line hcap hmin
        (hroomy a ha.1)
        (hwrap a ha.1) (step_round hstep)
      by_cases hok : a.Undisturbed cap
      · exact .inl (hkept hok)
      · exact .inr (hlost hok)
    · exact .inr (hwrong.round (sound_reaches ha.1) (step_round hstep))
  exact (reaches_invariant hround h ⟨.refl, .inl (right_start cap t)⟩).2

/-- A fragment that is read otherwise makes the parts wrong. -/
theorem wrong_of_disturbed {last : Splitter} (hlast : last ∈ eval (step cap) (start t))
    (h : Reaches (step cap) (start t) s) (hdisturbed : ¬s.Undisturbed cap) : Wrong t last := by
  have hbehind := mem_eval_of_reaches h hlast
  obtain ⟨hreach, hstop⟩ := mem_eval.mp hbehind
  have hwrap := noWrap_of_roomy ht hcap hroomy
  have hlater {a : Splitter} (ha : Reaches (step cap) (start t) a) (hwrong : Wrong t a)
    (hreach : Reaches (step cap) a last) :
      Wrong t last := by
    have hround (b c : Splitter) (hb : Reaches (step cap) (start t) b ∧
      Wrong t b) (hstep : b.step cap = some c) :
        Reaches (step cap) (start t) c ∧ Wrong t c :=
      ⟨hb.1.tail hstep, hb.2.round (sound_reaches hb.1) (step_round hstep)⟩
    exact (reaches_invariant hround hreach ⟨ha, hwrong⟩).2
  rcases right_or_wrong ht hcap hmin hroomy h with hright | hwrong
  · rcases hreach.cases_head with rfl | ⟨next, hstep, hreach⟩
    · -- where nothing is left, nothing is disturbed
      obtain ⟨hline, htext⟩ := not_or.mp (step_none hstop)
      rw [not_not] at hline htext
      refine absurd ⟨fun piece hpiece hne => ?_, fun _ _ hmarker => ?_⟩ hdisturbed
      · rw [hline, truncateToCodePoint_fits (Nat.zero_le _)] at hpiece
        exact absurd hpiece.symm hne
      · rw [htext] at hmarker
        exact absurd hmarker (by decide)
    · have hwrong :=
        (right_round hright (sound_reaches h) (texts_reaches ht h).line hcap hmin (hroomy s h)
        (hwrap s h)
        (step_round hstep)).2 hdisturbed
      exact hlater (h.tail hstep) hwrong hreach
  · exact hlater h hwrong hreach

end Run

end Splitter

end Orangutan.Qq
