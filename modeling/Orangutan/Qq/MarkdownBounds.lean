import Orangutan.Qq.MarkdownRuns

/-!
# Room in a part

The splitter stops, and never computes a negative room, exactly when the fence line that it opens
again always leaves room for the next code point. The parts are text then, and short enough.
-/

namespace Orangutan.Qq

set_option autoImplicit false

open Orangutan.Core Orangutan.Core.Str Orangutan.Io Orangutan.Lib Orangutan.Tool StateTransition

variable {t : Bytes} {s s' : Splitter} {cap limit : Nat} {piece rest : Bytes}

namespace Splitter

theorem parts_flush (s : Splitter) : s.flush.parts = s.parts ++ [s.closed] := rfl

theorem fenced_append {place : Nat} {parts more : List Part} :
    Fenced t place (parts ++ more) ↔
      Fenced t place parts ∧ Fenced t (place + (parts.flatMap Part.content).length) more := by
  induction parts generalizing place with
  | nil => simp [Fenced]
  | cons part parts ih =>
    rw [List.cons_append, Fenced, Fenced, ih, List.flatMap_cons, List.length_append, Nat.add_assoc,
      and_assoc, and_assoc]

/-- The parts are opened and closed as the text has it where they begin and end. -/
structure Seamed (t : Bytes) (s : Splitter) : Prop where
  parts : Fenced t 0 s.parts
  opening : s.part.opening = reopen (fenceAt t (s.parts.flatMap Part.content).length)

namespace Seamed

theorem start (t : Bytes) : Seamed t (start t) := by
  have hfence : fenceAt t 0 = [] := (sound_start t).fence_here
  refine ⟨trivial, ?_⟩
  change [] = reopen (fenceAt t 0)
  rw [hfence]
  rfl

theorem closed (h : Seamed t s) (hfence : fenceAt t s.consumed.length = s.fence) :
    Fenced t 0 (s.parts ++ [s.closed]) := by
  refine fenced_append.mpr ⟨h.parts, ?_, ?_, trivial⟩
  · rw [Nat.zero_add]
    exact h.opening
  · rw [Nat.zero_add]
    change close s.fence = close
      (fenceAt t ((s.parts.flatMap Part.content).length + s.part.content.length))
    rw [← hfence, consumed, List.length_append]

theorem flush (h : Seamed t s) (hfence : fenceAt t s.consumed.length = s.fence) :
    Seamed t s.flush where
  parts := h.closed hfence
  opening := by
    change reopen s.fence = reopen (fenceAt t ((s.parts ++ [s.closed]).flatMap Part.content).length)
    rw [← hfence, List.flatMap_append, List.flatMap_singleton]
    rfl

theorem round (h : Seamed t s) (hs : Sound t s) (hround : Round cap s s') : Seamed t s' := by
  cases hround with
  | take _ _ _ => exact ⟨h.parts, h.opening⟩
  | turn _ _ _ _ =>
    have hflush := h.flush hs.fence_here
    exact ⟨hflush.parts, hflush.opening⟩
  | flush _ _ => exact h.flush hs.fence_here
  | @cut piece rest hsplit _ hrest _ =>
    have happend : Seamed t (s.append piece) := ⟨h.parts, h.opening⟩
    refine happend.flush ?_
    have hfence := (hs.cut hsplit hrest).fence_here
    rwa [consumed_flush] at hfence
  | finish _ _ => exact ⟨h.parts, h.opening⟩

/-- The last part is closed like the others. -/
theorem finish (h : Seamed t s) (hs : Sound t s) : Fenced t 0 s.finish := by
  unfold Splitter.finish
  split
  · exact h.parts
  · exact h.closed hs.fence_here

end Seamed

structure Texts (s : Splitter) : Prop where
  line : isValidUtf8 s.line = true
  text : isValidUtf8 s.text = true
  original : isValidUtf8 s.original = true
  fence : isValidUtf8 s.fence = true
  part : isValidUtf8 (s.part.opening ++ s.part.content) = true
  parts : ∀ part ∈ s.parts, isValidUtf8 part.bytes = true

theorem isValidUtf8_close {fence : Bytes} (h : fence = [] ∨ IsFence fence) :
    isValidUtf8 (close fence) = true := by
  rcases h with rfl | h
  · rfl
  · rw [close, if_neg h.ne]
    rcases h.take_three with he | he <;> rw [he] <;> decide

theorem isValidUtf8_reopen {fence : Bytes} (h : isValidUtf8 fence = true) :
    isValidUtf8 (reopen fence) = true := by
  unfold reopen
  split
  · rfl
  · rw [isValidUtf8_append h]
    decide

theorem isValidUtf8_readFence {fence line : Bytes} (hfence : isValidUtf8 fence = true)
    (hline : isValidUtf8 line = true) :
    isValidUtf8 (readFence fence line) = true := by
  unfold readFence
  split_ifs with hmarker hnone hended
  · have hsplit : line.dropLast ++ [10] = line := List.dropLast_append_getLast? 10 hended
    rw [← hsplit] at hline
    exact (isValidUtf8_cut hline).1
  · exact hline
  · rfl
  · exact hfence
  · exact hfence

namespace Texts

theorem start (ht : isValidUtf8 t = true) : Texts (start t) :=
    ⟨rfl, ht, rfl, rfl, rfl, fun _ h => (by cases h)⟩

theorem closed (h : Texts s) (hs : Sound t s) :
    isValidUtf8 s.closed.bytes = true := by
  change isValidUtf8 (s.part.opening ++ s.part.content ++ close s.fence) = true
  rw [isValidUtf8_append h.part]
  exact isValidUtf8_close hs.fence

theorem flush_parts (h : Texts s) (hclosed : isValidUtf8 s.closed.bytes = true) :
    ∀ part ∈ s.flush.parts, isValidUtf8 part.bytes = true := by
  intro part hpart
  rcases List.mem_append.mp hpart with hpart | hpart
  · exact h.parts part hpart
  · rw [List.mem_singleton.mp hpart]
    exact hclosed

theorem reopened (h : Texts s) : isValidUtf8 (reopen s.fence ++ []) = true := by
  rw [List.append_nil]
  exact isValidUtf8_reopen h.fence

theorem flush (h : Texts s) (hs : Sound t s) : Texts s.flush :=
  ⟨h.line, h.text, h.original, h.fence, h.reopened, h.flush_parts (h.closed hs)⟩

theorem beginLine (h : Texts s) (htext : s.text ≠ []) : Texts s.beginLine := by
  obtain ⟨rest, hsplit, -, hlines, -⟩ := nextLine_spec htext
  have hvalid := h.text
  have hfirst : isValidUtf8 (nextLine s.text) = true := by
    refine isLines_valid (isLines_fileLines s.text) (by rw [fileLines_flatten]; exact hvalid) _ ?_
    rw [hlines]
    exact List.mem_cons_self
  have hrest : isValidUtf8 (s.text.drop (nextLine s.text).length) = true := by
    have hdrop := congrArg (List.drop (nextLine s.text).length) hsplit
    rw [List.drop_left] at hdrop
    rw [hdrop]
    rw [hsplit, isValidUtf8_append hfirst] at hvalid
    exact hvalid
  exact ⟨hfirst, hrest, hfirst, h.fence, h.part, h.parts⟩

theorem round (h : Texts s) (hs : Sound t s) (hround : Round cap s s') : Texts s' := by
  cases hround with
  | take _ htext _ => exact h.beginLine htext
  | turn _ htext _ _ => exact (h.flush hs).beginLine htext
  | flush _ _ => exact h.flush hs
  | @cut piece rest hsplit _ _ hpiece =>
    have hvalid : isValidUtf8 piece = true := hpiece ▸ isValidUtf8_truncateToCodePoint h.line _
    have hline := h.line
    rw [hsplit, isValidUtf8_append hvalid] at hline
    have hclosed : isValidUtf8 (s.part.opening ++ (s.part.content ++ piece) ++ close s.fence) =
        true := by
      rw [← List.append_assoc, List.append_assoc, isValidUtf8_append h.part,
        isValidUtf8_append hvalid]
      exact isValidUtf8_close hs.fence
    refine ⟨?_, h.text, h.original, h.fence, h.reopened, ?_⟩
    · change isValidUtf8 (s.append piece).line = true
      rw [append_line hsplit]
      exact hline
    · intro part hpart
      rcases List.mem_append.mp hpart with hpart | hpart
      · exact h.parts part hpart
      · rw [List.mem_singleton.mp hpart]
        exact hclosed
  | finish _ _ =>
    refine ⟨?_, h.text, h.original, isValidUtf8_readFence h.fence h.original, ?_, h.parts⟩
    · change isValidUtf8 (s.append s.line).line = true
      rw [append_line (List.append_nil s.line).symm]
      rfl
    · change isValidUtf8 (s.part.opening ++ (s.part.content ++ s.line)) = true
      rw [← List.append_assoc, isValidUtf8_append h.part]
      exact h.line

end Texts

theorem texts_reaches (ht : isValidUtf8 t = true) (h : Reaches (step cap) (start t) s) :
    Texts s := by
  have hround (a b : Splitter) (ha : Sound t a ∧ Texts a) (hstep : a.step cap = some b) :
      Sound t b ∧ Texts b :=
    ⟨ha.1.round (step_round hstep), ha.2.round ha.1 (step_round hstep)⟩
  exact (reaches_invariant hround h ⟨sound_start t, .start ht⟩).2

theorem seamed_reaches (h : Reaches (step cap) (start t) s) : Seamed t s := by
  have hround (a b : Splitter) (ha : Sound t a ∧ Seamed t a) (hstep : a.step cap = some b) :
      Sound t b ∧ Seamed t b :=
    ⟨ha.1.round (step_round hstep), ha.2.round ha.1 (step_round hstep)⟩
  exact (reaches_invariant hround h ⟨sound_start t, .start t⟩).2

structure Bounded (cap : Nat) (s : Splitter) : Prop where
  filled : s.part.content ≠ [] → s.part.bytes.length ≤ cap
  opening : s.part.opening.length ≤ 65
  parts : ∀ part ∈ s.parts, part.bytes.length ≤ max cap 65 + 4

/-- A part that is opened again leaves room for the next code point. -/
def Roomy (cap : Nat) (s : Splitter) : Prop :=
  s.part.content = [] → ∀ lead ∈ s.line.head?, s.part.opening.length + leadLength lead ≤ cap

theorem room_eq (hcap : cap < 2 ^ 64) (hfits : s.part.bytes.length ≤ cap) :
    s.room cap = cap - s.part.bytes.length := by
  have hsum : cap + 2 ^ 64 - s.part.bytes.length = cap - s.part.bytes.length + 2 ^ 64 := by omega
  rw [room, hsum, Nat.add_mod_right, Nat.mod_eq_of_lt (by omega)]

theorem Sound.bare_bytes (h : Sound t s) (hbare : s.part.content = []) :
    s.part.bytes = reopen s.fence := by
  rw [h.bytes, hbare, List.append_nil, h.bare hbare]

theorem exists_head {line : Bytes} (hline : line ≠ []) : ∃ lead, lead ∈ line.head? ∧
    line = lead :: line.tail := by
  cases line with
  | nil => exact absurd rfl hline
  | cons lead rest => exact ⟨lead, rfl, rfl⟩

/-- No code point fits exactly if the next one is too long. -/
theorem truncate_nil_iff {line : Bytes} (hvalid : isValidUtf8 line = true) {lead : UInt8}
    (hlead : lead ∈ line.head?) (bound : Nat) : truncateToCodePoint line bound = [] ↔
    bound < leadLength lead := by
  cases line with
  | nil => cases hlead
  | cons first rest =>
    obtain rfl := Option.some.inj hlead
    have hlongest := truncateToCodePoint_longest hvalid bound
    obtain ⟨hpositive, hinside, hfirst, -⟩ := (isValidUtf8_cons first rest).mp hvalid
    constructor
    · intro hnone
      by_contra hroom
      rw [hnone] at hlongest
      have hlength : ((first :: rest).take (leadLength first)).length = leadLength first :=
        List.length_take_of_le hinside
      have hshort := (hlongest.longest _ (List.take_prefix _ _) hfirst (by omega)).length_le
      rw [hlength, List.length_nil] at hshort
      omega
    · intro hroom
      by_contra hsome
      have hlong := (prefix_cons hlongest.starts hlongest.valid hsome).1
      have hfits := hlongest.fits
      omega

theorem length_reopen_le {fence : Bytes} (h : fence = [] ∨ IsFence fence) :
    (reopen fence).length ≤ 65 := by
  rcases h with rfl | h
  · exact Nat.zero_le _
  · rw [reopen, if_neg h.ne, List.length_append]
    exact Nat.succ_le_succ h.short

theorem length_close_le (fence : Bytes) : (close fence).length ≤ 4 := by
  unfold close
  split
  · exact Nat.zero_le _
  · rw [List.length_cons, List.length_take]
    omega

theorem closed_bytes (h : s.part.closing = []) :
    s.closed.bytes = s.part.bytes ++ close s.fence := by
  rw [Part.bytes, Part.bytes, h, List.append_nil]
  rfl

theorem length_closed (h : s.part.closing = []) :
    s.closed.bytes.length ≤ s.part.bytes.length + 4 := by
  have hclose := length_close_le s.fence
  rw [closed_bytes h, List.length_append]
  omega

/-- A part never has more than its room when a fragment is cut for it. -/
theorem fits (hs : Sound t s) (hb : Bounded cap s) (hroomy : s.Roomy cap) (hline : s.line ≠ []) :
    s.part.bytes.length ≤ cap := by
  by_cases hbare : s.part.content = []
  · obtain ⟨lead, hlead, -⟩ := exists_head hline
    have hroom := hroomy hbare lead hlead
    rw [hs.bytes, hbare, List.append_nil]
    omega
  · exact hb.filled hbare

namespace Bounded

theorem start (cap : Nat) (t : Bytes) : Bounded cap (start t) :=
  ⟨fun h => absurd rfl h, Nat.zero_le _, fun _ h => (by cases h)⟩

theorem bytes_le (h : Bounded cap s) (hs : Sound t s) : s.part.bytes.length ≤ max cap 65 := by
  by_cases hbare : s.part.content = []
  · rw [hs.bytes, hbare, List.append_nil]
    exact le_trans h.opening (le_max_right _ _)
  · exact le_trans (h.filled hbare) (le_max_left _ _)

theorem flush (h : Bounded cap s) (hs : Sound t s) : Bounded cap s.flush where
  filled hfilled := absurd rfl hfilled
  opening := length_reopen_le hs.fence
  parts part hpart := by
    rcases List.mem_append.mp hpart with hpart | hpart
    · exact h.parts part hpart
    · rw [List.mem_singleton.mp hpart]
      have hlength := length_closed hs.closing
      have hbytes := h.bytes_le hs
      omega

theorem bytes_append (hs : Sound t s) (piece : Bytes) :
    (s.append piece).part.bytes = s.part.bytes ++ piece := by
  change s.part.opening ++ (s.part.content ++ piece) ++ s.part.closing = _
  rw [hs.bytes, hs.closing, List.append_nil, List.append_assoc]

/-- A fragment that is cut for the room fits. -/
theorem append (hfits : s.part.bytes.length ≤ cap) (hs : Sound t s)
    (hpiece : piece.length ≤ cap - s.part.bytes.length) :
    (s.append piece).part.bytes.length ≤ cap := by
  rw [bytes_append hs, List.length_append]
  omega

theorem round (h : Bounded cap s) (hs : Sound t s) (hvalid : isValidUtf8 s.line = true)
    (hcap : cap < 2 ^ 64) (hfits : s.line ≠ [] → s.part.bytes.length ≤ cap)
    (hround : Round cap s s') : Bounded cap s' := by
  cases hround with
  | take _ _ _ => exact ⟨h.filled, h.opening, h.parts⟩
  | turn _ _ _ _ =>
    have hflush := h.flush hs
    exact ⟨hflush.filled, hflush.opening, hflush.parts⟩
  | flush _ _ => exact h.flush hs
  | @cut piece rest hsplit _ hrest hpiece =>
    have hline : s.line ≠ [] := hsplit ▸ List.append_ne_nil_of_right_ne_nil _ hrest
    have hpart := hfits hline
    have hshort := (truncateToCodePoint_longest hvalid (s.room cap)).fits
    rw [hpiece, room_eq hcap hpart] at hshort
    have happend := append hpart hs hshort
    refine ⟨fun hfilled => absurd rfl hfilled, length_reopen_le hs.fence, fun part hpart => ?_⟩
    rcases List.mem_append.mp hpart with hpart | hpart
    · exact h.parts part hpart
    · rw [List.mem_singleton.mp hpart]
      have hlength : (s.append piece).closed.bytes.length ≤ _ := length_closed hs.closing
      omega
  | finish hline hpiece =>
    have hpart := hfits hline
    have hshort := (truncateToCodePoint_longest hvalid (s.room cap)).fits
    rw [hpiece, room_eq hcap hpart] at hshort
    exact ⟨fun _ => append hpart hs hshort, h.opening, h.parts⟩

end Bounded

/-- What a round takes away: bytes of the text, or else the part that could not take any. -/
def size (s : Splitter) : Nat :=
  4 * (s.line.length + s.text.length) + (if s.line = [] then 2 else 0) + (if s.part.content = []
    then 0 else 1)

theorem size_beginLine (hline : s.line = []) (htext : s.text ≠ []) : s.beginLine.size < s.size := by
  obtain ⟨rest, hsplit, hfirst, -, -⟩ := nextLine_spec htext
  have hlength := congrArg List.length hsplit
  have hne : s.beginLine.line ≠ [] := hfirst.ne
  have hnext : s.beginLine.line.length = (nextLine s.text).length := rfl
  have htail : s.beginLine.text.length = s.text.length - (nextLine s.text).length :=
    List.length_drop
  have hpart : s.beginLine.part = s.part := rfl
  rw [List.length_append] at hlength
  rw [size, size, hpart, hnext, htail, if_neg hne, hline, if_pos rfl, List.length_nil]
  omega

theorem size_flush_le (s : Splitter) : s.flush.size ≤ s.size := by
  have hbare : s.flush.part.content = [] := rfl
  have hline : s.flush.line = s.line := rfl
  have htext : s.flush.text = s.text := rfl
  rw [size, size, hline, htext, if_pos hbare]
  omega

theorem size_flush (hfilled : s.part.content ≠ []) : s.flush.size < s.size := by
  have hbare : s.flush.part.content = [] := rfl
  have hline : s.flush.line = s.line := rfl
  have htext : s.flush.text = s.text := rfl
  rw [size, size, hline, htext, if_pos hbare, if_neg hfilled]
  omega

theorem room_of_bare (hs : Sound t s) (hvalid : isValidUtf8 s.line = true) (hcap : cap < 2 ^ 64)
    (hroomy : s.Roomy cap) (hline : s.line ≠ []) (hbare : s.part.content = []) :
    truncateToCodePoint s.line (s.room cap) ≠ [] := by
  obtain ⟨lead, hlead, -⟩ := exists_head hline
  have hroom := hroomy hbare lead hlead
  have hbytes : s.part.bytes.length = s.part.opening.length := by
    rw [hs.bytes, hbare, List.append_nil]
  rw [ne_eq, truncate_nil_iff hvalid hlead, room_eq hcap (by omega)]
  omega

theorem size_round (hs : Sound t s) (hvalid : isValidUtf8 s.line = true) (hcap : cap < 2 ^ 64)
    (hroomy : s.Roomy cap)
    (hround : Round cap s s') : s'.size < s.size := by
  cases hround with
  | take hline htext _ => exact size_beginLine hline htext
  | turn hline htext _ _ =>
    have hbegin : s.flush.beginLine.size < s.flush.size := size_beginLine hline htext
    exact lt_of_lt_of_le hbegin (size_flush_le s)
  | flush hline hnone =>
      exact size_flush fun hbare => room_of_bare hs hvalid hcap hroomy hline hbare hnone
  | @cut piece rest hsplit hne hrest _ =>
    have hpositive := List.length_pos_iff.mpr hne
    have hlength := congrArg List.length hsplit
    have hline : s.line ≠ [] := hsplit ▸ List.append_ne_nil_of_right_ne_nil _ hrest
    have hnext : (s.append piece).flush.line = rest := append_line hsplit
    have htext : (s.append piece).flush.text = s.text := rfl
    have hbare : (s.append piece).flush.part.content = [] := rfl
    rw [List.length_append] at hlength
    rw [size, size, hnext, htext, if_pos hbare, if_neg hrest, if_neg hline]
    omega
  | finish hline _ =>
    have hpositive := List.length_pos_iff.mpr hline
    have hnext : (s.append s.line).endLine.line = [] := append_line (List.append_nil s.line).symm
    have htext : (s.append s.line).endLine.text = s.text := rfl
    rw [size, size, hnext, htext, if_pos rfl, if_neg hline, List.length_nil]
    split_ifs <;> omega

/-- No room is computed that would be negative. -/
def NoWrap (cap : Nat) (t : Bytes) : Prop :=
  ∀ s, Reaches (step cap) (start t) s → s.line ≠ [] → s.part.bytes.length ≤ cap

theorem bounded_reaches (ht : isValidUtf8 t = true) (hcap : cap < 2 ^ 64) (hwrap : NoWrap cap t)
    (h : Reaches (step cap) (start t) s) : Bounded cap s := by
  have hround (a b : Splitter) (ha : Reaches (step cap) (start t) a ∧
    Bounded cap a) (hstep : a.step cap = some b) :
      Reaches (step cap) (start t) b ∧ Bounded cap b := by
    refine ⟨ha.1.tail hstep, ?_⟩
    exact ha.2.round (sound_reaches ha.1) (texts_reaches ht ha.1).line hcap (hwrap a ha.1)
      (step_round hstep)
  exact (reaches_invariant hround h ⟨.refl, .start cap t⟩).2

/-- With room in each part that is opened again, there is always enough. -/
theorem noWrap_of_roomy (ht : isValidUtf8 t = true) (hcap : cap < 2 ^ 64)
    (hroomy : ∀ s, Reaches (step cap) (start t) s → s.Roomy cap) : NoWrap cap t := by
  have hround (a b : Splitter) (ha : Reaches (step cap) (start t) a ∧
    Bounded cap a) (hstep : a.step cap = some b) :
      Reaches (step cap) (start t) b ∧ Bounded cap b := by
    refine ⟨ha.1.tail hstep, ?_⟩
    exact ha.2.round (sound_reaches ha.1) (texts_reaches ht ha.1).line hcap
      (fits (sound_reaches ha.1) ha.2 (hroomy a ha.1))
      (step_round hstep)
  intro s hs
  exact fits (sound_reaches hs) (reaches_invariant hround hs ⟨.refl, .start cap t⟩).2 (hroomy s hs)

theorem stops_of_roomy (ht : isValidUtf8 t = true) (hcap : cap < 2 ^ 64)
    (hroomy : ∀ s, Reaches (step cap) (start t) s → s.Roomy cap) : ∃ last,
      last ∈ eval (step cap) (start t) := by
  refine exists_mem_eval (I := Reaches (step cap) (start t)) size
    (fun _ _ hs hstep => hs.tail hstep) (fun a b ha hstep => ?_) .refl
  exact size_round (sound_reaches ha) (texts_reaches ht ha).line hcap (hroomy a ha)
    (step_round hstep)

/-- A part without room is ended and opened again the same way, without end. -/
theorem not_stops (hs : Sound t s) (hline : s.line ≠ []) (hbare : s.part.content = [])
    (hnone : truncateToCodePoint s.line (s.room cap) = []) (last : Splitter) :
      last ∉ eval (step cap) s := by
  refine not_mem_eval (I := fun a => Sound t a ∧ a.line ≠ [] ∧ a.part.content = [] ∧
    truncateToCodePoint a.line (a.room cap) = [])
    ?_ ⟨hs, hline, hbare, hnone⟩
  rintro a ⟨ha, haline, habare, hanone⟩
  refine ⟨a.flush, ?_, ha.flush (.inl haline), haline, rfl, ?_⟩
  · rw [step, if_pos haline, appendFragment]
    dsimp only
    rw [if_pos hanone]
  · have hroom : a.flush.room cap = a.room cap := by
      rw [room, room, ha.bare_bytes habare]
      change (cap + 2 ^ 64 - (reopen a.fence ++ [] ++ []).length) % 2 ^ 64 = _
      rw [List.append_nil, List.append_nil]
    rw [hroom]
    exact hanone

theorem roomy_of_stops (ht : isValidUtf8 t = true) (hcap : cap < 2 ^ 64) {last : Splitter}
    (hlast : last ∈ eval (step cap) (start t)) (hwrap : NoWrap cap t)
    (h : Reaches (step cap) (start t) s) : s.Roomy cap := by
  intro hbare lead hlead
  by_contra hfull
  have hs := sound_reaches h
  have hline : s.line ≠ [] := by
    rintro hnone
    rw [hnone] at hlead
    cases hlead
  have hfits := hwrap s h hline
  refine not_stops hs hline hbare ?_ last (mem_eval_of_reaches h hlast)
  rw [truncate_nil_iff (texts_reaches ht h).line hlead, room_eq hcap hfits]
  rw [hs.bytes, hbare, List.append_nil] at hfits ⊢
  omega

end Splitter

end Orangutan.Qq
