import Orangutan.Channel.Protocol
import Orangutan.Lib.Intervals

/-!
# Formatting entities

A text goes to Telegram with ranges of UTF-16 units. The ranges are clipped to the text, cut around
code and sorted; a long text is split, and each part gets its share of every range.
-/

namespace Orangutan.Telegram

set_option autoImplicit false

open Orangutan.Core Orangutan.Core.Str Orangutan.Lib

/-- The units that begin at a byte. -/
def unitsAt (b : UInt8) : Nat := if b < 0x80 ∨ 0xC0 ≤ b then (if 0xF0 ≤ b then 2 else 1) else 0

def utf16Size (t : Bytes) : Nat := (t.map unitsAt).sum

theorem utf16Size_append (t u : Bytes) : utf16Size (t ++ u) = utf16Size t + utf16Size u := by
  rw [utf16Size, List.map_append, List.sum_append]
  rfl

theorem unitsAt_nat (b : UInt8) :
    unitsAt b = if b.toNat < 128 then 1 else if b.toNat < 192 then 0 else if b.toNat < 240 then 1
      else 2 := by
  simp only [unitsAt, UInt8.lt_iff_toNat_lt, UInt8.le_iff_toNat_le]
  have h₁ : (0x80 : UInt8).toNat = 128 := rfl
  have h₂ : (0xC0 : UInt8).toNat = 192 := rfl
  have h₃ : (0xF0 : UInt8).toNat = 240 := rfl
  rw [h₁, h₂, h₃]
  split_ifs <;> omega

theorem unitsAt_ofNat {n : Nat} (h : n < 256) :
    unitsAt (UInt8.ofNat n) = if n < 128 then 1 else if n < 192 then 0 else if n < 240 then 1
      else 2 := by
  rw [unitsAt_nat, toNat_ofNat h]

/-- A scalar value takes a surrogate pair from U+10000 on. -/
def utf16Units (c : Char) : Nat := if c.val.toNat < 0x10000 then 1 else 2

theorem unitsAt_tail (n : Nat) : unitsAt (UInt8.ofNat (n % 64 + 128)) = 0 := by
  rw [unitsAt_ofNat (by omega), if_neg (by omega), if_pos (by omega)]

theorem utf16Size_encodeChar (c : Char) : utf16Size (String.utf8EncodeChar c) = utf16Units c := by
  have hscalar := char_ranges c
  unfold String.utf8EncodeChar utf16Units
  generalize c.val.toNat = v at hscalar
  dsimp only
  split
  · next h =>
    rw [if_pos (by omega), utf16Size, List.map_singleton, List.sum_singleton,
      unitsAt_ofNat (by omega), if_pos (by omega)]
  · next h =>
    split
    · next h =>
      rw [if_pos (by omega), utf16Size, List.map_cons, List.map_singleton, List.sum_cons,
        List.sum_singleton, unitsAt_tail, unitsAt_ofNat (by omega), if_neg (by omega),
        if_neg (by omega), if_pos (by omega)]
    · next h =>
      split
      · next h =>
        rw [if_pos (by omega), utf16Size, List.map_cons, List.map_cons, List.map_singleton,
          List.sum_cons, List.sum_cons, List.sum_singleton, unitsAt_tail, unitsAt_tail,
          unitsAt_ofNat (by omega), if_neg (by omega), if_neg (by omega), if_pos (by omega)]
      · next h =>
        rw [if_neg (by omega), utf16Size, List.map_cons, List.map_cons, List.map_cons,
          List.map_singleton, List.sum_cons, List.sum_cons, List.sum_cons, List.sum_singleton,
          unitsAt_tail, unitsAt_tail, unitsAt_tail, unitsAt_ofNat (by omega), if_neg (by omega),
          if_neg (by omega), if_neg (by omega)]

theorem utf16Size_encode (s : List Char) : utf16Size (encode s) = (s.map utf16Units).sum := by
  induction s with
  | nil => rfl
  | cons c s ih =>
    have hsplit : encode (c :: s) = String.utf8EncodeChar c ++ encode s := rfl
    rw [hsplit, utf16Size_append, utf16Size_encodeChar, ih, List.map_cons, List.sum_cons]

theorem utf16Size_pos {t : Bytes} (ht : isValidUtf8 t = true) (hne : t ≠ []) : 0 < utf16Size t := by
  obtain ⟨s, rfl⟩ := exists_encode ht
  rw [utf16Size_encode]
  cases s with
  | nil => exact absurd rfl hne
  | cons c s =>
    have hunits : 0 < utf16Units c := by
      unfold utf16Units
      split <;> decide
    rw [List.map_cons, List.sum_cons]
    omega

/-- The type of an entity with its attributes. -/
structure Style where
  type : Bytes
  attributes : List (Bytes × Bytes) := []
  deriving DecidableEq

/-- A range of the text in UTF-16 units. Its end is a `size_t` too, which `format_markdown` sees to.
-/
structure Entity where
  style : Style
  offset : Nat
  length : Nat
  sized : offset + length < 2 ^ 64 := by decide
  deriving DecidableEq

structure FormattedText where
  text : Bytes
  entities : List Entity

namespace Entity

def range (e : Entity) : Interval := ⟨e.offset, e.offset + e.length⟩

def isCode (e : Entity) : Bool := e.style.type = text "code" || e.style.type = text "pre"

/-- The entity on a piece of its range. -/
def part (e : Entity) (r : Interval) (h : r.start ≤ r.stop ∧ r.stop ≤ e.offset + e.length) :
    Entity where
  style := e.style
  offset := r.start
  length := r.stop - r.start
  sized := by
    have := e.sized
    omega

/-- What remains of the range in the text. -/
def ranges (textEnd : Nat) (code : List Interval) (e : Entity) : List Interval :=
  let stop := min textEnd (e.offset + e.length)
  if e.isCode then Interval.emit e.offset stop
  else Interval.cut stop e.offset (code.drop (Interval.lowerBound code e.offset))

theorem mem_ranges {textEnd : Nat} {code : List Interval} {e : Entity} {r : Interval}
    (h : r ∈ e.ranges textEnd code) :
    r.start < r.stop ∧ e.offset ≤ r.start ∧ r.stop ≤ min textEnd (e.offset + e.length) := by
  unfold ranges at h
  dsimp only at h
  split at h
  · obtain ⟨rfl, hlt⟩ := Interval.mem_emit h
    exact ⟨hlt, Nat.le_refl _, Nat.le_refl _⟩
  · exact Interval.mem_cut h

/-- What remains of the entity in the text. -/
def pieces (textEnd : Nat) (code : List Interval) (e : Entity) : List Entity :=
  (e.ranges textEnd code).pmap e.part fun _ hr =>
    ⟨(mem_ranges hr).1.le, (mem_ranges hr).2.2.trans (Nat.min_le_right _ _)⟩

/-- The order of the result: by offset, then the longer one first. -/
def less (a b : Entity) : Bool := if a.offset = b.offset then b.length < a.length
    else a.offset < b.offset

end Entity

/-- The code and preformatted ranges, by their starts. -/
def codeRanges (entities : List Entity) : List Interval :=
  ((entities.filter (·.isCode)).map (·.range)).mergeSort (·.start ≤ ·.start)

def normalizeEntities (formatted : FormattedText) : FormattedText :=
  let textEnd := utf16Size formatted.text
  let code := codeRanges formatted.entities
  { formatted with
    entities := (formatted.entities.flatMap (Entity.pieces textEnd code)).mergeSort fun a b =>
    !b.less a }

/-- The share of an entity in a part. -/
def clip (offset stop : Nat) (e : Entity) : Option Entity :=
  if h : e.offset < stop ∧ offset < e.offset + e.length then
    some { e with
      offset := max e.offset offset - offset
      length := min (e.offset + e.length) stop - max e.offset offset
      sized := by
        have := e.sized
        omega }
  else none

def placeParts (entities : List Entity) : Nat → List Bytes → List FormattedText
  | _, [] => []
  | offset, part :: rest =>
    let stop := offset + utf16Size part
    { text := part, entities := entities.filterMap (clip offset stop) } ::
      placeParts entities stop rest

def splitFormatted (formatted : FormattedText) (maxBytes : Nat) : Result (List FormattedText) := do
  let parts ← Channel.splitText formatted.text maxBytes
  .ok (placeParts formatted.entities 0 parts)

/-- The styles of the entities that cover a position. -/
def stylesAt (entities : List Entity) (p : Nat) : List Style :=
    (entities.filter (·.range.has p)).map (·.style)

/-- Two code ranges do not meet; an empty one is neither inside another nor at its start. -/
def Separate (a b : Interval) : Prop :=
  a.start < b.start ∧ a.stop ≤ b.start ∨ b.start < a.start ∧ b.stop ≤ a.start ∨
    a.start = b.start ∧ a.stop = a.start ∧ b.stop = b.start

theorem separate_symm {a b : Interval} (h : Separate a b) : Separate b a := by
  unfold Separate at h ⊢
  omega

/-- The code and preformatted ranges are pairwise separate. -/
def CodeSeparate (entities : List Entity) : Prop :=
    ((entities.filter (·.isCode)).map (·.range)).Pairwise Separate

section Ranges

variable {entities : List Entity} {e c : Entity} {textEnd p : Nat} {code : List Interval}
  {r : Interval}

theorem mem_codeRanges : r ∈ codeRanges entities ↔ ∃ e ∈ entities, e.isCode = true ∧
    e.range = r := by
  rw [codeRanges, List.mem_mergeSort, List.mem_map]
  exact ⟨fun ⟨e, he, hr⟩ => ⟨e, (List.mem_filter.mp he).1, (List.mem_filter.mp he).2, hr⟩,
    fun ⟨e, he, hcode, hr⟩ => ⟨e, List.mem_filter.mpr ⟨he, hcode⟩, hr⟩⟩

theorem codeRanges_le (hr : r ∈ codeRanges entities) : r.start ≤ r.stop := by
  obtain ⟨e, -, -, rfl⟩ := mem_codeRanges.mp hr
  exact Nat.le_add_right _ _

theorem codeRanges_starts (entities : List Entity) :
    (codeRanges entities).Pairwise (·.start ≤ ·.start) := by
  refine (List.pairwise_mergeSort (fun a b c hab hbc => ?_) (fun a b => ?_) _).imp fun h =>
    of_decide_eq_true h
  · exact decide_eq_true ((of_decide_eq_true hab).trans (of_decide_eq_true hbc))
  · rw [Bool.or_eq_true, decide_eq_true_eq, decide_eq_true_eq]
    exact Nat.le_total _ _

/-- By their starts, the ranges are sorted by their ends. -/
theorem codeRanges_stops (h : CodeSeparate entities) :
    (codeRanges entities).Pairwise (·.stop ≤ ·.stop) := by
  have hseparate : (codeRanges entities).Pairwise Separate :=
    (List.mergeSort_perm _ _).symm.pairwise h fun h => separate_symm h
  refine ((codeRanges_starts entities).and hseparate).imp_of_mem fun {a b} ha hb hab => ?_
  have hle := codeRanges_le hb
  obtain ⟨hstart, hab⟩ := hab
  unfold Separate at hab
  omega

theorem part_range (e : Entity) (h : r.start ≤ r.stop ∧ r.stop ≤ e.offset + e.length) :
    (e.part r h).range = r := by
  unfold Entity.range Entity.part
  dsimp only
  rw [Nat.add_sub_cancel' h.1]

theorem stylesAt_parts {ranges : List Interval}
    (h : ∀ r ∈ ranges, r.start ≤ r.stop ∧ r.stop ≤ e.offset + e.length) :
    stylesAt (ranges.pmap e.part h) p = List.replicate (ranges.countP (·.has p)) e.style := by
  induction ranges with
  | nil => rfl
  | cons r ranges ih =>
    have ih := ih fun r hr => h r (List.mem_cons_of_mem _ hr)
    unfold stylesAt at ih ⊢
    rw [List.pmap_cons, List.filter_cons, part_range e, List.countP_cons]
    split
    · rw [List.map_cons, ih, List.replicate_succ]
      rfl
    · rw [ih, Nat.add_zero]

/-- The pieces of an entity cover what it covered of the text, outside the code. -/
theorem stylesAt_pieces (hseparate : CodeSeparate entities) (hp : p < textEnd) :
    stylesAt (e.pieces textEnd (codeRanges entities)) p =
      if e.range.has p = true ∧ (e.isCode = true ∨ ∀ r ∈ codeRanges entities, r.has p = false)
        then [e.style] else [] := by
  have hrange : e.range.has p = true ↔ e.offset ≤ p ∧ p < e.offset + e.length := Interval.has_iff
  rw [Entity.pieces, stylesAt_parts, Entity.ranges]
  by_cases hcode : e.isCode = true
  · rw [if_pos hcode, Interval.countP_emit]
    by_cases hcovered : e.range.has p = true
    · have hin := hrange.mp hcovered
      rw [if_pos (by omega), if_pos ⟨hcovered, .inl hcode⟩]
      rfl
    · rw [if_neg (fun h => hcovered (hrange.mpr (by omega))), if_neg (fun h => hcovered h.1)]
      rfl
  · rw [if_neg hcode,
      Interval.countP_cut_lowerBound (codeRanges_starts entities) (codeRanges_stops hseparate)
        fun r hr => codeRanges_le hr]
    by_cases hcovered : e.range.has p = true ∧ ∀ r ∈ codeRanges entities, r.has p = false
    · have hin := hrange.mp hcovered.1
      rw [if_pos ⟨hin.1, by omega, hcovered.2⟩, if_pos ⟨hcovered.1, .inr hcovered.2⟩]
      rfl
    · rw [if_neg (fun h => hcovered ⟨hrange.mpr (by omega), h.2.2⟩),
        if_neg (fun h => hcovered ⟨h.1, h.2.resolve_left hcode⟩)]
      rfl

theorem mem_pieces {q : Entity} (hq : q ∈ e.pieces textEnd code) :
    q.style = e.style ∧ 0 < q.length ∧ e.offset ≤ q.offset ∧
      q.offset + q.length ≤ min textEnd (e.offset + e.length) := by
  obtain ⟨r, hr, rfl⟩ := List.mem_pmap.mp hq
  have hin := Entity.mem_ranges hr
  unfold Entity.part
  dsimp only
  exact ⟨rfl, by omega, hin.2.1, by omega⟩

end Ranges

/-- What is sent: each range lies in the text, code stands alone, and every other position keeps its
styles. -/
structure Normalized (before after : FormattedText) : Prop where
  text : after.text = before.text
  bounds : ∀ e ∈ after.entities, 0 < e.length ∧ e.offset + e.length ≤ utf16Size before.text
  apart : ∀ e ∈ after.entities, ∀ c ∈ after.entities, e.isCode = false → c.isCode = true →
    ∀ p, ¬ (e.range.has p = true ∧ c.range.has p = true)
  outside : ∀ p < utf16Size before.text,
    (∀ c ∈ before.entities, c.isCode = true → c.range.has p = false) →
    (stylesAt after.entities p).Perm (stylesAt before.entities p)
  inside : ∀ p < utf16Size before.text, ∀ c ∈ before.entities, c.isCode = true →
    c.range.has p = true →
    stylesAt after.entities p = [c.style]
  sorted : after.entities.Pairwise fun a b => a.offset < b.offset ∨ a.offset = b.offset ∧
    b.length ≤ a.length

section Normalize

variable {formatted : FormattedText} {e c : Entity} {p : Nat}

theorem mem_normalizeEntities :
    e ∈ (normalizeEntities formatted).entities ↔
      ∃ origin ∈ formatted.entities,
        e ∈ origin.pieces (utf16Size formatted.text) (codeRanges formatted.entities) := by
  unfold normalizeEntities
  dsimp only
  rw [List.mem_mergeSort, List.mem_flatMap]

/-- A list of at most one style for each entity. -/
theorem flatMap_styles (entities : List Entity) (keep : Entity → Bool) :
    (entities.flatMap fun e => if keep e = true then [e.style] else []) =
      (entities.filter keep).map (·.style) := by
  induction entities with
  | nil => rfl
  | cons e entities ih =>
    rw [List.flatMap_cons, ih, List.filter_cons]
    split <;> rfl

theorem stylesAt_normalizeEntities (hseparate : CodeSeparate formatted.entities)
    (hp : p < utf16Size formatted.text) :
    (stylesAt (normalizeEntities formatted).entities p).Perm ((formatted.entities.filter fun e =>
      e.range.has p && (e.isCode || (codeRanges formatted.entities).all fun r => !r.has p)).map
        (·.style)) := by
  have hpieces : stylesAt (formatted.entities.flatMap
      (Entity.pieces (utf16Size formatted.text) (codeRanges formatted.entities))) p =
      (formatted.entities.filter fun e =>
        e.range.has p && (e.isCode || (codeRanges formatted.entities).all fun r => !r.has p)).map
          (·.style) := by
    rw [← flatMap_styles, stylesAt, List.filter_flatMap, List.map_flatMap]
    refine List.flatMap_congr fun e _ => ?_
    have hpiece := stylesAt_pieces (e := e) hseparate hp
    unfold stylesAt at hpiece
    rw [hpiece]
    refine if_congr ?_ rfl rfl
    simp only [Bool.and_eq_true, Bool.or_eq_true, List.all_eq_true, Bool.not_eq_true']
  rw [← hpieces]
  exact ((List.mergeSort_perm _ _).filter _).map _

theorem outside_normalizeEntities (hseparate : CodeSeparate formatted.entities)
    (hp : p < utf16Size formatted.text) (hout : ∀ c ∈ formatted.entities, c.isCode = true →
    c.range.has p = false) :
    (stylesAt (normalizeEntities formatted).entities p).Perm (stylesAt formatted.entities p) := by
  have hall : (codeRanges formatted.entities).all (fun r => !r.has p) = true := by
    rw [List.all_eq_true]
    intro r hr
    obtain ⟨c, hc, hcode, rfl⟩ := mem_codeRanges.mp hr
    rw [hout c hc hcode]
    rfl
  have hperm := stylesAt_normalizeEntities hseparate hp
  simp only [hall, Bool.or_true, Bool.and_true] at hperm
  exact hperm

/-- Of the separate ranges one covers the position. -/
theorem filter_covering {entities : List Entity}
    (hseparate : (entities.map (·.range)).Pairwise Separate) (hc : c ∈ entities)
    (hcovers : c.range.has p = true) : entities.filter (·.range.has p) = [c] := by
  have hapart : ∀ {a b : Entity}, Separate a.range b.range → a.range.has p = true →
      b.range.has p = false := by
    intro a b hab ha
    rw [Interval.has_iff] at ha
    rw [Interval.has_eq_false]
    unfold Separate at hab
    omega
  induction entities with
  | nil => cases hc
  | cons e entities ih =>
    obtain ⟨hfirst, hrest⟩ := List.pairwise_cons.mp hseparate
    rcases List.mem_cons.mp hc with rfl | hc
    · rw [List.filter_cons, if_pos hcovers, List.filter_eq_nil_iff.mpr]
      intro d hd hcovered
      rw [hapart (hfirst d.range (List.mem_map_of_mem hd)) hcovers] at hcovered
      cases hcovered
    · have hnot := hapart (separate_symm (hfirst c.range (List.mem_map_of_mem hc))) hcovers
      rw [List.filter_cons, hnot, if_neg (by decide)]
      exact ih hrest hc

theorem inside_normalizeEntities (hseparate : CodeSeparate formatted.entities)
    (hp : p < utf16Size formatted.text) (hc : c ∈ formatted.entities) (hcode : c.isCode = true)
    (hcovers : c.range.has p = true) :
    stylesAt (normalizeEntities formatted).entities p = [c.style] := by
  have hall : (codeRanges formatted.entities).all (fun r => !r.has p) = false := by
    rw [List.all_eq_false]
    exact ⟨c.range, mem_codeRanges.mpr ⟨c, hc, hcode, rfl⟩, by rw [hcovers]; decide⟩
  have hperm := stylesAt_normalizeEntities hseparate hp
  simp only [hall, Bool.or_false] at hperm
  rw [← List.filter_filter,
    filter_covering hseparate (List.mem_filter.mpr ⟨hc, hcode⟩) hcovers] at hperm
  exact List.perm_singleton.mp hperm

theorem apart_normalizeEntities (hseparate : CodeSeparate formatted.entities)
    (he : e ∈ (normalizeEntities formatted).entities)
    (hc : c ∈ (normalizeEntities formatted).entities) (hplain : e.isCode = false)
    (hcode : c.isCode = true) :
    ¬ (e.range.has p = true ∧ c.range.has p = true) := by
  rintro ⟨hep, hcp⟩
  obtain ⟨origin, horigin, hpiece⟩ := mem_normalizeEntities.mp hc
  obtain ⟨hstyle, -, hoffset, hstop⟩ := mem_pieces hpiece
  have hin := Interval.has_iff.mp hcp
  unfold Entity.range at hin
  dsimp only at hin
  have hcovers : origin.range.has p = true :=
    Interval.has_iff.mpr (by unfold Entity.range; dsimp only; omega)
  have hcodeOrigin : origin.isCode = true := by
    unfold Entity.isCode at hcode ⊢
    rwa [hstyle] at hcode
  have hstyles := inside_normalizeEntities hseparate (by omega) horigin hcodeOrigin hcovers
  have hmem : e.style ∈ stylesAt (normalizeEntities formatted).entities p :=
    List.mem_map_of_mem (List.mem_filter.mpr ⟨he, hep⟩)
  rw [hstyles, List.mem_singleton] at hmem
  have hsame : e.isCode = origin.isCode := by
    unfold Entity.isCode
    rw [hmem]
  rw [hplain, hcodeOrigin] at hsame
  cases hsame

theorem sorted_normalizeEntities (formatted : FormattedText) :
    (normalizeEntities formatted).entities.Pairwise fun a b => a.offset < b.offset ∨
      a.offset = b.offset ∧ b.length ≤ a.length := by
  have hless : ∀ a b : Entity, (!b.less a) = true ↔ a.offset < b.offset ∨ a.offset = b.offset ∧
      b.length ≤ a.length := by
    intro a b
    rw [Bool.not_eq_true', Entity.less]
    split
    · rw [decide_eq_false_iff_not]
      omega
    · rw [decide_eq_false_iff_not]
      omega
  unfold normalizeEntities
  refine (List.pairwise_mergeSort (fun a b c hab hbc => ?_) (fun a b => ?_) _).imp fun h =>
    (hless _ _).mp h
  · rw [hless] at hab hbc ⊢
    omega
  · rw [Bool.or_eq_true, hless, hless]
    omega

theorem normalized (hseparate : CodeSeparate formatted.entities) :
    Normalized formatted (normalizeEntities formatted) where
  text := rfl
  bounds := fun e he => by
    obtain ⟨origin, -, hpiece⟩ := mem_normalizeEntities.mp he
    obtain ⟨-, hpos, -, hstop⟩ := mem_pieces hpiece
    exact ⟨hpos, by omega⟩
  apart := fun e he c hc hplain hcode p => apart_normalizeEntities hseparate he hc hplain hcode
  outside := fun p hp hout => outside_normalizeEntities hseparate hp hout
  inside := fun p hp c hc hcode hcovers => inside_normalizeEntities hseparate hp hc hcode hcovers
  sorted := sorted_normalizeEntities formatted

end Normalize

/-- The parts of a text with its entities: they are the text, and each position keeps its styles. -/
structure Split (whole : FormattedText) (parts : List FormattedText) : Prop where
  texts : (parts.map (·.text)).flatten = whole.text
  bounds : ∀ part ∈ parts, ∀ e ∈ part.entities, 0 < e.length ∧
    e.offset + e.length ≤ utf16Size part.text
  styles : ∀ (before : List FormattedText) (part : FormattedText) (after : List FormattedText),
    parts = before ++ part :: after → ∀ p < utf16Size part.text,
    stylesAt part.entities p = stylesAt whole.entities (utf16Size (before.map (·.text)).flatten + p)

section Parts

variable {entities : List Entity} {offset stop p : Nat} {e q : Entity} {texts : List Bytes}
  {part : FormattedText}

theorem clip_some (hclip : clip offset stop e = some q) (hpos : 0 < e.length)
    (hin : offset < stop) :
    q.style = e.style ∧ 0 < q.length ∧ q.offset + q.length ≤ stop - offset ∧
      ∀ p < stop - offset, q.range.has p = e.range.has (offset + p) := by
  unfold clip at hclip
  split at hclip
  · next hmeets =>
    obtain rfl := Option.some.inj hclip
    refine ⟨rfl, ?_, ?_, fun p hp => ?_⟩
    · change 0 < min (e.offset + e.length) stop - max e.offset offset
      omega
    · change max e.offset offset - offset + (min (e.offset + e.length) stop - max e.offset offset) ≤
        stop - offset
      omega
    · rw [Bool.eq_iff_iff, Interval.has_iff, Interval.has_iff]
      change max e.offset offset - offset ≤ p ∧
        p < max e.offset offset - offset + (min (e.offset + e.length) stop - max e.offset offset) ↔
        e.offset ≤ offset + p ∧ offset + p < e.offset + e.length
      omega
  · cases hclip

theorem clip_none (hclip : clip offset stop e = none) (hp : p < stop - offset) :
    e.range.has (offset + p) = false := by
  unfold clip at hclip
  split at hclip
  · cases hclip
  · next hmeets =>
    rw [Interval.has_eq_false]
    unfold Entity.range
    dsimp only
    omega

theorem stylesAt_clip (hpos : ∀ e ∈ entities, 0 < e.length) (hp : p < stop - offset) :
    stylesAt (entities.filterMap (clip offset stop)) p = stylesAt entities (offset + p) := by
  induction entities with
  | nil => rfl
  | cons e entities ih =>
    have ih := ih fun e he => hpos e (List.mem_cons_of_mem _ he)
    unfold stylesAt at ih ⊢
    cases hclip : clip offset stop e with
    | none => rw [List.filterMap_cons_none hclip, ih,
        List.filter_cons_of_neg (by rw [clip_none hclip hp]; decide)]
    | some q =>
      obtain ⟨hstyle, -, -, hhas⟩ := clip_some hclip (hpos e List.mem_cons_self) (by omega)
      rw [List.filterMap_cons_some hclip, List.filter_cons, List.filter_cons, hhas p hp]
      split
      · rw [List.map_cons, List.map_cons, ih, hstyle]
      · exact ih

theorem placeParts_texts : (placeParts entities offset texts).map (·.text) = texts := by
  induction texts generalizing offset with
  | nil => rfl
  | cons t texts ih => rw [placeParts, List.map_cons, ih]

theorem placeParts_bounds (hpos : ∀ e ∈ entities, 0 < e.length)
    (htexts : ∀ t ∈ texts, 0 < utf16Size t) (hpart : part ∈ placeParts entities offset texts)
    (he : e ∈ part.entities) : 0 < e.length ∧ e.offset + e.length ≤ utf16Size part.text := by
  induction texts generalizing offset with
  | nil => cases hpart
  | cons t texts ih =>
    rw [placeParts] at hpart
    rcases List.mem_cons.mp hpart with rfl | hpart
    · obtain ⟨origin, horigin, hclip⟩ := List.mem_filterMap.mp he
      obtain ⟨-, hlength, hstop, -⟩ :=
        clip_some hclip (hpos origin horigin)
        (Nat.lt_add_of_pos_right (htexts t List.mem_cons_self))
      exact ⟨hlength, by dsimp only; omega⟩
    · exact ih (fun t ht => htexts t (List.mem_cons_of_mem _ ht)) hpart

theorem placeParts_styles (hpos : ∀ e ∈ entities, 0 < e.length) {before after : List FormattedText}
    (hsplit : placeParts entities offset texts = before ++ part :: after)
      (hp : p < utf16Size part.text) :
    stylesAt part.entities p =
      stylesAt entities (offset + utf16Size (before.map (·.text)).flatten + p) := by
  induction texts generalizing offset before with
  | nil =>
    rw [placeParts] at hsplit
    exact absurd hsplit.symm (List.append_ne_nil_of_right_ne_nil _ (List.cons_ne_nil _ _))
  | cons t texts ih =>
    rw [placeParts] at hsplit
    cases before with
    | nil =>
      obtain ⟨rfl, -⟩ := List.cons.inj hsplit
      exact stylesAt_clip hpos (by dsimp only at hp; omega)
    | cons first before =>
      obtain ⟨rfl, htail⟩ := List.cons.inj hsplit
      rw [ih htail, List.map_cons, List.flatten_cons, utf16Size_append, Nat.add_assoc offset]

/-- A text whose entities are not empty is split with its styles. -/
theorem split_splitFormatted {whole : FormattedText} {maxBytes : Nat}
    (htext : isValidUtf8 whole.text = true) (hpos : ∀ e ∈ whole.entities, 0 < e.length)
    (hlimit : 4 ≤ maxBytes) :
    ∃ parts, splitFormatted whole maxBytes = .ok parts ∧ Split whole parts := by
  have hparts := Channel.parts_splitLoop htext hlimit (Nat.le_refl _)
  refine ⟨placeParts whole.entities 0 (Channel.splitLoop maxBytes whole.text.length whole.text), ?_,
    ?_, ?_, ?_⟩
  · unfold splitFormatted
    rw [Channel.splitText_eq htext hlimit, ok_bind]
  · rw [placeParts_texts]
    exact hparts.flatten
  · refine fun part hpart e he => placeParts_bounds hpos (fun t ht => ?_) hpart he
    obtain ⟨hne, hvalid, -⟩ := hparts.mem ht
    exact utf16Size_pos hvalid hne
  · intro before part after hsplit p hp
    rw [placeParts_styles hpos hsplit hp, Nat.zero_add]

end Parts

/-- Texts are measured in UTF-16, their entities are normalized, and the parts of a split carry the
same styles. -/
theorem formatting_entities {formatted : FormattedText} (htext : isValidUtf8 formatted.text = true)
    (hseparate : CodeSeparate formatted.entities) :
    (∃ s, encode s = formatted.text ∧ utf16Size formatted.text = (s.map utf16Units).sum) ∧
    Normalized formatted (normalizeEntities formatted) ∧
    ∀ maxBytes, 4 ≤ maxBytes →
      (∃ parts, splitFormatted (normalizeEntities formatted) maxBytes = .ok parts ∧
        Split (normalizeEntities formatted) parts) ∧
      ∀ entities, (∀ e ∈ entities, 0 < e.length) →
        ∃ parts, splitFormatted { formatted with entities } maxBytes = .ok parts ∧
          Split { formatted with entities } parts := by
  obtain ⟨s, hs⟩ := exists_encode htext
  have hnormalized := normalized hseparate
  refine ⟨⟨s, hs, by rw [← hs, utf16Size_encode]⟩, hnormalized,
    fun maxBytes hlimit => ⟨?_, fun entities hpos => ?_⟩⟩
  · exact split_splitFormatted htext (fun e he => (hnormalized.bounds e he).1) hlimit
  · exact split_splitFormatted htext hpos hlimit

/-- Bold text around a word of code. -/
def quotedText : FormattedText :=
  { text := text "a code b"
    entities := [{ style := { type := text "bold" }, offset := 0, length := 8 },
      { style := { type := text "code" }, offset := 2, length := 4 }] }

theorem formatting_entities_quoted :
    Normalized quotedText (normalizeEntities quotedText) ∧
    ∃ parts, splitFormatted (normalizeEntities quotedText) 4 = .ok parts ∧
      Split (normalizeEntities quotedText) parts := by
  have hentities := @formatting_entities quotedText (by decide +kernel)
    (List.pairwise_singleton _ _)
  exact ⟨hentities.2.1, (hentities.2.2 4 (Nat.le_refl 4)).1⟩

/-- An empty range inside another one, which the search trips over. -/
def nestedText : FormattedText :=
  { text := text "aaaaaaaa"
    entities := [{ style := { type := text "code" }, offset := 1, length := 4 },
      { style := { type := text "code" }, offset := 3, length := 0 },
      { style := { type := text "bold" }, offset := 4, length := 3 }] }

/-- No position is in two code ranges, and still bold text overlaps code. -/
theorem empty_code_overlaps :
    (∀ p, (nestedText.entities.filter fun e => e.isCode && e.range.has p).length ≤ 1) ∧
    ∃ e ∈ (normalizeEntities nestedText).entities, ∃ c ∈ (normalizeEntities nestedText).entities,
      e.isCode = false ∧ c.isCode = true ∧ e.range.has 4 = true ∧ c.range.has 4 = true := by
  have hcode : codeRanges nestedText.entities = [⟨1, 5⟩, ⟨3, 3⟩] := by
    unfold codeRanges
    rw [List.mergeSort_of_pairwise (by decide +kernel)]
    decide +kernel
  constructor
  · intro p
    have hempty : Interval.has ⟨3, 3 + 0⟩ p = false :=
      Interval.has_eq_false.mpr (by dsimp only; omega)
    have hplain : Entity.isCode { style := { type := text "bold" }, offset := 4, length := 3 } =
      false := by decide +kernel
    unfold nestedText
    simp only [List.filter_cons, List.filter_nil, Entity.range, hempty, hplain, Bool.and_false,
      Bool.false_and, Bool.false_eq_true, if_false]
    split <;> decide
  · refine ⟨{ style := { type := text "bold" }, offset := 4, length := 3 },
      mem_normalizeEntities.mpr
        ⟨{ style := { type := text "bold" }, offset := 4, length := 3 }, ?_⟩,
      { style := { type := text "code" }, offset := 1, length := 4 },
      mem_normalizeEntities.mpr
        ⟨{ style := { type := text "code" }, offset := 1, length := 4 }, ?_⟩, ?_⟩
    · rw [hcode]
      decide +kernel
    · rw [hcode]
      decide +kernel
    · decide +kernel

end Orangutan.Telegram
