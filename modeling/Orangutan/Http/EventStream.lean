import Orangutan.Core.Error
import Orangutan.Lib.Splits

/-!
# The event-stream grammar

The reference for the wire grammar of server-sent events: a stream is a list of lines and an
unterminated tail, a blank line ends a block, and a block with a data field is an event. Two
bounds cut the stream at the first line that breaks one of them.
-/

namespace Orangutan.Http

set_option autoImplicit false

open Orangutan.Core Orangutan.Lib

structure SseEvent where
  event : Bytes
  data : Bytes
  deriving DecidableEq

structure SseParserOptions where
  maxLineBytes : Nat := 64 * 1024
  maxEventBytes : Nat := 16 * 1024 * 1024
  deriving DecidableEq

def lf : UInt8 := 10

def cr : UInt8 := 13

def colon : UInt8 := 58

def space : UInt8 := 32

namespace EventStream

def dropCr (line : Bytes) : Bytes := if line.getLast? = some cr then line.dropLast else line

/-- The name and the value of a field line; a line without a colon has an empty value. -/
def splitField (line : Bytes) : Bytes × Bytes :=
  match line.dropWhile (· ≠ colon) with
  | [] => (line, [])
  | _ :: value => (line.takeWhile (· ≠ colon), if value.head? = some space then value.tail
      else value)

def isBlank (line : Bytes) : Bool := (dropCr line).isEmpty

/-- The field of a line, when the line is neither blank nor a comment. -/
def fieldOf (line : Bytes) : Option (Bytes × Bytes) :=
  if isBlank line ∨ (dropCr line).head? = some colon then none else some (splitField (dropCr line))

/-- The value of the line's field, when the field has this name. -/
def valueOf (name : String) (line : Bytes) : Option Bytes :=
  (fieldOf line).bind fun f => if f.1 = text name then some f.2 else none

def dataOf (block : List Bytes) : List Bytes := block.filterMap (valueOf "data")

def typeOf (block : List Bytes) : Bytes := (block.filterMap (valueOf "event")).getLast?.getD []

/-- The event of a block: there is one exactly if the block has a data field. -/
def eventOf (block : List Bytes) : Option SseEvent :=
  if dataOf block = [] then none
  else some
    { event := if typeOf block = [] then text "message" else typeOf block
      data := [lf].intercalate (dataOf block) }

/-- The bytes that a block's data takes, each field with its line feed. -/
def dataSize (block : List Bytes) : Nat := ((dataOf block).map fun v => v.length + 1).sum

/-- The lines since the last blank line. -/
def openBlock (lines : List Bytes) : List Bytes := openPiece isBlank lines

/-- The events of the blocks that a blank line has ended. -/
def completed (lines : List Bytes) : List SseEvent := (endedPieces isBlank lines).filterMap eventOf

/-- Whether the line keeps both bounds after the lines before it. -/
def fits (o : SseParserOptions) (before : List Bytes) (line : Bytes) : Bool :=
  line.length ≤ o.maxLineBytes ∧
    ((valueOf "data" line).isSome → dataSize (openBlock before ++ [line]) ≤ o.maxEventBytes)

/-- The lines before the first one that breaks a bound. -/
def kept (o : SseParserOptions) (before : List Bytes) : List Bytes → List Bytes
  | [] => before
  | line :: rest => if fits o before line then kept o (before ++ [line]) rest else before

def lines (stream : Bytes) : List Bytes := endedPieces (· == lf) stream

def tail (stream : Bytes) : Bytes := openPiece (· == lf) stream

def events (o : SseParserOptions) (stream : Bytes) : List SseEvent :=
    completed (kept o [] (lines stream))

/-- Some line or the tail is too long, or some block's data is. -/
def exceeds (o : SseParserOptions) (stream : Bytes) : Bool :=
  kept o [] (lines stream) ≠ lines stream ∨ o.maxLineBytes < (tail stream).length

variable {o : SseParserOptions} {before after : List Bytes} {line : Bytes} {stream : Bytes}
  {byte : UInt8}

theorem kept_between (o : SseParserOptions) (before after : List Bytes) :
    before <+: kept o before after ∧ kept o before after <+: before ++ after := by
  induction after generalizing before with
  | nil => simp [kept]
  | cons line rest ih =>
    rw [kept]
    split
    · obtain ⟨hfrom, hto⟩ := ih (before ++ [line])
      constructor
      · exact (List.prefix_append before [line]).trans hfrom
      · simpa using hto
    · exact ⟨List.prefix_refl _, List.prefix_append _ _⟩

/-- Once a line has broken a bound, no later line is kept. -/
theorem kept_snoc (o : SseParserOptions) (before after : List Bytes) (line : Bytes) :
    kept o before (after ++ [line]) =
      if kept o before after = before ++ after ∧ fits o (before ++ after) line
        then before ++ after ++ [line]
      else kept o before after := by
  induction after generalizing before with
  | nil =>
    cases hfits : fits o before line with
    | true => simp [kept, hfits]
    | false => simp [kept, hfits]
  | cons first rest ih =>
    rw [List.cons_append, kept, kept]
    split
    · rw [ih (before ++ [first])]
      simp
    · have hne : before ≠ before ++ first :: rest := by
        intro heq
        have hlength := congrArg List.length heq
        rw [List.length_append, List.length_cons] at hlength
        omega
      rw [if_neg (fun h => hne h.1)]

theorem lines_snoc_lf (stream : Bytes) :
    lines (stream ++ [lf]) = lines stream ++ [tail stream] ∧ tail (stream ++ [lf]) = [] :=
  pieces_snoc_separator (by decide) stream

theorem lines_snoc_byte (hbyte : byte ≠ lf) (stream : Bytes) :
    lines (stream ++ [byte]) = lines stream ∧ tail (stream ++ [byte]) = tail stream ++ [byte] :=
  pieces_snoc_element (by simpa using hbyte) stream

theorem exceeds_eq_false : exceeds o stream = false ↔
    kept o [] (lines stream) = lines stream ∧ (tail stream).length ≤ o.maxLineBytes := by
  simp [exceeds]

theorem events_snoc_byte (o : SseParserOptions) (hbyte : byte ≠ lf) (stream : Bytes) :
    events o (stream ++ [byte]) = events o stream := by
  rw [events, events, (lines_snoc_byte hbyte stream).1]

/-- The bounds stay broken, and there is no further event. -/
theorem exceeds_snoc (h : exceeds o stream = true) (byte : UInt8) :
    exceeds o (stream ++ [byte]) = true ∧ events o (stream ++ [byte]) = events o stream := by
  have hlines := kept_snoc o [] (lines stream) (tail stream)
  by_cases hbyte : byte = lf
  · subst hbyte
    have hstop : ¬(kept o [] (lines stream) = [] ++ lines stream ∧
        fits o ([] ++ lines stream) (tail stream)) := by
      rintro ⟨hkept, hfits⟩
      rw [List.nil_append] at hkept hfits
      simp only [fits, decide_eq_true_eq] at hfits
      rw [exceeds_eq_false.mpr ⟨hkept, hfits.1⟩] at h
      cases h
    rw [if_neg hstop] at hlines
    constructor
    · have hshort := (kept_between o [] (lines stream)).2.length_le
      simp only [exceeds, (lines_snoc_lf stream).1, hlines, decide_eq_true_eq]
      left
      intro heq
      rw [heq] at hshort
      simp at hshort
    · rw [events, events, (lines_snoc_lf stream).1, hlines]
  · refine ⟨?_, events_snoc_byte o hbyte stream⟩
    simp only [exceeds, decide_eq_true_eq] at h
    simp only [exceeds, lines_snoc_byte hbyte stream, decide_eq_true_eq, List.length_append,
      List.length_singleton]
    exact h.imp id (fun hlong => by omega)

theorem exceeds_append (h : exceeds o stream = true) (more : Bytes) :
    exceeds o (stream ++ more) = true ∧ events o (stream ++ more) = events o stream := by
  induction more using List.reverseRecOn with
  | nil => simpa using h
  | append_singleton more byte ih =>
    rw [← List.append_assoc]
    obtain ⟨hexceeds, hevents⟩ := exceeds_snoc ih.1 byte
    exact ⟨hexceeds, hevents.trans ih.2⟩

theorem dataOf_snoc (block : List Bytes) (line : Bytes) :
    dataOf (block ++ [line]) = dataOf block ++ (valueOf "data" line).toList := by
  rw [dataOf, List.filterMap_append]
  cases h : valueOf "data" line <;> simp [dataOf, h]

theorem typeOf_snoc (block : List Bytes) (line : Bytes) :
    typeOf (block ++ [line]) = (valueOf "event" line).getD (typeOf block) := by
  rw [typeOf, List.filterMap_append]
  cases h : valueOf "event" line <;> simp [typeOf, h]

theorem dataSize_snoc (block : List Bytes) {value : Bytes} (h : valueOf "data" line = some value) :
    dataSize (block ++ [line]) = dataSize block + (value.length + 1) := by
  simp [dataSize, dataOf_snoc, h]

theorem openBlock_snoc_blank (h : isBlank line = true) (before : List Bytes) :
    openBlock (before ++ [line]) = [] ∧
      completed (before ++ [line]) = completed before ++ (eventOf (openBlock before)).toList := by
  obtain ⟨hended, hopen⟩ := pieces_snoc_separator h before
  refine ⟨hopen, ?_⟩
  rw [completed, hended, List.filterMap_append]
  cases hevent : eventOf (openBlock before) <;> simp_all [completed, openBlock]

theorem openBlock_snoc_line (h : isBlank line = false) (before : List Bytes) :
    openBlock (before ++ [line]) = openBlock before ++ [line] ∧
      completed (before ++ [line]) = completed before := by
  obtain ⟨hended, hopen⟩ := pieces_snoc_element h before
  refine ⟨hopen, ?_⟩
  rw [completed, hended, completed]

theorem valueOf_blank (h : isBlank line = true) (name : String) : valueOf name line = none := by
  simp [valueOf, fieldOf, h]

/-- The end of a line: within the bounds the line is one more line, beyond them the stream is cut.
-/
theorem exceeds_snoc_lf (h : exceeds o stream = false) :
    (exceeds o (stream ++ [lf]) = !fits o (lines stream) (tail stream)) ∧
      events o (stream ++ [lf]) =
        if fits o (lines stream) (tail stream) then completed (lines stream ++ [tail stream])
          else events o stream := by
  obtain ⟨hkept, _⟩ := exceeds_eq_false.mp h
  have hlines := kept_snoc o [] (lines stream) (tail stream)
  rw [hkept, List.nil_append] at hlines
  rw [exceeds, events, events, (lines_snoc_lf stream).1, (lines_snoc_lf stream).2, hlines]
  cases hfits : fits o (lines stream) (tail stream) with
  | true => simp
  | false => simp [hkept]

/-- Every line that is kept fits after the lines before it. -/
theorem fits_of_kept {rest : List Bytes} (hbefore : ∀ first last, before = first ++ line :: last →
    fits o first line = true) :
    ∀ first last, kept o before rest = first ++ line :: last → fits o first line = true := by
  induction rest generalizing before with
  | nil => exact hbefore
  | cons next rest ih =>
    rw [kept]
    split
    · next hfits =>
      apply ih
      intro first last hsplit
      rcases List.eq_nil_or_concat last with rfl | ⟨others, final, rfl⟩
      · obtain ⟨rfl, hline⟩ := List.append_inj' hsplit rfl
        rw [← List.singleton_inj.mp hline]
        exact hfits
      · have hinit : before ++ [next] = (first ++ line :: others) ++ [final] := by
          simpa using hsplit
        exact hbefore first others (List.append_inj' hinit rfl).1
    · exact hbefore

/-- The open block of lines that end in a stretch without a blank line. -/
theorem openBlock_append (hbefore : ∀ l, before.getLast? = some l → isBlank l = true)
    {block : List Bytes} (hblock : ∀ l ∈ block, isBlank l = false) :
    openBlock (before ++ block) = block := by
  induction block using List.reverseRecOn with
  | nil =>
    rw [List.append_nil]
    rcases List.eq_nil_or_concat before with rfl | ⟨first, last, rfl⟩
    · exact openPiece_nil
    · rw [List.concat_eq_append]
      exact (openBlock_snoc_blank (hbefore last (by simp)) first).1
  | append_singleton block line ih =>
    rw [← List.append_assoc, (openBlock_snoc_line (hblock line (by simp)) (before ++ block)).1]
    rw [ih fun l hl => hblock l (List.mem_append_left _ hl)]

/-- If every line of a block fits, the block's data is within its bound. -/
theorem dataSize_le {block : List Bytes}
    (hfits : ∀ first line last, block = first ++ line :: last → (valueOf "data" line).isSome →
      dataSize (first ++ [line]) ≤ o.maxEventBytes) : dataSize block ≤ o.maxEventBytes := by
  induction block using List.reverseRecOn with
  | nil => exact Nat.zero_le _
  | append_singleton block line ih =>
    cases hvalue : valueOf "data" line with
    | some value => exact hfits block line [] rfl (by rw [hvalue]; rfl)
    | none =>
      have hsame : dataSize (block ++ [line]) = dataSize block := by
        simp [dataSize, dataOf_snoc, hvalue]
      rw [hsame]
      apply ih
      intro first line' last hsplit
      exact hfits first line' (last ++ [line]) (by rw [hsplit]; simp)

/-- The block of an event is a whole block of the stream, and all of it is within the bounds. -/
theorem events_whole {e : SseEvent} (he : e ∈ events o stream) :
    ∃ (before block : List Bytes) (blank : Bytes) (after : List Bytes),
    lines stream = before ++ block ++ blank :: after ∧ isBlank blank = true ∧
      (∀ line ∈ block, isBlank line = false ∧ line.length ≤ o.maxLineBytes) ∧
      (∀ line, before.getLast? = some line → isBlank line = true) ∧
      dataSize block ≤ o.maxEventBytes ∧ eventOf block = some e := by
  obtain ⟨block, hblock, hevent⟩ := List.mem_filterMap.mp he
  obtain ⟨before, blank, after, hsplit, hblank, hclear, hbefore⟩ := endedPieces_spec hblock
  obtain ⟨later, hlater⟩ := (kept_between o [] (lines stream)).2
  have hfits : ∀ first line last, block = first ++ line :: last →
      fits o (before ++ first) line = true := by
    intro first line last hline
    have hkept := @fits_of_kept o [] line (lines stream) (by simp)
    apply hkept (before ++ first) (last ++ blank :: after)
    rw [hsplit, hline]
    simp
  refine ⟨before, block, blank, after ++ later, ?_, hblank, ?_, hbefore, ?_, hevent⟩
  · rw [List.nil_append] at hlater
    rw [← hlater, hsplit]
    simp
  · intro line hline
    obtain ⟨first, last, hplace⟩ := List.append_of_mem hline
    have hfit := hfits first line last hplace
    simp only [fits, decide_eq_true_eq] at hfit
    exact ⟨hclear line hline, hfit.1⟩
  · apply dataSize_le
    intro first line last hplace hdata
    have hfit := hfits first line last hplace
    simp only [fits, decide_eq_true_eq] at hfit
    rw [openBlock_append hbefore fun l hl =>
      hclear l (by rw [hplace]; exact List.mem_append_left _ hl)] at hfit
    exact hfit.2 hdata

end EventStream

end Orangutan.Http
