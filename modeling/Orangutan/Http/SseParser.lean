import Orangutan.Http.EventStream

/-!
# The incremental event-stream parser

The parser keeps the line and the block that the chunks so far have left open. Whatever the
chunks, what it has emitted and whether a bound is broken is what the grammar says of the
bytes so far.
-/

namespace Orangutan.Http

set_option autoImplicit false

open Orangutan.Core Orangutan.Lib EventStream

structure SseParser where
  options : SseParserOptions := {}
  exceeded : Bool := false
  pendingLine : Bytes := []
  eventType : Bytes := []
  data : Bytes := []

namespace SseParser

def consumeField (p : SseParser) (line : Bytes) : SseParser :=
  if p.exceeded then p
  else if line.head? = some colon then p
  else if (splitField line).1 = text "event" then { p with eventType := (splitField line).2 }
  else if (splitField line).1 = text "data" then
    if p.options.maxEventBytes < p.data.length + (splitField line).2.length + 1
      then { p with exceeded := true }
    else { p with data := p.data ++ (splitField line).2 ++ [lf] }
  else p

/-- The second component is what `on_event` is called with. -/
def dispatch (p : SseParser) : SseParser × List SseEvent :=
  if p.exceeded then (p, [])
  else if p.data = [] then ({ p with eventType := [] }, [])
  else
    ({ p with eventType := [], data := [] },
      [{ event := if p.eventType = [] then text "message" else p.eventType
         data := if p.data.getLast? = some lf then p.data.dropLast else p.data }])

/-- The loop's body at a line feed. -/
def endLine (p : SseParser) : SseParser × List SseEvent :=
  let q := if dropCr p.pendingLine = [] then p.dispatch
    else (p.consumeField (dropCr p.pendingLine), [])
  ({ q.1 with pendingLine := [] }, q.2)

/-- The loop over a chunk. A bound that `consume_field` finds broken does not end it. -/
def feedLoop (p : SseParser) : Bytes → SseParser × List SseEvent
  | [] => (p, [])
  | byte :: rest =>
    if byte ≠ lf then
      if p.pendingLine.length < p.options.maxLineBytes then
        feedLoop { p with pendingLine := p.pendingLine ++ [byte] } rest
      else ({ p with exceeded := true }, [])
    else
      let q := feedLoop p.endLine.1 rest
      (q.1, p.endLine.2 ++ q.2)

def feed (p : SseParser) (chunk : Bytes) : SseParser × List SseEvent :=
  if p.exceeded then (p, []) else p.feedLoop chunk

def feedAll (p : SseParser) : List Bytes → SseParser × List SseEvent
  | [] => (p, [])
  | chunk :: rest => ((feedAll (p.feed chunk).1 rest).1,
      (p.feed chunk).2 ++ (feedAll (p.feed chunk).1 rest).2)

/-- The parser stands where the grammar stands after the bytes so far. -/
structure Follows (o : SseParserOptions) (p : SseParser) (stream : Bytes)
    (emitted : List SseEvent) : Prop where
  options : p.options = o
  exceeded : p.exceeded = exceeds o stream
  emitted : emitted = events o stream
  pending : exceeds o stream = false → p.pendingLine = tail stream
  data : exceeds o stream = false → p.data = (dataOf (openBlock (lines stream))).flatMap (· ++ [lf])
  eventType : exceeds o stream = false → p.eventType = typeOf (openBlock (lines stream))

variable {o : SseParserOptions} {p q : SseParser} {stream : Bytes} {emitted : List SseEvent}
  {byte : UInt8}

theorem follows_start (o : SseParserOptions) : Follows o { options := o } [] [] := by
  constructor <;> simp [exceeds, events, completed, kept, lines, tail, openBlock, dataOf, typeOf]

/-- Once a bound is broken the rest of the stream changes nothing. -/
theorem Follows.stopped (h : Follows o p stream emitted) (hp : p.exceeded = true)
    (hq : q.exceeded = true) (hoptions : q.options = o) (more : Bytes) :
    Follows o q (stream ++ more) emitted := by
  have hstop : exceeds o stream = true := h.exceeded.symm.trans hp
  obtain ⟨hexceeds, hevents⟩ := exceeds_append hstop more
  constructor
  · exact hoptions
  · rw [hq, hexceeds]
  · rw [hevents]
    exact h.emitted
  · rw [hexceeds]
    intro hfalse
    cases hfalse
  · rw [hexceeds]
    intro hfalse
    cases hfalse
  · rw [hexceeds]
    intro hfalse
    cases hfalse

theorem Follows.putByte (h : Follows o p stream emitted) (hp : p.exceeded = false)
    (hbyte : byte ≠ lf) (hroom : p.pendingLine.length < o.maxLineBytes) :
    Follows o { p with pendingLine := p.pendingLine ++ [byte] } (stream ++ [byte]) emitted := by
  have hgoing : exceeds o stream = false := h.exceeded.symm.trans hp
  obtain ⟨hlines, htail⟩ := lines_snoc_byte hbyte stream
  have hshort : exceeds o (stream ++ [byte]) = false := by
    rw [exceeds_eq_false, hlines, htail, List.length_append, List.length_singleton]
    rw [h.pending hgoing] at hroom
    exact ⟨(exceeds_eq_false.mp hgoing).1, hroom⟩
  constructor
  · exact h.options
  · rw [hshort]
    exact hp
  · rw [events_snoc_byte o hbyte]
    exact h.emitted
  · intro _
    rw [htail, ← h.pending hgoing]
  · intro _
    rw [hlines]
    exact h.data hgoing
  · intro _
    rw [hlines]
    exact h.eventType hgoing

/-- A line that the bound leaves no room for. -/
theorem Follows.overlong (h : Follows o p stream emitted) (hp : p.exceeded = false)
    (hbyte : byte ≠ lf) (hfull : ¬p.pendingLine.length < o.maxLineBytes) :
    Follows o { p with exceeded := true } (stream ++ [byte]) emitted := by
  have hgoing : exceeds o stream = false := h.exceeded.symm.trans hp
  obtain ⟨hlines, htail⟩ := lines_snoc_byte hbyte stream
  have hlong : exceeds o (stream ++ [byte]) = true := by
    simp only [exceeds, decide_eq_true_eq, htail, List.length_append, List.length_singleton]
    rw [h.pending hgoing] at hfull
    right
    omega
  constructor
  · exact h.options
  · rw [hlong]
  · rw [events_snoc_byte o hbyte]
    exact h.emitted
  all_goals
    rw [hlong]
    intro hfalse
    cases hfalse

/-- The accumulated data of a block that has any is its event's data with a last line feed. -/
theorem joined_data {values : List Bytes} (h : values ≠ []) :
    values.flatMap (· ++ [lf]) = [lf].intercalate values ++ [lf] := by
  induction values with
  | nil => exact absurd rfl h
  | cons value rest ih =>
    cases rest with
    | nil => simp
    | cons next others =>
      rw [List.flatMap_cons, ih (List.cons_ne_nil next others)]
      simp [List.intercalate]

theorem length_flatMap_data (block : List Bytes) :
    ((dataOf block).flatMap (· ++ [lf])).length = dataSize block := by
  simp [dataSize, List.length_flatMap]

/-- At a blank line the parser emits the event of the open block, if it has one. -/
theorem Follows.dispatch (h : Follows o p stream emitted) (hp : p.exceeded = false) :
    p.dispatch.2 = (eventOf (openBlock (lines stream))).toList ∧ p.dispatch.1.exceeded = false ∧
      p.dispatch.1.options = o ∧ p.dispatch.1.data = [] ∧ p.dispatch.1.eventType = [] := by
  have hgoing : exceeds o stream = false := h.exceeded.symm.trans hp
  have hdata := h.data hgoing
  have htype := h.eventType hgoing
  by_cases hnone : dataOf (openBlock (lines stream)) = []
  · rw [hnone, List.flatMap_nil] at hdata
    simp [SseParser.dispatch, hp, hdata, h.options, eventOf, hnone]
  · rw [joined_data hnone] at hdata
    simp [SseParser.dispatch, hp, hdata, h.options, eventOf, hnone, htype]

/-- What a field line does to the type and to the data, or that it breaks the bound of the data. -/
theorem consumeField_spec (hp : p.exceeded = false) {line : Bytes} (hline : isBlank line = false) :
    match valueOf "data" line with
    | some value =>
      if p.options.maxEventBytes < p.data.length + (value.length + 1) then
        p.consumeField (dropCr line) = { p with exceeded := true }
      else p.consumeField (dropCr line) = { p with data := p.data ++ (value ++ [lf]) } ∧
        valueOf "event" line = none
    | none => p.consumeField (dropCr line) =
        { p with eventType := (valueOf "event" line).getD p.eventType } := by
  have hnames : text "event" ≠ text "data" := by decide
  obtain ⟨options, exceeded, pendingLine, eventType, data⟩ := p
  cases hp
  by_cases hcomment : (dropCr line).head? = some colon
  · simp [valueOf, fieldOf, hcomment, consumeField]
  · have hfield : fieldOf line = some (splitField (dropCr line)) := by
      rw [fieldOf, if_neg (by simp [hline, hcomment])]
    by_cases hevent : (splitField (dropCr line)).1 = text "event"
    · simp [valueOf, hfield, consumeField, hcomment, hevent, hnames]
    · by_cases hdata : (splitField (dropCr line)).1 = text "data"
      · simp only [valueOf, hfield, consumeField, hcomment, hdata, hnames.symm, Option.bind_some,
          ite_true, ite_false, Bool.false_eq_true, ← Nat.add_assoc, List.append_assoc, and_true]
        split <;> rfl
      · simp [valueOf, hfield, consumeField, hcomment, hevent, hdata]

/-- A line feed ends the line as the grammar does. -/
theorem Follows.endLine (h : Follows o p stream emitted) (hp : p.exceeded = false) :
    Follows o p.endLine.1 (stream ++ [lf]) (emitted ++ p.endLine.2) := by
  have hgoing : exceeds o stream = false := h.exceeded.symm.trans hp
  obtain ⟨hexceeds, hevents⟩ := exceeds_snoc_lf hgoing
  obtain ⟨hkept, hroom⟩ := exceeds_eq_false.mp hgoing
  have hemitted : emitted = completed (lines stream) := by rw [h.emitted, events, hkept]
  have hpending := h.pending hgoing
  obtain ⟨hlines, htail⟩ := lines_snoc_lf stream
  cases hblank : isBlank (tail stream) with
  | true =>
    obtain ⟨hopen, hcompleted⟩ := openBlock_snoc_blank hblank (lines stream)
    have hfits : fits o (lines stream) (tail stream) = true := by
      simp [fits, hroom, valueOf_blank hblank]
    have hend : p.endLine = ({ p.dispatch.1 with pendingLine := [] }, p.dispatch.2) := by
      rw [SseParser.endLine, hpending, if_pos (List.isEmpty_iff.mp hblank)]
    obtain ⟨hemit, hexceeded, hoptions, hdata, htype⟩ := h.dispatch hp
    rw [hfits] at hexceeds hevents
    rw [hend]
    constructor
    · exact hoptions
    · rw [hexceeds]
      exact hexceeded
    · rw [hevents, if_pos rfl, hcompleted, hemit, hemitted]
    · intro _
      rw [htail]
    · intro _
      rw [hlines, hopen]
      exact hdata
    · intro _
      rw [hlines, hopen]
      exact htype
  | false =>
    obtain ⟨hopen, hcompleted⟩ := openBlock_snoc_line hblank (lines stream)
    have hne : dropCr (tail stream) ≠ [] := fun hnil => by simp [isBlank, hnil] at hblank
    have hend : p.endLine = ({ p.consumeField (dropCr (tail stream)) with pendingLine := [] },
        []) := by
      rw [SseParser.endLine, hpending, if_neg hne]
    have hspec := consumeField_spec hp hblank
    have hlength : p.data.length = dataSize (openBlock (lines stream)) := by
      rw [h.data hgoing, length_flatMap_data]
    have hsame : events o (stream ++ [lf]) = emitted := by
      rw [hevents, hcompleted, ← hemitted, ← h.emitted, ite_self]
    rw [hend, List.append_nil]
    cases hvalue : valueOf "data" (tail stream) with
    | none =>
      have hfits : fits o (lines stream) (tail stream) = true := by simp [fits, hroom, hvalue]
      simp only [hvalue] at hspec
      rw [hfits] at hexceeds
      rw [hspec]
      constructor
      · exact h.options
      · rw [hexceeds]
        exact hp
      · exact hsame.symm
      · intro _
        rw [htail]
      · intro _
        rw [hlines, hopen, dataOf_snoc, hvalue]
        simpa using h.data hgoing
      · intro _
        rw [hlines, hopen, typeOf_snoc, ← h.eventType hgoing]
    | some value =>
      simp only [hvalue] at hspec
      have hsize := dataSize_snoc (openBlock (lines stream)) hvalue
      rw [hlength, show p.options.maxEventBytes = o.maxEventBytes by rw [h.options]] at hspec
      split at hspec
      · -- the field would take the data beyond its bound
        have hfits : fits o (lines stream) (tail stream) = false := by
          simp only [fits, hvalue, hsize, decide_eq_false_iff_not]
          rintro ⟨_, hbound⟩
          have := hbound rfl
          omega
        rw [hfits] at hexceeds
        rw [hspec]
        constructor
        · exact h.options
        · rw [hexceeds]
          rfl
        · exact hsame.symm
        all_goals
          rw [hexceeds]
          intro hfalse
          cases hfalse
      · next hbound =>
        have hfits : fits o (lines stream) (tail stream) = true := by
          simp only [fits, hvalue, hsize, decide_eq_true_eq]
          exact ⟨hroom, fun _ => by omega⟩
        rw [hfits] at hexceeds
        rw [hspec.1]
        constructor
        · exact h.options
        · rw [hexceeds]
          exact hp
        · exact hsame.symm
        · intro _
          rw [htail]
        · intro _
          rw [hlines, hopen, dataOf_snoc, hvalue, h.data hgoing]
          simp
        · intro _
          rw [hlines, hopen, typeOf_snoc, hspec.2]
          exact h.eventType hgoing

/-- After a broken bound the loop goes on to the end of the chunk and emits nothing. -/
theorem feedLoop_exceeded (hp : p.exceeded = true) (chunk : Bytes) :
    (p.feedLoop chunk).1.exceeded = true ∧ (p.feedLoop chunk).1.options = p.options ∧
      (p.feedLoop chunk).2 = [] := by
  induction chunk generalizing p with
  | nil => exact ⟨hp, rfl, rfl⟩
  | cons byte rest ih =>
    rw [feedLoop]
    split
    · split
      · exact ih hp
      · exact ⟨rfl, rfl, rfl⟩
    · have hend : p.endLine = ({ p with pendingLine := [] }, []) := by
        simp only [SseParser.endLine, SseParser.dispatch, consumeField, hp, ite_true, ite_self]
      rw [hend]
      exact ih hp

theorem Follows.feedLoop (h : Follows o p stream emitted) (hp : p.exceeded = false)
    (chunk : Bytes) :
    Follows o (p.feedLoop chunk).1 (stream ++ chunk) (emitted ++ (p.feedLoop chunk).2) := by
  induction chunk generalizing p stream emitted with
  | nil => simpa [SseParser.feedLoop] using h
  | cons byte rest ih =>
    rw [SseParser.feedLoop, List.append_cons stream byte rest]
    by_cases hbyte : byte = lf
    · rw [if_neg (fun hne => hne hbyte)]
      dsimp only
      rw [hbyte, ← List.append_assoc emitted]
      have hend := h.endLine hp
      cases hnext : p.endLine.1.exceeded with
      | false => exact ih hend hnext
      | true =>
        obtain ⟨hexceeded, hoptions, hnone⟩ := feedLoop_exceeded hnext rest
        rw [hnone, List.append_nil]
        exact hend.stopped hnext hexceeded (hoptions.trans hend.options) rest
    · rw [if_pos hbyte]
      split
      · next hroom =>
        rw [h.options] at hroom
        exact ih (h.putByte hp hbyte hroom) hp
      · next hfull =>
        rw [h.options] at hfull
        rw [List.append_nil]
        have hover := h.overlong hp hbyte hfull
        exact hover.stopped (q := { p with exceeded := true }) rfl rfl h.options rest

theorem Follows.feed (h : Follows o p stream emitted) (chunk : Bytes) :
    Follows o (p.feed chunk).1 (stream ++ chunk) (emitted ++ (p.feed chunk).2) := by
  rw [SseParser.feed]
  cases hp : p.exceeded with
  | false => exact h.feedLoop hp chunk
  | true =>
    rw [if_pos rfl, List.append_nil]
    exact h.stopped hp hp h.options chunk

theorem Follows.feedAll (h : Follows o p stream emitted) (chunks : List Bytes) :
    Follows o (p.feedAll chunks).1 (stream ++ chunks.flatten)
      (emitted ++ (p.feedAll chunks).2) := by
  induction chunks generalizing p stream emitted with
  | nil => simpa [SseParser.feedAll] using h
  | cons chunk rest ih =>
    rw [SseParser.feedAll, List.flatten_cons, ← List.append_assoc, ← List.append_assoc]
    exact ih (h.feed chunk)

/-- What the parser does with the division of a stream into chunks. -/
structure ChunkContract (o : SseParserOptions) (chunks : List Bytes) : Prop where
  /-- The chunks are taken as one. -/
  transparent : (feedAll { options := o } chunks).2 = (feed { options := o } chunks.flatten).2 ∧
    (feedAll { options := o } chunks).1.exceeded = (feed { options := o } chunks.flatten).1.exceeded
  /-- The events are those of the grammar, up to the first broken bound. -/
  grammar : (feedAll { options := o } chunks).2 = events o chunks.flatten ∧
    (feedAll { options := o } chunks).1.exceeded = exceeds o chunks.flatten
  /-- After a broken bound nothing is emitted any more. -/
  stops : (feedAll { options := o } chunks).1.exceeded = true → ∀ more : List Bytes,
    (feedAll { options := o } (chunks ++ more)).1.exceeded = true ∧
      (feedAll { options := o } (chunks ++ more)).2 = (feedAll { options := o } chunks).2
  /-- An event is that of a whole block of the stream, all of which is within the bounds. -/
  whole : ∀ e ∈ (feedAll { options := o } chunks).2,
    ∃ (before block : List Bytes) (blank : Bytes) (after : List Bytes),
    lines chunks.flatten = before ++ block ++ blank :: after ∧ isBlank blank = true ∧
      (∀ line ∈ block, isBlank line = false ∧ line.length ≤ o.maxLineBytes) ∧
      (∀ line, before.getLast? = some line → isBlank line = true) ∧
      dataSize block ≤ o.maxEventBytes ∧ eventOf block = some e

theorem feed_contract (o : SseParserOptions) (chunks : List Bytes) : ChunkContract o chunks := by
  have hchunks := (follows_start o).feedAll chunks
  have hsingle := (follows_start o).feed chunks.flatten
  simp only [List.nil_append] at hchunks hsingle
  constructor
  · exact ⟨hchunks.emitted.trans hsingle.emitted.symm, hchunks.exceeded.trans hsingle.exceeded.symm⟩
  · exact ⟨hchunks.emitted, hchunks.exceeded⟩
  · intro hexceeded more
    have hmore := (follows_start o).feedAll (chunks ++ more)
    simp only [List.nil_append, List.flatten_append] at hmore
    obtain ⟨hstop, hevents⟩ := exceeds_append (hchunks.exceeded.symm.trans hexceeded) more.flatten
    exact ⟨hmore.exceeded.trans hstop, hmore.emitted.trans (hevents.trans hchunks.emitted.symm)⟩
  · intro e he
    rw [hchunks.emitted] at he
    exact events_whole he

end SseParser

end Orangutan.Http
